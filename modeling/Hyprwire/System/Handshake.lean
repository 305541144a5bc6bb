import Hyprwire.System.Turn

/-!
# `System/Handshake.lean` — what a server lets a client do before the handshake

`ServerClientState::handle_message` takes every message in every state. What it owes to the
handshake is therefore owed by the stream it is sent: a server keeps the discipline (`Gated`) in
exactly those runs in which the messages it handles do (`Disciplined`).
-/

namespace Hyprwire.Server

open History

variable {s s' : Server}

/-- The versions a message offers. -/
def versionsOf : S2C → List Nat
  | .handshakeBegin versions => versions
  | _ => []

/-- The versions the server has offered in a `HandshakeBegin`. -/
def offered (s : Server) : List Nat := s.out.flatMap versionsOf

/-- The server has received `Sup`, and later a `HandshakeAck` of a version that it offered. -/
def Shaken (s : Server) : Prop :=
  ∃ version ∈ s.offered, [.sup, .handshakeAck version].Sublist s.handled

/-- **A step that keeps the discipline**: objects are made and handlers called for a message only
behind the handshake, the version that is stored is one that was offered, and the acknowledgement
of another one makes the server give up. -/
structure Gated (s : Server) (a : Action) (s' : Server) : Prop where
  made : s.size < s'.size → s.Shaken
  called : a = .handle → s'.phase.dispatching = true → (∀ rest, s'.phase ≠ .batch rest) → s.Shaken
  stored : s'.version = s.version ∨ s'.version ∈ s.offered
  refused : ∀ version rest, a = .handle → s.phase = .batch (.handshakeAck version :: rest) →
    version ∉ s.offered → ∃ left, s'.phase = .leaving left

/-- What a message owes to the ones handled before it. -/
def Disciplined (handled : List C2S) : C2S → Prop
  | .handshakeAck version => version = 1 ∧ .sup ∈ handled
  | .bindProtocol _ version _ => version = 0 ∨ .handshakeAck 1 ∈ handled
  | _ => True

instance (handled : List C2S) : ∀ msg, Decidable (Disciplined handled msg)
  | .handshakeAck _ => inferInstanceAs (Decidable (_ ∧ _))
  | .bindProtocol _ _ _ => inferInstanceAs (Decidable (_ ∨ _))
  | .sup | .generic _ | .roundtripRequest .. => .isTrue trivial

/-! ## What a server has offered and made -/

/-- What the server keeps whatever it is sent. -/
structure Greeted (s : Server) : Prop where
  opened : s.Open
  table_lt : ∀ k ∈ s.table, k < s.size
  offered : ∀ version, version ∈ s.offered ↔ version = 1 ∧ .sup ∈ s.handled
  made : 0 < s.size →
    ∃ seq version protocol, version ≠ 0 ∧ .bindProtocol seq version protocol ∈ s.handled

theorem Greeted.init (impls : List ProtocolSpec) : Greeted { impls } where
  opened := open_of_shut rfl
  table_lt _ h := by cases h
  offered _ := by simp [Server.offered]
  made h := absurd h (Nat.lt_irrefl 0)

theorem offered_append {more : List S2C} (hout : s'.out = s.out ++ more)
    (hmore : ∀ msg ∈ more, versionsOf msg = []) : s'.offered = s.offered := by
  have hnone : more.flatMap versionsOf = [] := by
    rw [List.flatMap_eq_nil_iff]
    exact hmore
  rw [offered, offered, hout, List.flatMap_append, hnone, List.append_nil]

theorem offered_write (s : Server) {msg : S2C} (h : versionsOf msg = []) :
    (s.write msg).offered = s.offered := by
  have hout := write_out s msg
  split at hout
  · rw [offered, offered, hout]
  · exact offered_append hout fun msg' hmsg' => List.mem_singleton.mp hmsg' ▸ h

theorem Still.offered (h : Still s s') : s'.offered = s.offered := by
  obtain ⟨more, hout, hmore⟩ := h.out
  refine offered_append hout fun msg hmsg => ?_
  have hintro := hmore msg hmsg
  cases msg <;> simp [introduces] at hintro <;> rfl

theorem Greeted.still (hg : Greeted s) (h : Still s s') (ho : s'.Open) : Greeted s' where
  opened := ho
  table_lt k hk := by
    obtain ⟨p, hp⟩ := h.table
    rw [hp] at hk
    rw [h.size]
    exact hg.table_lt k (List.mem_filter.mp hk).1
  offered version := by rw [h.offered, h.handled, hg.offered]
  made hsize := by
    rw [h.handled]
    exact hg.made (h.size ▸ hsize)

/-- What handling a message does to what the discipline is about. A handler is called, or an
object made, for a bind or on behalf of an object that is there. -/
structure Effect (s : Server) (msg : C2S) (s' : Server) : Prop where
  handled : s'.handled = s.handled ++ [msg]
  table : ∀ k ∈ s'.table, k ∈ s.table ∨ (k = s.size ∧ s'.size = s.size + 1)
  size : s.size ≤ s'.size
  offered : ∀ version, version ∈ s'.offered ↔
    version ∈ s.offered ∨ (s.shut = false ∧ msg = .sup ∧ version = 1)
  version : s'.version = s.version ∨ msg = .handshakeAck s'.version
  busy : s.size < s'.size ∨ (s'.phase.dispatching = true ∧ ∀ rest, s'.phase ≠ .batch rest) →
    (∃ seq version protocol, version ≠ 0 ∧ msg = .bindProtocol seq version protocol) ∨
      s.table ≠ []

theorem Effect.still {msg : C2S} {rest : List C2S} (h : Still (s.heard msg rest) s')
    (hbusy : (s'.phase.dispatching = true ∧ ∀ rest, s'.phase ≠ .batch rest) → s.table ≠ [])
    (hsup : msg ≠ .sup) : Effect s msg s' where
  handled := h.handled
  table k hk := by
    obtain ⟨p, hp⟩ := h.table
    rw [hp] at hk
    exact .inl (List.mem_filter.mp hk).1
  size := Nat.le_of_eq h.size.symm
  offered version := by
    rw [h.offered]
    exact ⟨.inl, fun hv => hv.resolve_right fun hv => hsup hv.2.1⟩
  version := .inl h.version
  busy hb := by
    rcases hb with hsize | hphase
    · rw [h.size] at hsize
      exact absurd hsize (Nat.lt_irrefl _)
    · exact .inr (hbusy hphase)

theorem Effect.created {msg : C2S} {rest : List C2S} {protocol objectName : String}
    {version seq : Nat}
    (h : Still ((s.heard msg rest).createObject protocol objectName version seq) s')
    (hbusy : (∃ seq version protocol, version ≠ 0 ∧ msg = .bindProtocol seq version protocol) ∨
      s.table ≠ []) (hsup : msg ≠ .sup) : Effect s msg s' := by
  have hcreate := createObject_eq (s.heard msg rest) protocol objectName version seq
  have hsize : s'.size = s.size + 1 := by
    rw [h.size, hcreate]
    rfl
  refine ⟨?_, fun k hk => ?_, hsize ▸ Nat.le_succ _, fun v => ?_, .inl ?_, fun _ => hbusy⟩
  · rw [h.handled, hcreate]
    rfl
  · obtain ⟨p, hp⟩ := h.table
    rw [hp, hcreate] at hk
    rcases List.mem_append.mp (List.mem_filter.mp hk).1 with hk | hk
    · exact .inl hk
    · exact .inr ⟨List.mem_singleton.mp hk, hsize⟩
  · have hsame : s'.offered = s.offered := by
      rw [h.offered, hcreate]
      by_cases hshut : s.shut = true
      · simp [Server.offered, heard, hshut]
      · simp [Server.offered, heard, hshut, versionsOf]
    rw [hsame]
    exact ⟨.inl, fun hv => hv.resolve_right fun hv => hsup hv.2.1⟩
  · rw [h.version, hcreate]
    rfl

/-- **Every message has such an effect.** -/
theorem effect (s : Server) (msg : C2S) (rest : List C2S) : Effect s msg (s.handle msg rest) := by
  cases msg with
  | sup =>
    have hwrite := Aside.write (s.heard .sup rest) (.handshakeBegin [1])
    have hphase : (s.handle .sup rest).phase = .batch rest := hwrite.phase
    refine ⟨hwrite.handled, fun k hk => .inl (hwrite.table ▸ hk), Nat.le_of_eq hwrite.size.symm,
      fun version => ?_, .inl hwrite.version, fun hb => ?_⟩
    · have hout : (s.handle .sup rest).out =
          if s.shut then s.out else s.out ++ [.handshakeBegin [1]] := write_out ..
      rw [Server.offered, hout]
      by_cases hshut : s.shut = true
      · simp [Server.offered, hshut]
      · simp [Server.offered, hshut, versionsOf]
    · rcases hb with hsize | ⟨-, hphase'⟩
      · exact absurd hsize (by rw [show (s.handle .sup rest).size = s.size from hwrite.size]; simp)
      · exact absurd hphase (hphase' rest)
  | handshakeAck version =>
    have hwrite : ∀ msg, Aside (s.heard (.handshakeAck version) rest)
        ((s.heard (.handshakeAck version) rest).write msg) := Aside.write _
    refine ⟨(hwrite _).handled, fun k hk => .inl ((hwrite _).table ▸ hk),
      Nat.le_of_eq (hwrite _).size.symm, fun v => ?_, .inr rfl, fun hb => ?_⟩
    · have hsame : (s.handle (.handshakeAck version) rest).offered = s.offered :=
        offered_write (s.heard (.handshakeAck version) rest) rfl
      rw [hsame]
      exact ⟨.inl, fun hv => hv.resolve_right fun hv => nomatch hv.2.1⟩
    · rcases hb with hsize | ⟨-, hphase'⟩
      · exact absurd hsize (Nat.not_lt_of_le (Nat.le_of_eq (hwrite _).size))
      · exact absurd (hwrite _).phase (hphase' rest)
  | bindProtocol seq version protocol =>
    by_cases hversion : version = 0
    · subst hversion
      have habort : Still (s.heard (.bindProtocol seq 0 protocol) rest)
          (s.handle (.bindProtocol seq 0 protocol) rest) := .abort ..
      refine Effect.still habort (fun hb => ?_) nofun
      exact absurd hb.1 (by simp [handle_bind_zero, malformed, abort, close, startLeaving,
        Phase.dispatching])
    · obtain ⟨phase, -, heq⟩ := handle_bind s seq protocol rest hversion
      have hcreated : Still ((s.heard (.bindProtocol seq version protocol) rest).createObject
          protocol "" version seq) (s.handle (.bindProtocol seq version protocol) rest) := by
        rw [heq]
        exact { Still.refl _ with }
      exact Effect.created hcreated (.inl ⟨seq, version, protocol, hversion, rfl⟩) nofun
  | generic g =>
    rw [handle_generic]
    have hfound : ∀ k, (s.heard (.generic g) rest).objectForId g.object = some k →
        s.table ≠ [] := by
      intro k hfind hempty
      have hin : k ∈ s.table := List.mem_of_find?_eq_some hfind
      rw [hempty] at hin
      cases hin
    rcases onGeneric_still (s.heard (.generic g) rest) g rest with hstill | ⟨k, m, hfind, -, -, -, hstill⟩
    · refine Effect.still hstill (fun hb => ?_) nofun
      have hdelivered := delivered (s.heard (.generic g) rest) g rest
      generalize (s.heard (.generic g) rest).onGeneric g rest = t at hdelivered hb
      cases hdelivered with
      | unknown hfind => exact absurd rfl (hb.2 rest)
      | silent k hfind hquiet => exact absurd rfl (hb.2 rest)
      | called k hfind hcalls => exact hfound k hfind
      | made k m hfind hcalls hm hret => exact hfound k hfind
    · exact Effect.created hstill (.inr (hfound k hfind)) nofun
  | roundtripRequest seq queue =>
    have hstill : Still (s.heard (.roundtripRequest seq queue) rest)
        (s.handle (.roundtripRequest seq queue) rest) := { Still.refl _ with }
    exact Effect.still hstill (fun hb => absurd rfl (hb.2 rest)) nofun

theorem Greeted.step {a : Action} (hg : Greeted s) (h : step s a = some s') : Greeted s' := by
  have ho := hg.opened.step h
  by_cases ha : a = .handle
  · subst ha
    obtain ⟨msg, rest, hphase, rfl⟩ := step_handle h
    have he := effect s msg rest
    have hshut : s.shut = false := by
      cases hs : s.shut with
      | false => rfl
      | true =>
        have := (hg.opened hs).1
        rw [hphase] at this
        cases this
    refine ⟨ho, fun k hk => ?_, fun version => ?_, fun hsize => ?_⟩
    · rcases he.table k hk with hold | ⟨rfl, hsize⟩
      · exact Nat.lt_of_lt_of_le (hg.table_lt k hold) he.size
      · exact hsize ▸ Nat.lt_succ_self _
    · rw [he.offered, he.handled, hg.offered]
      simp only [hshut, true_and, List.mem_append, List.mem_singleton]
      constructor
      · rintro (⟨hv, hsup⟩ | ⟨hsup, hv⟩)
        · exact ⟨hv, .inl hsup⟩
        · exact ⟨hv, .inr hsup.symm⟩
      · rintro ⟨hv, hsup | hsup⟩
        · exact .inl ⟨hv, hsup⟩
        · exact .inr ⟨hsup.symm, hv⟩
    · rw [he.handled]
      rcases Nat.eq_zero_or_pos s.size with hzero | hpos
      · have hempty : s.table = [] := by
          rw [List.eq_nil_iff_forall_not_mem]
          intro k hk
          have := hg.table_lt k hk
          rw [hzero] at this
          exact absurd this (Nat.not_lt_zero k)
        rcases he.busy (.inl (hzero ▸ hsize)) with ⟨seq, version, protocol, hversion, rfl⟩ | hne
        · exact ⟨seq, version, protocol, hversion, List.mem_append.mpr (.inr (List.mem_singleton_self _))⟩
        · exact absurd hempty hne
      · obtain ⟨seq, version, protocol, hversion, hin⟩ := hg.made hpos
        exact ⟨seq, version, protocol, hversion, List.mem_append.mpr (.inl hin)⟩
  · exact hg.still (still_of_step h ha) ho

/-! ## The discipline -/

/-- A disciplined stream has shaken hands before it binds. -/
theorem shaken_of_ack (hg : Greeted s) (hled : Led Disciplined s.handled)
    (hack : .handshakeAck 1 ∈ s.handled) : s.Shaken := by
  obtain ⟨pre, post, heq⟩ := List.append_of_mem hack
  have hsup : .sup ∈ pre := (hled pre _ post heq).2
  refine ⟨1, (hg.offered 1).mpr ⟨rfl, ?_⟩, ?_⟩
  · rw [heq]
    exact List.mem_append.mpr (.inl hsup)
  · rw [heq]
    exact List.Sublist.append (List.singleton_sublist.mpr hsup)
      (List.singleton_sublist.mpr (List.mem_cons_self ..))

/-- Whoever has an object has shaken hands. -/
theorem shaken_of_table (hg : Greeted s) (hled : Led Disciplined s.handled)
    (htable : s.table ≠ []) : s.Shaken := by
  obtain ⟨k, hk⟩ := List.exists_mem_of_ne_nil _ htable
  have hpos : 0 < s.size := Nat.lt_of_le_of_lt (Nat.zero_le k) (hg.table_lt k hk)
  obtain ⟨seq, version, protocol, hversion, hin⟩ := hg.made hpos
  obtain ⟨pre, post, heq⟩ := List.append_of_mem hin
  refine shaken_of_ack hg hled ?_
  rw [heq]
  exact List.mem_append.mpr (.inl ((hled pre _ post heq).resolve_left hversion))

/-- A step that handles a disciplined message is gated. -/
theorem gated_of_disciplined {a : Action} (hg : Greeted s) (h : step s a = some s')
    (hled : Led Disciplined s'.handled) : Gated s a s' := by
  by_cases ha : a = .handle
  · subst ha
    obtain ⟨msg, rest, hphase, rfl⟩ := step_handle h
    have he := effect s msg rest
    rw [he.handled] at hled
    have hold : Led Disciplined s.handled := hled.of_prefix (List.prefix_append ..)
    have hmsg : Disciplined s.handled msg := hled s.handled msg [] rfl
    have hbusy : s.size < (s.handle msg rest).size ∨ ((s.handle msg rest).phase.dispatching = true ∧
        ∀ rest', (s.handle msg rest).phase ≠ .batch rest') → s.Shaken := by
      intro hb
      rcases he.busy hb with ⟨seq, version, protocol, hversion, rfl⟩ | htable
      · exact shaken_of_ack hg hold (hmsg.resolve_left hversion)
      · exact shaken_of_table hg hold htable
    refine ⟨fun hsize => hbusy (.inl hsize), fun _ hphase' hbatch => hbusy (.inr ⟨hphase', hbatch⟩),
      ?_, ?_⟩
    · rcases he.version with hsame | hack
      · exact .inl hsame
      · rw [hack] at hmsg
        exact .inr ((hg.offered _).mpr hmsg)
    · intro version rest' _ hphase' hnot
      rw [hphase'] at hphase
      cases hphase
      exact absurd ((hg.offered version).mpr hmsg) hnot
  · have hstill := still_of_step h ha
    refine ⟨fun hsize => ?_, fun ha' => absurd ha' ha, .inl hstill.version,
      fun _ _ ha' => absurd ha' ha⟩
    rw [hstill.size] at hsize
    exact absurd hsize (Nat.lt_irrefl _)

/-- A gated step handles a disciplined message. -/
theorem disciplined_of_gated {a : Action} (hg : Greeted s) (h : step s a = some s')
    (hgated : Gated s a s') (hled : Led Disciplined s.handled) : Led Disciplined s'.handled := by
  by_cases ha : a = .handle
  · subst ha
    obtain ⟨msg, rest, hphase, rfl⟩ := step_handle h
    rw [(effect s msg rest).handled]
    refine led_append_one hled ?_
    cases msg with
    | handshakeAck version =>
      by_cases hin : version ∈ s.offered
      · exact (hg.offered version).mp hin
      · obtain ⟨left, hleft⟩ := hgated.refused version rest rfl hphase hin
        have hbatch : (s.handle (.handshakeAck version) rest).phase = .batch rest :=
          (Aside.write (s.heard (.handshakeAck version) rest) _).phase
        rw [hbatch] at hleft
        cases hleft
    | bindProtocol seq version protocol =>
      by_cases hversion : version = 0
      · exact .inl hversion
      · obtain ⟨phase, -, heq⟩ := handle_bind s seq protocol rest hversion
        obtain ⟨v, hv, hsub⟩ := hgated.made (by
          rw [heq, createObject_eq]
          exact Nat.lt_succ_self _)
        obtain ⟨rfl, -⟩ := (hg.offered v).mp hv
        exact .inr (hsub.subset (List.mem_cons_of_mem _ (List.mem_cons_self ..)))
    | _ => trivial
  · rw [(still_of_step h ha).handled]
    exact hled

/-- **A server keeps the discipline in exactly the runs whose messages do.** -/
theorem gated_iff {impls : List ProtocolSpec} {as : List Action}
    (hrun : Run.run step { impls } as = some s) :
    Run.Meets step (fun s a => ∀ s', step s a = some s' → Gated s a s') { impls } as ↔
      Led Disciplined s.handled := by
  constructor
  · intro hmeets
    have hinv : Greeted s ∧ Led Disciplined s.handled := by
      refine @Run.run_meeting _ _ step (fun s => Greeted s ∧ Led Disciplined s.handled) _
        (fun s a s' hs hgated hstep => ?_) _ _ _ ⟨.init impls, led_nil⟩ hmeets hrun
      exact ⟨hs.1.step hstep, disciplined_of_gated hs.1 hstep (hgated s' hstep) hs.2⟩
    exact hinv.2
  · intro hled
    refine (@Run.meets_of_run _ _ step Greeted (fun s => Led Disciplined s.handled) _
      (fun s a s' hg h => hg.step h) (fun s a s' h hled => hled.of_prefix (handled_of_step h))
      (fun s a s' hg h hled s'' h' => ?_) _ _ _ (.init impls) hrun hled).2
    rw [h] at h'
    cases h'
    exact gated_of_disciplined hg h hled

/-- A client that introduces itself, agrees on the version and binds. -/
def introduced : List Action :=
  [.read [.sup, .handshakeAck 1, .bindProtocol 1 1 "shop"], .handle, .handle, .handle, .return_,
    .finish]

theorem gated_iff_introduced : ∃ s, Run.run step { impls := [shopProtocol] } introduced = some s ∧
    Run.Meets step (fun s a => ∀ s', step s a = some s' → Gated s a s')
      { impls := [shopProtocol] } introduced :=
  ⟨_, rfl, (gated_iff rfl).mpr (by decide)⟩

/-- A client that binds without a word. -/
def uninvited : List Action := [.read [.bindProtocol 1 1 "shop"], .handle]

/-- It gets its object. -/
theorem not_always_gated : ¬ ∀ (impls : List ProtocolSpec) (as : List Action) (s : Server),
    Run.run step { impls } as = some s →
      Run.Meets step (fun s a => ∀ s', step s a = some s' → Gated s a s') { impls } as := by
  intro h
  have hgated := (h [shopProtocol] uninvited _ rfl).2 _ rfl
  obtain ⟨version, hoffered, -⟩ := (hgated.1 _ rfl).made (Nat.lt_succ_self 0)
  cases hoffered

end Hyprwire.Server
