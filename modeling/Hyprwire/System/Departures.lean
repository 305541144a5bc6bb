import Hyprwire.System.Clients

/-!
# `System/Departures.lean` — what a client leaves behind

An object that a client made is in the table until its destructor was handled or its client leaves,
and `destroy_objects_for_disconnect` goes through what is then in the table. Between the two nobody
falls through: an object that is owed a destructor is always one that is still due (`due`), and a
client that is gone has none that is owed one (`AllDue`). That is so of each client of a socket,
whatever the others do (`clients_accounted`).
-/

namespace Hyprwire

open Rust

namespace Server

variable {s s' : Server}

/-- The objects that are still to be dealt with. -/
def due (s : Server) : List Nat :=
  match s.phase with
  | .leaving rest => rest
  | .leavingCallback rest k => k :: rest
  | .idle => if s.gone then [] else s.table
  | .batch _ | .callback _ _ _ => s.table

/-- **Whoever is owed a destructor is still due**, and a client that is gone does nothing. -/
structure AllDue (s : Server) : Prop where
  owed : ∀ k < s.size, k ∈ s.due ∨ ¬ Owed (s.objects k)
  gone : s.gone = true → s.phase = .idle
  calling : ∀ rest k method, s.phase = .callback rest k method → k < s.size

theorem AllDue.init (impls : List ProtocolSpec) : AllDue { impls } where
  owed _ hk := absurd hk (Nat.not_lt_zero _)
  gone h := by cases h
  calling _ _ _ h := by cases h

/-- What is owed was owed. -/
theorem SameObject.owed {obj obj' : ServerObject} (h : SameObject obj obj') (ho : Owed obj') :
    Owed obj := by
  obtain ⟨hdestroyed, hmethod⟩ := ho
  rw [h.methodsIn] at hmethod
  refine ⟨?_, hmethod⟩
  cases hold : obj.destroyed with
  | false => rfl
  | true =>
    rw [h.destroyed hold] at hdestroyed
    cases hdestroyed

theorem not_owed_of_destroyed {obj : ServerObject} (h : obj.destroyed = true) : ¬ Owed obj := by
  intro ho
  have hfree := ho.1
  rw [h] at hfree
  cases hfree

/-- A step that loses nobody who was due, but for those it deals with. -/
theorem AllDue.kept {a : Action} (hs : AllDue s) (h : step s a = some s')
    (hdue : ∀ k ∈ s.due, k ∈ s'.due ∨ ¬ Owed (s'.objects k))
    (hnew : ∀ k < s'.size, s.size ≤ k → k ∈ s'.due) (hgone : s'.gone = true → s'.phase = .idle)
    (hcalling : ∀ rest k method, s'.phase = .callback rest k method → k < s'.size) :
    AllDue s' := by
  refine ⟨?_, hgone, hcalling⟩
  intro k hk
  by_cases hold : k < s.size
  · rcases hs.owed k hold with hin | hfree
    · exact hdue k hin
    · exact .inr fun ho => hfree (((birth h).1 k hold).owed ho)
  · exact .inl (hnew k hk (Nat.le_of_not_lt hold))

theorem due_aside (h : Aside s s') : s'.due = s.due := by
  unfold due
  rw [h.phase, h.gone, h.table]

theorem due_of_dispatching (h : s.phase.dispatching = true) : s.due = s.table := by
  unfold due
  cases hphase : s.phase with
  | batch rest => rfl
  | callback rest k method => rfl
  | idle | leaving _ | leavingCallback _ _ =>
    rw [hphase] at h
    cases h

theorem gone_of_dispatching (hs : AllDue s) (h : s.phase.dispatching = true) : s.gone = false := by
  cases hgone : s.gone with
  | false => rfl
  | true =>
    rw [hs.gone hgone] at h
    cases h

/-- While messages are handled, and when that was given up, all of the table is due. -/
theorem handle_due (s : Server) (msg : C2S) (rest : List C2S) (k : Nat) :
    k ∈ (s.handle msg rest).due ↔ k ∈ (s.handle msg rest).table := by
  have hbusy : ∀ t : Server, t.phase.dispatching = true → (k ∈ t.due ↔ k ∈ t.table) := by
    intro t ht
    rw [due_of_dispatching ht]
  cases msg with
  | sup =>
    apply hbusy
    rw [show (s.handle .sup rest).phase = _ from (Aside.write (s.heard .sup rest) _).phase]
    rfl
  | handshakeAck version =>
    apply hbusy
    rw [show (s.handle (.handshakeAck version) rest).phase = _ from
      (Aside.write (s.heard (.handshakeAck version) rest) _).phase]
    rfl
  | bindProtocol seq version protocol =>
    by_cases hversion : version = 0
    · subst hversion
      exact List.mem_reverse
    · obtain ⟨phase, hphase, heq⟩ := handle_bind s seq protocol rest hversion
      apply hbusy
      rw [heq]
      rcases hphase with rfl | rfl <;> rfl
  | generic g =>
    apply hbusy
    rw [handle_generic]
    exact (onGeneric_phase ..).1
  | roundtripRequest seq queue => exact hbusy _ rfl

/-- Nobody falls off the table who is owed something, and whoever is made is on it. -/
structure Keeps (s s' : Server) : Prop where
  old : ∀ k ∈ s.table, k ∈ s'.table ∨ ¬ Owed (s'.objects k)
  new : ∀ k < s'.size, s.size ≤ k → k ∈ s'.table

theorem Keeps.stay (htable : s'.table = s.table) (hsize : s'.size = s.size) : Keeps s s' where
  old k hk := .inl (htable ▸ hk)
  new k hk hle := by
    rw [hsize] at hk
    exact absurd hk (Nat.not_lt_of_le hle)

theorem Keeps.aside (h : Aside s s') : Keeps s s' := .stay h.table h.size

/-- A new object comes behind the others. -/
theorem Keeps.push (htable : s'.table = s.table ++ [s.size]) (hsize : s'.size = s.size + 1) :
    Keeps s s' := by
  refine ⟨?_, ?_⟩
  · intro k hk
    rw [htable]
    exact .inl (List.mem_append_left _ hk)
  · intro k hk hle
    rw [hsize] at hk
    rw [htable, Nat.le_antisymm (Nat.le_of_lt_succ hk) hle]
    exact List.mem_append_right _ (List.mem_singleton_self _)

/-- No destructor takes anybody else off, as no two objects have the same id. -/
theorem Keeps.afterDispatch {k : Nat} (hids : ∀ i ∈ s.table, (s.objects i).id = (s.objects k).id → i = k)
    (method : Nat) : Keeps s (s.afterDispatch k method) := by
  rw [afterDispatch_eq]
  split
  · refine ⟨?_, fun i hi hle => absurd hi (Nat.not_lt_of_le hle)⟩
    intro i hi
    by_cases hsame : i = k
    · subst hsame
      refine .inr (not_owed_of_destroyed ?_)
      simp [setObject]
    · refine .inl ?_
      simp only
      split
      · exact hi
      · refine List.mem_filter.mpr ⟨hi, ?_⟩
        have hne : (s.objects i).id ≠ (s.objects k).id := by
          intro hid
          exact hsame (hids i hi hid)
        exact decide_eq_true hne
  · exact .stay rfl rfl

/-- A message is handled. -/
theorem Keeps.handle (hr : Rising s) (msg : C2S) (rest : List C2S) :
    Keeps s (s.handle msg rest) := by
  have hheard : ∀ t : Server, Keeps (s.heard msg rest) t → Keeps s t := fun t h => ⟨h.old, h.new⟩
  apply hheard
  cases msg with
  | sup => exact .aside (Aside.write ..)
  | handshakeAck version =>
    have h := Keeps.aside (Aside.write (s.heard (.handshakeAck version) rest)
      (.handshakeProtocols (s.impls.map fun imp => (imp.specName, imp.specVer.toNat))))
    exact ⟨h.old, h.new⟩
  | bindProtocol seq version protocol =>
    by_cases hversion : version = 0
    · subst hversion
      have h := Keeps.aside (Aside.write (s.heard (.bindProtocol seq 0 protocol) rest)
        (.fatalProtocolError 0 (wordSize - 1) "fatal: failed to handle message on wire"))
      exact ⟨h.old, h.new⟩
    · obtain ⟨phase, -, heq⟩ := handle_bind s seq protocol rest hversion
      rw [heq, createObject_eq]
      exact .push rfl rfl
  | roundtripRequest seq queue => exact .stay rfl rfl
  | generic g =>
    rw [handle_generic]
    have hdelivered := delivered (s.heard (.generic g) rest) g rest
    generalize (s.heard (.generic g) rest).onGeneric g rest = t at hdelivered
    cases hdelivered with
    | unknown hfind =>
      have h := Keeps.aside (Aside.write (s.heard (.generic g) rest) (.fatalProtocolError g.object
        (wordSize - 1) s!"generic message references unknown object {g.object}"))
      exact ⟨h.old, h.new⟩
    | silent k hfind hquiet =>
      have hnote := note_eq (s.heard (.generic g) rest) k g.method
      have hk : k < s.size := hr.seated.table_lt k (List.mem_of_find?_eq_some hfind)
      have h := Keeps.afterDispatch (s := (s.heard (.generic g) rest).note k g.method) (k := k) (by
        rw [hnote]
        intro i hi hid
        exact Connection.seated_inj hr.seated (hr.seated.table_lt i hi) hk hid) g.method
      refine ⟨fun i hi => h.old i ?_, fun i hi hle => h.new i hi ?_⟩
      · rw [hnote]
        exact hi
      · rw [hnote]
        exact hle
    | called k hfind hcalls =>
      rw [note_eq]
      exact .stay rfl rfl
    | made k m hfind hcalls hm hret =>
      rw [createObject_eq, note_eq]
      exact .push rfl rfl

theorem handle_calling (hr : Rising s) {msg : C2S} {rest rest' : List C2S} {k : Nat}
    {method : Option Nat} (h : (s.handle msg rest).phase = .callback rest' k method) :
    k < (s.handle msg rest).size := by
  cases msg with
  | sup =>
    rw [show (s.handle .sup rest).phase = _ from (Aside.write (s.heard .sup rest) _).phase] at h
    cases h
  | handshakeAck version =>
    rw [show (s.handle (.handshakeAck version) rest).phase = _ from
      (Aside.write (s.heard (.handshakeAck version) rest) _).phase] at h
    cases h
  | bindProtocol seq version protocol =>
    by_cases hversion : version = 0
    · subst hversion
      cases h
    · have heq := handle_bind_eq s seq protocol rest hversion
      rw [createObject_eq] at heq
      rw [heq] at h ⊢
      simp only at h
      split at h
      · cases h
        exact Nat.lt_succ_self _
      · cases h
  | generic g =>
    rw [handle_generic] at h ⊢
    have hdelivered := delivered (s.heard (.generic g) rest) g rest
    generalize (s.heard (.generic g) rest).onGeneric g rest = t at hdelivered h
    cases hdelivered with
    | unknown hfind => cases h
    | silent k₀ hfind hquiet => cases h
    | called k₀ hfind hcalls =>
      cases h
      rw [note_eq]
      exact hr.seated.table_lt k (List.mem_of_find?_eq_some hfind)
    | made k₀ m hfind hcalls hm hret =>
      cases h
      rw [createObject_eq, note_eq]
      exact Nat.lt_succ_of_lt (hr.seated.table_lt k (List.mem_of_find?_eq_some hfind))
  | roundtripRequest seq queue => cases h

/-- The next one has its turn: it is called, or marked, or was owed nothing. -/
theorem visit_due (s : Server) (k : Nat) (rest : List Nat) :
    ∀ i ∈ k :: rest, i ∈ (s.visit k rest).due ∨ ¬ Owed ((s.visit k rest).objects i) := by
  intro i hi
  unfold visit
  cases hdestructor : disconnectDestructor (s.objects k) with
  | none =>
    rcases List.mem_cons.mp hi with rfl | hi
    · refine .inr fun ho => ?_
      have hsome := disconnectDestructor_isSome.mpr ho
      rw [hdestructor] at hsome
      cases hsome
    · exact .inl hi
  | some m =>
    simp only
    split
    · exact .inl hi
    · rcases List.mem_cons.mp hi with rfl | hi
      · refine .inr (not_owed_of_destroyed ?_)
        simp [destroy, setObject]
      · exact .inl hi

theorem visit_rest (s : Server) (k : Nat) (rest : List Nat) :
    (s.visit k rest).size = s.size ∧ (s.visit k rest).gone = s.gone ∧
      (s.visit k rest).phase.dispatching = false := by
  unfold visit
  split
  · exact ⟨rfl, rfl, rfl⟩
  · simp only
    split <;> exact ⟨rfl, rfl, rfl⟩

/-- A batch ends with the table as it is. -/
theorem finish_table (s : Server) : s.finish.table = s.table ∧ s.finish.size = s.size ∧
    (s.finish.phase = .leaving s.table.reverse ∨ s.finish.phase = .idle) := by
  have hack : s.acknowledge.table = s.table ∧ s.acknowledge.size = s.size := by
    unfold acknowledge
    split
    · exact ⟨(Aside.write ..).table, (Aside.write ..).size⟩
    · exact ⟨rfl, rfl⟩
  simp only [finish]
  split
  · refine ⟨hack.1, hack.2, .inl ?_⟩
    rw [← hack.1]
    rfl
  · exact ⟨hack.1, hack.2, .inr rfl⟩

/-- **Every step keeps the account.** -/
theorem AllDue.step {a : Action} (hs : AllDue s) (hr : Rising s)
    (h : Server.step s a = some s') : AllDue s' := by
  have hopen : s.phase ≠ .idle → s.gone = false := by
    intro hphase
    cases hgone : s.gone with
    | false => rfl
    | true => exact absurd (hs.gone hgone) hphase
  have hsame : ∀ k < s'.size, s.size ≤ k → s'.size = s.size → k ∈ s'.due := by
    intro k hk hle hsize
    rw [hsize] at hk
    exact absurd hk (Nat.not_lt_of_le hle)
  have haside : Aside s s' → AllDue s' := by
    intro haside
    refine hs.kept h ?_ (fun k hk hle => hsame k hk hle haside.size) ?_ ?_
    · intro k hk
      rw [due_aside haside]
      exact .inl hk
    · rw [haside.gone, haside.phase]
      exact hs.gone
    · rw [haside.phase, haside.size]
      exact hs.calling
  -- a step that ends with all of the table due
  have hall : (∀ k, k ∈ s.due ↔ k ∈ s.table) → Keeps s s' → (∀ k, k ∈ s'.due ↔ k ∈ s'.table) →
      s'.gone = false → (∀ rest k method, s'.phase = .callback rest k method → k < s'.size) →
      AllDue s' := by
    intro hbefore hkeeps hafter hgone hcalling
    refine hs.kept h ?_ ?_ ?_ hcalling
    · intro k hk
      exact (hkeeps.old k ((hbefore k).mp hk)).imp (hafter k).mpr id
    · intro k hk hle
      exact (hafter k).mpr (hkeeps.new k hk hle)
    · intro hleft
      rw [hgone] at hleft
      cases hleft
  have habort : ∀ errorMsg, Keeps s (s.abort errorMsg) := fun errorMsg => by
    have hwrite := Aside.write s (.fatalProtocolError 0 (wordSize - 1) errorMsg)
    exact .stay hwrite.table hwrite.size
  have hidle : s.phase = .idle → s.gone = false → ∀ k, k ∈ s.due ↔ k ∈ s.table := by
    intro hphase hgone k
    simp only [due, hphase, hgone, Bool.false_eq_true, if_false]
  have hbusy : s.phase.dispatching = true → ∀ k, k ∈ s.due ↔ k ∈ s.table := by
    intro hphase k
    rw [due_of_dispatching hphase]
  have hleft : a ≠ .visit → s.gone = false → s'.gone = false := by
    intro ha hgone
    exact (stays_of_step h ha).trans hgone
  cases a with
  | emit k method args => exact haside (aside_of_onSide h rfl)
  | error k errorId errorMsg => exact haside (aside_of_onSide h rfl)
  | read batch =>
    simp only [Server.step, Option.ite_none_right_eq_some, Option.some.injEq] at h
    obtain ⟨⟨hphase, hgone, -⟩, rfl⟩ := h
    exact hall (hidle hphase hgone) (.stay rfl rfl) (fun _ => Iff.rfl) hgone (fun _ _ _ hc => by cases hc)
  | handle =>
    obtain ⟨msg, rest, hphase, rfl⟩ := step_handle h
    have hdispatching : s.phase.dispatching = true := by
      rw [hphase]
      rfl
    exact hall (hbusy hdispatching) (.handle hr msg rest) (handle_due s msg rest)
      (hleft (by simp) (gone_of_dispatching hs hdispatching)) (fun _ _ _ => handle_calling hr)
  | return_ =>
    have hgone := hleft (by simp)
    have hstep := h
    simp only [Server.step] at h
    split at h
    · next rest k method hphase =>
      cases h
      have hdispatching : s.phase.dispatching = true := by
        rw [hphase]
        rfl
      have hk := hs.calling rest k method hphase
      have hkeeps : Keeps s (s.returned rest k method) := by
        unfold returned
        cases method with
        | none => exact .stay rfl rfl
        | some method =>
          have hafter := Keeps.afterDispatch (k := k) (fun i hi hid =>
            Connection.seated_inj hr.seated (hr.seated.table_lt i hi) hk hid) method
          exact ⟨hafter.old, hafter.new⟩
      have hdone : ∀ i, i ∈ (s.returned rest k method).due ↔ i ∈ (s.returned rest k method).table := by
        intro i
        unfold returned
        cases method <;> exact Iff.rfl
      refine hall (hbusy hdispatching) hkeeps hdone (hgone (gone_of_dispatching hs hdispatching)) ?_
      intro rest' k' method' hc
      unfold returned at hc
      cases method <;> cases hc
    · next rest k hphase =>
      cases h
      refine hs.kept hstep ?_ (fun i hi hle => hsame i hi hle rfl) ?_ ?_
      · intro i hi
        simp only [due, hphase] at hi
        rcases List.mem_cons.mp hi with rfl | hi
        · refine .inr (not_owed_of_destroyed ?_)
          simp [destroy, setObject]
        · exact .inl hi
      · intro hc
        rw [hgone (hopen (by simp [hphase]))] at hc
        cases hc
      · intro rest' k' method' hc
        cases hc
    · cases h
  | malformed =>
    have hgone := hleft (by simp)
    simp only [Server.step] at h
    split at h
    · next rest hphase =>
      cases h
      have hdispatching : s.phase.dispatching = true := by
        rw [hphase]
        rfl
      exact hall (hbusy hdispatching) (habort _) (fun _ => List.mem_reverse)
        (hgone (gone_of_dispatching hs hdispatching)) (fun _ _ _ hc => by cases hc)
    · cases h
  | finish =>
    have hgone := hleft (by simp)
    simp only [Server.step] at h
    split at h
    · next hphase =>
      cases h
      have hdispatching : s.phase.dispatching = true := by
        rw [hphase]
        rfl
      have hopened := hgone (gone_of_dispatching hs hdispatching)
      obtain ⟨htable, hsize, hphase'⟩ := finish_table s
      refine hall (hbusy hdispatching) (.stay htable hsize) (fun k => ?_) hopened (fun _ _ _ hc => ?_)
      · rcases hphase' with hphase' | hphase'
        · simp only [due, hphase', htable, List.mem_reverse]
        · simp only [due, hphase', hopened, Bool.false_eq_true, if_false]
      · rcases hphase' with hphase' | hphase'
        · rw [hphase'] at hc
          cases hc
        · rw [hphase'] at hc
          cases hc
    · cases h
  | unreadable =>
    have hgone := hleft (by simp)
    simp only [Server.step, Option.ite_none_right_eq_some, Option.some.injEq] at h
    obtain ⟨⟨hphase, hopened⟩, rfl⟩ := h
    exact hall (hidle hphase hopened) (habort _) (fun _ => List.mem_reverse) (hgone hopened)
      (fun _ _ _ hc => by cases hc)
  | hangup =>
    simp only [Server.step, Option.ite_none_right_eq_some, Option.some.injEq] at h
    obtain ⟨⟨hphase, hopened⟩, rfl⟩ := h
    exact hall (hidle hphase hopened) (.stay rfl rfl) (fun _ => List.mem_reverse) hopened
      (fun _ _ _ hc => by cases hc)
  | remove =>
    simp only [Server.step, Option.ite_none_right_eq_some, Option.some.injEq] at h
    obtain ⟨⟨hphase, hopened⟩, rfl⟩ := h
    exact hall (hidle hphase hopened) (.stay rfl rfl) (fun _ => List.mem_reverse) hopened
      (fun _ _ _ hc => by cases hc)
  | visit =>
    have hstep := h
    simp only [Server.step] at h
    split at h
    · next k rest hphase =>
      cases h
      obtain ⟨hsize, hstays, hover⟩ := visit_rest s k rest
      refine hs.kept hstep ?_ (fun i hi hle => hsame i hi hle hsize) ?_ ?_
      · intro i hi
        simp only [due, hphase] at hi
        exact visit_due s k rest i hi
      · intro hc
        rw [hstays, hopen (by simp [hphase])] at hc
        cases hc
      · intro rest' k' method' hc
        rw [hc] at hover
        cases hover
    · next hphase =>
      cases h
      -- everybody had a turn
      refine hs.kept hstep ?_ (fun i hi hle => hsame i hi hle rfl) (fun _ => rfl) ?_
      · intro i hi
        simp only [due, hphase] at hi
        cases hi
      · intro rest' k' method' hc
        cases hc
    · cases h

/-! ## Along a run -/

/-- No id is 0 while there are some left. -/
theorem Rising.addressed {a : Action} (hs : Rising s) : Addressed s a := by
  cases a with
  | handle =>
    intro msg rest k _ hfind _
    have hk := hs.seated.table_lt k (List.mem_of_find?_eq_some hfind)
    rw [hs.seated.ids k hk]
    exact .inl (Nat.succ_ne_zero k)
  | _ => trivial

/-- What is kept while a server has numbers left. -/
structure Settled (s : Server) : Prop where
  rising : Rising s
  once : Once s
  allDue : AllDue s

theorem settled_run {impls : List ProtocolSpec} {as : List Action}
    (hrun : Run.run step { impls } as = some s) (hcount : s.size < wordSize - 1) : Settled s := by
  refine @Run.run_bounded _ _ step (fun _ => True) Settled (fun _ _ => True) size (wordSize - 1)
    (fun _ _ _ _ _ => trivial) (fun _ _ _ _ h => size_le_of_step h) ?_ _ _ _ trivial
    ⟨.init impls, .init impls, .init impls⟩ (Run.meets_of_forall fun _ _ => trivial) hrun hcount
  intro t a t' ht _ hlt h
  have hbound : t.size + 1 < wordSize := by
    have hle := size_le_of_step h
    omega
  exact ⟨ht.rising.step hbound h, ht.once.step ht.rising.addressed h, ht.allDue.step ht.rising h⟩

end Server

/-! ## The clients of a socket -/

namespace ServerSocket

/-- **What is known of the objects of a client**: their ids are fresh, none was destroyed twice,
and one that is owed a destructor can still be found by its client, which has not left. -/
structure InOrder (s : Server) : Prop where
  fresh : s.FreshIds
  once : s.destructs.Nodup
  owed : ∀ k < s.size, Server.Owed (s.objects k) → k ∈ s.table ∧ s.gone = false

/-- **Every client's objects are accounted for**, whoever comes and goes beside it. -/
theorem clients_accounted {m : Overflow} {impls : List ProtocolSpec} {s : ServerSocket}
    {listening : Bool} {ops : List Op}
    (hmeets : Run.Meets (ServerSocket.step m) Orderly (ServerSocket.start listening impls) ops)
    (hrun : Run.run (ServerSocket.step m) (ServerSocket.start listening impls) ops = some s) :
    ∀ c ∈ s.clients ++ s.removed, c.state.size < 2 ^ 32 - 1 → InOrder c.state := by
  have h := (housed_of_run hmeets hrun).2
  intro c hc hcount
  have hbound : c.state.size < wordSize - 1 := hcount
  rcases List.mem_append.mp hc with hc | hc
  · obtain ⟨as, hrun⟩ := h.lone c hc
    have hsettled := Server.settled_run hrun hbound
    have hstanding := h.standing c hc (by simp)
    refine ⟨hsettled.rising.freshIds, hsettled.once.once, fun k hk howed => ?_⟩
    refine ⟨?_, hstanding.2⟩
    have hdue := (hsettled.allDue.owed k hk).resolve_right (not_not.mpr howed)
    simpa only [Server.due, hstanding.1, hstanding.2, Bool.false_eq_true, if_false] using hdue
  · obtain ⟨hlone, hgone, htable⟩ := h.left c hc
    obtain ⟨as, hrun⟩ := hlone
    have hsettled := Server.settled_run hrun hbound
    refine ⟨hsettled.rising.freshIds, hsettled.once.once, fun k hk howed => ?_⟩
    have hdue := (hsettled.allDue.owed k hk).resolve_right (not_not.mpr howed)
    simp only [Server.due, hsettled.allDue.gone hgone, hgone, if_true] at hdue
    cases hdue

/-- The first client binds the protocol and makes an item. -/
def shops : Ready where
  source := .stream 0
  key := 1
  acts := [(0, .read [.bindProtocol 1 1 "shop", .generic ⟨1, 0, 2, [], 0, 0, false, none⟩]),
    (0, .handle), (0, .return_), (0, .handle), (0, .return_), (0, .finish)]

/-- … and hangs up while somebody else greets. -/
def parting : List Op :=
  [.pass [arrives], .pass [shops, arrives], .pass [hangsUp, greetsToo]]

theorem clients_accounted_parting : ∃ s,
    Run.run (ServerSocket.step .checked) (ServerSocket.start true [shopProtocol]) parting = some s ∧
      s.removed.map (fun c => c.state.destructs) = [[1]] ∧
      ∀ c ∈ s.clients ++ s.removed, c.state.size < 2 ^ 32 - 1 → InOrder c.state :=
  ⟨_, rfl, rfl, @clients_accounted .checked [shopProtocol] _ true parting (by decide) rfl⟩

end ServerSocket

end Hyprwire
