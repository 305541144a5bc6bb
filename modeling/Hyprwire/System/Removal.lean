import Hyprwire.System.Fatal
import Hyprwire.System.Freshness
import Hyprwire.System.Lifecycle
import Hyprwire.System.Silence

/-!
# `System/Removal.lean` — how objects leave the tables

A client takes an object off its table when nobody holds it, or when an event has destroyed it; a
server when it has handled the object's destructor, or with the whole connection. Who leaves in a
step of a client is said exactly (`Loses`), and a server that goes on can account for every object
it does not have any more (`Accounted`).
-/

namespace Hyprwire.Client

open History

variable {c c' : Client} {R : Rely}

/-! ## Over any number of changes -/

theorem Ledger.moves (hc : Ledger c) (h : Moves R c c') : Ledger c' :=
  h.invariant (fun _ _ => Ledger.move) hc

/-- Where no id arrives none is given, and what is made has none. -/
theorem Ledger.ids_moves (hc : Ledger c) (hunheard : ∀ seq id, ¬ R.heard (.newObject seq id))
    (h : Moves R c c') (i : Nat) :
    (i < c.size ∧ (c'.objects i).id = (c.objects i).id) ∨
      (c'.objects i).id = 0 ∧ c.size ≤ i := by
  have hinv : Ledger c' ∧ c.size ≤ c'.size ∧
      ((i < c.size ∧ (c'.objects i).id = (c.objects i).id) ∨
        (c'.objects i).id = 0 ∧ c.size ≤ i) := by
    refine h.invariant (P := fun t => Ledger t ∧ c.size ≤ t.size ∧
      ((i < c.size ∧ (t.objects i).id = (c.objects i).id) ∨
        (t.objects i).id = 0 ∧ c.size ≤ i)) (fun t t' ht hmove => ?_) ⟨hc, Nat.le_refl _, ?_⟩
    · obtain ⟨hledger, hsize, hids⟩ := ht
      refine ⟨hledger.move hmove, Nat.le_trans hsize hmove.later.size, ?_⟩
      rcases hledger.id_move hunheard hmove i with ⟨-, hsame⟩ | ⟨hzero, hge⟩
      · rw [hsame]
        exact hids
      · exact .inr ⟨hzero, Nat.le_trans hsize hge⟩
    · rcases Nat.lt_or_ge i c.size with hlt | hge
      · exact .inl ⟨hlt, rfl⟩
      · exact .inr ⟨(hc.blank i hge).2, hge⟩
  exact hinv.2.2

/-! ## Who leaves the table of a client -/

/-- **Who leaves in a step**: an orphan where orphans are collected, and what an event destroys where
its handling ends. -/
def Loses (c : Client) (a : Action) (i : Nat) : Prop :=
  match a with
  | .poll _ | .unreadable _ | .read _ _ | .finish _ => c.orphaned i = true
  | .roundtripFail _ => c.error = false ∧ c.orphaned i = true
  | .handle q => ∃ g rest h, (c.queues q).phase = .batch (.generic g :: rest) ∧
      c.objectForId g.object = some h ∧ callsBack (c.objects h) g.method = false ∧
      isDestructor (c.objects h) g.method = true ∧ (c.objects i).id = (c.objects h).id
  | .return_ q => ∃ rest h method, (c.queues q).phase = .callback rest h method ∧
      isDestructor (c.objects h) method = true ∧ (c.objects i).id = (c.objects h).id
  | _ => False

/-- What the changes of a step rely on that takes no others off the table. -/
def losing (c : Client) (a : Action) : Rely where
  heard msg := ∀ seq id, msg ≠ .newObject seq id
  asks _ := True
  binds _ := True
  calls _ _ _ := True
  ended h method := isDestructor (c.objects h) method = true →
    ∀ i, (c.objects i).id = (c.objects h).id → Loses c a i
  flushes _ _ := True
  collects t := ∀ i, t.orphaned i = true → Loses c a i
  drops _ := True

/-- The changes take off the table whom the step loses. -/
theorem Ledger.losing_moves (hc : Ledger c) {a : Action} (h : Moves (losing c a) c c') {i : Nat}
    (hin : i ∈ c.table) : i ∈ c'.table ∨ Loses c a i := by
  have hunheard : ∀ seq id, ¬ (losing c a).heard (.newObject seq id) :=
    fun seq id hheard => hheard seq id rfl
  have hinv : Moves (losing c a) c c' ∧ (i ∈ c'.table ∨ Loses c a i) := by
    refine h.invariant (P := fun t => Moves (losing c a) c t ∧ (i ∈ t.table ∨ Loses c a i))
      (fun t t' ht hmove => ⟨ht.1.tail hmove, ?_⟩) ⟨.refl, .inl hin⟩
    obtain ⟨hmoves, hin' | hloses⟩ := ht
    · have hledger := hc.moves hmoves
      rcases hmove.unlinks hin' with hstays |
        ⟨hid, ⟨horphan, hcollects⟩ | ⟨-, h, method, m, hended, hm, hdes, heq, -⟩⟩
      · exact .inl hstays
      · exact .inr (hcollects i horphan)
      · -- Nobody has got an id in between, so that the event was on an object that was there.
        have hidᵢ := ((hc.ids_moves hunheard hmoves i).resolve_right fun hnew => hid hnew.1).2
        obtain ⟨hlt, hidₕ⟩ := (hc.ids_moves hunheard hmoves h).resolve_right fun hnew =>
          hid (heq.symm.trans hnew.1)
        refine .inr (hended ?_ i (by rw [← hidᵢ, ← hidₕ, heq]))
        rw [(hmoves.later.objects h hlt).methodsIn] at hm
        rw [isDestructor, hm]
        exact hdes
    · exact .inr hloses
  exact hinv.2

/-- Where a callback is begun the table stays as it is. -/
theorem table_of_callback {q h : Nat} {g : Generic} {rest : List S2C}
    (hfind : c.objectForId g.object = some h) (hcalls : callsBack (c.objects h) g.method = true) :
    (c.handle q (.generic g) rest).table = c.table := by
  have hfind' : objectForId { c with handled := c.handled ++ [S2C.generic g] } g.object = some h :=
    hfind
  simp only [callsBack, Bool.and_eq_true, decide_eq_true_eq] at hcalls
  simp only [handle, onGeneric, hfind']
  rw [if_pos hcalls]
  rfl

theorem table_of_newObject {q seq id : Nat} {rest : List S2C} :
    (c.handle q (.newObject seq id) rest).table = c.table := by
  obtain ⟨f, -, h, heq⟩ := onSeq_eq { c with handled := c.handled ++ [S2C.newObject seq id] } seq id
  simp only [handle]
  rw [heq]
  rfl

/-- **Nobody else leaves.** -/
theorem Ledger.loses (hc : Ledger c) {a : Action} (h : Client.step c a = some c') {i : Nat}
    (hin : i ∈ c.table) : i ∈ c'.table ∨ Loses c a i := by
  have hgranted : Granted (losing c a) c a → i ∈ c'.table ∨ Loses c a i :=
    fun hgrant => hc.losing_moves (moves_step hc.table_lt hgrant h) hin
  cases a with
  | bind q proto version => exact hgranted trivial
  | send obj method args => exact hgranted fun _ _ => trivial
  | clone obj => exact hgranted trivial
  | drop obj => exact hgranted trivial
  | dropQueue q => exact hgranted trivial
  | roundtrip q => exact hgranted trivial
  | roundtripReturn q => exact hgranted trivial
  | poll q => exact hgranted fun _ horphan => horphan
  | unreadable q => exact hgranted fun _ horphan => horphan
  | read q batch => exact hgranted fun _ horphan => horphan
  | malformed q => exact hgranted trivial
  | finish q =>
    refine hgranted ⟨trivial, fun j horphan => ?_⟩
    have hsame : (c.flush q).orphaned j = c.orphaned j := by
      rw [flush_eq]
      rfl
    exact hsame.symm.trans horphan
  | roundtripFail q =>
    by_cases herror : c.error = true
    · -- In error nothing is collected.
      simp only [Client.step, Option.ite_none_right_eq_some, Option.some.injEq] at h
      obtain ⟨-, rfl⟩ := h
      rw [if_pos herror]
      exact .inl hin
    · exact hgranted fun _ horphan => ⟨by simpa using herror, horphan⟩
  | return_ q =>
    refine hgranted fun rest obj method hphase hdes j heq => ?_
    exact ⟨rest, obj, method, hphase, hdes, heq⟩
  | handle q =>
    obtain ⟨msg, rest, hphase, rfl⟩ := step_handles h
    have hsame : ∀ {msg' rest'}, (c.queues q).phase = .batch (msg' :: rest') → msg' = msg := by
      intro msg' rest' hphase'
      rw [hphase] at hphase'
      cases hphase'
      rfl
    cases msg with
    | newObject seq id =>
      rw [table_of_newObject]
      exact .inl hin
    | generic g =>
      by_cases hback : ∃ obj, c.objectForId g.object = some obj ∧
          callsBack (c.objects obj) g.method = true
      · obtain ⟨obj, hfind, hcalls⟩ := hback
        rw [table_of_callback hfind hcalls]
        exact .inl hin
      · refine hgranted fun msg' rest' hphase' => ?_
        cases hsame hphase'
        refine ⟨by simp [losing], fun g' obj heq hfind hdes j hid => ?_⟩
        cases heq
        refine ⟨g, rest', obj, hphase', hfind, ?_, hdes, hid⟩
        exact Bool.eq_false_iff.mpr fun hcalls => hback ⟨obj, hfind, hcalls⟩
    | _ =>
      refine hgranted fun msg' rest' hphase' => ?_
      cases hsame hphase'
      exact ⟨by simp [losing], by simp⟩

end Hyprwire.Client

namespace Hyprwire.Server

variable {s s' : Server}

/-! ## Who leaves the table of a server -/

/-- **Who leaves in a step**: the object of a destructor where its handling ends, and everybody at the
end of a disconnect. -/
def Loses (s : Server) (a : Action) (k : Nat) : Prop :=
  match a with
  | .handle => ∃ g rest k₀, s.phase = .batch (.generic g :: rest) ∧
      s.objectForId g.object = some k₀ ∧ isDestructor (s.objects k₀) g.method = true ∧
      (s.objects k).id = (s.objects k₀).id
  | .return_ => ∃ rest k₀ method, s.phase = .callback rest k₀ (some method) ∧
      isDestructor (s.objects k₀) method = true ∧ (s.objects k).id = (s.objects k₀).id
  | .visit => s.phase = .leaving []
  | _ => False

/-- What a step does to the table and the arena, and whether it can remove the client or come across
an unknown object. -/
inductive Course (s s' : Server) (a : Action) : Prop
  | same (htable : s'.table = s.table) (hsize : s'.size = s.size) (hgone : s'.gone = s.gone)
      (hunknown : s'.unknownObject = s.unknownObject)
  | makes (htable : s'.table = s.table ++ [s.size]) (hsize : s'.size = s.size + 1)
      (hgone : s'.gone = s.gone) (hunknown : s'.unknownObject = s.unknownObject)
  | calls (g : Generic) (rest : List C2S) (ha : a = .handle)
      (hphase : s.phase = .batch (.generic g :: rest))
      (heq : s' = (s.heard (.generic g) rest).onGeneric g rest)
  | returns (rest : List C2S) (k method : Nat) (ha : a = .return_)
      (hphase : s.phase = .callback rest k (some method))
      (heq : s' = { s.afterDispatch k method with phase := .batch rest })
  | leaves (ha : a = .visit) (hphase : s.phase = .leaving []) (heq : s' = s.leave)

theorem Aside.course {a : Action} (h : Aside s s') : Course s s' a :=
  .same h.table h.size h.gone h.unknownObject

theorem course {a : Action} (h : step s a = some s') : Course s s' a := by
  cases a with
  | emit k method args =>
    simp only [step, Option.ite_none_right_eq_some, Option.some.injEq] at h
    exact h.2 ▸ (Aside.call ..).course
  | error k errorId errorMsg =>
    simp only [step, Option.ite_none_right_eq_some, Option.some.injEq] at h
    exact h.2 ▸ (Aside.objectError ..).course
  | read batch =>
    simp only [step, Option.ite_none_right_eq_some, Option.some.injEq] at h
    exact h.2 ▸ .same rfl rfl rfl rfl
  | handle =>
    obtain ⟨msg, rest, hphase, rfl⟩ := step_handle h
    cases msg with
    | sup =>
      have haside := Aside.write (s.heard .sup rest) (.handshakeBegin [1])
      exact .same haside.table haside.size haside.gone haside.unknownObject
    | handshakeAck version =>
      have haside := Aside.write (s.heard (.handshakeAck version) rest)
        (.handshakeProtocols (s.impls.map fun imp => (imp.specName, imp.specVer.toNat)))
      exact .same haside.table haside.size haside.gone haside.unknownObject
    | bindProtocol seq version protocol =>
      by_cases hversion : version = 0
      · subst hversion
        have haside := Aside.write (s.heard (.bindProtocol seq 0 protocol) rest)
          (.fatalProtocolError 0 (wordSize - 1) "fatal: failed to handle message on wire")
        exact .same haside.table haside.size haside.gone haside.unknownObject
      · obtain ⟨phase, -, heq⟩ := handle_bind s seq protocol rest hversion
        rw [heq, createObject_eq]
        exact .makes rfl rfl rfl rfl
    | generic g => exact .calls g rest rfl hphase (handle_generic ..)
    | roundtripRequest seq queue => exact .same rfl rfl rfl rfl
  | return_ =>
    simp only [step] at h
    split at h
    · next rest k method hphase =>
      cases h
      cases method with
      | none => exact .same rfl rfl rfl rfl
      | some method => exact .returns rest k method rfl hphase rfl
    · cases h
      exact .same rfl rfl rfl rfl
    · cases h
  | malformed =>
    simp only [step] at h
    split at h
    · cases h
      have haside := Aside.write s
        (.fatalProtocolError 0 (wordSize - 1) "fatal: failed to handle message on wire")
      exact .same haside.table haside.size haside.gone haside.unknownObject
    · cases h
  | finish =>
    simp only [step] at h
    split at h
    · cases h
      have hack : Course s s.acknowledge .finish := by
        have haside := Aside.write s (.roundtripDone s.scheduledRoundtripSeq s.scheduledRequest)
        unfold acknowledge
        split
        · exact .same haside.table haside.size haside.gone haside.unknownObject
        · exact .same rfl rfl rfl rfl
      unfold finish
      simp only
      -- The client may be in error, and is left then.
      split <;> cases hack with
      | same htable hsize hgone hunknown => exact .same htable hsize hgone hunknown
      | makes htable hsize hgone hunknown => exact .makes htable hsize hgone hunknown
      | calls _ _ ha _ _ | returns _ _ _ ha _ _ | leaves ha _ _ => cases ha
    · cases h
  | unreadable =>
    simp only [step, Option.ite_none_right_eq_some, Option.some.injEq] at h
    have haside := Aside.write s
      (.fatalProtocolError 0 (wordSize - 1) "fatal: invalid message on wire")
    exact h.2 ▸ .same haside.table haside.size haside.gone haside.unknownObject
  | hangup =>
    simp only [step, Option.ite_none_right_eq_some, Option.some.injEq] at h
    exact h.2 ▸ .same rfl rfl rfl rfl
  | remove =>
    simp only [step, Option.ite_none_right_eq_some, Option.some.injEq] at h
    exact h.2 ▸ .same rfl rfl rfl rfl
  | visit =>
    simp only [step] at h
    split at h
    · next k rest hphase =>
      cases h
      unfold visit
      split
      · exact .same rfl rfl rfl rfl
      · simp only
        split <;> exact .same rfl rfl rfl rfl
    · next hphase =>
      cases h
      exact .leaves rfl hphase rfl
    · cases h

/-- What a step does to the table: it loses those it can lose, and has those it makes. -/
structure Lists (s : Server) (a : Action) (s' : Server) : Prop where
  old : ∀ k ∈ s.table, k ∈ s'.table ∨ Loses s a k
  new : ∀ k, s.size ≤ k → k < s'.size → k ∈ s'.table

theorem lists {a : Action} (h : step s a = some s') : Lists s a s' := by
  have hnew : s'.size = s.size → ∀ k, s.size ≤ k → k < s'.size → k ∈ s'.table := by
    intro hsize k hge hlt
    rw [hsize] at hlt
    exact absurd hlt (Nat.not_lt_of_le hge)
  have hsame : s'.table = s.table → s'.size = s.size → Lists s a s' :=
    fun htable hsize => ⟨fun k hk => .inl (htable ▸ hk), hnew hsize⟩
  have hmade : s'.table = s.table ++ [s.size] → s'.size = s.size + 1 → Lists s a s' := by
    intro htable hsize
    refine ⟨fun k hk => .inl (htable ▸ List.mem_append_left _ hk), fun k hge hlt => ?_⟩
    rw [hsize] at hlt
    rw [htable, Nat.le_antisymm (Nat.le_of_lt_succ hlt) hge]
    exact List.mem_append_right _ (List.mem_singleton_self _)
  cases course h with
  | same htable hsize _ _ => exact hsame htable hsize
  | makes htable hsize _ _ => exact hmade htable hsize
  | calls g rest ha hphase heq =>
    subst ha
    subst heq
    have hdelivered := delivered (s.heard (.generic g) rest) g rest
    generalize (s.heard (.generic g) rest).onGeneric g rest = t at hdelivered hsame hmade hnew ⊢
    cases hdelivered with
    | unknown hfind =>
      have haside := Aside.write (s.heard (.generic g) rest) (.fatalProtocolError g.object
        (wordSize - 1) s!"generic message references unknown object {g.object}")
      exact hsame haside.table haside.size
    | silent k₀ hfind hquiet =>
      have hstill := Still.afterDispatch ((s.heard (.generic g) rest).note k₀ g.method) k₀ g.method
      have hmem := @mem_afterDispatch ((s.heard (.generic g) rest).note k₀ g.method) k₀ g.method
      rw [note_eq] at hstill hmem hnew ⊢
      refine ⟨fun k hk => ?_, hnew hstill.size⟩
      rcases hmem hk with hin | ⟨hdes, heq⟩
      · exact .inl hin
      · exact .inr ⟨g, rest, k₀, hphase, hfind, hdes, heq⟩
    | called k₀ hfind hcalls =>
      rw [note_eq] at hsame ⊢
      exact hsame rfl rfl
    | made k₀ m hfind hcalls hm hret =>
      rw [note_eq, createObject_eq] at hmade ⊢
      exact hmade rfl rfl
  | returns rest k₀ method ha hphase heq =>
    subst ha
    subst heq
    have hstill := Still.afterDispatch s k₀ method
    -- The destructor ends its object when the callback is over, not when it is read.
    refine ⟨fun k hk => ?_, hnew hstill.size⟩
    rcases mem_afterDispatch s k₀ method hk with hin | ⟨hdes, hid⟩
    · exact .inl hin
    · exact .inr ⟨rest, k₀, method, hphase, hdes, hid⟩
  | leaves ha hphase heq =>
    subst ha
    subst heq
    exact ⟨fun k _ => .inr hphase, hnew rfl⟩

/-! ## What a server accounts for -/

/-- A client is gone when the last of its objects was visited. -/
theorem gone_of_step {a : Action} (h : step s a = some s') :
    s'.gone = s.gone ∨ s'.phase = .idle := by
  cases course h with
  | same _ _ hgone _ => exact .inl hgone
  | makes _ _ hgone _ => exact .inl hgone
  | calls g rest ha hphase heq =>
    subst heq
    exact .inl (onGeneric_gone (s.heard (.generic g) rest) g rest)
  | returns rest k method ha hphase heq =>
    subst heq
    refine .inl ?_
    simp only [afterDispatch_eq]
    split <;> rfl
  | leaves ha hphase heq =>
    subst heq
    exact .inr rfl

/-- A callback of a method is that of a message that was handled, or it was there before. -/
theorem callback_of_step {a : Action} (h : step s a = some s') {rest : List C2S} {k method : Nat}
    (hphase : s'.phase = .callback rest k (some method)) :
    s.phase = .callback rest k (some method) ∨
      ∃ g, a = .handle ∧ s.phase = .batch (.generic g :: rest) ∧
        s.objectForId g.object = some k ∧ g.method = method := by
  cases progress h with
  | read batch hidle hopen heq =>
    rw [heq] at hphase
    cases hphase
  | handled msg rest' hbatch _ _ =>
    refine .inr ?_
    obtain ⟨msg', rest'', hbatch', rfl⟩ := step_handle h
    rw [hbatch] at hbatch'
    cases hbatch'
    cases msg with
    | sup =>
      have haside := Aside.write (s.heard .sup rest') (.handshakeBegin [1])
      cases haside.phase.symm.trans hphase
    | handshakeAck version =>
      have haside := Aside.write (s.heard (.handshakeAck version) rest')
        (.handshakeProtocols (s.impls.map fun imp => (imp.specName, imp.specVer.toNat)))
      cases haside.phase.symm.trans hphase
    | bindProtocol seq version protocol =>
      by_cases hversion : version = 0
      · subst hversion
        cases hphase
      · obtain ⟨phase, hor, heq⟩ := handle_bind s seq protocol rest' hversion
        rw [heq] at hphase
        rcases hor with rfl | rfl <;> cases hphase
    | generic g =>
      rw [handle_generic] at hphase
      have hdelivered := delivered (s.heard (.generic g) rest') g rest'
      generalize (s.heard (.generic g) rest').onGeneric g rest' = t at hphase hdelivered
      cases hdelivered with
      | unknown hfind => cases hphase
      | silent k₀ hfind hquiet => cases hphase
      | called k₀ hfind hcalls =>
        cases hphase
        exact ⟨g, rfl, hbatch, hfind, rfl⟩
      | made k₀ m hfind hcalls hm hret =>
        cases hphase
        exact ⟨g, rfl, hbatch, hfind, rfl⟩
    | roundtripRequest seq queue => cases hphase
  | still _ _ _ _ hstill =>
    rcases hstill with ⟨-, -, hback⟩ | ⟨left, hleft⟩
    · exact .inl (hback rest k (some method) hphase)
    · rw [hleft] at hphase
      cases hphase

theorem objectForId_some {id k : Nat} (hfind : s.objectForId id = some k) :
    k ∈ s.table ∧ (s.objects k).id = id :=
  ⟨List.mem_of_find?_eq_some hfind, by simpa using List.find?_some hfind⟩

/-- A destructor with the object's id was handled. -/
def Ended (s : Server) (k : Nat) : Prop :=
  ∃ g k₀, .generic g ∈ s.handled ∧ k₀ < s.size ∧ g.object = (s.objects k₀).id ∧
    (s.objects k).id = (s.objects k₀).id ∧ isDestructor (s.objects k₀) g.method = true

/-- **Every object that is off the table is accounted for**, until the client is gone. -/
structure Accounted (s : Server) : Prop where
  table_lt : ∀ k ∈ s.table, k < s.size
  table : s.gone = false → ∀ k < s.size, k ∈ s.table ∨ s.Ended k
  callback : ∀ rest k method, s.phase = .callback rest k (some method) → k < s.size ∧
    ∃ g, .generic g ∈ s.handled ∧ g.object = (s.objects k).id ∧ g.method = method
  gone : s.gone = true → s.phase = .idle

theorem Accounted.init (impls : List ProtocolSpec) : Accounted { impls } where
  table_lt _ h := by cases h
  table _ _ h := absurd h (Nat.not_lt_zero _)
  callback _ _ _ h := by cases h
  gone h := by cases h

/-- The objects are afterwards what they were. -/
theorem ended_of_step {a : Action} (h : step s a = some s') {g : Generic} {k k₀ : Nat}
    (hg : .generic g ∈ s'.handled) (hk : k < s.size) (hk₀ : k₀ < s.size)
    (hobject : g.object = (s.objects k₀).id) (hid : (s.objects k).id = (s.objects k₀).id)
    (hdes : isDestructor (s.objects k₀) g.method = true) : s'.Ended k := by
  have hobjects := (birth h).1
  refine ⟨g, k₀, hg, Nat.lt_of_lt_of_le hk₀ (size_le_of_step h), ?_, ?_, ?_⟩
  · rw [(hobjects k₀ hk₀).id]
    exact hobject
  · rw [(hobjects k hk).id, (hobjects k₀ hk₀).id]
    exact hid
  · rw [(hobjects k₀ hk₀).isDestructor]
    exact hdes

/-- What is handled stays handled. -/
theorem mem_handled {g : Generic} {rest : List C2S} (h : step s .handle = some s')
    (hphase : s.phase = .batch (.generic g :: rest)) : .generic g ∈ s'.handled := by
  cases progress h with
  | handled msg rest' hbatch hhandled _ =>
    rw [hphase] at hbatch
    cases hbatch
    rw [hhandled]
    exact List.mem_append_right _ (List.mem_singleton_self _)
  | still _ _ _ hnot _ => exact absurd rfl hnot

/-- Who leaves had its destructor handled, or leaves with everybody. -/
theorem Accounted.ended (hs : Accounted s) {a : Action} (h : Server.step s a = some s')
    (hstays : s'.gone = false) {k : Nat} (hk : k < s.size) (hloses : Loses s a k) : s'.Ended k := by
  cases a with
  | handle =>
    obtain ⟨g, rest, k₀, hphase, hfind, hdes, hid⟩ := hloses
    obtain ⟨hin, hobject⟩ := objectForId_some hfind
    exact ended_of_step h (mem_handled h hphase) hk (hs.table_lt k₀ hin) hobject.symm hid hdes
  | return_ =>
    obtain ⟨rest, k₀, method, hphase, hdes, hid⟩ := hloses
    obtain ⟨hk₀, g, hg, hobject, hmethod⟩ := hs.callback rest k₀ method hphase
    exact ended_of_step h ((handled_of_step h).subset hg) hk hk₀ hobject hid (hmethod ▸ hdes)
  | visit =>
    have hleaving : s.phase = .leaving [] := hloses
    simp only [Server.step, hleaving, Option.some.injEq] at h
    rw [← h] at hstays
    cases hstays
  | _ => exact hloses.elim

/-- **Every step accounts for whom it loses.** -/
theorem Accounted.step {a : Action} (hs : Accounted s) (h : Server.step s a = some s') :
    Accounted s' := by
  obtain ⟨hobjects, -, hbirth⟩ := birth h
  refine ⟨fun k hk => ?_, fun hstays k hk => ?_, fun rest k method hphase => ?_, fun hgone => ?_⟩
  · cases hbirth with
    | none _ hsize _ htable _ => exact hsize ▸ hs.table_lt k (htable k hk)
    | made _ _ _ _ _ _ _ _ hsize _ _ htable _ _ =>
      rw [hsize]
      rcases htable k hk with hin | rfl
      · exact Nat.lt_succ_of_lt (hs.table_lt k hin)
      · exact Nat.lt_succ_self _
  · -- A client that is gone stays gone, so that this one was there before the step.
    have hopen : s.gone = false := by
      cases hgone : s.gone with
      | false => rfl
      | true =>
        rw [(gone_step ⟨hgone, hs.gone hgone⟩ h).gone, hgone] at hstays
        cases hstays
    rcases Nat.lt_or_ge k s.size with hlt | hge
    · rcases hs.table hopen k hlt with hin | hended
      · rcases (lists h).old k hin with hin' | hloses
        · exact .inl hin'
        · exact .inr (hs.ended h hstays hlt hloses)
      · obtain ⟨g, k₀, hg, hk₀, hobject, hid, hdes⟩ := hended
        exact .inr (ended_of_step h ((handled_of_step h).subset hg) hlt hk₀ hobject hid hdes)
    · exact .inl ((lists h).new k hge hk)
  · rcases callback_of_step h hphase with hback | ⟨g, rfl, hbatch, hfind, hmethod⟩
    · obtain ⟨hk, g, hg, hobject, hmethod⟩ := hs.callback rest k method hback
      refine ⟨Nat.lt_of_lt_of_le hk (size_le_of_step h), g, (handled_of_step h).subset hg, ?_, hmethod⟩
      rw [(hobjects k hk).id]
      exact hobject
    · obtain ⟨hin, hobject⟩ := objectForId_some hfind
      have hk := hs.table_lt k hin
      refine ⟨Nat.lt_of_lt_of_le hk (size_le_of_step h), g, mem_handled h hbatch, ?_, hmethod⟩
      rw [(hobjects k hk).id]
      exact hobject.symm
  · rcases gone_of_step h with hsame | hidle
    · rw [hsame] at hgone
      rw [(gone_step ⟨hgone, hs.gone hgone⟩ h).phase]
      exact hs.gone hgone
    · exact hidle

end Hyprwire.Server
