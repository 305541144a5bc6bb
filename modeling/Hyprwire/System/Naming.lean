import Hyprwire.System.Ledger

/-!
# `System/Naming.lean` — events for objects that have no id yet

A client makes its objects before the server does, and learns their ids from `NewObject`. Until
then the id in an object is 0, which is also a number that a message may carry. `on_generic` looks
for the id of the message in the table and knows nothing of that: every object with another id than
0 was named so by the server (`Ledger.named`), but a message for object 0 goes to the first object
that waits for its id.

So events go to named objects alone in exactly those runs in which no message for object 0 meets
such an object (`only_named_iff`).
-/

namespace Hyprwire.Client

variable {c c' : Client} {q : Nat} {g : Generic} {rest : List S2C}

/-- The server has given the object the id. -/
def NamedAs (c : Client) (h id : Nat) : Prop := .newObject (c.objects h).seq id ∈ c.handled

/-- `on_generic` hands the message to the object: it calls its `dispatch`. -/
def Delivers (c : Client) (g : Generic) (h : Nat) : Prop := c.objectForId g.object = some h

/-- The message was for an unknown object: the connection is given up, and nobody hears of it. -/
structure Rejected (c c' : Client) (q : Nat) (rest : List S2C) : Prop where
  error : c'.error = true
  shut : c'.shut = true
  unknownObject : c'.unknownObject = true
  phase : (c'.queues q).phase = .batch rest
  objects : c'.objects = c.objects
  table : c'.table = c.table

/-- **Events go to named objects**: a generic message is delivered to an object with its id only if
the server has named the object so, and is rejected when there is no such object. A callback is one
for the object it was delivered to. -/
def OnlyNamed (c : Client) (a : Action) : Prop :=
  ∀ q g rest c', a = .handle q → (c.queues q).phase = .batch (.generic g :: rest) →
    step c a = some c' →
    (∀ h, Delivers c g h → h ∈ c.table ∧ NamedAs c h g.object) ∧
      (∀ h method, (c'.queues q).phase = .callback rest h method → Delivers c g h) ∧
      ((∀ h ∈ c.table, ¬ NamedAs c h g.object) → Rejected c c' q rest)

/-- **The condition** on a message for object 0: the first object in the table without an id, if
there is one, was given the id 0. -/
def Identified (c : Client) (a : Action) : Prop :=
  ∀ q g rest, a = .handle q → (c.queues q).phase = .batch (.generic g :: rest) → g.object = 0 →
    ∀ h, c.objectForId 0 = some h → NamedAs c h 0

/-- An id that is not 0 was given to the object that is found by it. -/
theorem Ledger.namedAs (hc : Ledger c) {h id : Nat} (hid : id ≠ 0)
    (hfind : c.objectForId id = some h) : NamedAs c h id := by
  obtain ⟨-, heq⟩ := objectForId_some hfind
  have hnamed := hc.named h (heq ▸ hid)
  rwa [heq] at hnamed

theorem rejected_of_none (hfind : c.objectForId g.object = none) :
    Rejected c (c.handle q (.generic g) rest) q rest := by
  have hfind' : objectForId { c with handled := c.handled ++ [S2C.generic g] } g.object = none := hfind
  have heq : c.handle q (.generic g) rest
      = ({ c with handled := c.handled ++ [S2C.generic g], unknownObject := true
           }.disconnectOnError).setPhase q (.batch rest) := by
    simp only [handle, onGeneric, hfind']
  rw [heq]
  refine ⟨rfl, rfl, rfl, ?_, rfl, rfl⟩
  simp [setPhase, setQueue]

/-- A callback that a generic message begins is one for the object that was found. -/
theorem delivers_of_callback {h method : Nat}
    (hphase : ((c.handle q (.generic g) rest).queues q).phase = .callback rest h method) :
    Delivers c g h := by
  simp only [handle, onGeneric] at hphase
  cases hfind : objectForId { c with handled := c.handled ++ [S2C.generic g] } g.object with
  | none =>
    rw [hfind] at hphase
    simp [setPhase, setQueue] at hphase
  | some found =>
    rw [hfind] at hphase
    simp only at hphase
    split at hphase
    · simp only [setPhase, setQueue, if_true, Phase.callback.injEq] at hphase
      exact hphase.2.1 ▸ hfind
    · simp [setPhase, setQueue] at hphase

/-- **One message**: it finds named objects alone in exactly the case of the condition. -/
theorem onlyNamed_iff (hc : Ledger c) {a : Action} (hstep : step c a = some c') :
    OnlyNamed c a ↔ Identified c a := by
  constructor
  · intro honly q g rest ha hphase hzero h hfind
    have hdelivers : Delivers c g h := by
      rw [Delivers, hzero]
      exact hfind
    have hnamed := ((honly q g rest c' ha hphase hstep).1 h hdelivers).2
    rwa [hzero] at hnamed
  · intro hcond q g rest t ha hphase ht
    have hnamed : ∀ h, Delivers c g h → h ∈ c.table ∧ NamedAs c h g.object := by
      intro h hdelivers
      refine ⟨(objectForId_some hdelivers).1, ?_⟩
      by_cases hzero : g.object = 0
      · rw [Delivers, hzero] at hdelivers
        rw [hzero]
        exact hcond q g rest ha hphase hzero h hdelivers
      · exact hc.namedAs hzero hdelivers
    subst ha
    have heq : t = c.handle q (.generic g) rest := by
      simp only [step, hphase, Option.some.injEq] at ht
      exact ht.symm
    rw [heq]
    refine ⟨hnamed, fun h method => delivers_of_callback, fun hnobody => rejected_of_none ?_⟩
    cases hfind : c.objectForId g.object with
    | none => rfl
    | some h =>
      obtain ⟨hin, hgiven⟩ := hnamed h hfind
      exact absurd hgiven (hnobody h hin)

/-- **Events go to named objects in exactly the runs of the condition.** -/
theorem only_named_iff {impls : List ProtocolSpec} {as : List Action} {c : Client}
    (hrun : Run.run step { impls } as = some c) :
    Run.Meets step OnlyNamed { impls } as ↔ Run.Meets step Identified { impls } as :=
  Run.meets_congr (fun _ _ _ hc h => Ledger.step hc h) (fun _ _ _ hc h => onlyNamed_iff hc h)
    (.init impls) hrun

/-! ## Two runs -/

/-- An object is bound, and before it has an id a message arrives for object `id`. -/
def unnamedThen (id : Nat) : List Action :=
  [.read 0 [.handshakeProtocols [("shop", 1)]], .handle 0, .finish 0, .bind 0 shopProtocol 1,
    .read 0 [.generic ⟨id, 0, 0, [], 0, 0, false, none⟩], .handle 0]

/-- A message for another object is rejected. -/
theorem only_named_iff_other : ∃ c, Run.run step {} (unnamedThen 5) = some c ∧
    c.unknownObject = true ∧ Run.Meets step OnlyNamed {} (unnamedThen 5) := by
  refine ⟨_, rfl, rfl, (@only_named_iff [] _ _ rfl).mpr ?_⟩
  refine Run.meets_cons nofun rfl (Run.meets_cons ?_ rfl (Run.meets_cons nofun rfl
    (Run.meets_cons nofun rfl (Run.meets_cons nofun rfl (Run.meets_cons ?_ rfl trivial)))))
  · rintro q g rest ⟨⟩ hphase
    cases hphase
  · rintro q g rest ⟨⟩ hphase hzero
    cases hphase
    cases hzero

/-- **A message for object 0 is delivered to an object without an id.** -/
theorem not_only_named : ¬ ∀ (impls : List ProtocolSpec) (as : List Action) (c : Client),
    Run.run step { impls } as = some c → Run.Meets step OnlyNamed { impls } as := by
  intro hall
  have hmeets := hall [] (unnamedThen 0) _ rfl
  have hlast := (@Run.meets_drop _ _ step OnlyNamed ((unnamedThen 0).take 5)
    ((unnamedThen 0).drop 5) _ _ rfl hmeets).1
  have hnamed := ((hlast 0 _ [] _ rfl rfl rfl).1 0 rfl).2
  exact absurd hnamed (by unfold NamedAs; decide)

end Hyprwire.Client
