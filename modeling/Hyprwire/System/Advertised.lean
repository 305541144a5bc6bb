import Hyprwire.System.Handshake

/-!
# `System/Advertised.lean` — what a server holds of what it advertises

A server advertises its protocols with their versions, and a client that respects them checks
both before it binds. `create_object` checks neither: it looks for an interface, makes the object
whether it found one or not, with the version it was asked for, and answers `NewObject`.

So every object in the table is one that was advertised (`Enforced`) in exactly those runs whose
messages ask for such objects (`Honoured`), and a message that asks for another one is answered
like any other.
-/

namespace Hyprwire.Server

variable {s s' : Server}

/-- A registered implementation of the protocol has the interface and reaches the version. -/
def Offers (impls : List ProtocolSpec) (protocol : String) (spec : ObjectSpec) (version : Nat) :
    Prop :=
  ∃ imp ∈ impls, imp.specName = protocol ∧ spec ∈ imp.objects ∧ version ≤ imp.specVer.toNat

/-- The object is one the server advertises. -/
def Advertised (impls : List ProtocolSpec) (obj : ServerObject) : Prop :=
  ∃ spec, obj.spec = some spec ∧ 1 ≤ obj.version ∧
    Offers impls obj.protocolName spec obj.version

/-- **What is in the table was advertised.** -/
def Enforced (s : Server) : Prop := ∀ k ∈ s.table, Advertised s.impls (s.objects k)

/-- A bind of what is not registered, or not in that version, is answered with an error and with
no object. -/
def Refuses (s : Server) (a : Action) (s' : Server) : Prop :=
  ∀ seq version protocol rest, a = .handle →
    s.phase = .batch (.bindProtocol seq version protocol :: rest) →
    (¬ ∃ imp ∈ s.impls, imp.specName = protocol ∧ version ≤ imp.specVer.toNat) →
    ∃ answer, s'.out = s.out ++ answer ∧ (∀ seq id, .newObject seq id ∉ answer) ∧
      ∃ objectId errorId errorMsg, .fatalProtocolError objectId errorId errorMsg ∈ answer

/-- What a message may ask for: a bind, the root object of a protocol in a version it has; a
generic message that makes an object, an interface its object's protocol has. -/
def Honoured (s : Server) : C2S → Prop
  | .bindProtocol _ version protocol =>
    version = 0 ∨ ∃ spec, rootSpec s.impls protocol = some spec ∧
      Offers s.impls protocol spec version
  | .generic msg =>
    ∀ k m, s.objectForId msg.object = some k → callsBack (s.objects k) msg.method = true →
      (s.objects k).methodsIn[msg.method]? = some m → m.returnsType ≠ "" →
      ∃ spec, specFor s.impls (s.objects k).protocolName m.returnsType = some spec ∧
        Offers s.impls (s.objects k).protocolName spec (s.objects k).version
  | _ => True

/-- The condition on a step: the message that is handled may ask for what it does. -/
def Honours (s : Server) (a : Action) : Prop :=
  ∀ msg rest, a = .handle → s.phase = .batch (msg :: rest) → s.Honoured msg

/-! ## Objects that stay and objects that come -/

theorem SameObject.advertised {obj obj' : ServerObject} (h : SameObject obj obj')
    {impls : List ProtocolSpec} : Advertised impls obj' ↔ Advertised impls obj := by
  rw [Advertised, Advertised, h.spec, h.version, h.protocolName]

theorem Enforced.still (hs : Enforced s) (h : Still s s') : Enforced s' := by
  intro k hk
  obtain ⟨p, hp⟩ := h.table
  rw [hp] at hk
  rw [h.impls, (h.objects k).advertised]
  exact hs k (List.mem_filter.mp hk).1

theorem enforced_aside (h : Aside s s') : Enforced s' ↔ Enforced s := by
  rw [Enforced, Enforced, h.table, h.impls]
  constructor
  · intro hs k hk
    exact (h.objects k).advertised.mp (hs k hk)
  · intro hs k hk
    exact (h.objects k).advertised.mpr (hs k hk)

/-- A table that takes in an object is as good as that object. -/
theorem enforced_createObject (hs : Enforced s) (hlt : ∀ k ∈ s.table, k < s.size)
    (protocol objectName : String) (version seq : Nat) :
    Enforced (s.createObject protocol objectName version seq) ↔
      Advertised s.impls (s.created protocol objectName version seq) := by
  rw [createObject_eq, Enforced]
  constructor
  · intro h
    have hlast := h s.size (List.mem_append.mpr (.inr (List.mem_singleton_self _)))
    simpa using hlast
  · intro h k hk
    rcases List.mem_append.mp hk with hk | hk
    · simp only [if_neg (Nat.ne_of_lt (hlt k hk))]
      exact hs k hk
    · rw [List.mem_singleton.mp hk]
      simpa using h

/-- A request that makes an object makes this one. -/
theorem onGeneric_made {msg : Generic} {rest : List C2S} {k : Nat} {m : MethodSpec}
    (hfind : s.objectForId msg.object = some k)
    (hcalls : callsBack (s.objects k) msg.method = true)
    (hm : (s.objects k).methodsIn[msg.method]? = some m) (hret : m.returnsType ≠ "") :
    s.onGeneric msg rest =
      { ((s.note k msg.method).createObject (s.objects k).protocolName m.returnsType
            (s.objects k).version msg.seq).setObject s.size
          (fun obj => { obj with objectData := true }) with
        phase := .callback rest k (some msg.method) } := by
  simp only [callsBack, hm, hret, decide_false, Bool.false_or, Bool.and_eq_true,
    Bool.not_eq_true'] at hcalls
  have hobjects : (s.note k msg.method).objects = s.objects := by rw [note_eq]
  have hsize : (s.note k msg.method).size = s.size := by rw [note_eq]
  unfold onGeneric dispatch
  simp only [hfind, hobjects, hsize, hm]
  rw [if_neg (by simp [hcalls.1]), if_neg hret, if_neg (by simp [hcalls.2])]

/-! ## One step -/

/-- The object a bind makes is advertised when the bind may ask for it. -/
theorem enforced_bind {seq version : Nat} {protocol : String} {rest : List C2S}
    (hlt : ∀ k ∈ s.table, k < s.size) (hs : Enforced s) :
    Enforced (s.handle (.bindProtocol seq version protocol) rest) ↔
      s.Honoured (.bindProtocol seq version protocol) := by
  by_cases hversion : version = 0
  · subst hversion
    have hheard : Enforced (s.heard (.bindProtocol seq 0 protocol) rest) := hs
    exact iff_of_true (hheard.still (.abort ..)) (.inl rfl)
  · have hheard : Enforced (s.heard (.bindProtocol seq version protocol) rest) := hs
    have hnew := enforced_createObject hheard hlt protocol "" version seq
    rw [handle_bind_eq s seq protocol rest hversion]
    refine Iff.trans hnew ?_
    simp only [Advertised, created, findSpec, if_true, Honoured, hversion, false_or]
    constructor
    · intro h
      obtain ⟨spec, hspec, -, hoffers⟩ := h
      exact ⟨spec, hspec, hoffers⟩
    · intro h
      obtain ⟨spec, hspec, hoffers⟩ := h
      exact ⟨spec, hspec, Nat.one_le_iff_ne_zero.mpr hversion, hoffers⟩

/-- The object a request makes has the version of its parent. -/
theorem enforced_generic {msg : Generic} {rest : List C2S} (hlt : ∀ k ∈ s.table, k < s.size)
    (hs : Enforced s) :
    Enforced (s.handle (.generic msg) rest) ↔ s.Honoured (.generic msg) := by
  rw [handle_generic]
  by_cases hmade : ∃ k m, s.objectForId msg.object = some k ∧
      callsBack (s.objects k) msg.method = true ∧
      (s.objects k).methodsIn[msg.method]? = some m ∧ m.returnsType ≠ ""
  · obtain ⟨k, m, hfind, hcalls, hm, hret⟩ := hmade
    have hnoted : Enforced ((s.heard (.generic msg) rest).note k msg.method) := by
      rw [note_eq]
      exact hs
    have hnew := enforced_createObject hnoted (by rw [note_eq]; exact hlt)
      (s.objects k).protocolName m.returnsType (s.objects k).version msg.seq
    have hdata : Aside ((s.heard (.generic msg) rest).note k msg.method |>.createObject
          (s.objects k).protocolName m.returnsType (s.objects k).version msg.seq)
        _ := .setObject _ s.size (f := fun obj => { obj with objectData := true })
          fun _ => ⟨rfl, rfl, rfl, rfl, rfl, id, fun _ => rfl⟩
    have hmade : (s.heard (.generic msg) rest).onGeneric msg rest = _ :=
      onGeneric_made (s := s.heard (.generic msg) rest) hfind hcalls hm hret
    rw [hmade]
    have hsame := (enforced_aside hdata).trans hnew
    refine Iff.trans hsame ?_
    rw [note_eq]
    -- The version was the parent's, and that one was advertised.
    obtain ⟨-, -, hversion, -⟩ := hs k (List.mem_of_find?_eq_some hfind)
    simp only [Advertised, created, findSpec, if_neg hret]
    constructor
    · intro h k' m' hfind' _ hm' _
      rw [hfind] at hfind'
      cases hfind'
      rw [hm] at hm'
      cases hm'
      obtain ⟨spec, hspec, -, hoffers⟩ := h
      exact ⟨spec, hspec, hoffers⟩
    · intro h
      obtain ⟨spec, hspec, hoffers⟩ := h k m hfind hcalls hm hret
      exact ⟨spec, hspec, hversion, hoffers⟩
  · refine iff_of_true ?_ ?_
    · have hheard : Enforced (s.heard (.generic msg) rest) := hs
      rcases onGeneric_still (s.heard (.generic msg) rest) msg rest with
        hstill | ⟨k, m, hfind, hcalls, hm, hret, -⟩
      · exact hheard.still hstill
      · exact absurd ⟨k, m, hfind, hcalls, hm, hret⟩ hmade
    · intro k m hfind hcalls hm hret
      exact absurd ⟨k, m, hfind, hcalls, hm, hret⟩ hmade

/-- **A step keeps the table advertised exactly when the message it handles may ask for what it
does.** -/
theorem enforced_iff_honours {a : Action} (hg : Greeted s) (hs : Enforced s)
    (h : step s a = some s') : Enforced s' ↔ Honours s a := by
  by_cases ha : a = .handle
  · subst ha
    obtain ⟨msg, rest, hphase, rfl⟩ := step_handle h
    have hhonours : Honours s .handle ↔ s.Honoured msg := by
      constructor
      · intro hall
        exact hall msg rest rfl hphase
      · intro hmsg msg' rest' _ hphase'
        rw [hphase'] at hphase
        cases hphase
        exact hmsg
    rw [hhonours]
    cases msg with
    | sup =>
      have hheard : Enforced (s.heard .sup rest) := hs
      exact iff_of_true ((enforced_aside (.write _ _)).mpr hheard) trivial
    | handshakeAck version =>
      have hheard : Enforced (s.heard (.handshakeAck version) rest) := hs
      have hwritten := (enforced_aside (.write _ (.handshakeProtocols
        (s.impls.map fun imp => (imp.specName, imp.specVer.toNat))))).mpr hheard
      exact iff_of_true hwritten trivial
    | bindProtocol seq version protocol => exact enforced_bind hg.table_lt hs
    | generic g => exact enforced_generic hg.table_lt hs
    | roundtripRequest seq queue =>
      have hheard : Enforced (s.heard (.roundtripRequest seq queue) rest) := hs
      exact iff_of_true hheard trivial
  · refine iff_of_true (hs.still (still_of_step h ha)) ?_
    intro _ _ ha'
    exact absurd ha' ha

/-- What is never put in the table was refused. -/
theorem refuses_of_enforced {a : Action} (hg : Greeted s) (h : step s a = some s')
    (hs' : Enforced s') : Refuses s a s' := by
  intro seq version protocol rest ha hphase hnot
  subst ha
  obtain ⟨msg, rest', hphase', rfl⟩ := step_handle h
  rw [hphase] at hphase'
  cases hphase'
  by_cases hversion : version = 0
  · subst hversion
    -- A version of 0 is not decoded, whatever protocol it is for.
    have hshut : (s.heard (.bindProtocol seq 0 protocol) rest).shut = false := by
      cases hshut : s.shut with
      | false => exact hshut
      | true =>
        have hclosed := (hg.opened hshut).1
        rw [hphase] at hclosed
        cases hclosed
    have hout := write_out (s.heard (.bindProtocol seq 0 protocol) rest)
      (.fatalProtocolError 0 (wordSize - 1) "fatal: failed to handle message on wire")
    rw [if_neg (by rw [hshut]; simp)] at hout
    refine ⟨_, hout, ?_, _, _, _, List.mem_singleton_self _⟩
    intro seq' id hin
    cases List.mem_singleton.mp hin
  · -- Any other one makes an object, and its protocol does not reach the version.
    obtain ⟨phase, -, heq⟩ := handle_bind s seq protocol rest hversion
    have hnew := hs' s.size (by
      rw [heq, createObject_eq]
      exact List.mem_append.mpr (.inr (List.mem_singleton_self _)))
    rw [heq, createObject_eq] at hnew
    simp only [heard, if_true] at hnew
    obtain ⟨spec, -, -, imp, himp, hname, -, hle⟩ := hnew
    exact absurd ⟨imp, himp, hname, hle⟩ hnot

/-! ## Whole runs -/

/-- **A server enforces what it advertises in exactly the runs whose messages respect it**: every
object in its table is one it advertises, and a bind of anything else is refused. -/
theorem enforced_iff {impls : List ProtocolSpec} {as : List Action}
    (hrun : Run.run step { impls } as = some s) :
    Run.Meets step (fun s a => ∀ s', step s a = some s' → Enforced s' ∧ Refuses s a s') { impls } as ↔
      Run.Meets step Honours { impls } as := by
  have hgreeted : ∀ s a s', Greeted s → step s a = some s' → Greeted s' :=
    fun s a s' hg h => hg.step h
  have hinit : Enforced { impls } := by
    intro k hk
    cases hk
  rw [← @Run.meets_kept_iff _ _ step Greeted Enforced Honours hgreeted
    (fun s a s' hg hs h => enforced_iff_honours hg hs h) as _ _ (.init impls) hinit hrun]
  refine Run.meets_congr hgreeted ?_ (.init impls) hrun
  intro s a s' hg h
  constructor
  · intro hboth t ht
    exact (hboth t ht).1
  · intro hkept t ht
    exact ⟨hkept t ht, refuses_of_enforced hg ht (hkept t ht)⟩

/-- A client that binds the manager and has it make an item. -/
def shopping : List Action :=
  [.read [.bindProtocol 1 1 "shop", .generic ⟨1, 0, 2, [], 0, 0, false, none⟩], .handle, .return_,
    .handle, .return_, .finish]

theorem enforced_iff_shopping : ∃ s, Run.run step { impls := [shopProtocol] } shopping = some s ∧
    s.table = [0, 1] ∧
    Run.Meets step (fun s a => ∀ s', step s a = some s' → Enforced s' ∧ Refuses s a s')
      { impls := [shopProtocol] } shopping := by
  have hhonours : Run.Meets step Honours { impls := [shopProtocol] } shopping := by
    refine Run.meets_cons (fun _ _ h => by cases h) rfl (Run.meets_cons (fun _ _ _ hphase => ?_) rfl
      (Run.meets_cons (fun _ _ h => by cases h) rfl (Run.meets_cons (fun _ _ _ hphase => ?_) rfl
        (Run.meets_cons (fun _ _ h => by cases h) rfl (Run.meets_cons (fun _ _ h => by cases h) rfl
          trivial)))))
    · cases hphase
      exact .inr ⟨_, rfl, shopProtocol, .head _, rfl, .head _, by decide⟩
    · cases hphase
      intro k m hk _ hm _
      cases (show some 0 = some k from hk)
      cases hm
      exact ⟨_, rfl, shopProtocol, .head _, rfl, .tail _ (.head _), by decide⟩
  exact ⟨_, rfl, rfl, (enforced_iff rfl).mpr hhonours⟩

/-- A client that wants version 7 of a protocol that has only one. -/
def overreaching : List Action := [.read [.bindProtocol 1 7 "shop"], .handle]

/-- It gets version 7, and `NewObject` for an answer. -/
theorem not_always_enforced : ¬ ∀ (impls : List ProtocolSpec) (as : List Action) (s : Server),
    Run.run step { impls } as = some s →
      Run.Meets step (fun s a => ∀ s', step s a = some s' → Enforced s' ∧ Refuses s a s')
        { impls } as := by
  intro h
  have hkept := (h [shopProtocol] overreaching _ rfl).2 _ rfl
  obtain ⟨-, -, -, imp, himp, -, -, hle⟩ := (hkept.1 _ rfl).1 0 (List.mem_singleton_self 0)
  obtain rfl := List.mem_singleton.mp himp
  exact absurd hle (by decide)

end Hyprwire.Server
