import Hyprwire.System.Ledger
import Hyprwire.System.Turn

/-!
# `System/Fatal.lean` — what happens behind a fatal error

Most of what sets the error flag of a connection returns `Ok` to the loop of `handle_message`,
which goes on with the batch, and `dispatch_client` goes on to acknowledge a roundtrip. Whether
an error is final (`Final`) is then up to what the batch still holds (`Spent`).
-/

namespace Hyprwire

/-! ## The server -/

namespace Server

variable {s s' : Server}

/-- No user code runs, no object is made and nothing is said. -/
structure Quiet (s s' : Server) : Prop where
  called : ∀ rest k method, s'.phase ≠ .callback rest k method
  made : s'.size = s.size
  told : s'.out = s.out

/-- What is left of the traffic of a connection in error does nothing. -/
def Final (s : Server) (a : Action) : Prop :=
  s.error = true → (a = .handle ∨ a = .malformed ∨ a = .finish ∨ a = .unreadable) →
    ∀ s', step s a = some s' → Quiet s s'

/-- A message that does nothing: a roundtrip request, or one that reaches an object which runs no
user code for it. -/
def Inert (s : Server) : C2S → Prop
  | .roundtripRequest _ _ => True
  | .generic msg => ∃ k, s.objectForId msg.object = some k ∧ callsBack (s.objects k) msg.method = false
  | _ => False

/-- **What is left of the traffic of a connection in error** does nothing; the batch can be
decoded to its end, and no roundtrip is scheduled there. -/
def Spent (s : Server) (a : Action) : Prop :=
  s.error = true →
    match a with
    | .handle => ∀ msg rest, s.phase = .batch (msg :: rest) → Inert s msg
    | .malformed | .unreadable => False
    | .finish => s.scheduledRoundtripSeq = 0
    | _ => True

theorem quiet_abort (hshut : s.shut = false) (errorMsg : String) :
    ¬ Quiet s (s.abort errorMsg) := by
  intro h
  have hout : (s.abort errorMsg).out = s.out ++ [.fatalProtocolError 0 (wordSize - 1) errorMsg] :=
    (write_out ..).trans (if_neg (by simp [hshut]))
  exact out_ne_append (hout.symm.trans h.told)

/-- A message is quiet when it reaches an object without user code for it, or asks for a
roundtrip. -/
theorem quiet_handle {msg : C2S} {rest : List C2S} (hshut : s.shut = false) :
    Quiet s (s.handle msg rest) ↔ Inert s msg := by
  have hlive : ¬ s.shut = true := by simp [hshut]
  cases msg with
  | sup =>
    refine iff_of_false (fun h => ?_) id
    have hout : (s.handle .sup rest).out = s.out ++ [.handshakeBegin [1]] :=
      (write_out (s.heard .sup rest) _).trans (if_neg hlive)
    exact out_ne_append (hout.symm.trans h.told)
  | handshakeAck version =>
    refine iff_of_false (fun h => ?_) id
    have hout : (s.handle (.handshakeAck version) rest).out =
        s.out ++ [.handshakeProtocols (s.impls.map fun imp => (imp.specName, imp.specVer.toNat))] :=
      (write_out (s.heard (.handshakeAck version) rest) _).trans (if_neg hlive)
    exact out_ne_append (hout.symm.trans h.told)
  | bindProtocol seq version protocol =>
    refine iff_of_false (fun h => ?_) id
    by_cases hversion : version = 0
    · subst hversion
      rw [handle_bind_zero] at h
      exact quiet_abort (s := s.heard (.bindProtocol seq 0 protocol) rest) hshut _
        ⟨h.called, h.made, h.told⟩
    · obtain ⟨phase, -, heq⟩ := handle_bind s seq protocol rest hversion
      have hmade := h.made
      rw [heq, createObject_eq] at hmade
      exact absurd hmade (Nat.succ_ne_self _)
  | generic g =>
    rw [handle_generic]
    have hfind : (s.heard (.generic g) rest).objectForId g.object = s.objectForId g.object := rfl
    have hdelivered := delivered (s.heard (.generic g) rest) g rest
    generalize (s.heard (.generic g) rest).onGeneric g rest = t at hdelivered
    cases hdelivered with
    | unknown hnone =>
      rw [hfind] at hnone
      refine iff_of_false (fun h => ?_) (fun ⟨k, hk, _⟩ => by rw [hnone] at hk; cases hk)
      have hout := write_out (s.heard (.generic g) rest) (.fatalProtocolError g.object (wordSize - 1)
        s!"generic message references unknown object {g.object}")
      rw [if_neg (show ¬ (s.heard (.generic g) rest).shut = true from hlive)] at hout
      exact out_ne_append (hout.symm.trans h.told)
    | silent k hsome hquiet =>
      refine iff_of_true ⟨nofun, ?_, ?_⟩ ⟨k, hfind ▸ hsome, hquiet⟩
      · simp only [afterDispatch_eq, note_eq]
        split <;> rfl
      · simp only [afterDispatch_eq, note_eq]
        split <;> rfl
    | called k hsome hcalls =>
      refine iff_of_false (fun h => h.called rest k (some g.method) rfl) ?_
      rintro ⟨k', hk', hquiet⟩
      rw [← hfind, hsome] at hk'
      cases hk'
      have hcalls' : callsBack (s.objects k) g.method = true := hcalls
      rw [hquiet] at hcalls'
      cases hcalls'
    | made k m hsome hcalls hm hret =>
      refine iff_of_false (fun h => h.called rest k (some g.method) rfl) ?_
      rintro ⟨k', hk', hquiet⟩
      rw [← hfind, hsome] at hk'
      cases hk'
      have hcalls' : callsBack (s.objects k) g.method = true := hcalls
      rw [hquiet] at hcalls'
      cases hcalls'
  | roundtripRequest seq queue => exact iff_of_true ⟨nofun, rfl, rfl⟩ trivial

theorem quiet_finish (hshut : s.shut = false) (herror : s.error = true) :
    Quiet s s.finish ↔ s.scheduledRoundtripSeq = 0 := by
  have hout : s.finish.out = s.acknowledge.out := by
    unfold finish
    simp only
    split <;> rfl
  unfold acknowledge at hout
  split at hout
  · next hpos =>
    refine iff_of_false (fun h => ?_) (Nat.pos_iff_ne_zero.mp hpos)
    have hdone := hout.trans (write_out s (.roundtripDone s.scheduledRoundtripSeq s.scheduledRequest))
    rw [if_neg (by simp [hshut])] at hdone
    exact out_ne_append (hdone.symm.trans h.told)
  · next hpos =>
    have hzero : s.scheduledRoundtripSeq = 0 := Nat.eq_zero_of_not_pos hpos
    refine iff_of_true ?_ hzero
    unfold finish acknowledge
    simp only [hpos, if_false, herror, if_true]
    exact ⟨nofun, rfl, rfl⟩

/-- An error is final at a step exactly when the step has nothing left to do. -/
theorem final_iff_spent {a : Action} (ho : s.Open) (h : step s a = some s') :
    Final s a ↔ Spent s a := by
  have hsame : ∀ {p : Prop}, (∀ s', step s a = some s' → (Quiet s s' ↔ p)) →
      ((∀ s', step s a = some s' → Quiet s s') ↔ p) := by
    intro p hp
    constructor
    · intro hq
      exact (hp s' h).mp (hq s' h)
    · intro hq s'' h''
      exact (hp s'' h'').mpr hq
  have hlive : s.phase.dispatching = true → s.shut = false := by
    intro hphase
    cases hshut : s.shut with
    | false => rfl
    | true => exact absurd hphase (by simp [(ho hshut).1])
  unfold Final Spent
  refine forall_congr' fun herror => ?_
  cases a with
  | handle =>
    obtain ⟨msg, rest, hphase, -⟩ := step_handle h
    simp only [true_or, forall_const]
    have hquiet : (∀ s', step s .handle = some s' → Quiet s s') ↔ Inert s msg := by
      refine hsame fun t ht => ?_
      obtain ⟨msg', rest', hphase', rfl⟩ := step_handle ht
      rw [hphase] at hphase'
      cases hphase'
      exact quiet_handle (hlive (by rw [hphase]; rfl))
    refine hquiet.trans ⟨fun hinert msg' rest' hphase' => ?_, fun hinert => ?_⟩
    · rw [hphase] at hphase'
      cases hphase'
      exact hinert
    · exact hinert msg rest hphase
  | malformed =>
    simp only [true_or, or_true, forall_const]
    refine hsame fun t ht => iff_of_false ?_ id
    simp only [step] at ht
    split at ht
    · next rest hphase =>
      cases ht
      exact quiet_abort (hlive (by rw [hphase]; rfl)) _
    · cases ht
  | finish =>
    simp only [true_or, or_true, forall_const]
    refine hsame fun t ht => ?_
    simp only [step] at ht
    split at ht
    · next hphase =>
      cases ht
      exact quiet_finish (hlive (by rw [hphase]; rfl)) herror
    · cases ht
  | unreadable =>
    simp only [or_true, forall_const]
    refine hsame fun t ht => iff_of_false ?_ id
    simp only [step, Option.ite_none_right_eq_some, Option.some.injEq] at ht
    obtain ⟨⟨hphase, hgone⟩, rfl⟩ := ht
    refine quiet_abort ?_ _
    cases hshut : s.shut with
    | false => rfl
    | true =>
      have := (ho hshut).2 hphase
      rw [hgone] at this
      cases this
  | _ => simp

end Server

/-! ## The client -/

namespace Client

variable {c c' : Client}

/-- Handling the event runs user code. -/
def callsBack (obj : ClientObject) (method : Nat) : Bool :=
  obj.objectData && decide (method < obj.methodsIn.length)

/-- The event destroys its object. -/
def isDestructor (obj : ClientObject) (method : Nat) : Bool :=
  match obj.methodsIn[method]? with
  | some m => m.destructor
  | none => false

/-- No user code runs on the queue, no object is made and nothing is said. -/
structure Quiet (q : Nat) (c c' : Client) : Prop where
  called : ∀ rest h method, (c'.queues q).phase ≠ .callback rest h method
  made : c'.size = c.size
  told : c'.out = c.out

/-- The messages of a connection in error do nothing. -/
def Final (c : Client) (a : Action) : Prop :=
  c.error = true → ∀ q, a = .handle q → ∀ c', step c a = some c' → Quiet q c c'

/-- A message that does nothing: no event that runs user code or destroys its object, and no
version to agree on while the stream is open. -/
def Inert (c : Client) : S2C → Prop
  | .handshakeBegin versions => 1 ∉ versions ∨ c.shut = true
  | .generic msg =>
    ∀ h, c.objectForId msg.object = some h →
      callsBack (c.objects h) msg.method = false ∧ isDestructor (c.objects h) msg.method = false
  | _ => True

/-- **What is left of the traffic of a connection in error** does nothing. -/
def Spent (c : Client) (a : Action) : Prop :=
  c.error = true →
    ∀ q msg rest, a = .handle q → (c.queues q).phase = .batch (msg :: rest) → Inert c msg

theorem quiet_setQueue {q : Nat} {f : EventQueue → EventQueue} (hsize : c'.size = c.size)
    (hout : c'.out = c.out)
    (hphase : ∀ queue rest h method, (f queue).phase ≠ .callback rest h method) :
    Quiet q c (c'.setQueue q f) where
  called rest h method := by
    simp only [setQueue, if_true]
    exact hphase _ rest h method
  made := hsize
  told := hout

theorem afterDispatch_of_not_destructor {h method : Nat}
    (hm : isDestructor (c.objects h) method = false) : c.afterDispatch h method = c := by
  unfold afterDispatch
  unfold isDestructor at hm
  split
  · rfl
  · next m hmethod =>
    rw [hmethod] at hm
    simp only at hm
    rw [if_neg (by simp [hm])]

theorem quiet_handle {q : Nat} {msg : S2C} {rest : List S2C} (h : Inert c msg) :
    Quiet q c (c.handle q msg rest) := by
  unfold handle
  cases msg with
  | handshakeBegin versions =>
    simp only
    split
    · next hin =>
      have hshut : c.shut = true := h.resolve_left fun hnot => hnot hin
      refine quiet_setQueue ?_ ?_ (by simp)
      · simp [write, hshut]
      · simp [write, hshut]
    · exact quiet_setQueue rfl rfl (by simp)
  | handshakeProtocols protocols => exact quiet_setQueue rfl rfl (by simp)
  | newObject seq id =>
    obtain ⟨f, -, i, heq⟩ := onSeq_eq { c with handled := c.handled ++ [.newObject seq id] } seq id
    simp only
    rw [heq]
    exact quiet_setQueue rfl rfl (by simp)
  | generic g =>
    simp only [onGeneric]
    split
    · exact quiet_setQueue rfl rfl (by simp)
    · next i hfind =>
      obtain ⟨hquiet, hdes⟩ := h i hfind
      rw [if_neg (by simpa [callsBack] using hquiet)]
      have hsame : ({ c with handled := c.handled ++ [.generic g] } : Client).afterDispatch i
          g.method = { c with handled := c.handled ++ [.generic g] } :=
        afterDispatch_of_not_destructor hdes
      rw [hsame]
      exact quiet_setQueue rfl rfl (by simp)
  | fatalProtocolError objectId errorId errorMsg => exact quiet_setQueue rfl rfl (by simp)
  | roundtripDone seq request => exact quiet_setQueue rfl rfl (by simp)

theorem final_of_spent {a : Action} (h : Spent c a) : Final c a := by
  rintro herror q rfl c' hstep
  simp only [step] at hstep
  split at hstep
  · next msg rest hphase =>
    cases hstep
    exact quiet_handle (h herror q msg rest rfl hphase)
  · cases hstep

end Client

/-! ## Both roles -/

/-- **An error is final** in the runs in which what the connection still holds does nothing: for
a server in exactly those. -/
theorem fatal_is_final (impls : List ProtocolSpec) :
    (∀ (as : List Server.Action) (s : Server), Run.run Server.step { impls } as = some s →
      (Run.Meets Server.step Server.Final { impls } as ↔
        Run.Meets Server.step Server.Spent { impls } as)) ∧
    ∀ as : List Client.Action,
      Run.Meets Client.step Client.Spent { impls } as →
        Run.Meets Client.step Client.Final { impls } as := by
  refine ⟨fun as s hrun => ?_, fun as => Run.meets_mono fun c a => Client.final_of_spent⟩
  exact Run.meets_congr (fun s a s' ho h => Server.Open.step ho h)
    (fun s a s' ho h => Server.final_iff_spent ho h) (Server.open_of_shut rfl) hrun

/-- The unknown object is named last, and what stands behind the fatal error does nothing. -/
theorem fatal_is_final_last :
    (∃ s, Run.run Server.step { impls := [shopProtocol] }
        [.read [.generic ⟨7, 0, 0, [], 0, 0, false, none⟩], .handle, .finish] = some s ∧
      s.error = true ∧
      Run.Meets Server.step Server.Final { impls := [shopProtocol] }
        [.read [.generic ⟨7, 0, 0, [], 0, 0, false, none⟩], .handle, .finish]) ∧
    Run.Meets Client.step Client.Final { impls := [shopProtocol] }
      [.read 0 [.fatalProtocolError 0 0 "", .newObject 1 1], .handle 0, .handle 0, .finish 0] := by
  constructor
  · refine ⟨_, rfl, rfl, ((fatal_is_final [shopProtocol]).1 _ _ rfl).mpr ?_⟩
    refine Run.meets_cons nofun rfl (Run.meets_cons nofun rfl (Run.meets_cons ?_ rfl trivial))
    exact fun _ => rfl
  · refine (fatal_is_final [shopProtocol]).2 _ (Run.meets_cons nofun rfl (Run.meets_cons nofun rfl ?_))
    refine Run.meets_cons ?_ rfl (Run.meets_cons nofun rfl trivial)
    rintro - q msg rest ⟨⟩ hphase
    cases hphase
    trivial

/-- A client names an object there is none of, and asks for a roundtrip in the same batch. -/
def Server.unheeded : List Server.Action :=
  [.read [.generic ⟨7, 0, 0, [], 0, 0, false, none⟩, .roundtripRequest 1 0], .handle, .handle,
    .finish]

/-- The error is flagged, and the roundtrip acknowledged. -/
theorem not_always_final : ¬
    ((∀ (impls : List ProtocolSpec) (as : List Server.Action) (s : Server),
      Run.run Server.step { impls } as = some s →
        Run.Meets Server.step Server.Final { impls } as) ∧
    ∀ (impls : List ProtocolSpec) (as : List Client.Action) (c : Client),
      Run.run Client.step { impls } as = some c →
        Run.Meets Client.step Client.Final { impls } as) := by
  rintro ⟨h, -⟩
  have hmeets := h [shopProtocol] Server.unheeded _ rfl
  have hfinal := ((((hmeets.2 _ rfl).2 _ rfl).2 _ rfl).1 rfl (.inr (.inr (.inl rfl))) _ rfl).told
  exact absurd hfinal (by decide)

end Hyprwire
