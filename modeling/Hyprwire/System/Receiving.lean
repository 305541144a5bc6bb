import Hyprwire.System.Records
import Hyprwire.System.Roundtrip
import Hyprwire.System.Serving
import Hyprwire.System.Specs

/-!
# `System/Receiving.lean` — a client at its bytes

The other half of `System/Serving.lean`: what a client makes of a read. `handle_message` decodes one
message after the other and handles each before it looks at the next byte, and the generated code
reads the payload of an event before the callback gets it; a decoder that refuses, or a version that
the client does not speak, ends the dispatch and the connection with it.

User code runs in the callbacks, and is held up by nothing but the mutex of the queue that
dispatches. What a callback does here is to call methods, to clone and drop handles, and to drop a
queue that does not dispatch. The code lets it also dispatch, bind and wait on another queue; that is
left to the client of messages, where the queues are interleaved step by step.

**Nothing new comes of it** (`dispatchRead_refines`): unless it panics, what the client does with a
read is one batch of the client of messages, on the messages that the decoders find.
-/

namespace Hyprwire

open Rust

/-! ## What the bytes say -/

/-- The event that a generic message is, as far as a client looks at it. -/
def GenericProtocolMessage.event (msg : GenericProtocolMessage) : Generic where
  object := msg.object.toNat
  method := msg.method.toNat
  seq := 0
  args := []
  origin := 0
  destructor := false

/-- The pairs of a list of advertised strings. -/
def ClientSocket.pairs (specs : List AdvertisedSpec) : List (String × Nat) :=
  specs.map fun spec => (spec.name, spec.version.toNat)

/-- What a server tells with a message. A client accepts no others than these. -/
def Decoded.told : Decoded → S2C
  | .handshakeBegin msg => .handshakeBegin (msg.versions.map UInt32.toNat)
  | .handshakeProtocols msg =>
    match ClientSocket.serverSpecs [] msg.protocols with
    | .ok specs => .handshakeProtocols (ClientSocket.pairs specs)
    | _ => .handshakeProtocols []
  | .newObject msg => .newObject msg.seq.toNat msg.id.toNat
  | .generic msg => .generic msg.event
  | .fatalProtocolError msg => .fatalProtocolError msg.objectId.toNat msg.errorId.toNat msg.errorMsg
  | .roundtripDone msg => .roundtripDone msg.seq.toNat 0
  | _ => .handshakeBegin []

/-- `crate::Error`. -/
inductive CrateError
  | connectionClosed
  | handshakeTimeout
  | versionNegotiationFailed
  | protocolNotFound
  | versionOutOfRange (requested max : Nat)
  | protocolViolation (e : Error)
  | io
  deriving DecidableEq, Repr

/-- `impl From<message::Error> for Error`. -/
def CrateError.ofMessage : Error → CrateError
  | .versionNegotiationFailed => .versionNegotiationFailed
  | other => .protocolViolation other

/-- What a dispatch can report. -/
def CrateError.fromDispatch : CrateError → Bool
  | .connectionClosed | .handshakeTimeout | .versionNegotiationFailed | .protocolViolation _ | .io =>
    true
  | .protocolNotFound | .versionOutOfRange .. => false

/-- After these errors there is nothing left of the connection. -/
def CrateError.final : CrateError → Bool
  | .handshakeTimeout | .versionNegotiationFailed => true
  | .protocolViolation e => decide (e ≠ .noSpec)
  | .connectionClosed | .protocolNotFound | .versionOutOfRange .. | .io => false

namespace Client

/-- `crate::Result<()>`. -/
abbrev Reply := Except CrateError Unit

/-! ## User code -/

/-- One thing a callback does: a call, or the end of a handle or of a queue. -/
def attempts (c : Client) (a : Action) : Option Client := if a.isCall then step c a else none

/-- A callback runs. -/
def perform (c : Client) (acts : List Action) : Client := Run.attempt attempts c acts

/-- What the callbacks do, by the number of the message. -/
abbrev Handlers := Nat → List Action

/-! ## Handling a message -/

/-- The code generated for an object's interface. -/
def interface (protocols : List Scanner.Protocol) (obj : ClientObject) :
    Option (Scanner.Protocol × Scanner.Object) :=
  Scanner.codeOf protocols obj.protocolName obj.spec

section
variable (m : Overflow) (up : Char → String) (protocols : List Scanner.Protocol)

/-- `ClientObject::dispatch`: the generated code reads the payload. On a client it makes no objects.
Every dispatch is given the state that the objects' data are made for, so the printed `downcast_mut`
finds it. -/
def generated (obj : ClientObject) (msg : GenericProtocolMessage) :
    Outcome Error (Option (Scanner.Event Empty)) := do
  let span ← msg.dataSpan
  if obj.objectData = false then .ok none
  else
    match interface protocols obj with
    | none => .ok none
    | some (p, o) =>
      Scanner.dispatch m up p false true (fun _ _ => none) o.s2c msg.method span msg.fds

/-- The object is held while its callback runs. -/
def calling (c : Client) (q h method : Nat) : Client :=
  (c.setObject h fun obj => { obj with borrows := obj.borrows + 1 }).setPhase q
    (.callback [] h method)

/-- `on_generic`. -/
def onGenericMessage (handlers : Handlers) (q : Nat) (c : Client) (msg : GenericProtocolMessage) :
    Client × Outcome Error Unit :=
  match c.objectForId msg.object.toNat with
  | none => ({ c with unknownObject := true }.disconnectOnError, .ok ())
  | some h =>
    match generated m up protocols (c.objects h) msg with
    | .ok none => (c.afterDispatch h msg.method.toNat, .ok ())
    | .ok (some _) =>
      (((c.calling q h msg.method.toNat).perform (handlers c.handled.length)).returned q [] h
        msg.method.toNat, .ok ())
    | .err e => (c, .err e)
    | .panic p => (c, .panic p)
    | .stall => (c, .stall)

/-- The body of the loop of `ClientSocket::handle_message`, behind the decoder. -/
def handleDecoded (handlers : Handlers) (q : Nat) (c : Client) (msg : Decoded) :
    Client × Outcome Error Unit :=
  let c := { c with handled := c.handled ++ [msg.told] }
  match msg with
  | .handshakeBegin msg =>
    if 1 ∈ msg.versions then (c.write (.handshakeAck 1), .ok ())
    else ({ c with error := true }, .err .versionNegotiationFailed)
  | .handshakeProtocols msg =>
    match ClientSocket.serverSpecs [] msg.protocols with
    | .ok specs =>
      ({ c with serverSpecs := c.serverSpecs ++ ClientSocket.pairs specs, handshakeDone := true },
        .ok ())
    | .err e => (c, .err e)
    | .panic p => (c, .panic p)
    | .stall => (c, .stall)
  | .newObject msg => (c.onSeq msg.seq.toNat msg.id.toNat, .ok ())
  | .generic msg => c.onGenericMessage m up protocols handlers q msg
  | .fatalProtocolError _ => ({ c with error := true }, .ok ())
  | .roundtripDone msg =>
    (c.setQueue q fun queue =>
      { queue with lastAckd := msg.seq.toNat, credited := queue.credited ++ [0] }, .ok ())
  | _ => (c, .ok ())

/-- The client's side of `handle_message`. -/
def handler (handlers : Handlers) (q : Nat) : Handler Client where
  handle c msg := c.handleDecoded m up protocols handlers q msg
  flagError c := { c with error := true }

/-- `dispatch_events_inner`, from what was read on; `none` when it does not come back. -/
def dispatchRead (handlers : Handlers) (q : Nat) (c : Client) : Reading → Option (Client × Reply)
  | .waiting => none
  | .failed _ => some (c.abort q, .error .connectionClosed)
  | .done raw =>
    if raw.data = [] then some (c, .error .connectionClosed)
    else
      let r := ClientSocket.handleMessage m (handler m up protocols handlers q) raw.data raw.fds
        (c.setPhase q (.batch []))
      match r.outcome with
      | .ok () =>
        let c := r.state.finish q
        some (c, if c.error then .error .connectionClosed else .ok ())
      | .err e => some (r.state.abort q, .error (.ofMessage e))
      | .panic _ | .stall => none

end

/-! ## Where the dispatch stands makes no difference -/

@[simp] theorem setPhase_setPhase (c : Client) (q : Nat) (phase phase' : Phase) :
    (c.setPhase q phase).setPhase q phase' = c.setPhase q phase' := by
  unfold setPhase setQueue
  congr 1
  funext i
  dsimp only
  split <;> rfl

theorem setPhase_self {c : Client} {q : Nat} {phase : Phase} (h : (c.queues q).phase = phase) :
    c.setPhase q phase = c := by
  subst h
  unfold setPhase setQueue
  congr 1
  funext i
  dsimp only
  split
  · next hi => rw [hi]
  · rfl

theorem setPhase_queues (c : Client) (q : Nat) (phase : Phase) (i : Nat) :
    (c.setPhase q phase).queues i =
      { c.queues i with phase := if i = q then phase else (c.queues i).phase } := by
  show (if i = q then _ else _) = _
  split <;> rfl

/-- A phase is part of the records. -/
theorem setPhase_eq (c : Client) (q : Nat) (phase : Phase) :
    c.setPhase q phase = c.relabel { phase := fun i old => if i = q then phase else old } := by
  unfold setPhase setQueue relabel
  congr 1
  funext i
  show (if i = q then _ else _) = ({ c.queues i with phase := if i = q then phase else _ } : EventQueue)
  split <;> rfl

theorem setPhase_live (c : Client) (q : Nat) (phase : Phase) (i : Nat) :
    ((c.setPhase q phase).queues i).live = (c.queues i).live := by
  rw [setPhase_queues]

theorem setPhase_inRoundtrip (c : Client) (q : Nat) (phase : Phase) (i : Nat) :
    ((c.setPhase q phase).queues i).inRoundtrip = (c.queues i).inRoundtrip := by
  rw [setPhase_queues]

theorem write_setPhase (c : Client) (q : Nat) (phase : Phase) (msg : C2S) :
    (c.setPhase q phase).write msg = (c.write msg).setPhase q phase := by
  rw [setPhase_eq, setPhase_eq, write_relabel]

theorem dropUnlessHeld_setPhase (c : Client) (q : Nat) (phase : Phase) (h : Nat) :
    (c.setPhase q phase).dropUnlessHeld h = (c.dropUnlessHeld h).setPhase q phase := by
  rw [setPhase_eq, setPhase_eq, dropUnlessHeld_relabel]

theorem afterDispatch_setPhase (c : Client) (q : Nat) (phase : Phase) (h method : Nat) :
    (c.setPhase q phase).afterDispatch h method = (c.afterDispatch h method).setPhase q phase := by
  rw [setPhase_eq, setPhase_eq, afterDispatch_relabel]

theorem onSeq_setPhase (c : Client) (q : Nat) (phase : Phase) (seq id : Nat) :
    (c.setPhase q phase).onSeq seq id = (c.onSeq seq id).setPhase q phase := by
  rw [setPhase_eq, setPhase_eq, onSeq_relabel]

/-- **User code does the same with other records**, as long as the same dispatches go on. -/
theorem attempts_relabel (r : Records) {c : Client}
    (hidle : ∀ i, (r.phase i (c.queues i).phase = .idle) = ((c.queues i).phase = .idle))
    (hkept : ∀ i, (c.queues i).phase = .idle → r.kept i = []) (a : Action) :
    (c.relabel r).attempts a = (c.attempts a).map (relabel r) := by
  unfold attempts
  cases hcall : a.isCall with
  | false => rfl
  | true => exact step_call_relabel r hidle hkept hcall

/-! ## The code and its tables -/

/-- **An object that a primitive change adds** is of a protocol that was bound, or of one that is
registered. -/
theorem Move.born {R : Rely} {c c' : Client} (h : Move R c c') {i : Nat} (hge : c.size ≤ i)
    (hi : i < c'.size) :
    ∃ spec, (c'.objects i).spec = some spec ∧
      ((∃ proto, R.binds proto ∧ proto.objects.head? = some spec ∧
          (c'.objects i).protocolName = proto.specName) ∨
        ∃ name, specFor c.impls (c'.objects i).protocolName name = some spec) := by
  have hnone : c'.size ≠ c.size := fun hsize => absurd hi (Nat.not_lt_of_le (hsize ▸ hge))
  have hwrite : ∀ (c : Client) msg, (c.write msg).size = c.size := by
    intro c msg
    obtain ⟨out, heq⟩ := write_eq c msg
    rw [heq]
  have honly : c'.size = c.size + 1 → i = c.size := by
    intro hsize
    rw [hsize] at hi
    exact Nat.le_antisymm (Nat.le_of_lt_succ hi) hge
  cases h with
  | tweak h => exact absurd h.size hnone
  | hear _ | acked _ _ | collect _ | destroy _ _ _ _ | dropQueue _ _ => exact absurd rfl hnone
  | acknowledge version => exact absurd (hwrite ..) hnone
  | ask q _ => exact absurd (hwrite ..) hnone
  | named _ _ =>
    obtain ⟨f, -, h, heq⟩ := onSeq_eq c _ _
    exact absurd (heq ▸ rfl) hnone
  | flush q _ =>
    refine absurd ?_ hnone
    rw [flush_eq]
    rfl
  | bind q specVer version hbinds hbind =>
    rename_i proto
    obtain ⟨spec, hspec, rfl⟩ := bindProtocol_eq hbind
    obtain rfl := honly (hwrite ..)
    have hobject : ((c.fetchAdd.push (c.bound q version proto spec)).write
        (.bindProtocol c.nextSeq version proto.specName)).objects c.size =
        c.bound q version proto spec := by
      obtain ⟨out, heq⟩ := write_eq (c.fetchAdd.push (c.bound q version proto spec))
        (.bindProtocol c.nextSeq version proto.specName)
      rw [heq]
      exact if_pos rfl
    rw [hobject]
    exact ⟨spec, rfl, .inl ⟨proto, hbinds, hspec, rfl⟩⟩
  | call hcall =>
    rename_i made
    obtain rfl := hcall.eq
    cases made with
    | none =>
      obtain ⟨f, queues, out, calls, -, -, heq⟩ := called_eq c _ _ _ _ none
      exact absurd (heq ▸ rfl) hnone
    | some spec =>
      obtain ⟨hsize, hobject⟩ := called_new c _ _ _ _ spec
      obtain rfl := honly hsize
      rw [hobject]
      exact ⟨spec, rfl, .inr ⟨_, (hcall.makes spec rfl).2⟩⟩

section
variable {protocols : List Scanner.Protocol} {registered : String → Bool}

/-- What a client is told to expect: some of the protocols that were generated for it. -/
def registrations (protocols : List Scanner.Protocol) (registered : String → Bool) :
    List ProtocolSpec :=
  (protocols.filter fun p => registered p.name).map Scanner.Protocol.spec

/-- The table of the methods that the code of an interface reads. -/
def eventsOf : Option (Scanner.Protocol × Scanner.Object) → List MethodSpec
  | some (_, o) => Scanner.methodSpecs o.s2c
  | none => []

/-- **Every object's table is that of its code.** -/
structure Implemented (protocols : List Scanner.Protocol) (registered : String → Bool) (c : Client) :
    Prop where
  ledger : Ledger c
  impls : c.impls = registrations protocols registered
  methods : ∀ h < c.size, (c.objects h).methodsIn = eventsOf (interface protocols (c.objects h))

theorem Implemented.init (protocols : List Scanner.Protocol) (registered : String → Bool) :
    Implemented protocols registered { impls := registrations protocols registered } where
  ledger := .init _
  impls := rfl
  methods _ hh := absurd hh (Nat.not_lt_zero _)

/-- A protocol is bound by its name. -/
def Generated (protocols : List Scanner.Protocol) (proto : ProtocolSpec) : Prop :=
  ∃ p, (protocols.find? fun p => p.name = proto.specName) = some p ∧ proto = p.spec

/-- The code of an object is found by the names it was made by. -/
theorem methodsIn_of_code {obj : ClientObject} {p : Scanner.Protocol} {o : Scanner.Object}
    (hspec : obj.spec = some o.spec)
    (hp : (protocols.find? fun p => p.name = obj.protocolName) = some p)
    (ho : (p.objects.find? fun o' => o'.name = o.name) = some o) :
    obj.methodsIn = eventsOf (interface protocols obj) := by
  have hinterface : interface protocols obj = some (p, o) := by
    rw [interface, hspec]
    exact Scanner.codeOf_eq hp ho
  rw [hinterface, ClientObject.methodsIn, hspec]
  rfl

theorem find_registrations {name : String} {imp : ProtocolSpec}
    (h : ((registrations protocols registered).find? fun imp => imp.specName = name) = some imp) :
    ∃ p, (protocols.find? fun p => p.name = name) = some p ∧ imp = p.spec := by
  rw [registrations, List.find?_map] at h
  obtain ⟨p, hp, rfl⟩ := Option.map_eq_some_iff.mp h
  rw [List.find?_filter] at hp
  have hgood := List.find?_some hp
  obtain ⟨hregistered, hname⟩ := of_decide_eq_true hgood
  have hname : p.name = name := of_decide_eq_true hname
  refine ⟨p, ?_, rfl⟩
  rw [← hp]
  congr 1
  funext a
  refine decide_eq_decide.mpr ⟨fun ha => ⟨?_, decide_eq_true ha⟩, fun ha => of_decide_eq_true ha.2⟩
  rw [ha, ← hname]
  exact hregistered

theorem Implemented.move {R : Rely} (hbinds : ∀ proto, R.binds proto → Generated protocols proto)
    {c c' : Client} (hc : Implemented protocols registered c) (h : Move R c c') :
    Implemented protocols registered c' := by
  have hlater := h.later
  refine ⟨hc.ledger.move h, hlater.impls.trans hc.impls, fun i hi => ?_⟩
  rcases Nat.lt_or_ge i c.size with hold | hge
  · have hobj := hlater.objects i hold
    rw [hobj.methodsIn, hc.methods i hold, interface, interface, hobj.spec, hobj.protocolName]
  · obtain ⟨spec, hspec, ⟨proto, hproto, hhead, hname⟩ | ⟨name, hfind⟩⟩ := h.born hge hi
    · obtain ⟨p, hp, rfl⟩ := hbinds proto hproto
      obtain ⟨o, rfl, ho⟩ := Scanner.find_head hhead
      exact methodsIn_of_code hspec (hname ▸ hp) ho
    · obtain ⟨imp, himp, hobject⟩ := Option.bind_eq_some_iff.mp hfind
      rw [hc.impls] at himp
      obtain ⟨p, hp, rfl⟩ := find_registrations himp
      obtain ⟨o, rfl, ho⟩ := Scanner.find_named hobject
      exact methodsIn_of_code hspec hp ho

/-- What is bound is one of the protocols that were generated. -/
def Action.Bound (protocols : List Scanner.Protocol) : Action → Prop
  | .bind _ proto _ => Generated protocols proto
  | _ => True

theorem Implemented.step {c c' : Client} {a : Action} (hc : Implemented protocols registered c)
    (ha : a.Bound protocols) (h : Client.step c a = some c') : Implemented protocols registered c' := by
  let R : Rely := { anything with binds := Generated protocols }
  have hgrant : Granted R c a := by
    cases a with
    | bind q proto version => exact ha
    | _ => simp [Granted, R, anything]
  exact (moves_step hc.ledger.table_lt hgrant h).invariant
    (fun _ _ hd hmove => hd.move (fun _ hproto => hproto) hmove) hc

theorem Implemented.run {c c' : Client} {as : List Action} (hc : Implemented protocols registered c)
    (has : ∀ a ∈ as, a.Bound protocols) (h : Run.run Client.step c as = some c') :
    Implemented protocols registered c' :=
  @Run.run_meeting _ _ Client.step (Implemented protocols registered) (fun _ a => a.Bound protocols)
    (fun _ _ _ hd ha hstep => hd.step ha hstep) as c c' hc (Run.meets_of_forall has) h

end

/-! ## The generated code, from the tables -/

/-- When an event gets to a callback. -/
def reachesCallback (obj : ClientObject) (method : Nat) : Bool :=
  obj.objectData && decide (method < obj.methodsIn.length)

section
variable {m : Overflow} {up : Char → String} {protocols : List Scanner.Protocol}

/-- **Generated code that comes back called the callback exactly if the tables say so.** -/
theorem generated_calls {obj : ClientObject}
    (htable : obj.methodsIn = eventsOf (interface protocols obj)) {msg : GenericProtocolMessage}
    {ev : Option (Scanner.Event Empty)} (h : generated m up protocols obj msg = .ok ev) :
    ev.isSome = reachesCallback obj msg.method.toNat := by
  obtain ⟨span, -, h⟩ := Outcome.bind_eq_ok.mp h
  unfold reachesCallback
  by_cases hdata : obj.objectData = false
  · rw [if_pos hdata] at h
    cases h
    rw [hdata]
    rfl
  rw [if_neg hdata] at h
  rw [Bool.not_eq_false] at hdata
  rw [hdata, Bool.true_and, htable]
  cases hinterface : interface protocols obj with
  | none =>
    simp only [hinterface] at h
    cases h
    exact (decide_eq_false (Nat.not_lt_zero _)).symm
  | some code =>
    obtain ⟨p, o⟩ := code
    simp only [hinterface] at h
    have hlength : (eventsOf (some (p, o))).length = o.s2c.length := by
      rw [eventsOf, Scanner.methodSpecs, List.length_mapIdx]
    rw [hlength]
    rw [Scanner.dispatch, if_pos rfl] at h
    cases hmt : o.s2c[msg.method.toNat]? with
    | none =>
      simp only [hmt] at h
      cases h
      exact (decide_eq_false (Nat.not_lt.mpr (List.getElem?_eq_none_iff.mp hmt))).symm
    | some mt =>
      simp only [hmt] at h
      have hlt := (List.getElem?_eq_some_iff.mp hmt).1
      rw [decide_eq_true hlt]
      cases hreturns : mt.returns with
      | none =>
        simp only [hreturns] at h
        obtain ⟨r, -, h⟩ := Outcome.bind_eq_ok.mp h
        cases h
        rfl
      | some returned =>
        simp only [hreturns] at h
        obtain ⟨⟨field, r⟩, hseq, h⟩ := Outcome.bind_eq_ok.mp h
        -- on a client the number becomes a field
        unfold Scanner.seqParse at hseq
        obtain ⟨⟨seq, r'⟩, -, hseq⟩ := Outcome.bind_eq_ok.mp hseq
        cases hseq
        obtain ⟨vs, -, h⟩ := Outcome.bind_eq_ok.mp h
        cases h
        rfl

end

/-! ## One message -/

/-- Dispatches stand where they stood, and so do roundtrips around them; `q` is not dropped. -/
structure SameDispatch (q : Nat) (c c' : Client) : Prop where
  phase : ∀ i, (c'.queues i).phase = (c.queues i).phase
  live : (c'.queues q).live = (c.queues q).live
  inRoundtrip : ∀ i, (c'.queues i).inRoundtrip = (c.queues i).inRoundtrip

theorem SameDispatch.refl (q : Nat) (c : Client) : SameDispatch q c c :=
  ⟨fun _ => rfl, rfl, fun _ => rfl⟩

theorem SameDispatch.trans {q : Nat} {c c' c'' : Client} (h : SameDispatch q c c')
    (h' : SameDispatch q c' c'') : SameDispatch q c c'' :=
  ⟨fun i => (h'.phase i).trans (h.phase i), h'.live.trans h.live,
    fun i => (h'.inRoundtrip i).trans (h.inRoundtrip i)⟩

theorem Frame.sameDispatch {c c' : Client} (h : Frame c c') (q : Nat) : SameDispatch q c c' :=
  ⟨h.phase, h.live q, h.inRoundtrip⟩

theorem attempts_spec {c c' : Client} {a : Action} (h : c.attempts a = some c') :
    a.isCall = true ∧ step c a = some c' := by
  simpa only [attempts, Option.ite_none_right_eq_some] using h

/-- User code leaves dispatches alone, but it can drop a queue that has none. -/
theorem attempts_frame {c c' : Client} {a : Action} (h : c.attempts a = some c') :
    Frame c c' ∨ ∃ q, (c.queues q).phase = .idle ∧
      c' = c.setQueue q fun queue => { queue with live := false, queue := [] } := by
  obtain ⟨hcall, h⟩ := attempts_spec h
  cases a with
  | send h' method args =>
    simp only [step, Option.ite_none_right_eq_some, Option.some.injEq] at h
    exact .inl (h.2 ▸ Frame.send ..)
  | clone h' =>
    simp only [step, Option.ite_none_right_eq_some, Option.some.injEq] at h
    exact .inl (h.2 ▸ Frame.setObject ..)
  | drop h' =>
    simp only [step, Option.ite_none_right_eq_some, Option.some.injEq] at h
    exact .inl (h.2 ▸ Frame.release ..)
  | dropQueue q =>
    simp only [step, Option.ite_none_right_eq_some, Option.some.injEq] at h
    exact .inr ⟨q, h.1.2.1, h.2.symm⟩
  | _ => cases hcall

theorem attempts_phase {c c' : Client} {a : Action} (h : c.attempts a = some c') (i : Nat) :
    (c'.queues i).phase = (c.queues i).phase ∧ (c'.queues i).inRoundtrip = (c.queues i).inRoundtrip := by
  rcases attempts_frame h with hframe | ⟨q, -, rfl⟩
  · exact ⟨hframe.phase i, hframe.inRoundtrip i⟩
  · simp only [setQueue]
    split <;> exact ⟨rfl, rfl⟩

/-- User code does not get at a queue that dispatches. -/
theorem attempts_sameDispatch {c c' : Client} {a : Action} {q : Nat}
    (hgoes : (c.queues q).phase ≠ .idle) (h : c.attempts a = some c') : SameDispatch q c c' := by
  refine ⟨fun i => (attempts_phase h i).1, ?_, fun i => (attempts_phase h i).2⟩
  rcases attempts_frame h with hframe | ⟨q', hidle, rfl⟩
  · exact hframe.live q
  · have hne : q ≠ q' := by
      intro heq
      subst heq
      exact hgoes hidle
    exact congrArg EventQueue.live (if_neg hne)

theorem perform_sameDispatch {c : Client} {q : Nat} (hgoes : (c.queues q).phase ≠ .idle)
    (acts : List Action) : SameDispatch q c (c.perform acts) := by
  unfold perform
  induction acts generalizing c with
  | nil => exact .refl q c
  | cons a acts ih =>
    rw [Run.attempt]
    cases hstep : c.attempts a with
    | none => exact ih hgoes
    | some c' =>
      have hsame := attempts_sameDispatch hgoes hstep
      exact hsame.trans (ih ((hsame.phase q).symm ▸ hgoes))

theorem perform_relabel (r : Records) {c : Client}
    (hidle : ∀ i, (r.phase i (c.queues i).phase = .idle) = ((c.queues i).phase = .idle))
    (hkept : ∀ i, (c.queues i).phase = .idle → r.kept i = []) (acts : List Action) :
    (c.relabel r).perform acts = (c.perform acts).relabel r := by
  let inv : Client → Prop := fun c =>
    (∀ i, (r.phase i (c.queues i).phase = .idle) = ((c.queues i).phase = .idle)) ∧
      ∀ i, (c.queues i).phase = .idle → r.kept i = []
  refine @Run.attempt_map _ _ attempts inv (relabel r) ?_
    (fun c a hc => attempts_relabel r hc.1 hc.2 a) acts c ⟨hidle, hkept⟩
  intro c a c' hc hstep
  refine ⟨fun i => ?_, fun i => ?_⟩
  · rw [(attempts_phase hstep i).1]
    exact hc.1 i
  · rw [(attempts_phase hstep i).1]
    exact hc.2 i

/-- User code sets no error flag. -/
theorem perform_error (c : Client) (acts : List Action) : (c.perform acts).error = c.error := by
  unfold perform
  induction acts generalizing c with
  | nil => rfl
  | cons a acts ih =>
    rw [Run.attempt, ih]
    cases hstep : c.attempts a with
    | none => rfl
    | some c' =>
      rcases attempts_frame hstep with hframe | ⟨q, -, rfl⟩
      · exact hframe.error
      · rfl

/-- User code does the same in every callback of its queue, whatever is left of the batch. -/
theorem perform_setPhase {c : Client} {q : Nat} {phase : Phase} (hphase : phase ≠ .idle)
    (hgoes : (c.queues q).phase ≠ .idle) (acts : List Action) :
    (c.setPhase q phase).perform acts = (c.perform acts).setPhase q phase := by
  rw [setPhase_eq, setPhase_eq]
  refine perform_relabel _ (fun i => ?_) (fun _ _ => rfl) acts
  dsimp only
  split
  · next hi =>
    rw [hi]
    exact propext ⟨fun h => absurd h hphase, fun h => absurd h hgoes⟩
  · rfl

/-- User code runs as a client of messages would have it run. -/
theorem run_perform (c : Client) (acts : List Action) :
    ∃ as, (∀ a ∈ as, a.isCall = true) ∧ Run.run step c as = some (c.perform acts) :=
  Run.run_attempt (fun _ _ _ h => attempts_spec h) acts c

theorem bound_of_isCall {protocols : List Scanner.Protocol} {a : Action} (h : a.isCall = true) :
    a.Bound protocols := by
  cases a with
  | bind q proto version => cases h
  | _ => trivial

/-- A message is noted down. -/
def heard (c : Client) (msg : S2C) : Client := { c with handled := c.handled ++ [msg] }

theorem heard_sameDispatch (q : Nat) (c : Client) (msg : S2C) : SameDispatch q c (c.heard msg) :=
  ⟨fun _ => rfl, rfl, fun _ => rfl⟩

/-- What is done while a message of the queue is handled. -/
def Action.inside (q : Nat) : Action → Bool
  | .send .. | .clone _ | .drop _ | .dropQueue _ => true
  | .return_ q' => q' = q
  | _ => false

theorem inside_of_isCall {q : Nat} {a : Action} (h : a.isCall = true) : a.inside q = true := by
  cases a with
  | send _ _ _ | clone _ | drop _ | dropQueue _ => rfl
  | _ => cases h

theorem bound_of_inside {protocols : List Scanner.Protocol} {q : Nat} {a : Action}
    (h : a.inside q = true) : a.Bound protocols := by
  cases a with
  | bind q proto version => cases h
  | _ => trivial

/-- What the client of messages makes of a message when the client of bytes makes `t` of it, on the
queue that reads it. -/
def Handles (q : Nat) (c : Client) (msg : S2C) (t : Client) : Prop :=
  SameDispatch q c t ∧ ∀ rest, ∃ as, (∀ a ∈ as, a.inside q = true) ∧
    Run.run step ((c.setPhase q (.batch (msg :: rest))).handle q msg rest) as =
      some (t.setPhase q (.batch rest))

section
variable {protocols : List Scanner.Protocol} {q : Nat} {c t : Client} {msg : S2C}

theorem step_handle_setPhase (rest : List S2C) :
    step (c.setPhase q (.batch (msg :: rest))) (.handle q) =
      some ((c.setPhase q (.batch (msg :: rest))).handle q msg rest) := by
  have hphase : ((c.setPhase q (.batch (msg :: rest))).queues q).phase = .batch (msg :: rest) :=
    setPhase_phase ..
  simp only [step, hphase]

/-- The whole of it, from the batch it is the first of. -/
theorem Handles.run (h : Handles q c msg t) (rest : List S2C) :
    ∃ as, (∀ a ∈ as, a.Bound protocols) ∧
      Run.run step (c.setPhase q (.batch (msg :: rest))) as = some (t.setPhase q (.batch rest)) := by
  obtain ⟨as, has, hrun⟩ := h.2 rest
  refine ⟨.handle q :: as, ?_, Run.run_cons.mpr ⟨_, step_handle_setPhase rest, hrun⟩⟩
  intro a ha
  rcases List.mem_cons.mp ha with rfl | ha
  · trivial
  · exact bound_of_inside (has a ha)

/-- No callback runs. -/
theorem Handles.quiet (hsame : SameDispatch q c t) (h : ∀ rest,
    (c.setPhase q (.batch (msg :: rest))).handle q msg rest = t.setPhase q (.batch rest)) :
    Handles q c msg t :=
  ⟨hsame, fun rest => ⟨[], by simp, by rw [h rest, Run.run_nil]⟩⟩

theorem returned_setPhase (c : Client) (q : Nat) (phase : Phase) (rest : List S2C) (h method : Nat) :
    (c.setPhase q phase).returned q rest h method = c.returned q rest h method := by
  have hset : ∀ c : Client,
      (c.setPhase q phase).setObject h (fun obj => { obj with borrows := obj.borrows - 1 }) =
        (c.setObject h fun obj => { obj with borrows := obj.borrows - 1 }).setPhase q phase :=
    fun _ => rfl
  have htable : ∀ c : Client, (c.setPhase q phase).table = c.table := fun _ => rfl
  unfold returned
  dsimp only
  rw [afterDispatch_setPhase, hset, htable, dropUnlessHeld_setPhase]
  split <;> rw [setPhase_setPhase]

theorem returned_rest (c : Client) (q : Nat) (rest : List S2C) (h method : Nat) :
    c.returned q rest h method = (c.returned q [] h method).setPhase q (.batch rest) := by
  unfold returned
  rw [setPhase_setPhase]

/-- A callback runs, and returns. -/
theorem Handles.called {v : Client} {h method : Nat} {acts : List Action}
    (hsame : SameDispatch q c v) (hbatch : (c.queues q).phase = .batch [])
    (hcall : ∀ rest, (c.setPhase q (.batch (msg :: rest))).handle q msg rest =
      v.setPhase q (.callback rest h method)) :
    Handles q c msg
      (((v.setPhase q (.callback [] h method)).perform acts).returned q [] h method) := by
  have hgoes : ∀ rest, ((v.setPhase q (.callback rest h method)).queues q).phase =
      .callback rest h method := fun rest => setPhase_phase ..
  have hperform : ∀ rest, (v.setPhase q (.callback rest h method)).perform acts =
      ((v.setPhase q (.callback [] h method)).perform acts).setPhase q (.callback rest h method) := by
    intro rest
    have hsame := @perform_setPhase (v.setPhase q (.callback [] h method)) q
      (.callback rest h method) (by simp) (by rw [hgoes]; simp) acts
    rwa [setPhase_setPhase] at hsame
  refine ⟨?_, fun rest => ?_⟩
  · obtain ⟨u, hframe, hreturned⟩ := returned_eq
      ((v.setPhase q (.callback [] h method)).perform acts) q [] h method
    have hdone := (perform_sameDispatch (by rw [hgoes]; simp) acts).trans (hframe.sameDispatch q)
    rw [hreturned]
    refine ⟨fun i => ?_, ?_, fun i => ?_⟩
    · by_cases hi : i = q
      · subst hi
        exact (setPhase_phase ..).trans hbatch.symm
      · rw [setPhase_others _ _ _ i hi, hdone.phase, setPhase_others _ _ _ i hi, hsame.phase]
    · rw [setPhase_live, hdone.live, setPhase_live]
      exact hsame.live
    · rw [setPhase_inRoundtrip, hdone.inRoundtrip, setPhase_inRoundtrip]
      exact hsame.inRoundtrip i
  · obtain ⟨as, has, hrun⟩ := run_perform (v.setPhase q (.callback rest h method)) acts
    have hphase : (((v.setPhase q (.callback rest h method)).perform acts).queues q).phase =
        .callback rest h method := by
      rw [hperform, setPhase_phase]
    have hreturn : step ((v.setPhase q (.callback rest h method)).perform acts) (.return_ q) =
        some ((((v.setPhase q (.callback [] h method)).perform acts).returned q [] h method).setPhase q
          (.batch rest)) := by
      simp only [step, hphase]
      rw [hperform, returned_setPhase, returned_rest]
    refine ⟨as ++ [.return_ q], ?_, ?_⟩
    · intro a ha
      rcases List.mem_append.mp ha with ha | ha
      · exact inside_of_isCall (has a ha)
      · rw [List.mem_singleton.mp ha]
        exact decide_eq_true rfl
    · rw [hcall rest]
      exact Run.run_append.mpr ⟨_, hrun, Run.run_cons.mpr ⟨_, hreturn, Run.run_nil _⟩⟩

/-! ### A message that was decoded -/

theorem disconnectOnError_setPhase (c : Client) (q : Nat) (phase : Phase) :
    (c.setPhase q phase).disconnectOnError = c.disconnectOnError.setPhase q phase := rfl

theorem acknowledge_setPhase (c : Client) (q : Nat) (phase : Phase) (seq request : Nat)
    (rest : List S2C) :
    ((c.setPhase q phase).setQueue q fun queue =>
      { queue with lastAckd := seq, phase := .batch rest, credited := queue.credited ++ [request] }) =
    (c.setQueue q fun queue =>
      { queue with lastAckd := seq, credited := queue.credited ++ [request] }).setPhase q
        (.batch rest) := by
  unfold setPhase
  rw [setQueue_setQueue, setQueue_setQueue]

variable {m : Overflow} {up : Char → String} {registered : String → Bool} {handlers : Handlers}

/-- A message on an object: its callback is called, or it is over at once. -/
theorem onGeneric_eq {c : Client} {msg : Generic} {h : Nat} (q : Nat) (phase : Phase)
    (rest : List S2C) (hfind : c.objectForId msg.object = some h) :
    (c.setPhase q phase).onGeneric q msg rest =
      if reachesCallback (c.objects h) msg.method then
        (c.setObject h fun obj => { obj with borrows := obj.borrows + 1 }).setPhase q
          (.callback rest h msg.method)
      else (c.afterDispatch h msg.method).setPhase q (.batch rest) := by
  have hobjects : (c.setPhase q phase).objects = c.objects := rfl
  unfold onGeneric
  simp only [show (c.setPhase q phase).objectForId msg.object = some h from hfind, hobjects,
    afterDispatch_setPhase, setPhase_setPhase]
  by_cases hcalls : (c.objects h).objectData = true ∧ msg.method < (c.objects h).methodsIn.length
  · rw [if_pos hcalls, if_pos (by simpa [reachesCallback] using hcalls)]
    exact setPhase_setPhase (c.setObject h fun obj => { obj with borrows := obj.borrows + 1 }) ..
  · rw [if_neg hcalls, if_neg (by simpa [reachesCallback] using hcalls)]

/-- **An event**, read by the generated code, is handled as the tables say. -/
theorem handles_generic (hc : Implemented protocols registered c) (hbatch : (c.queues q).phase = .batch [])
    {msg : GenericProtocolMessage}
    (ht : (c.heard (.generic msg.event)).onGenericMessage m up protocols handlers q msg = (t, .ok ())) :
    Handles q c (.generic msg.event) t := by
  have hobjects : ∀ h, (c.heard (.generic msg.event)).objects h = c.objects h := fun _ => rfl
  unfold onGenericMessage at ht
  cases hfind : c.objectForId msg.object.toNat with
  | none =>
    simp only [show (c.heard _).objectForId msg.object.toNat = none from hfind, Prod.mk.injEq,
      and_true] at ht
    subst ht
    refine .quiet ⟨fun _ => rfl, rfl, fun _ => rfl⟩ fun rest => ?_
    show ((c.heard (.generic msg.event)).setPhase q _).onGeneric q msg.event rest = _
    unfold onGeneric
    simp only [show ((c.heard _).setPhase q _).objectForId msg.event.object = none from hfind]
    rw [show ({ (c.heard (.generic msg.event)).setPhase q (.batch (.generic msg.event :: rest)) with
      unknownObject := true } : Client) = { c.heard (.generic msg.event) with
        unknownObject := true }.setPhase q (.batch (.generic msg.event :: rest)) from rfl,
      disconnectOnError_setPhase, setPhase_setPhase]
  | some h =>
    have hlt := hc.ledger.table_lt h (List.mem_of_find?_eq_some hfind)
    simp only [show (c.heard _).objectForId msg.object.toNat = some h from hfind] at ht
    generalize hgen : generated m up protocols ((c.heard (.generic msg.event)).objects h) msg = result
      at ht
    have hcase := fun rest => @onGeneric_eq (c.heard (.generic msg.event)) msg.event h q
      (.batch (.generic msg.event :: rest)) rest hfind
    cases result with
    | ok ev =>
      have hcalls := generated_calls (hc.methods h hlt) hgen
      cases ev with
      | none =>
        simp only [Prod.mk.injEq, and_true] at ht
        subst ht
        refine .quiet ?_ fun rest => ?_
        · exact (heard_sameDispatch ..).trans ((Frame.afterDispatch ..).sameDispatch q)
        · refine (hcase rest).trans (if_neg ?_)
          rw [show reachesCallback ((c.heard (.generic msg.event)).objects h) msg.event.method = _
            from hcalls.symm]
          simp
      | some e =>
        simp only [Prod.mk.injEq, and_true] at ht
        subst ht
        refine Handles.called ?_ hbatch fun rest => (hcase rest).trans (if_pos hcalls.symm)
        exact (heard_sameDispatch ..).trans ((Frame.setObject ..).sameDispatch q)
    | err e => cases ht
    | panic p => cases ht
    | stall => cases ht

theorem one_mem_versions {versions : List UInt32} : 1 ∈ versions.map UInt32.toNat ↔ 1 ∈ versions := by
  constructor
  · intro h
    obtain ⟨version, hmem, heq⟩ := List.mem_map.mp h
    have hone : version = 1 := UInt32.toNat_inj.mp heq
    exact hone ▸ hmem
  · exact fun h => List.mem_map.mpr ⟨1, h, rfl⟩

/-- **Whatever is decoded is handled** as the message that it is. -/
theorem handles_decoded (hc : Implemented protocols registered c) (hbatch : (c.queues q).phase = .batch [])
    {msg : Decoded} (haccepts : clientAccepts msg.messageType = true)
    (ht : c.handleDecoded m up protocols handlers q msg = (t, .ok ())) :
    Handles q c msg.told t := by
  cases msg with
  | handshakeBegin begins =>
    have hequal : c.handleDecoded m up protocols handlers q (.handshakeBegin begins) =
        if 1 ∈ begins.versions then
          ((c.heard (Decoded.handshakeBegin begins).told).write (.handshakeAck 1), .ok ())
        else _ := rfl
    rw [hequal] at ht
    split at ht
    · next hversions =>
      cases ht
      refine .quiet ((heard_sameDispatch ..).trans ((Frame.write ..).sameDispatch q)) fun rest => ?_
      show (if 1 ∈ begins.versions.map UInt32.toNat then
        (((c.heard (Decoded.handshakeBegin begins).told).setPhase q _).write (.handshakeAck 1)).setPhase q
          (.batch rest) else _) = _
      rw [if_pos (one_mem_versions.mpr hversions), write_setPhase, setPhase_setPhase]
    · cases ht
  | handshakeProtocols advertised =>
    have hequal : c.handleDecoded m up protocols handlers q (.handshakeProtocols advertised) =
        match ClientSocket.serverSpecs [] advertised.protocols with
        | .ok specs => _
        | .err e => _
        | .panic p => _
        | .stall => _ := rfl
    rw [hequal] at ht
    cases hspecs : ClientSocket.serverSpecs [] advertised.protocols with
    | ok specs =>
      simp only [hspecs, Prod.mk.injEq, and_true] at ht
      subst ht
      have htold : (Decoded.handshakeProtocols advertised).told =
          .handshakeProtocols (ClientSocket.pairs specs) := by
        simp only [Decoded.told, hspecs]
      rw [htold]
      refine .quiet ⟨fun _ => rfl, rfl, fun _ => rfl⟩ fun rest => ?_
      exact setPhase_setPhase { c.heard (.handshakeProtocols (ClientSocket.pairs specs)) with
        serverSpecs := c.serverSpecs ++ ClientSocket.pairs specs, handshakeDone := true } ..
    | err e | panic p | stall =>
      simp only [hspecs, Prod.mk.injEq] at ht
      cases ht.2
  | newObject named =>
    cases ht
    refine .quiet ((heard_sameDispatch ..).trans ((Frame.onSeq ..).sameDispatch q)) fun rest => ?_
    show (((c.heard (Decoded.newObject named).told).setPhase q _).onSeq _ _).setPhase q (.batch rest) = _
    rw [onSeq_setPhase, setPhase_setPhase]
    rfl
  | generic msg => exact handles_generic hc hbatch ht
  | fatalProtocolError fatal =>
    cases ht
    refine .quiet ⟨fun _ => rfl, rfl, fun _ => rfl⟩ fun rest => ?_
    exact setPhase_setPhase { c.heard (Decoded.fatalProtocolError fatal).told with error := true } ..
  | roundtripDone done =>
    cases ht
    have hframe : Frame (c.heard (Decoded.roundtripDone done).told)
        ((c.heard (Decoded.roundtripDone done).told).setQueue q fun queue =>
          { queue with lastAckd := done.seq.toNat, credited := queue.credited ++ [0] }) :=
      .setQueue _ q fun _ => ⟨rfl, rfl, rfl⟩
    refine .quiet ((heard_sameDispatch ..).trans (hframe.sameDispatch q)) fun rest => ?_
    exact acknowledge_setPhase (c.heard (Decoded.roundtripDone done).told) q _ _ 0 rest
  | sup msg | handshakeAck msg | bindProtocol msg | roundtripRequest msg => cases haccepts

/-! ## One read -/

theorem infallible_serverSpecs (specs : List AdvertisedSpec) (advertised : List String) :
    (ClientSocket.serverSpecs specs advertised).Infallible := by
  have hslices : ∀ spec p, (ClientSocket.slices spec p).Infallible := by
    intro spec p
    unfold ClientSocket.slices
    split <;> trivial
  have hspec : ∀ spec, (ClientSocket.serverSpec spec).Infallible := by
    intro spec
    unfold ClientSocket.serverSpec
    split
    · trivial
    · refine (hslices ..).bind fun parts => ?_
      obtain ⟨before, digits⟩ := parts
      dsimp only
      split
      · exact (hslices ..).bind fun _ => trivial
      · trivial
  induction advertised generalizing specs with
  | nil => trivial
  | cons s ss ih =>
    refine (hspec s).bind fun found => ?_
    cases found with
    | none => exact ih specs
    | some spec => exact ih _

theorem infallible_onGenericMessage (c : Client) (msg : GenericProtocolMessage) :
    (c.onGenericMessage m up protocols handlers q msg).2.Infallible := by
  unfold onGenericMessage
  split
  · trivial
  · next h _ =>
    have hgen : (generated m up protocols (c.objects h) msg).Infallible := by
      refine (Scanner.infallible_slice ..).bind fun span => ?_
      split
      · trivial
      · split
        · trivial
        · exact Scanner.infallible_dispatch ..
    split
    · trivial
    · trivial
    · next e heq =>
      rw [heq] at hgen
      exact hgen
    · trivial
    · trivial

/-- Handling a message has one error to report: the server speaks no version of the client's. -/
theorem handleDecoded_err {msg : Decoded} {e : Error}
    (h : (c.handleDecoded m up protocols handlers q msg).2 = .err e) :
    ∃ begins, msg = .handshakeBegin begins ∧ 1 ∉ begins.versions ∧ e = .versionNegotiationFailed ∧
      (c.handleDecoded m up protocols handlers q msg).1 = { c.heard msg.told with error := true } := by
  cases msg with
  | handshakeBegin begins =>
    have hequal : c.handleDecoded m up protocols handlers q (.handshakeBegin begins) =
        if 1 ∈ begins.versions then
          ((c.heard (Decoded.handshakeBegin begins).told).write (.handshakeAck 1), .ok ())
        else ({ c.heard (Decoded.handshakeBegin begins).told with error := true },
          .err .versionNegotiationFailed) := rfl
    rw [hequal] at h ⊢
    by_cases hversions : 1 ∈ begins.versions
    · rw [if_pos hversions] at h
      cases h
    · rw [if_neg hversions] at h ⊢
      cases h
      exact ⟨begins, rfl, hversions, rfl, rfl⟩
  | handshakeProtocols advertised =>
    have hquiet := infallible_serverSpecs [] advertised.protocols
    have hequal : (c.handleDecoded m up protocols handlers q (.handshakeProtocols advertised)).2 =
        (match ClientSocket.serverSpecs [] advertised.protocols with
          | .ok specs => (_, .ok ())
          | .err e => (_, .err e)
          | .panic p => (_, .panic p)
          | .stall => (_, .stall) : Client × Outcome Error Unit).2 := rfl
    rw [hequal] at h
    cases hspecs : ClientSocket.serverSpecs [] advertised.protocols with
    | ok specs | panic p | stall =>
      rw [hspecs] at h
      cases h
    | err e' =>
      rw [hspecs] at hquiet
      exact hquiet.elim
  | generic msg =>
    have hquiet : ((c.heard (.generic msg.event)).onGenericMessage m up protocols handlers q
      msg).2.Infallible := infallible_onGenericMessage ..
    rw [show (c.heard (.generic msg.event)).onGenericMessage m up protocols handlers q msg =
      c.handleDecoded m up protocols handlers q (.generic msg) from rfl, h] at hquiet
    exact hquiet.elim
  | _ => cases h

/-- A turn that goes on has handled a message. -/
theorem turn_ok {data : List UInt8} {fds fds' : List RawFd} {needle needle' : Nat}
    (hturn : handleTurn m clientAccepts (handler m up protocols handlers q) data c fds needle =
      (t, .ok (needle', fds'))) :
    ∃ msg : Decoded, clientAccepts msg.messageType = true ∧
      c.handleDecoded m up protocols handlers q msg = (t, .ok ()) := by
  rcases Server.handleTurn_cases clientAccepts (handler m up protocols handlers q) data c fds needle with
    ⟨msg, rest, haccepts, -, heq⟩ | ⟨-, hstops⟩
  · rw [heq] at hturn
    obtain ⟨hstate, hgoes⟩ := Prod.mk.inj hturn
    obtain ⟨u, hhandled, -⟩ := Outcome.bind_eq_ok.mp hgoes
    exact ⟨msg, haccepts, Prod.ext hstate hhandled⟩
  · rw [hturn] at hstops
    exact absurd rfl (hstops _)

/-- How a loop gives up: it has handled nothing, and may have set the error flag, or the server speaks
no version of the client's. -/
inductive GivesUp (c : Client) : Client → Prop
  | kept : GivesUp c c
  | flagged : GivesUp c { c with error := true }
  | refused {versions : List Nat} (h : 1 ∉ versions) :
      GivesUp c { c.heard (.handshakeBegin versions) with error := true }

theorem turn_err {data : List UInt8} {fds : List RawFd} {needle : Nat} {e : Error}
    (hturn : handleTurn m clientAccepts (handler m up protocols handlers q) data c fds needle =
      (t, .err e)) : GivesUp c t := by
  rcases Server.handleTurn_cases clientAccepts (handler m up protocols handlers q) data c fds needle with
    ⟨msg, rest, -, -, heq⟩ | ⟨hstate, -⟩
  · rw [heq] at hturn
    obtain ⟨hstate, hreports⟩ := Prod.mk.inj hturn
    have herr : (c.handleDecoded m up protocols handlers q msg).2 = .err e :=
      Outcome.eq_err_of_bind hreports fun _ => (Scanner.infallible_fit ..).bind fun _ => trivial
    obtain ⟨begins, rfl, hversions, -, hheard⟩ := handleDecoded_err herr
    have hmem : 1 ∉ begins.versions.map UInt32.toNat := fun h => hversions (one_mem_versions.mp h)
    rw [← hstate]
    exact Eq.subst (motive := GivesUp c) hheard.symm (.refused hmem)
  · rw [hturn] at hstate
    rcases hstate with rfl | rfl
    · exact .kept
    · exact .flagged

/-- A number of messages, one behind the other. -/
def HandlesAll (protocols : List Scanner.Protocol) (q : Nat) (c : Client) (msgs : List S2C)
    (t : Client) : Prop :=
  SameDispatch q c t ∧ ∀ rest, ∃ as, (∀ a ∈ as, a.Bound protocols) ∧
    Run.run step (c.setPhase q (.batch (msgs ++ rest))) as = some (t.setPhase q (.batch rest))

theorem HandlesAll.of_chain {msgs : List S2C} (h : Frame.Chain (Handles q) c msgs t) :
    HandlesAll protocols q c msgs t := by
  induction h with
  | nil c => exact ⟨.refl q c, fun rest => ⟨[], by simp, Run.run_nil _⟩⟩
  | cons first _ ih =>
    rename_i msgs _
    refine ⟨first.1.trans ih.1, fun rest => ?_⟩
    obtain ⟨as, has, hrun⟩ := first.run (msgs ++ rest)
    obtain ⟨bs, hbs, hrun'⟩ := ih.2 rest
    refine ⟨as ++ bs, ?_, Run.run_append.mpr ⟨_, hrun, hrun'⟩⟩
    intro a ha
    rcases List.mem_append.mp ha with ha | ha
    · exact has a ha
    · exact hbs a ha

theorem Implemented.setPhase (hc : Implemented protocols registered c) (phase : Phase) :
    Implemented protocols registered (c.setPhase q phase) :=
  @Implemented.move protocols registered { anything with binds := fun _ => False }
    (fun _ hfalse => hfalse.elim) _ _ hc (.tweak (.setPhase c q phase))

theorem Handles.implemented {msg : S2C} (hhandles : Handles q c msg t)
    (hbatch : (c.queues q).phase = .batch []) (hc : Implemented protocols registered c) :
    Implemented protocols registered t := by
  obtain ⟨as, has, hrun⟩ := hhandles.run []
  have ht := (hc.setPhase _).run has hrun
  rwa [setPhase_self ((hhandles.1.phase q).trans hbatch)] at ht

/-- **The loop of `handle_message`** handles the messages it decodes, up to where it ends. -/
theorem handled_loop {data : List UInt8} {fuel : Nat} (hc : Implemented protocols registered c)
    (hbatch : (c.queues q).phase = .batch []) {fds : List RawFd} {needle : Nat}
    {r : Frame.Result Client RawFd Error}
    (hr : Frame.loop (handleTurn m clientAccepts (handler m up protocols handlers q) data) data.length
      fuel c fds needle = r) (hreturns : r.outcome.Returns) :
    ∃ msgs t, HandlesAll protocols q c msgs t ∧
      ((r.outcome = .ok () ∧ r.state = t ∧ (needle < data.length → msgs ≠ [])) ∨
        (∃ e, r.outcome = .err e) ∧ GivesUp t r.state) := by
  subst hr
  have hturn : ∀ c fds needle t next,
      (Implemented protocols registered c ∧ (c.queues q).phase = .batch []) →
      handleTurn m clientAccepts (handler m up protocols handlers q) data c fds needle = (t, .ok next) →
      ∃ msg, Handles q c msg t ∧ Implemented protocols registered t ∧
        (t.queues q).phase = .batch [] := by
    intro c fds needle t next hc hturn
    obtain ⟨msg, haccepts, hhandled⟩ := turn_ok hturn
    have hfirst := handles_decoded hc.1 hc.2 haccepts hhandled
    exact ⟨msg.told, hfirst, hfirst.implemented hc.2 hc.1, (hfirst.1.phase q).trans hc.2⟩
  obtain ⟨msgs, t, hchain, -, hend⟩ := Frame.loop_chain hturn ⟨hc, hbatch⟩ hreturns
  refine ⟨msgs, t, .of_chain hchain, ?_⟩
  rcases hend with hdone | ⟨e, fds', needle', hout, hgives⟩
  · exact .inl hdone
  · exact .inr ⟨⟨e, hout⟩, turn_err hgives⟩

/-! ## A dispatch -/

theorem abort_setPhase (c : Client) (q : Nat) (phase : Phase) :
    (c.setPhase q phase).abort q = c.abort q := by
  unfold abort
  rw [disconnectOnError_setPhase]
  unfold setPhase
  rw [setQueue_setQueue]

/-- What a dispatch that gives up leaves of its queue and of the connection. -/
structure Broken (q : Nat) (c t : Client) : Prop where
  error : t.error = true
  idle : (t.queues q).phase = .idle
  live : (t.queues q).live = (c.queues q).live
  inRoundtrip : (t.queues q).inRoundtrip = false
  others : ∀ i, i ≠ q → (t.queues i).phase = (c.queues i).phase ∧
    (t.queues i).inRoundtrip = (c.queues i).inRoundtrip

theorem Broken.abort {d : Client} (hlive : (d.queues q).live = (c.queues q).live)
    (hothers : ∀ i, i ≠ q → (d.queues i).phase = (c.queues i).phase ∧
      (d.queues i).inRoundtrip = (c.queues i).inRoundtrip) : Broken q c (d.abort q) := by
  have hqueue : (d.abort q).queues q = { d.queues q with phase := .idle, inRoundtrip := false } :=
    if_pos rfl
  refine ⟨rfl, by rw [hqueue], by rw [hqueue]; exact hlive, by rw [hqueue], fun i hi => ?_⟩
  rw [show (d.abort q).queues i = d.queues i from if_neg hi]
  exact hothers i hi

/-- The end of a batch. -/
theorem finish_spec (c : Client) (q : Nat) :
    ((c.finish q).queues q).phase = .idle ∧ ((c.finish q).queues q).live = (c.queues q).live ∧
      ((c.finish q).queues q).inRoundtrip = ((c.queues q).inRoundtrip && !(c.finish q).error) ∧
      ∀ i, i ≠ q → ((c.finish q).queues i).phase = (c.queues i).phase ∧
        ((c.finish q).queues i).inRoundtrip = (c.queues i).inRoundtrip := by
  have hframe := (Frame.flush c q).trans (.collect _)
  have hqueue : (c.finish q).queues q = { (c.flush q).collectOrphanedObjects.queues q with
      phase := .idle
      inRoundtrip := ((c.flush q).collectOrphanedObjects.queues q).inRoundtrip && !(c.finish q).error } :=
    if_pos rfl
  rw [hqueue]
  refine ⟨rfl, hframe.live q, by rw [hframe.inRoundtrip q], fun i hi => ?_⟩
  rw [show (c.finish q).queues i = (c.flush q).collectOrphanedObjects.queues i from if_neg hi]
  exact ⟨hframe.phase i, hframe.inRoundtrip i⟩

/-- **What a dispatch comes to**, for the client of messages: it is through, the connection is broken,
or it returns early, when all that is left to do is what an empty dispatch or a roundtrip that fails
does. -/
inductive Dispatched (protocols : List Scanner.Protocol) (q : Nat) (c t : Client) : Reply → Prop
  | done (as : List Action) (has : ∀ a ∈ as, a.Bound protocols) (hrun : Run.run step c as = some t)
      (hsame : SameDispatch q c t) (hopen : t.error = false) : Dispatched protocols q c t (.ok ())
  | broken (e : CrateError) (as : List Action) (has : ∀ a ∈ as, a.Bound protocols)
      (hrun : Run.run step c as = some t) (hbroken : Broken q c t) (he : e.fromDispatch = true)
      (hclosed : e = .connectionClosed ∨ e ≠ .io ∧ t.shut = true) :
      Dispatched protocols q c t (.error e)
  | stopped (e : CrateError) (as : List Action) (has : ∀ a ∈ as, a.Bound protocols) (d : Client)
      (hrun : Run.run step c as = some d) (hsame : SameDispatch q c d) (hopen : d.dispatches q = true)
      (ht : t = d.collectOrphanedObjects) (he : e = .connectionClosed ∨ e = .io) :
      Dispatched protocols q c t (.error e)

theorem collect_sameDispatch (q : Nat) (c : Client) : SameDispatch q c c.collectOrphanedObjects :=
  (Frame.collect c).sameDispatch q

/-- Nothing that a dispatch waits for comes of collecting orphans. -/
theorem dispatches_collect (hc : Ledger c) (h : c.dispatches q = true) :
    c.collectOrphanedObjects.dispatches q = true := by
  have hstep : step c (.poll q) = some c.collectOrphanedObjects := if_pos h
  have hframe := Frame.collect c
  have hsent : (c.collectOrphanedObjects.queues q).lastSent = (c.queues q).lastSent := by
    rcases asks_or_not hc hstep with ⟨_, ha, -⟩ | ⟨-, hunasked⟩
    · cases ha
    · exact (hunasked.queues q).lastSent
  have hackd : (c.collectOrphanedObjects.queues q).lastAckd = (c.queues q).lastAckd := by
    rcases acks_or_not hc hstep with ⟨_, _, _, _, ha, -⟩ | ⟨-, hunacked⟩
    · cases ha
    · exact (hunacked q).1
  unfold dispatches at h ⊢
  simpa only [hframe.live, hframe.phase, hframe.error, hframe.inRoundtrip, hsent, hackd] using h

/-- A batch is read, its messages are handled, and one more action closes it. -/
theorem run_batch {d : Client} {msgs rest : List S2C} {last : Action} (hopen : c.dispatches q = true)
    (hall : HandlesAll protocols q (c.collectOrphanedObjects.setPhase q (.batch [])) msgs d)
    (hne : msgs ++ rest ≠ []) (hlast : last.Bound protocols)
    (hstep : step (d.setPhase q (.batch rest)) last = some t) :
    ∃ as, (∀ a ∈ as, a.Bound protocols) ∧ Run.run step c as = some t := by
  obtain ⟨as, has, hrun⟩ := hall.2 rest
  rw [setPhase_setPhase] at hrun
  have hread : step c (.read q (msgs ++ rest)) =
      some (c.collectOrphanedObjects.setPhase q (.batch (msgs ++ rest))) := if_pos ⟨hopen, hne⟩
  refine ⟨.read q (msgs ++ rest) :: (as ++ [last]), ?_, ?_⟩
  · intro a ha
    rcases List.mem_cons.mp ha with rfl | ha
    · trivial
    · rcases List.mem_append.mp ha with ha | ha
      · exact has a ha
      · exact List.mem_singleton.mp ha ▸ hlast
  · exact Run.run_cons.mpr ⟨_, hread, Run.run_append.mpr ⟨_, hrun,
      Run.run_cons.mpr ⟨t, hstep, Run.run_nil _⟩⟩⟩

/-- … and a batch that is given up breaks the connection. -/
theorem run_givesUp {d s : Client} {msgs : List S2C} (hopen : c.dispatches q = true)
    (hall : HandlesAll protocols q (c.collectOrphanedObjects.setPhase q (.batch [])) msgs d)
    (hgives : GivesUp d s) :
    ∃ as, (∀ a ∈ as, Action.Bound protocols a) ∧ Run.run step c as = some (s.abort q) := by
  have hmalformed : ∃ as, (∀ a ∈ as, Action.Bound protocols a) ∧
      Run.run step c as = some (d.abort q) := by
    refine @run_batch protocols q c (d.abort q) d msgs [.handshakeBegin []] (.malformed q) hopen hall
      (by simp) trivial ?_
    have hphase : ((d.setPhase q (.batch [.handshakeBegin []])).queues q).phase =
        .batch [.handshakeBegin []] := setPhase_phase ..
    simp only [step, hphase, abort_setPhase]
  cases hgives with
  | kept => exact hmalformed
  | flagged => exact hmalformed
  | refused hversions =>
    rename_i versions
    refine @run_batch protocols q c _ d msgs [.handshakeBegin versions] (.handle q) hopen hall (by simp)
      trivial ?_
    rw [step_handle_setPhase]
    show some (if 1 ∈ versions then _ else
      ((d.heard (.handshakeBegin versions)).setPhase q _).abort q) = _
    rw [if_neg hversions, abort_setPhase]
    rfl

theorem GivesUp.queues {d s : Client} (h : GivesUp d s) : s.queues = d.queues := by
  cases h with
  | kept | flagged | refused _ => rfl

/-- **A read refines a batch.** -/
theorem dispatchRead_refines (hc : Implemented protocols registered c) (hopen : c.dispatches q = true)
    {reading : Reading} {reply : Reply}
    (ht : c.collectOrphanedObjects.dispatchRead m up protocols handlers q reading = some (t, reply)) :
    Dispatched protocols q c t reply := by
  have hcollect := collect_sameDispatch q c
  cases reading with
  | waiting => cases ht
  | failed fds =>
    cases ht
    refine .broken _ [.unreadable q] (by simp [Action.Bound]) ?_
      (.abort hcollect.live fun i _ => ⟨hcollect.phase i, hcollect.inRoundtrip i⟩) rfl (.inl rfl)
    exact Run.run_cons.mpr ⟨_, if_pos hopen, Run.run_nil _⟩
  | done raw =>
    unfold dispatchRead at ht
    dsimp only at ht
    by_cases hempty : raw.data = []
    · rw [if_pos hempty] at ht
      cases ht
      exact .stopped _ [] (by simp) c (Run.run_nil c) (.refl q c) hopen rfl (.inl rfl)
    rw [if_neg hempty] at ht
    have hstarts : Implemented protocols registered
        (c.collectOrphanedObjects.setPhase q (.batch [])) :=
      (hc.step (a := .poll q) trivial (if_pos hopen)).setPhase _
    have hbatch : ((c.collectOrphanedObjects.setPhase q (.batch [])).queues q).phase = .batch [] :=
      setPhase_phase ..
    unfold ClientSocket.handleMessage Hyprwire.handleMessage at ht
    generalize hr : Frame.loop (handleTurn m clientAccepts (handler m up protocols handlers q) raw.data)
      raw.data.length raw.data.length (c.collectOrphanedObjects.setPhase q (.batch [])) raw.fds 0 = r
      at ht
    dsimp only at ht
    have hhandled := fun hreturns => handled_loop hstarts hbatch hr hreturns
    have hlive : ∀ {msgs d}, HandlesAll protocols q (c.collectOrphanedObjects.setPhase q (.batch [])) msgs
        d → (d.queues q).live = (c.queues q).live := by
      intro msgs d hall
      rw [hall.1.live, setPhase_live, hcollect.live]
    have hround : ∀ {msgs d}, HandlesAll protocols q (c.collectOrphanedObjects.setPhase q (.batch []))
        msgs d → ∀ i, (d.queues i).inRoundtrip = (c.queues i).inRoundtrip := by
      intro msgs d hall i
      rw [hall.1.inRoundtrip, setPhase_inRoundtrip, hcollect.inRoundtrip]
    have hothers : ∀ {msgs d}, HandlesAll protocols q (c.collectOrphanedObjects.setPhase q (.batch []))
        msgs d → ∀ i, i ≠ q → (d.queues i).phase = (c.queues i).phase := by
      intro msgs d hall i hi
      rw [hall.1.phase, setPhase_others _ _ _ i hi, hcollect.phase]
    -- the error of a batch that is given up is one of the wire
    have hgivesUp : ∀ msgs d s e, HandlesAll protocols q
        (c.collectOrphanedObjects.setPhase q (.batch [])) msgs d → GivesUp d s → s.abort q = t →
        Dispatched protocols q c t (.error (.ofMessage e)) := by
      intro msgs d s e hall hgives heq
      obtain ⟨as, has, hrun⟩ := run_givesUp hopen hall hgives
      subst heq
      refine .broken _ as has hrun (.abort ?_ fun i hi => ?_) ?_ (.inr ⟨?_, rfl⟩)
      · rw [hgives.queues]
        exact hlive hall
      · rw [hgives.queues]
        exact ⟨hothers hall i hi, hround hall i⟩
      · cases e <;> rfl
      · cases e <;> simp [CrateError.ofMessage]
    cases hout : r.outcome with
    | ok u =>
      rw [hout, Outcome.ok_bind] at ht
      obtain ⟨msgs, d, hall, ⟨-, hstate, hne⟩ | ⟨⟨e, he⟩, -⟩⟩ := hhandled (by rw [hout]; trivial)
      · by_cases hqueue : r.queue = []
        · rw [if_neg (not_not.mpr hqueue), hstate] at ht
          simp only [Option.some.injEq, Prod.mk.injEq] at ht
          obtain ⟨rfl, rfl⟩ := ht
          obtain ⟨hidle, hlive', hround', hothers'⟩ := finish_spec d q
          have hphase := (hall.1.phase q).trans hbatch
          have hfinish : step (d.setPhase q (.batch [])) (.finish q) = some (d.finish q) := by
            rw [setPhase_self hphase]
            simp only [step, hphase]
          have hne' : msgs ++ [] ≠ [] := by
            rw [List.append_nil]
            exact hne (List.length_pos_of_ne_nil hempty)
          obtain ⟨as, has, hrun⟩ := @run_batch protocols q c _ d msgs [] (.finish q) hopen hall hne' trivial
            hfinish
          have hothers'' : ∀ i, i ≠ q → ((d.finish q).queues i).phase = (c.queues i).phase ∧
              ((d.finish q).queues i).inRoundtrip = (c.queues i).inRoundtrip := fun i hi =>
            ⟨(hothers' i hi).1.trans (hothers hall i hi), (hothers' i hi).2.trans (hround hall i)⟩
          cases herror : (d.finish q).error with
          | true =>
            rw [if_pos rfl]
            refine .broken _ as has hrun ⟨herror, hidle, hlive'.trans (hlive hall), ?_, hothers''⟩ rfl
              (.inl rfl)
            rw [hround', herror, Bool.not_true, Bool.and_false]
          | false =>
            rw [if_neg (by simp)]
            refine .done as has hrun ⟨fun i => ?_, hlive'.trans (hlive hall), fun i => ?_⟩ herror
            · by_cases hi : i = q
              · subst hi
                exact hidle.trans (dispatches_spec hopen).2.symm
              · exact (hothers'' i hi).1
            · by_cases hi : i = q
              · subst hi
                rw [hround', herror, Bool.not_false, Bool.and_true, hround hall]
              · exact (hothers'' i hi).2
        · rw [if_pos hqueue, hstate] at ht
          simp only [Option.some.injEq, Prod.mk.injEq] at ht
          exact ht.2 ▸ hgivesUp msgs d d _ hall .kept ht.1
      · rw [hout] at he
        cases he
    | err e =>
      rw [hout, Outcome.err_bind] at ht
      simp only [Option.some.injEq, Prod.mk.injEq] at ht
      obtain ⟨msgs, d, hall, ⟨hok, -, -⟩ | ⟨-, hgives⟩⟩ := hhandled (by rw [hout]; trivial)
      · rw [hout] at hok
        cases hok
      · exact ht.2 ▸ hgivesUp msgs d r.state _ hall hgives ht.1
    | panic p =>
      rw [hout, Outcome.panic_bind] at ht
      cases ht
    | stall =>
      rw [hout, Outcome.stall_bind] at ht
      cases ht

end

end Client

end Hyprwire
