import Hyprwire.System.Advertised
import Hyprwire.System.Departures
import Hyprwire.System.Records
import Hyprwire.Wire.Descriptors

/-!
# `System/Serving.lean` — a server at its bytes

`System/Server.lean` has a server that is handed whole messages, and knows from the tables of an
interface when a handler is called. The code has neither: `handle_message` decodes one message after
the other and handles each before it looks at the next byte, and whether a handler is called is up
to the generated `dispatch`, which reads the payload first. Here is the server that does that
(`serve`), on whatever `recvmsg` hands it.

**Nothing new comes of it.** Unless it panics, what the server does with a read is one dispatch of
the server of messages, on the messages that the decoders find (`dispatch_refines`), so all that is
known of that one is known of this one (`serve_refines`).
-/

namespace Hyprwire

open Rust

/-! ## What the bytes say -/

/-- The number that the code of a method with a result reads first. -/
def GenericProtocolMessage.returnSeq (m : Overflow) (msg : GenericProtocolMessage) : Nat :=
  match msg.dataSpan with
  | .ok span =>
    match Scanner.scalarArg m span ⟨0, msg.fds⟩ with
    | .ok (seq, _) => seq.toNat
    | _ => 0
  | _ => 0

/-- The call that a generic message is, as far as a server looks at it. -/
def GenericProtocolMessage.request (m : Overflow) (msg : GenericProtocolMessage) : Generic where
  object := msg.object.toNat
  method := msg.method.toNat
  seq := msg.returnSeq m
  args := []
  origin := 0
  destructor := false

/-- What a client asks for with a message. A server accepts no others than these. -/
def Decoded.request (m : Overflow) : Decoded → C2S
  | .handshakeAck msg => .handshakeAck msg.version.toNat
  | .bindProtocol msg => .bindProtocol msg.seq.toNat msg.version.toNat msg.protocol
  | .generic msg => .generic (msg.request m)
  | .roundtripRequest msg => .roundtripRequest msg.seq.toNat 0
  | _ => .sup

/-- The code that is generated for an interface, found by its name and that of its protocol. -/
def Scanner.codeOf (protocols : List Scanner.Protocol) (protocolName : String)
    (spec : Option ObjectSpec) : Option (Scanner.Protocol × Scanner.Object) :=
  match spec with
  | none => none
  | some spec =>
    (protocols.find? fun p => p.name = protocolName).bind fun p =>
      (p.objects.find? fun o => o.name = spec.objectName).map fun o => (p, o)

theorem Scanner.codeOf_eq {protocols : List Scanner.Protocol} {protocolName : String}
    {p : Scanner.Protocol} {o : Scanner.Object}
    (hp : (protocols.find? fun p => p.name = protocolName) = some p)
    (ho : (p.objects.find? fun o' => o'.name = o.name) = some o) :
    Scanner.codeOf protocols protocolName (some o.spec) = some (p, o) := by
  have hname : (Scanner.Object.spec o).objectName = o.name := rfl
  simp only [codeOf, hp, hname, ho, Option.bind_some, Option.map_some]

/-- The first object of a protocol is the first one of its name. -/
theorem Scanner.find_head {p : Scanner.Protocol} {spec : ObjectSpec}
    (h : p.spec.objects.head? = some spec) :
    ∃ o, spec = o.spec ∧ (p.objects.find? fun o' => o'.name = o.name) = some o := by
  cases hobjects : p.objects with
  | nil =>
    simp only [Scanner.Protocol.spec, hobjects, List.map_nil, List.head?_nil] at h
    cases h
  | cons o os =>
    simp only [Scanner.Protocol.spec, hobjects, List.map_cons, List.head?_cons] at h
    exact ⟨o, (Option.some.inj h).symm, by rw [List.find?_cons_of_pos (by simp)]⟩

/-- … and so is the one that a name finds. -/
theorem Scanner.find_named {p : Scanner.Protocol} {name : String} {spec : ObjectSpec}
    (h : (p.spec.objects.find? fun spec => spec.objectName = name) = some spec) :
    ∃ o, spec = o.spec ∧ (p.objects.find? fun o' => o'.name = o.name) = some o := by
  simp only [Scanner.Protocol.spec, List.find?_map] at h
  obtain ⟨o, ho, rfl⟩ := Option.map_eq_some_iff.mp h
  have hname : o.spec.objectName = name := by simpa using List.find?_some ho
  refine ⟨o, rfl, ?_⟩
  rw [show o.name = name from hname]
  exact ho

theorem Scanner.mem_of_codeOf {protocols : List Scanner.Protocol} {protocolName : String}
    {spec : Option ObjectSpec} {p : Scanner.Protocol} {o : Scanner.Object}
    (h : Scanner.codeOf protocols protocolName spec = some (p, o)) : p ∈ protocols ∧ o ∈ p.objects := by
  unfold codeOf at h
  split at h
  · cases h
  · obtain ⟨p', hp, h⟩ := Option.bind_eq_some_iff.mp h
    obtain ⟨o', ho, heq⟩ := Option.map_eq_some_iff.mp h
    cases heq
    exact ⟨List.mem_of_find?_eq_some hp, List.mem_of_find?_eq_some ho⟩

namespace Server

/-- The same server, elsewhere in its dispatch. -/
def inPhase (s : Server) (phase : Phase) : Server := { s with phase }

@[simp] theorem inPhase_inPhase (s : Server) (phase phase' : Phase) :
    (s.inPhase phase).inPhase phase' = s.inPhase phase' := rfl

@[simp] theorem inPhase_phase (s : Server) (phase : Phase) : (s.inPhase phase).phase = phase := rfl

@[simp] theorem inPhase_objects (s : Server) (phase : Phase) : (s.inPhase phase).objects = s.objects := rfl

theorem inPhase_self {s : Server} {phase : Phase} (h : s.phase = phase) : s.inPhase phase = s := by
  subst h
  rfl

/-! ## Handlers -/

/-- What a handler does, callback by callback: for a message by its number, and for an object whose
client leaves. -/
structure Handlers where
  onMessage : Nat → List Action
  onDeparture : Nat → List Action

/-- A handler holds objects that exist. -/
def holds (s : Server) : Action → Bool
  | .emit k _ _ | .error k _ _ => k < s.size
  | _ => false

/-- One thing a handler does. -/
def attempts (s : Server) (a : Action) : Option Server := if s.holds a then step s a else none

/-- A handler runs. -/
def perform (s : Server) (acts : List Action) : Server := Run.attempt attempts s acts

/-! ## Handling a message -/

/-- The code generated for an object's interface. -/
def interface (protocols : List Scanner.Protocol) (obj : ServerObject) :
    Option (Scanner.Protocol × Scanner.Object) :=
  Scanner.codeOf protocols obj.protocolName obj.spec

section
variable (m : Overflow) (up : Char → String) (protocols : List Scanner.Protocol)

/-- `ServerObject::dispatch`: the generated code reads the payload. A method with a result asks for
an object, which there is none of once the object it is called on is destroyed. The server has one
state, and the data of its objects are made for it, so the printed `downcast_mut` finds it. -/
def generated (obj : ServerObject) (msg : GenericProtocolMessage) :
    Outcome Error (Option (Scanner.Event (String × UInt32))) := do
  let span ← msg.dataSpan
  if obj.objectData = false then .ok none
  else
    match interface protocols obj with
    | none => .ok none
    | some (p, o) =>
      Scanner.dispatch m up p true true
        (fun name seq => if obj.destroyed then none else some (name, seq)) o.c2s msg.method span
        msg.fds

/-- The object that was asked for is made and gets its data, and the handler is called. -/
def event (h : Handlers) (s : Server) (k method : Nat) (e : Scanner.Event (String × UInt32)) :
    Server :=
  let t :=
    match e.fields.head? with
    | some (.object (name, seq)) =>
      (s.createObject (s.objects k).protocolName name (s.objects k).version seq.toNat).setObject
        s.size fun obj => { obj with objectData := true }
    | _ => s
  (t.inPhase (.callback [] k (some method))).perform (h.onMessage s.handled.length)

/-- `on_generic`. -/
def onGenericMessage (h : Handlers) (s : Server) (msg : GenericProtocolMessage) :
    Server × Outcome Error Unit :=
  match s.objectForId msg.object.toNat with
  | some k =>
    let s := s.note k msg.method.toNat
    match generated m up protocols (s.objects k) msg with
    | .ok none => ((s.afterDispatch k msg.method.toNat).inPhase (.batch []), .ok ())
    | .ok (some e) =>
      (((s.event h k msg.method.toNat e).afterDispatch k msg.method.toNat).inPhase (.batch []), .ok ())
    | .err e => (s, .err e)
    | .panic p => (s, .panic p)
    | .stall => (s, .stall)
  | none =>
    let error := s!"generic message references unknown object {msg.object.toNat}"
    ({ s.write (.fatalProtocolError msg.object.toNat (wordSize - 1) error) with
        error := true, unknownObject := true }, .ok ())

/-- The handler of a bind runs, if there is one for the object. -/
def onBind (h : Handlers) (s : Server) (k : Nat) : Server :=
  if (s.objects k).objectData then
    ((s.inPhase (.callback [] k none)).perform (h.onMessage s.handled.length)).inPhase (.batch [])
  else s

/-- The body of the loop of `ServerClientState::handle_message`, behind the decoder. -/
def handleDecoded (h : Handlers) (s : Server) (msg : Decoded) : Server × Outcome Error Unit :=
  let s := { s with handled := s.handled ++ [msg.request m], phase := .batch [] }
  match msg with
  | .sup _ => (s.write (.handshakeBegin [1]), .ok ())
  | .handshakeAck msg =>
    let protocols := s.impls.map fun imp => (imp.specName, imp.specVer.toNat)
    ({ s.write (.handshakeProtocols protocols) with version := msg.version.toNat }, .ok ())
  | .bindProtocol msg =>
    ((s.createObject msg.protocol "" msg.version.toNat msg.seq.toNat).onBind h s.size, .ok ())
  | .generic msg => s.onGenericMessage m up protocols h msg
  | .roundtripRequest msg =>
    ({ s with scheduledRoundtripSeq := msg.seq.toNat, scheduledRequest := s.handled.length - 1 },
      .ok ())
  | _ => (s, .ok ())

/-- The server's side of `handle_message`. -/
def handler (h : Handlers) : Handler Server where
  handle s msg := s.handleDecoded m up protocols h msg
  flagError s := { s with error := true }

/-- `ServerSocket::dispatch_client`, and what `dispatch_pending` makes of the error flag behind it;
`none` when the call does not come back. -/
def dispatchClient (h : Handlers) (s : Server) : Reading → Option Server
  | .waiting => none
  | .failed _ => some (s.abort "fatal: invalid message on wire")
  | .done raw =>
    if raw.data = [] then some s.close
    else
      let r := ServerClientState.handleMessage m (handler m up protocols h) raw.data raw.fds
        (s.inPhase (.batch []))
      match r.outcome with
      | .ok () => some r.state.finish
      | .err _ => some r.state.malformed
      | .panic _ | .stall => none

/-! ## The server -/

/-- `destroy_objects_for_disconnect`, from the objects that are left on. A destructor has no
arguments, so its payload is empty. -/
def depart (h : Handlers) (s : Server) : List Nat → Server
  | [] => s.leave
  | k :: rest =>
    let s := s.visit k rest
    match s.phase with
    | .leavingCallback _ _ =>
      depart h (((s.perform (h.onDeparture k)).destroy k).inPhase (.leaving rest)) rest
    | _ => depart h s rest

/-- What happens to a server: its client can be read from, user code does something on its objects
or removes it, and it leaves. -/
inductive Input
  | dispatch (answers : List Recv) (handlers : Handlers)
  | aside (a : Action)
  | remove
  | leave (handlers : Handlers)

/-- **The server of bytes.** -/
def serve (s : Server) : Input → Option Server
  | .dispatch answers handlers =>
    if s.phase = .idle ∧ s.gone = false then
      s.dispatchClient m up protocols handlers (readFromSocket answers)
    else none
  | .aside a => s.attempts a
  | .remove => if s.phase = .idle ∧ s.gone = false then some s.close else none
  | .leave handlers =>
    match s.phase with
    | .leaving rest => some (s.depart handlers rest)
    | _ => none

end

/-! ## The code and its tables -/

section
variable {protocols : List Scanner.Protocol}

/-- The table of the methods that the code of an interface reads. -/
def tableOf : Option (Scanner.Protocol × Scanner.Object) → List MethodSpec
  | some (_, o) => Scanner.methodSpecs o.c2s
  | none => []

/-- **Every object's table is that of its code.** -/
structure Implemented (protocols : List Scanner.Protocol) (s : Server) : Prop where
  impls : s.impls = protocols.map Scanner.Protocol.spec
  methods : ∀ k < s.size, (s.objects k).methodsIn = tableOf (interface protocols (s.objects k))
  table_lt : ∀ k ∈ s.table, k < s.size

theorem Implemented.init (protocols : List Scanner.Protocol) :
    Implemented protocols { impls := protocols.map Scanner.Protocol.spec } where
  impls := rfl
  methods _ hk := absurd hk (Nat.not_lt_zero _)
  table_lt _ hk := by cases hk

theorem interface_same {obj obj' : ServerObject} (h : SameObject obj obj') :
    interface protocols obj' = interface protocols obj := by
  unfold interface
  rw [h.spec, h.protocolName]

/-- An interface that is found for a creation is found again by its name. -/
theorem methodsIn_created {s : Server} (himpls : s.impls = protocols.map Scanner.Protocol.spec)
    (protocol name : String) (version seq : Nat) :
    (s.created protocol name version seq).methodsIn =
      tableOf (interface protocols (s.created protocol name version seq)) := by
  cases hspec : s.findSpec protocol name with
  | none => simp only [ServerObject.methodsIn, interface, Scanner.codeOf, created, hspec, tableOf]
  | some spec =>
    have hprotocol : ∀ {imp}, (s.impls.find? fun imp => imp.specName = protocol) = some imp →
        ∃ p, (protocols.find? fun p => p.name = protocol) = some p ∧ imp = p.spec := by
      intro imp himp
      rw [himpls, List.find?_map] at himp
      obtain ⟨p, hp, rfl⟩ := Option.map_eq_some_iff.mp himp
      exact ⟨p, hp, rfl⟩
    have hcode : ∃ p o, (protocols.find? fun p => p.name = protocol) = some p ∧ spec = o.spec ∧
        (p.objects.find? fun o' => o'.name = o.name) = some o := by
      unfold findSpec at hspec
      split at hspec
      · obtain ⟨imp, himp, hhead⟩ := Option.bind_eq_some_iff.mp hspec
        obtain ⟨p, hp, rfl⟩ := hprotocol himp
        obtain ⟨o, ho, hfind⟩ := Scanner.find_head hhead
        exact ⟨p, o, hp, ho, hfind⟩
      · obtain ⟨imp, himp, hobject⟩ := Option.bind_eq_some_iff.mp hspec
        obtain ⟨p, hp, rfl⟩ := hprotocol himp
        obtain ⟨o, ho, hfind⟩ := Scanner.find_named hobject
        exact ⟨p, o, hp, ho, hfind⟩
    obtain ⟨p, o, hp, rfl, hfind⟩ := hcode
    have hinterface : interface protocols (s.created protocol name version seq) = some (p, o) := by
      simp only [interface, created, hspec]
      exact Scanner.codeOf_eq hp hfind
    rw [hinterface]
    simp only [ServerObject.methodsIn, created, hspec]
    rfl

theorem Implemented.step {s s' : Server} {a : Action} (hs : Implemented protocols s)
    (h : Server.step s a = some s') : Implemented protocols s' := by
  obtain ⟨hsame, himpls, hbirth⟩ := birth h
  have hold : ∀ k < s.size,
      (s'.objects k).methodsIn = tableOf (interface protocols (s'.objects k)) := by
    intro k hk
    rw [(hsame k hk).methodsIn, interface_same (hsame k hk)]
    exact hs.methods k hk
  cases hbirth with
  | none _ hsize _ htable _ =>
    refine ⟨himpls.trans hs.impls, fun k hk => hold k (hsize ▸ hk), fun k hk => ?_⟩
    rw [hsize]
    exact hs.table_lt k (htable k hk)
  | made msg rest protocol name version seq _ _ hsize _ hnew htable _ _ =>
    refine ⟨himpls.trans hs.impls, fun k hk => ?_, fun k hk => ?_⟩
    · rw [hsize] at hk
      rcases Nat.lt_succ_iff_lt_or_eq.mp hk with hk | rfl
      · exact hold k hk
      · rw [hnew.methodsIn, interface_same hnew]
        exact methodsIn_created hs.impls protocol name version seq
    · rw [hsize]
      rcases htable k hk with hk | rfl
      · exact Nat.lt_succ_of_lt (hs.table_lt k hk)
      · exact Nat.lt_succ_self _

theorem Implemented.run {s s' : Server} {as : List Action} (hs : Implemented protocols s)
    (h : Run.run Server.step s as = some s') : Implemented protocols s' :=
  Run.run_induction (fun _ _ _ ht hstep => ht.step hstep) hs h

end

/-! ## Handlers, from the server of messages -/

theorem attempts_spec {s s' : Server} {a : Action} (h : s.attempts a = some s') :
    a.onSide = true ∧ step s a = some s' := by
  simp only [attempts, Option.ite_none_right_eq_some] at h
  refine ⟨?_, h.2⟩
  cases a with
  | emit _ _ _ | error _ _ _ => rfl
  | _ => cases h.1

/-- What a handler does is done on the side. -/
theorem run_perform (s : Server) (acts : List Action) :
    ∃ as, Run.run step s as = some (s.perform acts) ∧ ∀ a ∈ as, a.onSide = true := by
  obtain ⟨as, has, hrun⟩ := Run.run_attempt (fun _ _ _ h => attempts_spec h) acts s
  exact ⟨as, hrun, has⟩

theorem aside_perform (s : Server) (acts : List Action) : Aside s (s.perform acts) := by
  obtain ⟨as, hrun, has⟩ := run_perform s acts
  exact aside_of_run hrun has

theorem write_inPhase (s : Server) (phase : Phase) (msg : S2C) :
    (s.inPhase phase).write msg = (s.write msg).inPhase phase :=
  write_relabel { phase := fun _ => phase } s msg

/-- What a handler does, it does the same with other records. -/
theorem attempts_relabel (r : Records) (s : Server) (h : (s.relabel r).during = s.during)
    (a : Action) : (s.relabel r).attempts a = (s.attempts a).map (relabel r) := by
  have hholds : (s.relabel r).holds a = s.holds a := by
    cases a <;> rfl
  unfold attempts
  rw [hholds]
  cases hheld : s.holds a with
  | false => rfl
  | true =>
    have hside : a.onSide = true := by
      cases a with
      | emit _ _ _ | error _ _ _ => rfl
      | _ => cases hheld
    exact step_onSide_relabel r s h hside

/-- … and so does a whole handler. -/
theorem perform_relabel (r : Records) (s : Server) (h : (s.relabel r).during = s.during)
    (acts : List Action) : (s.relabel r).perform acts = (s.perform acts).relabel r := by
  refine @Run.attempt_map _ _ attempts (fun s => (s.relabel r).during = s.during) (relabel r) ?_
    (fun s a hs => attempts_relabel r s hs a) _ _ h
  intro s a s' hs hstep
  obtain ⟨hside, hstep⟩ := attempts_spec hstep
  have haside := aside_of_onSide hstep hside
  have hphase : (s'.relabel r).phase = (s.relabel r).phase := congrArg r.phase haside.phase
  have hhandled : (s'.relabel r).handled = (s.relabel r).handled := congrArg r.log haside.handled
  unfold during at hs ⊢
  rw [hphase, hhandled, haside.phase, haside.handled]
  exact hs

/-- A handler does the same whatever is left of the batch. -/
theorem perform_inPhase (s : Server) {phase : Phase} (h : (s.inPhase phase).during = s.during)
    (acts : List Action) :
    (s.inPhase phase).perform acts = (s.perform acts).inPhase phase :=
  perform_relabel { phase := fun _ => phase } s h acts

/-! ## The generated code, from the tables -/

section
variable {m : Overflow} {up : Char → String} {protocols : List Scanner.Protocol}

/-- Objects that are made have a name: the names of interfaces are identifiers in the code. -/
def Named (protocols : List Scanner.Protocol) : Prop :=
  ∀ p ∈ protocols, ∀ o ∈ p.objects, ∀ mt ∈ o.c2s, mt.returns ≠ some ""

instance (protocols : List Scanner.Protocol) : Decidable (Named protocols) :=
  inferInstanceAs (Decidable (∀ p ∈ protocols, ∀ o ∈ p.objects, ∀ mt ∈ o.c2s, _))

/-- **What an event says of its method**: it has a result exactly if an object was asked for, by the
name that the table has and with the number that comes first in the payload. -/
def Announces (m : Overflow) (obj : ServerObject) (msg : GenericProtocolMessage)
    (e : Scanner.Event (String × UInt32)) : Prop :=
  ∃ spec, obj.methodsIn[msg.method.toNat]? = some spec ∧
    ((spec.returnsType = "" ∧ ∀ o, e.fields.head? ≠ some (.object o)) ∨
      ∃ seq : UInt32, spec.returnsType ≠ "" ∧ e.fields.head? = some (.object (spec.returnsType, seq)) ∧
        seq.toNat = msg.returnSeq m)

/-- **Generated code that comes back called the handler exactly if the tables say so.** -/
theorem generated_calls (hnamed : Named protocols) {obj : ServerObject}
    (htable : obj.methodsIn = tableOf (interface protocols obj)) {msg : GenericProtocolMessage}
    {ev : Option (Scanner.Event (String × UInt32))}
    (h : generated m up protocols obj msg = .ok ev) :
    (ev = none ∧ callsBack obj msg.method.toNat = false) ∨
      ∃ e, ev = some e ∧ callsBack obj msg.method.toNat = true ∧ Announces m obj msg e := by
  obtain ⟨span, hspan, h⟩ := Outcome.bind_eq_ok.mp h
  by_cases hdata : obj.objectData = false
  · rw [if_pos hdata] at h
    refine .inl ⟨(Outcome.ok.inj h).symm, ?_⟩
    unfold callsBack
    split
    · rw [hdata, Bool.false_and]
    · rfl
  rw [if_neg hdata] at h
  have hset : obj.objectData = true := by simpa using hdata
  cases hinterface : interface protocols obj with
  | none =>
    simp only [hinterface] at h
    refine .inl ⟨(Outcome.ok.inj h).symm, ?_⟩
    rw [callsBack, htable, hinterface]
    rfl
  | some code =>
    obtain ⟨p, o⟩ := code
    simp only [hinterface] at h
    have hmethods : obj.methodsIn[msg.method.toNat]? =
        o.c2s[msg.method.toNat]?.map (Scanner.writeMethodSpec msg.method.toNat) := by
      rw [htable, hinterface]
      exact Scanner.getElem?_methodSpecs ..
    rw [Scanner.dispatch, if_pos rfl] at h
    cases hmt : o.c2s[msg.method.toNat]? with
    | none =>
      simp only [hmt] at h
      refine .inl ⟨(Outcome.ok.inj h).symm, ?_⟩
      rw [callsBack, hmethods, hmt]
      rfl
    | some mt =>
      simp only [hmt] at h
      rw [hmt, Option.map_some] at hmethods
      cases hreturns : mt.returns with
      | none =>
        simp only [hreturns] at h
        obtain ⟨⟨vs, c⟩, -, h⟩ := Outcome.bind_eq_ok.mp h
        have hret : (Scanner.writeMethodSpec msg.method.toNat mt).returnsType = "" := by
          simp only [Scanner.writeMethodSpec, hreturns, Option.getD_none]
        refine .inr ⟨_, (Outcome.ok.inj h).symm, ?_, _, hmethods, .inl ⟨hret, ?_⟩⟩
        · simp only [callsBack, hmethods, hset, hret, decide_true, Bool.true_or, Bool.and_self]
        · intro o
          cases vs <;> simp
      | some returned =>
        simp only [hreturns] at h
        have hne : returned ≠ "" := by
          intro hempty
          obtain ⟨hp, ho⟩ := Scanner.mem_of_codeOf hinterface
          exact hnamed p hp o ho mt (List.mem_of_getElem? hmt) (hempty ▸ hreturns)
        have hret : (Scanner.writeMethodSpec msg.method.toNat mt).returnsType = returned := by
          simp only [Scanner.writeMethodSpec, hreturns, Option.getD_some]
        obtain ⟨⟨field, c⟩, hseq, h⟩ := Outcome.bind_eq_ok.mp h
        unfold Scanner.seqParse at hseq
        obtain ⟨⟨seq, c'⟩, hscalar, hseq⟩ := Outcome.bind_eq_ok.mp hseq
        simp only [if_true, Outcome.ok.injEq, Prod.mk.injEq] at hseq
        obtain ⟨rfl, rfl⟩ := hseq
        have hnumber : seq.toNat = msg.returnSeq m := by
          simp only [GenericProtocolMessage.returnSeq, hspan, hscalar]
        cases hdestroyed : obj.destroyed with
        | true =>
          simp only [hdestroyed, if_true, Option.map_none] at h
          refine .inl ⟨(Outcome.ok.inj h).symm, ?_⟩
          simp only [callsBack, hmethods, hret, hset, hdestroyed, hne, decide_false, Bool.not_true,
            Bool.or_self, Bool.and_false]
        | false =>
          simp only [hdestroyed, Bool.false_eq_true, if_false, Option.map_some] at h
          obtain ⟨⟨vs, c⟩, -, h⟩ := Outcome.bind_eq_ok.mp h
          refine .inr ⟨_, (Outcome.ok.inj h).symm, ?_, _, hmethods, .inr ⟨seq, ?_, ?_, hnumber⟩⟩
          · simp only [callsBack, hmethods, hret, hset, hdestroyed, hne, decide_false, Bool.not_false,
              Bool.or_true, Bool.and_self]
          · rw [hret]
            exact hne
          · rw [hret]
            rfl

end

/-! ## One message -/

theorem afterDispatch_inPhase (s : Server) (phase : Phase) (k method : Nat) :
    (s.inPhase phase).afterDispatch k method = (s.afterDispatch k method).inPhase phase :=
  afterDispatch_relabel { phase := fun _ => phase } s k method

theorem note_inPhase (s : Server) (phase : Phase) (k method : Nat) :
    (s.inPhase phase).note k method = (s.note k method).inPhase phase :=
  note_relabel { phase := fun _ => phase } s k method

theorem createObject_inPhase (s : Server) (phase : Phase) (protocol name : String)
    (version seq : Nat) : (s.inPhase phase).createObject protocol name version seq =
      (s.createObject protocol name version seq).inPhase phase :=
  createObject_relabel { phase := fun _ => phase } s protocol name version seq

theorem returned_some (s : Server) (rest : List C2S) (k method : Nat) :
    s.returned rest k (some method) = (s.afterDispatch k method).inPhase (.batch rest) := rfl

theorem returned_eq (s : Server) (rest : List C2S) (k : Nat) (method : Option Nat) :
    s.returned rest k method = (s.returned [] k method).inPhase (.batch rest) := by
  unfold returned
  cases method <;> rfl

theorem returned_inPhase (s : Server) (phase : Phase) (rest : List C2S) (k : Nat)
    (method : Option Nat) : (s.inPhase phase).returned rest k method = s.returned rest k method := by
  cases method with
  | none => rfl
  | some method =>
    show ((s.inPhase phase).afterDispatch k method).inPhase _ = _
    rw [afterDispatch_inPhase, inPhase_inPhase]
    rfl

/-- What is done while a message is handled. -/
def Action.inside : Action → Bool
  | .emit _ _ _ | .error _ _ _ | .return_ => true
  | _ => false

theorem within_of_inside {a : Action} (h : a.inside = true) : a.within = true := by
  cases a with
  | emit _ _ _ | error _ _ _ | return_ => rfl
  | _ => cases h

/-- What the server of messages makes of a message when the server of bytes makes `t` of it. -/
def Handles (s : Server) (req : C2S) (t : Server) : Prop :=
  t.phase = .batch [] ∧ ∀ rest, ∃ as, (∀ a ∈ as, a.inside = true) ∧
    Run.run step (s.handle req rest) as = some (t.inPhase (.batch rest))

/-- No handler is called. -/
theorem Handles.quiet {s t : Server} {req : C2S} (hphase : t.phase = .batch [])
    (h : ∀ rest, s.handle req rest = t.inPhase (.batch rest)) : Handles s req t :=
  ⟨hphase, fun rest => ⟨[], by simp, by rw [h rest, Run.run_nil]⟩⟩

/-- A handler is called, and the callback returns. -/
theorem Handles.called {s v : Server} {req : C2S} {k : Nat} {method : Option Nat}
    {acts : List Action} (h : ∀ rest, s.handle req rest = v.inPhase (.callback rest k method)) :
    Handles s req (((v.inPhase (.callback [] k method)).perform acts).returned [] k method) := by
  refine ⟨?_, fun rest => ?_⟩
  · rw [returned_eq, inPhase_phase]
  obtain ⟨as, hrun, has⟩ := run_perform (v.inPhase (.callback rest k method)) acts
  have hphase := (aside_perform (v.inPhase (.callback rest k method)) acts).phase
  have hsame : (v.inPhase (.callback rest k method)).perform acts =
      ((v.inPhase (.callback [] k method)).perform acts).inPhase (.callback rest k method) :=
    @perform_inPhase (v.inPhase (.callback [] k method)) (.callback rest k method) rfl acts
  have hreturn : step ((v.inPhase (.callback rest k method)).perform acts) .return_ =
      some ((((v.inPhase (.callback [] k method)).perform acts).returned [] k method).inPhase
        (.batch rest)) := by
    simp only [step, hphase, inPhase_phase]
    rw [hsame, returned_inPhase, returned_eq]
  refine ⟨as ++ [.return_], ?_, ?_⟩
  · intro a ha
    rcases List.mem_append.mp ha with ha | ha
    · have hside := has a ha
      cases a with
      | emit _ _ _ | error _ _ _ => rfl
      | _ => cases hside
    · rw [List.mem_singleton.mp ha]
      rfl
  · rw [h rest]
    exact Run.run_append.mpr ⟨_, hrun, Run.run_cons.mpr ⟨_, hreturn, Run.run_nil _⟩⟩

/-- A message on an object that no handler is called for. -/
theorem onGeneric_quiet {s : Server} {msg : Generic} {rest : List C2S} {k : Nat}
    (hfind : s.objectForId msg.object = some k)
    (hquiet : callsBack (s.objects k) msg.method = false) :
    s.onGeneric msg rest =
      ((s.note k msg.method).afterDispatch k msg.method).inPhase (.batch rest) := by
  have hdelivered := delivered s msg rest
  generalize s.onGeneric msg rest = t at hdelivered
  cases hdelivered with
  | unknown hnone =>
    rw [hnone] at hfind
    cases hfind
  | silent k' hfind' _ =>
    rw [hfind] at hfind'
    cases hfind'
    rfl
  | called k' hfind' hcalls =>
    rw [hfind] at hfind'
    cases hfind'
    rw [hquiet] at hcalls
    cases hcalls
  | made k' _ hfind' hcalls =>
    rw [hfind] at hfind'
    cases hfind'
    rw [hquiet] at hcalls
    cases hcalls

/-- … and one whose handler is called as it is. -/
theorem onGeneric_called {s : Server} {msg : Generic} {rest : List C2S} {k : Nat} {spec : MethodSpec}
    (hfind : s.objectForId msg.object = some k) (hcalls : callsBack (s.objects k) msg.method = true)
    (hspec : (s.objects k).methodsIn[msg.method]? = some spec) (hret : spec.returnsType = "") :
    s.onGeneric msg rest =
      (s.note k msg.method).inPhase (.callback rest k (some msg.method)) := by
  have hobjects : (s.note k msg.method).objects = s.objects := by rw [note_eq]
  have hdata : (s.objects k).objectData = true := by
    simpa [callsBack, hspec, hret] using hcalls
  unfold onGeneric dispatch
  simp only [hfind, hobjects, hspec, hret, if_true, hdata, Bool.true_eq_false, if_false,
    inPhase]

section
variable {m : Overflow} {up : Char → String} {protocols : List Scanner.Protocol} {h : Handlers}

/-- An event without an object calls the handler. -/
theorem event_plain {s : Server} {k method : Nat} {e : Scanner.Event (String × UInt32)}
    (he : ∀ o, e.fields.head? ≠ some (.object o)) :
    s.event h k method e =
      (s.inPhase (.callback [] k (some method))).perform (h.onMessage s.handled.length) := by
  unfold event
  cases hhead : e.fields.head? with
  | none => rfl
  | some field =>
    cases field with
    | object o => exact absurd hhead (he o)
    | value v => rfl
    | seq seq => rfl

theorem event_object {s : Server} {k method : Nat} {e : Scanner.Event (String × UInt32)}
    {name : String} {seq : UInt32} (he : e.fields.head? = some (.object (name, seq))) :
    s.event h k method e =
      (((s.createObject (s.objects k).protocolName name (s.objects k).version seq.toNat).setObject s.size
        fun obj => { obj with objectData := true }).inPhase (.callback [] k (some method))).perform
          (h.onMessage s.handled.length) := by
  unfold event
  rw [he]

/-- **A generic message**, read by the generated code, is handled as the tables say. -/
theorem handles_generic (hnamed : Named protocols) {s t : Server} (hs : Implemented protocols s)
    {msg : GenericProtocolMessage}
    (ht : (s.heard (.generic (msg.request m)) []).onGenericMessage m up protocols h msg = (t, .ok ())) :
    Handles s (.generic (msg.request m)) t := by
  have hheard : ∀ rest, s.heard (.generic (msg.request m)) rest =
      (s.heard (.generic (msg.request m)) []).inPhase (.batch rest) := fun _ => rfl
  have hobjects : ∀ k, (s.heard (.generic (msg.request m)) []).objects k = s.objects k := fun _ => rfl
  unfold onGenericMessage at ht
  cases hfind : s.objectForId msg.object.toNat with
  | none =>
    simp only [show (s.heard _ []).objectForId msg.object.toNat = none from hfind, Prod.mk.injEq,
      and_true] at ht
    subst ht
    refine .quiet (Aside.write (s.heard _ []) _).phase fun rest => ?_
    rw [handle_generic, onGeneric]
    simp only [show (s.heard _ rest).objectForId (msg.request m).object = none from hfind]
    rw [hheard, write_inPhase]
    rfl
  | some k =>
    have hfind' : ∀ rest, (s.heard (.generic (msg.request m)) rest).objectForId
        (msg.request m).object = some k := fun _ => hfind
    have hk := hs.table_lt k (List.mem_of_find?_eq_some hfind)
    simp only [show (s.heard _ []).objectForId msg.object.toNat = some k from hfind] at ht
    have hnoted : ((s.heard (.generic (msg.request m)) []).note k msg.method.toNat).objects k =
        s.objects k := by
      rw [note_eq]
      rfl
    rw [hnoted] at ht
    generalize hgen : generated m up protocols (s.objects k) msg = result at ht
    cases result with
    | ok ev =>
      rcases generated_calls hnamed (hs.methods k hk) hgen with
        ⟨rfl, hquiet⟩ | ⟨e, rfl, hcalls, spec, hspec, he⟩
      · simp only [Prod.mk.injEq, and_true] at ht
        subst ht
        refine .quiet rfl fun rest => ?_
        rw [handle_generic, onGeneric_quiet (hfind' rest) hquiet, hheard, note_inPhase,
          afterDispatch_inPhase]
        rfl
      · simp only [Prod.mk.injEq, and_true] at ht
        subst ht
        rcases he with ⟨hret, hnone⟩ | ⟨seq, hret, hsome, hseq⟩
        · rw [event_plain hnone, ← returned_some]
          refine Handles.called (k := k) fun rest => ?_
          rw [handle_generic, onGeneric_called (hfind' rest) hcalls hspec hret, hheard, note_inPhase]
          rfl
        · rw [event_object hsome, hnoted, ← returned_some]
          refine Handles.called (k := k) fun rest => ?_
          rw [handle_generic, onGeneric_made (hfind' rest) hcalls hspec hret, hheard, note_inPhase,
            createObject_inPhase, hseq]
          have hsize : ((s.heard (.generic (msg.request m)) []).note k msg.method.toNat).size = s.size := by
            rw [note_eq]
            rfl
          rw [hsize]
          rfl
    | err e => cases ht
    | panic p => cases ht
    | stall => cases ht

/-- A bind is handled, and the handler it may have. -/
theorem handles_bind {s : Server} {protocol : String} {version seq : Nat} (hversion : version ≠ 0) :
    Handles s (.bindProtocol seq version protocol)
      (((s.heard (.bindProtocol seq version protocol) []).createObject protocol "" version seq).onBind
        h s.size) := by
  have heq : ∀ rest, s.handle (.bindProtocol seq version protocol) rest =
      ((s.heard (.bindProtocol seq version protocol) []).createObject protocol "" version seq).inPhase
        (if (s.created protocol "" version seq).objectData then .callback rest s.size none
          else .batch rest) := by
    intro rest
    rw [handle_bind_eq s seq protocol rest hversion]
    rw [show s.heard (.bindProtocol seq version protocol) rest =
      (s.heard (.bindProtocol seq version protocol) []).inPhase (.batch rest) from rfl,
      createObject_inPhase]
    rfl
  have hdata : (((s.heard (.bindProtocol seq version protocol) []).createObject protocol "" version
      seq).objects s.size).objectData = (s.created protocol "" version seq).objectData := by
    rw [createObject_eq]
    exact congrArg ServerObject.objectData (if_pos rfl)
  unfold onBind
  rw [hdata]
  cases hset : (s.created protocol "" version seq).objectData with
  | true =>
    simp only [hset, if_true] at heq
    exact @Handles.called _ _ _ s.size none _ heq
  | false =>
    simp only [hset, Bool.false_eq_true, if_false] at heq
    refine .quiet ?_ heq
    rw [createObject_eq]
    rfl

/-- **Whatever is decoded is handled** as the message that it is. -/
theorem handles_decoded (hnamed : Named protocols) {s t : Server} (hs : Implemented protocols s)
    {msg : Decoded} (haccepts : serverAccepts msg.messageType = true)
    (hversion : ∀ bind, msg = .bindProtocol bind → bind.version ≠ 0)
    (ht : s.handleDecoded m up protocols h msg = (t, .ok ())) : Handles s (msg.request m) t := by
  have hheard : ∀ req rest, s.heard req rest = (s.heard req []).inPhase (.batch rest) :=
    fun _ _ => rfl
  cases msg with
  | sup msg =>
    cases ht
    refine .quiet (Aside.write (s.heard .sup []) _).phase fun rest => ?_
    show (s.heard .sup rest).write _ = _
    rw [hheard, write_inPhase]
    rfl
  | handshakeAck msg =>
    cases ht
    refine .quiet (Aside.write (s.heard (.handshakeAck msg.version.toNat) []) _).phase fun rest => ?_
    show { (s.heard (.handshakeAck msg.version.toNat) rest).write _ with
      version := msg.version.toNat } = _
    rw [hheard, write_inPhase]
    rfl
  | bindProtocol msg =>
    cases ht
    refine handles_bind fun hzero => hversion msg rfl ?_
    exact UInt32.toNat_inj.mp hzero
  | generic msg => exact handles_generic hnamed hs ht
  | roundtripRequest msg =>
    cases ht
    exact .quiet rfl fun rest => rfl
  | handshakeBegin msg | handshakeProtocols msg | newObject msg | fatalProtocolError msg
  | roundtripDone msg => cases haccepts

/-! ## One read -/

/-- A bind that was decoded asks for a version. -/
theorem version_of_fromBytes {data : List UInt8} {offset : Nat} {bind : BindProtocol}
    (hbind : BindProtocol.fromBytes m data offset = .ok bind) : bind.version ≠ 0 := by
  simp only [BindProtocol.fromBytes, Outcome.bind_eq_ok] at hbind
  obtain ⟨_, -, _, -, _, -, _, -, _, -, _, -, _, -, _, -, _, -, _, -, _, -, _, -, _, -, _, -, version, -,
    hbind⟩ := hbind
  split at hbind
  · cases hbind
  · next hversion =>
    simp only [Outcome.bind_eq_ok] at hbind
    obtain ⟨_, -, _, -, _, -, _, -, _, -, _, -, hbind⟩ := hbind
    cases hbind
    exact hversion

/-- What the decoder for a type gives is of the type. -/
theorem decode_ok {type : MessageType} {data : List UInt8} {fds rest : List RawFd} {needle : Nat}
    {msg : Decoded} (hdecode : decode m type data fds needle = .ok (msg, rest)) :
    msg.messageType = type ∧ ∀ bind, msg = .bindProtocol bind → bind.version ≠ 0 := by
  cases type with
  | bindProtocol =>
    obtain ⟨bind, hbind, heq⟩ := Outcome.bind_eq_ok.mp hdecode
    cases heq
    refine ⟨rfl, fun bind' heq => ?_⟩
    cases heq
    exact version_of_fromBytes hbind
  | _ =>
    obtain ⟨_, -, heq⟩ := Outcome.bind_eq_ok.mp hdecode
    cases heq
    exact ⟨rfl, fun bind heq => by cases heq⟩

/-- Handling a message has no error to report. -/
theorem infallible_handleDecoded (s : Server) (msg : Decoded) :
    (s.handleDecoded m up protocols h msg).2.Infallible := by
  cases msg with
  | generic msg =>
    show ((s.heard (.generic (msg.request m)) []).onGenericMessage m up protocols h msg).2.Infallible
    unfold onGenericMessage
    split
    · next k hfind =>
      have hgen : (generated m up protocols
          (((s.heard (.generic (msg.request m)) []).note k msg.method.toNat).objects k) msg).Infallible := by
        refine (Scanner.infallible_slice ..).bind fun span => ?_
        split
        · trivial
        · split
          · trivial
          · exact Scanner.infallible_dispatch ..
      dsimp only
      split
      · trivial
      · trivial
      · next e heq =>
        rw [heq] at hgen
        exact hgen
      · trivial
      · trivial
    · trivial
  | _ => trivial

/-- A turn of the loop decodes a message and handles it, or does not go on. -/
theorem handleTurn_cases {σ : Type} (accepts : MessageType → Bool) (g : Handler σ) (data : List UInt8)
    (s : σ) (fds : List RawFd) (needle : Nat) :
    (∃ msg rest, accepts msg.messageType = true ∧
      decode m msg.messageType data fds needle = .ok (msg, rest) ∧
      handleTurn m accepts g data s fds needle =
        ((g.handle s msg).1, do
          (g.handle s msg).2
          let needle ← uadd m needle msg.data.length
          .ok (needle, rest))) ∨
    (((handleTurn m accepts g data s fds needle).1 = s ∨
        (handleTurn m accepts g data s fds needle).1 = g.flagError s) ∧
      ∀ next, (handleTurn m accepts g data s fds needle).2 ≠ .ok next) := by
  unfold handleTurn
  cases hbyte : data[needle]? with
  | none => exact .inr ⟨.inl rfl, by simp⟩
  | some byte =>
    dsimp only
    cases htype : MessageType.tryFrom byte with
    | ok type =>
      by_cases haccepts : accepts type = true
      · cases hdecode : decode m type data fds needle with
        | ok result =>
          obtain ⟨msg, rest⟩ := result
          have hsame := (decode_ok hdecode).1
          subst hsame
          simp only [if_pos haccepts, hdecode]
          exact .inl ⟨msg, rest, haccepts, hdecode, rfl⟩
        | err e => exact .inr ⟨.inl (by simp [haccepts, hdecode]), by simp [haccepts, hdecode]⟩
        | panic p => exact .inr ⟨.inl (by simp [haccepts, hdecode]), by simp [haccepts, hdecode]⟩
        | stall => exact .inr ⟨.inl (by simp [haccepts, hdecode]), by simp [haccepts, hdecode]⟩
      · exact .inr ⟨.inr (by simp [haccepts]), by simp [haccepts]⟩
    | err e => exact .inr ⟨.inl rfl, by simp⟩
    | panic p => exact .inr ⟨.inl rfl, by simp⟩
    | stall => exact .inr ⟨.inl rfl, by simp⟩

/-- A turn that goes on has handled a message. -/
theorem turn_ok {data : List UInt8} {fds fds' : List RawFd} {needle needle' : Nat} {s t : Server}
    (hturn : handleTurn m serverAccepts (handler m up protocols h) data s fds needle =
      (t, .ok (needle', fds'))) :
    ∃ msg : Decoded, serverAccepts msg.messageType = true ∧
      (∀ bind, msg = .bindProtocol bind → bind.version ≠ 0) ∧
      s.handleDecoded m up protocols h msg = (t, .ok ()) := by
  rcases handleTurn_cases serverAccepts (handler m up protocols h) data s fds needle with
    ⟨msg, rest, haccepts, hdecode, heq⟩ | ⟨-, hstops⟩
  · rw [heq] at hturn
    obtain ⟨hstate, hgoes⟩ := Prod.mk.inj hturn
    obtain ⟨u, hhandled, -⟩ := Outcome.bind_eq_ok.mp hgoes
    exact ⟨msg, haccepts, (decode_ok hdecode).2, Prod.ext hstate hhandled⟩
  · rw [hturn] at hstops
    exact absurd rfl (hstops _)

/-- One that gives up has handled none, and may have set the error flag. -/
theorem turn_err {data : List UInt8} {fds : List RawFd} {needle : Nat} {s t : Server} {e : Error}
    (hturn : handleTurn m serverAccepts (handler m up protocols h) data s fds needle = (t, .err e)) :
    t = s ∨ t = { s with error := true } := by
  rcases handleTurn_cases serverAccepts (handler m up protocols h) data s fds needle with
    ⟨msg, rest, -, -, heq⟩ | ⟨hstate, -⟩
  · rw [heq] at hturn
    obtain ⟨-, hreports⟩ := Prod.mk.inj hturn
    have herr : (s.handleDecoded m up protocols h msg).2 = .err e :=
      Outcome.eq_err_of_bind hreports fun _ => (Scanner.infallible_fit ..).bind fun _ => trivial
    have hquiet := @infallible_handleDecoded m up protocols h s msg
    rw [herr] at hquiet
    exact hquiet.elim
  · rw [hturn] at hstate
    exact hstate

/-- The whole of it, from the batch it is the first of. -/
theorem Handles.run {s t : Server} {req : C2S} (h : Handles s req t) (rest : List C2S) :
    ∃ as, (∀ a ∈ as, a.within = true) ∧
      Run.run step (s.inPhase (.batch (req :: rest))) as = some (t.inPhase (.batch rest)) := by
  obtain ⟨as, has, hrun⟩ := h.2 rest
  refine ⟨.handle :: as, ?_, Run.run_cons.mpr ⟨_, rfl, hrun⟩⟩
  intro a ha
  rcases List.mem_cons.mp ha with rfl | ha
  · rfl
  · exact within_of_inside (has a ha)

/-- A number of messages, one behind the other. -/
def HandlesAll (s : Server) (msgs : List C2S) (t : Server) : Prop :=
  t.phase = .batch [] ∧ ∀ rest, ∃ as, (∀ a ∈ as, a.within = true) ∧
    Run.run step (s.inPhase (.batch (msgs ++ rest))) as = some (t.inPhase (.batch rest))

theorem HandlesAll.nil {s : Server} (hphase : s.phase = .batch []) : HandlesAll s [] s :=
  ⟨hphase, fun _ => ⟨[], by simp, Run.run_nil _⟩⟩

theorem HandlesAll.cons {s t u : Server} {req : C2S} {msgs : List C2S} (hfirst : Handles s req u)
    (hmore : HandlesAll u msgs t) : HandlesAll s (req :: msgs) t := by
  refine ⟨hmore.1, fun rest => ?_⟩
  obtain ⟨as, has, hrun⟩ := hfirst.run (msgs ++ rest)
  obtain ⟨bs, hbs, hrun'⟩ := hmore.2 rest
  refine ⟨as ++ bs, ?_, Run.run_append.mpr ⟨_, hrun, hrun'⟩⟩
  intro a ha
  rcases List.mem_append.mp ha with ha | ha
  · exact has a ha
  · exact hbs a ha

theorem Implemented.inPhase {s : Server} (hs : Implemented protocols s) (phase : Phase) :
    Implemented protocols (s.inPhase phase) :=
  ⟨hs.impls, hs.methods, hs.table_lt⟩

theorem Handles.implemented {s t : Server} {req : C2S} (hhandles : Handles s req t)
    (hs : Implemented protocols s) : Implemented protocols t := by
  obtain ⟨as, -, hrun⟩ := hhandles.run []
  have ht := (hs.inPhase _).run hrun
  rwa [inPhase_self hhandles.1] at ht

/-- The messages of a read, one behind the other, are handled as a batch. -/
theorem HandlesAll.of_chain {s t : Server} {msgs : List C2S} (h : Frame.Chain Handles s msgs t)
    (hphase : s.phase = .batch []) : HandlesAll s msgs t := by
  induction h with
  | nil s => exact .nil hphase
  | cons first _ ih => exact (ih first.1).cons first

/-- **The loop of `handle_message`** handles the messages it decodes, up to where it ends; where it
gives up, the error flag may be set. -/
theorem handled_loop (hnamed : Named protocols) {data : List UInt8} {fuel : Nat} {s : Server}
    (hs : Implemented protocols s) (hphase : s.phase = .batch []) {fds : List RawFd} {needle : Nat}
    {r : Frame.Result Server RawFd Error}
    (hr : Frame.loop (handleTurn m serverAccepts (handler m up protocols h) data) data.length fuel s
      fds needle = r) (hreturns : r.outcome.Returns) :
    ∃ msgs t, HandlesAll s msgs t ∧
      ((r.state = t ∧ (needle < data.length → msgs ≠ [])) ∨
        (∃ e, r.outcome = .err e) ∧ (r.state = t ∨ r.state = { t with error := true })) := by
  subst hr
  have hturn : ∀ s fds needle t next, (Implemented protocols s ∧ s.phase = .batch []) →
      handleTurn m serverAccepts (handler m up protocols h) data s fds needle = (t, .ok next) →
      ∃ req, Handles s req t ∧ Implemented protocols t ∧ t.phase = .batch [] := by
    intro s fds needle t next hs hturn
    obtain ⟨msg, haccepts, hversion, hhandled⟩ := turn_ok hturn
    have hfirst := handles_decoded hnamed hs.1 haccepts hversion hhandled
    exact ⟨msg.request m, hfirst, hfirst.implemented hs.1, hfirst.1⟩
  obtain ⟨msgs, t, hchain, -, hend⟩ := Frame.loop_chain hturn ⟨hs, hphase⟩ hreturns
  refine ⟨msgs, t, .of_chain hchain hphase, ?_⟩
  rcases hend with ⟨-, hstate, hmore⟩ | ⟨e, fds', needle', hout, hgives⟩
  · exact .inl ⟨hstate, hmore⟩
  · exact .inr ⟨⟨e, hout⟩, turn_err hgives⟩

theorem malformed_inPhase (s : Server) (phase : Phase) : (s.inPhase phase).malformed = s.malformed := by
  unfold malformed abort close startLeaving
  rw [write_inPhase]
  rfl

/-- Whether the flag is set makes no difference to a client that is shut out. -/
theorem malformed_flagged (s : Server) : ({ s with error := true } : Server).malformed = s.malformed := by
  unfold malformed abort close startLeaving write
  dsimp only
  split <;> rfl

/-- **A dispatch refines a dispatch**: what `dispatch_client` makes of whatever it reads is what the
server of messages makes of the messages in it, up to one of the ends a dispatch has. -/
theorem dispatch_refines (hnamed : Named protocols) {s t : Server} (hs : Implemented protocols s)
    (hidle : s.phase = .idle) (hopen : s.gone = false) {reading : Reading}
    (ht : s.dispatchClient m up protocols h reading = some t) :
    ∃ before last, (∀ a ∈ before, a.within = true) ∧ last.closes = true ∧
      Run.run step s (before ++ [last]) = some t := by
  have hlone : ∀ last : Action, last.closes = true → step s last = some t →
      ∃ before last, (∀ a ∈ before, Action.within a = true) ∧ last.closes = true ∧
        Run.run step s (before ++ [last]) = some t := by
    intro last hcloses hstep
    exact ⟨[], last, by simp, hcloses, Run.run_cons.mpr ⟨t, hstep, Run.run_nil _⟩⟩
  cases reading with
  | waiting => cases ht
  | failed fds =>
    cases ht
    exact hlone .unreadable rfl (if_pos ⟨hidle, hopen⟩)
  | done raw =>
    unfold dispatchClient at ht
    dsimp only at ht
    by_cases hempty : raw.data = []
    · rw [if_pos hempty] at ht
      cases ht
      exact hlone .hangup rfl (if_pos ⟨hidle, hopen⟩)
    rw [if_neg hempty] at ht
    have hread : ∀ msgs rest t', msgs ++ rest ≠ [] → HandlesAll (s.inPhase (.batch [])) msgs t' →
        ∃ as, (∀ a ∈ as, a.within = true) ∧ Run.run step s as = some (t'.inPhase (.batch rest)) := by
      intro msgs rest t' hne hall
      obtain ⟨as, has, hrun⟩ := hall.2 rest
      have hstep : step s (.read (msgs ++ rest)) = some (s.inPhase (.batch (msgs ++ rest))) :=
        if_pos ⟨hidle, hopen, hne⟩
      refine ⟨.read (msgs ++ rest) :: as, ?_, Run.run_cons.mpr ⟨_, hstep, hrun⟩⟩
      intro a ha
      rcases List.mem_cons.mp ha with rfl | ha
      · rfl
      · exact has a ha
    -- however the batch ends, it is one behind the messages that were handled
    have hclose : ∀ msgs rest t' last, msgs ++ rest ≠ [] → last.closes = true →
        HandlesAll (s.inPhase (.batch [])) msgs t' → step (t'.inPhase (.batch rest)) last = some t →
        ∃ before last, (∀ a ∈ before, Action.within a = true) ∧ last.closes = true ∧
          Run.run step s (before ++ [last]) = some t := by
      intro msgs rest t' last hne hcloses hall hstep
      obtain ⟨as, has, hrun⟩ := hread msgs rest t' hne hall
      exact ⟨as, last, has, hcloses, Run.run_append.mpr ⟨_, hrun, Run.run_cons.mpr
        ⟨t, hstep, Run.run_nil _⟩⟩⟩
    have hrefused : ∀ msgs t', HandlesAll (s.inPhase (.batch [])) msgs t' → t'.malformed = t →
        ∃ before last, (∀ a ∈ before, Action.within a = true) ∧ last.closes = true ∧
          Run.run step s (before ++ [last]) = some t := by
      intro msgs t' hall heq
      refine hclose msgs [.sup] t' .malformed (by simp) rfl hall ?_
      rw [← heq, ← malformed_inPhase t' (.batch [.sup])]
      rfl
    unfold ServerClientState.handleMessage Hyprwire.handleMessage at ht
    generalize hr : Frame.loop (handleTurn m serverAccepts (handler m up protocols h) raw.data)
      raw.data.length raw.data.length (s.inPhase (.batch [])) raw.fds 0 = r at ht
    dsimp only at ht
    have hhandled := fun hreturns => handled_loop hnamed (hs.inPhase _) rfl hr hreturns
    cases hout : r.outcome with
    | ok u =>
      rw [hout, Outcome.ok_bind] at ht
      obtain ⟨msgs, t', hall, ⟨hstate, hne⟩ | ⟨⟨e, he⟩, -⟩⟩ := hhandled (by rw [hout]; trivial)
      · by_cases hqueue : r.queue = []
        · rw [if_neg (not_not.mpr hqueue), hstate] at ht
          refine hclose msgs [] t' .finish ?_ rfl hall ?_
          · rw [List.append_nil]
            exact hne (List.length_pos_of_ne_nil hempty)
          · rw [inPhase_self hall.1]
            simp only [step, hall.1]
            exact ht
        · rw [if_pos hqueue, hstate] at ht
          exact hrefused msgs t' hall (Option.some.inj ht)
      · rw [hout] at he
        cases he
    | err e =>
      rw [hout, Outcome.err_bind] at ht
      obtain ⟨msgs, t', hall, ⟨hstate, -⟩ | ⟨-, hstate | hstate⟩⟩ := hhandled (by rw [hout]; trivial)
      · rw [hstate] at ht
        exact hrefused msgs t' hall (Option.some.inj ht)
      · rw [hstate] at ht
        exact hrefused msgs t' hall (Option.some.inj ht)
      · rw [hstate, malformed_flagged] at ht
        exact hrefused msgs t' hall (Option.some.inj ht)
    | panic p =>
      rw [hout, Outcome.panic_bind] at ht
      cases ht
    | stall =>
      rw [hout, Outcome.stall_bind] at ht
      cases ht

/-! ## Whole runs -/

/-- A client that leaves. -/
theorem run_depart (h : Handlers) (rest : List Nat) {s : Server} (hphase : s.phase = .leaving rest) :
    ∃ as, Run.run step s as = some (depart h s rest) := by
  induction rest generalizing s with
  | nil =>
    refine ⟨[.visit], Run.run_cons.mpr ⟨_, ?_, Run.run_nil _⟩⟩
    simp only [step, hphase]
    rfl
  | cons k rest ih =>
    have hvisit : step s .visit = some (s.visit k rest) := by
      simp only [step, hphase]
    have hcases : (s.visit k rest).phase = .leaving rest ∨
        (s.visit k rest).phase = .leavingCallback rest k := by
      unfold visit
      split
      · exact .inl rfl
      · dsimp only
        split
        · exact .inr rfl
        · exact .inl rfl
    rcases hcases with hnext | hnext
    · obtain ⟨as, hrun⟩ := ih hnext
      refine ⟨.visit :: as, Run.run_cons.mpr ⟨_, hvisit, ?_⟩⟩
      simp only [depart, hnext]
      exact hrun
    · obtain ⟨as, hrun, has⟩ := run_perform (s.visit k rest) (h.onDeparture k)
      have hcalled := (aside_perform (s.visit k rest) (h.onDeparture k)).phase.trans hnext
      have hreturn : step ((s.visit k rest).perform (h.onDeparture k)) .return_ =
          some ((((s.visit k rest).perform (h.onDeparture k)).destroy k).inPhase (.leaving rest)) := by
        simp only [step, hcalled]
        rfl
      obtain ⟨bs, hrun'⟩ := ih (inPhase_phase (((s.visit k rest).perform (h.onDeparture k)).destroy k)
        (.leaving rest))
      refine ⟨.visit :: (as ++ .return_ :: bs), Run.run_cons.mpr ⟨_, hvisit, ?_⟩⟩
      simp only [depart, hnext]
      exact Run.run_append.mpr ⟨_, hrun, Run.run_cons.mpr ⟨_, hreturn, hrun'⟩⟩

/-- **A step of the server of bytes** is a run of the server of messages. -/
theorem serve_step (hnamed : Named protocols) {s t : Server} (hs : Implemented protocols s)
    {input : Input} (hstep : serve m up protocols s input = some t) :
    ∃ as, Run.run step s as = some t := by
  cases input with
  | dispatch answers h =>
    simp only [serve, Option.ite_none_right_eq_some] at hstep
    obtain ⟨⟨hidle, hopen⟩, ht⟩ := hstep
    obtain ⟨before, last, -, -, hrun⟩ := dispatch_refines hnamed hs hidle hopen ht
    exact ⟨_, hrun⟩
  | aside a =>
    exact ⟨[a], Run.run_cons.mpr ⟨t, (attempts_spec hstep).2, Run.run_nil _⟩⟩
  | remove =>
    exact ⟨[.remove], Run.run_cons.mpr ⟨t, hstep, Run.run_nil _⟩⟩
  | leave h =>
    simp only [serve] at hstep
    split at hstep
    · next rest hphase =>
      cases hstep
      exact run_depart h rest hphase
    · cases hstep

theorem depart_phase (h : Handlers) (rest : List Nat) (s : Server) : (depart h s rest).phase = .idle := by
  induction rest generalizing s with
  | nil => rfl
  | cons k rest ih =>
    unfold depart
    dsimp only
    split
    · exact ih _
    · exact ih _

/-- Between two inputs a server waits, or is about to leave with all of its objects. -/
theorem serve_stands (hnamed : Named protocols) {s t : Server} (hs : Implemented protocols s)
    (hstands : s.phase = .idle ∨ s.Doomed) {input : Input}
    (hstep : serve m up protocols s input = some t) : t.phase = .idle ∨ t.Doomed := by
  cases input with
  | dispatch answers h =>
    simp only [serve, Option.ite_none_right_eq_some] at hstep
    obtain ⟨⟨hidle, hopen⟩, ht⟩ := hstep
    obtain ⟨before, last, hbefore, hlast, hrun⟩ := dispatch_refines hnamed hs hidle hopen ht
    obtain ⟨u, hfirst, hend⟩ := Run.run_append.mp hrun
    obtain ⟨v, hclose, hnil⟩ := Run.run_cons.mp hend
    cases hnil
    rcases closed_of_step hclose hlast ((stays_of_run hfirst hbefore).trans hopen) with h | h
    · exact .inl h.1.1
    · exact .inr h.1
  | aside a =>
    obtain ⟨hside, hstep⟩ := attempts_spec hstep
    have haside := aside_of_onSide hstep hside
    rcases hstands with hidle | hdoomed
    · exact .inl (haside.phase.trans hidle)
    · exact .inr (hdoomed.aside haside)
  | remove =>
    simp only [serve, Option.ite_none_right_eq_some, Option.some.injEq] at hstep
    obtain ⟨⟨-, hopen⟩, rfl⟩ := hstep
    exact .inr ⟨rfl, hopen⟩
  | leave h =>
    simp only [serve] at hstep
    split at hstep
    · cases hstep
      exact .inl (depart_phase ..)
    · cases hstep

/-- **What a server of bytes comes to** is what the server of messages comes to, and it is at rest
there or has all of its objects still to visit. While the ids have not come round they are fresh, no
object is destroyed twice, and one that is owed a destructor is still in the table. -/
structure Served (protocols : List Scanner.Protocol) (s : Server) : Prop where
  lone : Lone (protocols.map Scanner.Protocol.spec) s
  stands : s.phase = .idle ∨ s.Doomed
  inOrder : s.size < 2 ^ 32 - 1 → ServerSocket.InOrder s

/-- **The server of bytes refines the server of messages**, whatever is sent to it, however it is
cut, and whatever handlers emit and report. -/
theorem serve_refines (hnamed : Named protocols) {inputs : List Input} {s : Server}
    (hrun : Run.run (serve m up protocols) { impls := protocols.map Scanner.Protocol.spec } inputs =
      some s) : Served protocols s := by
  have hinv := @Run.run_induction _ _ (serve m up protocols)
    (fun s => Lone (protocols.map Scanner.Protocol.spec) s ∧ (s.phase = .idle ∨ s.Doomed)) ?_
    _ _ _ ⟨⟨[], Run.run_nil _⟩, .inl rfl⟩ hrun
  · obtain ⟨hlone, hstands⟩ := hinv
    refine ⟨hlone, hstands, fun hcount => ?_⟩
    obtain ⟨as, hfrom⟩ := hlone
    have hsettled := settled_run hfrom hcount
    refine ⟨hsettled.rising.freshIds, hsettled.once.once, fun k hk howed => ?_⟩
    have hdue := (hsettled.allDue.owed k hk).resolve_right (not_not.mpr howed)
    rcases hstands with hidle | hdoomed
    · cases hgone : s.gone with
      | true =>
        simp only [due, hidle, hgone, if_true] at hdue
        cases hdue
      | false =>
        simp only [due, hidle, hgone, Bool.false_eq_true, if_false] at hdue
        exact ⟨hdue, rfl⟩
    · simp only [due, hdoomed.1, List.mem_reverse] at hdue
      exact ⟨hdue, hdoomed.2⟩
  · intro s input t hs hstep
    obtain ⟨as, hfrom⟩ := hs.1
    have himplemented := (Implemented.init protocols).run hfrom
    obtain ⟨bs, hmore⟩ := serve_step hnamed himplemented hstep
    exact ⟨hs.1.run hmore, serve_stands hnamed himplemented hs.2 hstep⟩

end

/-! ### A shop at its bytes -/

/-- The shop as its bindings are generated. -/
def shop : Scanner.Protocol where
  name := "shop"
  version := 1
  objects :=
    [{ name := "manager", version := 1
       c2s := [⟨"make", [], some "item", false⟩, ⟨"ping", [], none, false⟩]
       s2c := [⟨"tick", [], none, false⟩] },
     { name := "item", version := 1
       c2s := [⟨"draw", [], none, false⟩, ⟨"destroy", [], none, true⟩]
       s2c := [⟨"drawn", [], none, false⟩, ⟨"gone", [], none, true⟩] }]
  enums := []

/-- A client binds the shop, makes an item, and hangs up; the manager's handler answers. -/
def shoppingByBytes : List Input :=
  [.dispatch
      [.received ((BindProtocol.new "shop" 1 1).data ++ word 1 0 [(.scalar .seq 2 : Field .checked)]) []]
      ⟨fun n => if n = 2 then [.emit 0 0 []] else [], fun _ => []⟩,
    .dispatch [.received [] []] ⟨fun _ => [], fun _ => []⟩, .leave ⟨fun _ => [], fun _ => []⟩]

theorem serve_refines_shopping : ∃ s,
    Run.run (serve .checked Char.toString [shop])
        { impls := [shop].map Scanner.Protocol.spec } shoppingByBytes = some s ∧ Served [shop] s := by
  have hrun : (Run.run (serve .checked Char.toString [shop])
      { impls := [shop].map Scanner.Protocol.spec } shoppingByBytes).isSome = true := by decide +kernel
  obtain ⟨s, hs⟩ := Option.isSome_iff_exists.mp hrun
  exact ⟨s, hs, serve_refines (by decide) hs⟩

end Server

end Hyprwire
