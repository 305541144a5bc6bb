import Hyprwire.System.Message
import Hyprwire.Lib.Run

/-!
# `System/Client.lean` — the client

`ClientSocket`, `ClientObject` and `EventQueue`, one function of the source after the other,
and the user of the generated API on top of them. An action is what the user does or one turn
of a dispatch; a batch is handed in with the action that reads it, so that a client can be run
against any server at all.

`dispatch_events_inner` is taken apart where user code gets in: it reads a batch, handles its
messages one by one, runs a callback in the middle of one, and when the batch is done flushes
the deferred queue. It holds the queue's mutex from beginning to end. A deferred call on an
object of a queue that is dispatching therefore never returns; it is not an action.

Objects live in an arena, in the order they are created, and a handle is a place in it. A
strong count is what the user holds (`handles`) and what `on_generic` holds while a callback
runs (`borrows`), and one for the table. The entries under *history* are read by nothing but
the theorems.
-/

namespace Hyprwire

/-- `ClientObject`. -/
structure ClientObject where
  seq : Nat := 0
  id : Nat := 0
  version : Nat := 0
  protocolName : String := ""
  spec : Option ObjectSpec := none
  destroyed : Bool := false
  objectData : Bool := false
  eventQueue : Nat := 0
  handles : Nat := 0
  borrows : Nat := 0

/-- `methods_out`. -/
def ClientObject.methodsOut (obj : ClientObject) : List MethodSpec :=
  match obj.spec with
  | some spec => spec.c2s
  | none => []

/-- The methods an event is read by. -/
def ClientObject.methodsIn (obj : ClientObject) : List MethodSpec :=
  match obj.spec with
  | some spec => spec.s2c
  | none => []

/-- Someone outside the table has the object. -/
def ClientObject.held (obj : ClientObject) : Bool := 0 < obj.handles + obj.borrows

/-- A message in a deferred queue, with the seq of the object it waits for. -/
structure Deferred where
  msg : Generic
  dependsOnSeq : Nat
  deriving DecidableEq, Repr

/-- Where `dispatch_events_inner` stands. -/
inductive Client.Phase
  | idle
  | batch (rest : List S2C)
  | callback (rest : List S2C) (obj method : Nat)
  deriving DecidableEq, Repr

/-- `EventQueueInner`. What stands below `inRoundtrip` is history: how much had been written when
the request of the last roundtrip was, and the requests whose acknowledgement was stored. -/
structure EventQueue where
  live : Bool := true
  queue : List Deferred := []
  lastSent : Nat := 0
  lastAckd : Nat := 0
  phase : Client.Phase := .idle
  inRoundtrip : Bool := false
  marked : Nat := 0
  credited : List Nat := []

/-- A call that put a message on the wire or into a queue. -/
structure Call where
  obj : Nat
  method : Nat
  deferred : Bool
  deriving DecidableEq, Repr

/-- `ClientSocket` with its queues and its end of the connection. -/
structure Client where
  impls : List ProtocolSpec := []
  serverSpecs : List (String × Nat) := []
  handshakeDone : Bool := false
  objects : Nat → ClientObject := fun _ => {}
  size : Nat := 0
  table : List Nat := []
  seq : Nat := 0
  queues : Nat → EventQueue := fun _ => {}
  error : Bool := false
  shut : Bool := false
  out : List C2S := [.sup]
  -- history
  issued : Nat := 0
  calls : List Call := []
  handled : List S2C := []
  destructed : List Nat := []
  unknownObject : Bool := false

namespace Client

/-! ## State access -/

def setObject (c : Client) (h : Nat) (f : ClientObject → ClientObject) : Client :=
  { c with objects := fun i => if i = h then f (c.objects i) else c.objects i }

def setQueue (c : Client) (q : Nat) (f : EventQueue → EventQueue) : Client :=
  { c with queues := fun i => if i = q then f (c.queues i) else c.queues i }

def setPhase (c : Client) (q : Nat) (phase : Phase) : Client :=
  c.setQueue q fun queue => { queue with phase }

/-- `ConnectionState::send_message`: nothing leaves a socket that was shut down. -/
def write (c : Client) (msg : C2S) : Client :=
  if c.shut then c else { c with out := c.out ++ [msg] }

/-- `disconnect_on_error`. -/
def disconnectOnError (c : Client) : Client := { c with error := true, shut := true }

/-- `self.seq.fetch_add(1) + 1`. -/
def nextSeq (c : Client) : Nat := (c.seq + 1) % wordSize

def fetchAdd (c : Client) : Client := { c with seq := c.nextSeq, issued := c.issued + 1 }

/-- `Arc::new(object)`, and into the table. -/
def push (c : Client) (obj : ClientObject) : Client :=
  { c with
    objects := fun i => if i = c.size then obj else c.objects i
    size := c.size + 1
    table := c.table ++ [c.size] }

/-- `object_for_seq`. -/
def objectForSeq (c : Client) (seq : Nat) : Option Nat :=
  c.table.find? fun h => (c.objects h).seq = seq

/-- `object_for_id`, and the search of `on_generic`. -/
def objectForId (c : Client) (id : Nat) : Option Nat :=
  c.table.find? fun h => (c.objects h).id = id

/-- `on_seq`. -/
def onSeq (c : Client) (seq id : Nat) : Client :=
  match c.objectForSeq seq with
  | some h => c.setObject h fun obj => { obj with id }
  | none => c

/-- `make_object`; `none` is `NoSpec`. -/
def makeObject (c : Client) (protocolName objectName : String) (seq q : Nat) : Option Client :=
  match specFor c.impls protocolName objectName with
  | none => none
  | some spec => some (c.push { seq, protocolName, spec := some spec, eventQueue := q })

/-- `bind_protocol`, on the version the server advertises for `proto`; `none` is an error. -/
def bindProtocol (c : Client) (q : Nat) (proto : ProtocolSpec) (specVer version : Nat) :
    Option Client :=
  if specVer < version then none
  else
    match proto.objects.head? with
    | none => none
    | some spec =>
      let seq := c.nextSeq
      some ((c.fetchAdd.push { seq, version, protocolName := proto.specName, spec := some spec,
                               eventQueue := q }).write (.bindProtocol seq version proto.specName))

/-- A raw object becomes a handle of the generated API, with its object data. -/
def adopt (c : Client) (h : Nat) : Client :=
  c.setObject h fun obj => { obj with handles := obj.handles + 1, objectData := true }

/-- `Client::bind`, up to `wait_for_object`: what follows is dispatching. -/
def bind (c : Client) (q : Nat) (proto : ProtocolSpec) (version : Nat) : Client :=
  match c.serverSpecs.find? fun spec => spec.1 = proto.specName with
  | none => c
  | some spec =>
    match c.bindProtocol q proto spec.2 version with
    | none => c
    | some c' => c'.adopt c.size

/-! ## `WireObject::call` -/

/-- `mark_destroyed`, when the method is a destructor. -/
def markDestroyed (c : Client) (h : Nat) (m : MethodSpec) : Client :=
  if m.destructor then c.setObject h fun obj => { obj with destroyed := true } else c

/-- The message joins the queue of its object. -/
def defer (c : Client) (q : Nat) (entry : Deferred) : Client :=
  c.setQueue q fun queue => { queue with queue := queue.queue ++ [entry] }

def record (c : Client) (call : Call) : Client := { c with calls := c.calls ++ [call] }

/-- Where the message goes: into the queue while the object has no id, else on the wire. -/
def route (c : Client) (h : Nat) (msg : Generic) : Client :=
  let obj := c.objects h
  if obj.id = 0 then
    if (c.queues obj.eventQueue).live then
      (c.record ⟨h, msg.method, true⟩).defer obj.eventQueue ⟨msg, obj.seq⟩
    else c
  else (c.record ⟨h, msg.method, false⟩).write (.generic msg)

/-- `call`, from the method that was found on. The answer is what `ClientObject::call` makes
of it: the seq of the new object, and 0 for an error or when there is none. -/
def callMethod (c : Client) (h method : Nat) (m : MethodSpec) (args : List CallArg) :
    Client × Nat :=
  let obj := c.objects h
  let c := c.markDestroyed h m
  let seq := if m.returnsType ≠ "" then c.nextSeq else 0
  let c := if m.returnsType ≠ "" then c.fetchAdd else c
  let msg : Generic :=
    { object := obj.id, method, seq, args
      origin := h, call := c.calls.length, destructor := m.destructor }
  let c := c.route h msg
  if seq = 0 then (c, 0)
  else if (c.queues obj.eventQueue).live then
    match c.makeObject obj.protocolName m.returnsType seq obj.eventQueue with
    | some c => (c, seq)
    | none => (c, 0)
  else (c, 0)

/-- `ClientObject::call`. A method that is out of range or too new is reported by
`Object::error`, which does nothing on a client. -/
def call (c : Client) (h method : Nat) (args : List CallArg) : Client × Nat :=
  match (c.objects h).methodsOut[method]? with
  | none => (c, 0)
  | some m =>
    if (c.objects h).version < m.since.toNat then (c, 0) else c.callMethod h method m args

/-! ## Losing objects -/

/-- The destructor that `Drop` calls by itself. -/
def autoDestructor (obj : ClientObject) : Option MethodSpec :=
  if obj.destroyed = false ∧ obj.id ≠ 0 then
    match obj.methodsOut.find? fun m => m.destructor ∧ m.since.toNat ≤ obj.version with
    | some m => if m.returnsType ≠ "" ∨ m.params ≠ [] then none else some m
    | none => none
  else none

/-- `Drop for ClientObject`. -/
def dropObject (c : Client) (h : Nat) : Client :=
  match autoDestructor (c.objects h) with
  | some m => (c.call h m.idx.toNat []).1
  | none => c

/-- The last `Arc` is gone. -/
def dropUnlessHeld (c : Client) (h : Nat) : Client :=
  if (c.objects h).held then c else c.dropObject h

/-- Takes the objects off the table that `gone` says, and drops what was held by it alone. -/
def unlink (c : Client) (gone : Nat → Bool) : Client :=
  (c.table.filter gone).foldl dropUnlessHeld { c with table := c.table.filter fun h => !gone h }

/-- `destroy_object`. -/
def destroyObject (c : Client) (id : Nat) : Client :=
  let gone := fun h => decide ((c.objects h).id = id)
  { c with destructed := c.destructed ++ c.table.filter gone }.unlink gone

/-- `Arc::strong_count(obj) <= 1`, for an object with an id. -/
def orphaned (c : Client) (h : Nat) : Bool := (c.objects h).id ≠ 0 && !(c.objects h).held

/-- `collect_orphaned_objects`. -/
def collectOrphanedObjects (c : Client) : Client := c.unlink c.orphaned

/-- A handle goes out of scope. -/
def release (c : Client) (h : Nat) : Client :=
  let c := c.setObject h fun obj => { obj with handles := obj.handles - 1 }
  if h ∈ c.table then c else c.dropUnlessHeld h

/-! ## The generated methods -/

/-- A method the generated API has: not the destructors without arguments, which are left to
`Drop`. One without a result takes its handle by value. -/
def offers (c : Client) (h method : Nat) : Bool :=
  match (c.objects h).methodsOut[method]? with
  | none => false
  | some m =>
    if m.destructor ∧ m.params = [] then false
    else if m.destructor ∧ m.returnsType = "" then 0 < (c.objects h).handles
    else (c.objects h).held

/-- A call that would wait for a mutex its own thread holds, or another dispatch. -/
def blocked (c : Client) (h : Nat) : Bool :=
  let queue := c.queues (c.objects h).eventQueue
  (c.objects h).id = 0 && (queue.inRoundtrip || queue.phase ≠ .idle)

/-- `send_…`: a result comes with its first handle and its object data. -/
def send (c : Client) (h method : Nat) (args : List CallArg) : Client :=
  let r := c.call h method args
  match (c.objects h).methodsOut[method]? with
  | none => r.1
  | some m =>
    if m.returnsType ≠ "" then
      match r.1.objectForSeq r.2 with
      | some h' => r.1.adopt h'
      | none => r.1
    else if m.destructor then r.1.release h
    else r.1

/-! ## Events -/

/-- The end of `on_generic`: a destructor takes the object off the table. -/
def afterDispatch (c : Client) (h method : Nat) : Client :=
  match (c.objects h).methodsIn[method]? with
  | none => c
  | some m =>
    if m.destructor then
      let c := c.setObject h fun obj => { obj with destroyed := true }
      if (c.objects h).id ≠ 0 then c.destroyObject (c.objects h).id else c
    else c

/-- `on_generic`, up to the callback. `object_data.dispatch` calls back when there is object
data and the method is one of the interface. -/
def onGeneric (c : Client) (q : Nat) (msg : Generic) (rest : List S2C) : Client :=
  match c.objectForId msg.object with
  | none => ({ c with unknownObject := true }.disconnectOnError).setPhase q (.batch rest)
  | some h =>
    if (c.objects h).objectData ∧ msg.method < (c.objects h).methodsIn.length then
      (c.setObject h fun obj => { obj with borrows := obj.borrows + 1 }).setPhase q
        (.callback rest h msg.method)
    else (c.afterDispatch h msg.method).setPhase q (.batch rest)

/-- The callback has returned. -/
def returned (c : Client) (q : Nat) (rest : List S2C) (h method : Nat) : Client :=
  let c := c.afterDispatch h method
  let c := c.setObject h fun obj => { obj with borrows := obj.borrows - 1 }
  (if h ∈ c.table then c else c.dropUnlessHeld h).setPhase q (.batch rest)

/-- `handle_message` gave up, and the dispatch and a roundtrip around it with it. -/
def abort (c : Client) (q : Nat) : Client :=
  c.disconnectOnError.setQueue q fun queue => { queue with phase := .idle, inRoundtrip := false }

/-- One turn of the loop of `ClientSocket::handle_message`. -/
def handle (c : Client) (q : Nat) (msg : S2C) (rest : List S2C) : Client :=
  let c := { c with handled := c.handled ++ [msg] }
  match msg with
  | .handshakeBegin versions =>
    if 1 ∈ versions then (c.write (.handshakeAck 1)).setPhase q (.batch rest) else c.abort q
  | .handshakeProtocols protocols =>
    { c with serverSpecs := c.serverSpecs ++ protocols, handshakeDone := true }.setPhase q
      (.batch rest)
  | .newObject seq id => (c.onSeq seq id).setPhase q (.batch rest)
  | .generic msg => c.onGeneric q msg rest
  | .fatalProtocolError _ _ _ => { c with error := true }.setPhase q (.batch rest)
  | .roundtripDone seq request =>
    c.setQueue q fun queue =>
      { queue with
        lastAckd := seq, phase := .batch rest, credited := queue.credited ++ [request] }

/-! ## The deferred flush -/

/-- One message of the queue: dropped, queued again or sent. -/
def flushEntry (q : Nat) (c : Client) (entry : Deferred) : Client :=
  match c.objectForSeq entry.dependsOnSeq with
  | none => c
  | some h =>
    if (c.objects h).id = 0 then c.defer q entry
    else c.write (.generic { entry.msg with object := (c.objects h).id })

def flush (c : Client) (q : Nat) : Client :=
  (c.queues q).queue.foldl (flushEntry q) (c.setQueue q fun queue => { queue with queue := [] })

/-- What `dispatch_events_inner` does behind `handle_message`. An error ends a roundtrip. -/
def finish (c : Client) (q : Nat) : Client :=
  let c := (c.flush q).collectOrphanedObjects
  c.setQueue q fun queue =>
    { queue with phase := .idle, inRoundtrip := queue.inRoundtrip && !c.error }

/-! ## Actions -/

inductive Action
  | bind (q : Nat) (proto : ProtocolSpec) (version : Nat)
  | send (h method : Nat) (args : List CallArg)
  | clone (h : Nat)
  | drop (h : Nat)
  | dropQueue (q : Nat)
  | roundtrip (q : Nat)
  | roundtripReturn (q : Nat)
  | roundtripFail (q : Nat)
  | poll (q : Nat)
  | unreadable (q : Nat)
  | read (q : Nat) (batch : List S2C)
  | handle (q : Nat)
  | return_ (q : Nat)
  | malformed (q : Nat)
  | finish (q : Nat)

/-- The queue can start to dispatch: it is alive, idle, nothing has gone wrong, and a roundtrip
still waits for its acknowledgement. -/
def dispatches (c : Client) (q : Nat) : Bool :=
  let queue := c.queues q
  queue.live && queue.phase = .idle && !c.error &&
    (!queue.inRoundtrip || decide (queue.lastAckd < queue.lastSent))

/-- **The client.** A dispatch that has nothing to read returns (`poll`), and a roundtrip around
it fails (`roundtripFail`) when the other side has hung up; it gives up where reading fails or the
handshake takes too long (`unreadable`). -/
def step (c : Client) : Action → Option Client
  | .bind q proto version => if (c.queues q).live then some (c.bind q proto version) else none
  | .send h method args =>
    if c.offers h method ∧ ¬ c.blocked h then some (c.send h method args) else none
  | .clone h =>
    if (c.objects h).held then
      some (c.setObject h fun obj => { obj with handles := obj.handles + 1 })
    else none
  | .drop h => if 0 < (c.objects h).handles then some (c.release h) else none
  | .dropQueue q =>
    let queue := c.queues q
    if queue.live ∧ queue.phase = .idle ∧ queue.inRoundtrip = false then
      some (c.setQueue q fun queue => { queue with live := false, queue := [] })
    else none
  | .roundtrip q =>
    let queue := c.queues q
    if queue.live ∧ queue.phase = .idle ∧ queue.inRoundtrip = false ∧ c.error = false then
      let lastSent := (queue.lastSent + 1) % wordSize
      some ((c.setQueue q fun queue =>
        { queue with lastSent, inRoundtrip := true, marked := c.out.length }).write
          (.roundtripRequest lastSent q))
    else none
  | .roundtripReturn q =>
    let queue := c.queues q
    if queue.inRoundtrip ∧ queue.phase = .idle ∧ ¬ queue.lastAckd < queue.lastSent then
      some (c.setQueue q fun queue => { queue with inRoundtrip := false })
    else none
  | .roundtripFail q =>
    let queue := c.queues q
    if queue.inRoundtrip ∧ queue.phase = .idle ∧ (c.error ∨ queue.lastAckd < queue.lastSent) then
      some ((if c.error then c else c.collectOrphanedObjects).setQueue q fun queue =>
        { queue with inRoundtrip := false })
    else none
  | .poll q => if c.dispatches q then some c.collectOrphanedObjects else none
  | .unreadable q => if c.dispatches q then some (c.collectOrphanedObjects.abort q) else none
  | .read q batch =>
    if c.dispatches q ∧ batch ≠ [] then some (c.collectOrphanedObjects.setPhase q (.batch batch))
    else none
  | .handle q =>
    match (c.queues q).phase with
    | .batch (msg :: rest) => some (c.handle q msg rest)
    | _ => none
  | .return_ q =>
    match (c.queues q).phase with
    | .callback rest h method => some (c.returned q rest h method)
    | _ => none
  | .malformed q =>
    match (c.queues q).phase with
    | .batch _ => some (c.abort q)
    | _ => none
  | .finish q =>
    match (c.queues q).phase with
    | .batch [] => some (c.finish q)
    | _ => none

end Client

end Hyprwire
