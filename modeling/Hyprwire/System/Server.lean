import Hyprwire.System.Message
import Hyprwire.Lib.Run

/-!
# `System/Server.lean` — the server's side of one connection

`ServerClientState`, `ServerObject` and `ServerSocket::dispatch_client`. An action is one turn
of a dispatch, or what a handler does: emit an event on an object or report an error on one,
from a callback or from anywhere else. Everything a client sends goes through `handle`; the
decoder's check of a bind version (`Core/Control.lean`) is repeated there, since a message here
is one that was decoded.

The arena, the table and the history are as in `System/Client.lean`; a server removes an object
only when it has handled its destructor, or with the whole connection: the client that is in
error, has hung up or is removed by the server's user leaves, its objects are visited one by one
and their destructors dispatched (`leave`).
-/

namespace Hyprwire

/-- `ServerObject`. -/
structure ServerObject where
  id : Nat := 0
  seq : Nat := 0
  version : Nat := 0
  protocolName : String := ""
  spec : Option ObjectSpec := none
  destroyed : Bool := false
  objectData : Bool := false

/-- `methods_out`. -/
def ServerObject.methodsOut (obj : ServerObject) : List MethodSpec :=
  match obj.spec with
  | some spec => spec.s2c
  | none => []

/-- The methods a request is read by. -/
def ServerObject.methodsIn (obj : ServerObject) : List MethodSpec :=
  match obj.spec with
  | some spec => spec.c2s
  | none => []

/-- Where `dispatch_client` stands; a callback is that of an object's binding when there is no
method. `leaving` is `destroy_objects_for_disconnect`, with the objects still to be visited. -/
inductive Server.Phase
  | idle
  | batch (rest : List C2S)
  | callback (rest : List C2S) (obj : Nat) (method : Option Nat)
  | leaving (rest : List Nat)
  | leavingCallback (rest : List Nat) (obj : Nat)
  deriving DecidableEq, Repr

/-- `ServerClientState` with its end of the connection. A client that is `gone` is not in the
list of clients any more. The history has the place of the request that is scheduled, and the
objects whose destructor was dispatched. -/
structure Server where
  impls : List ProtocolSpec := []
  version : Nat := 0
  maxId : Nat := 1
  objects : Nat → ServerObject := fun _ => {}
  size : Nat := 0
  table : List Nat := []
  scheduledRoundtripSeq : Nat := 0
  phase : Server.Phase := .idle
  error : Bool := false
  shut : Bool := false
  gone : Bool := false
  out : List S2C := []
  -- history
  handled : List C2S := []
  scheduledRequest : Nat := 0
  destructs : List Nat := []
  unknownObject : Bool := false

namespace Server

/-! ## State access -/

def setObject (s : Server) (k : Nat) (f : ServerObject → ServerObject) : Server :=
  { s with objects := fun i => if i = k then f (s.objects i) else s.objects i }

/-- `ConnectionState::send_message`. -/
def write (s : Server) (msg : S2C) : Server :=
  if s.shut then s else { s with out := s.out ++ [msg] }

/-- The search of `on_generic`. -/
def objectForId (s : Server) (id : Nat) : Option Nat :=
  s.table.find? fun k => (s.objects k).id = id

/-- `destroy_object`. -/
def destroyObject (s : Server) (id : Nat) : Server :=
  { s with table := s.table.filter fun k => (s.objects k).id ≠ id }

/-- The number of the message whose callback runs. -/
def during (s : Server) : Option Nat :=
  match s.phase with
  | .callback _ _ _ => some (s.handled.length - 1)
  | _ => none

/-! ## Creating objects -/

/-- The lookup of `create_object`: the root object when no name is given. -/
def findSpec (s : Server) (protocol objectName : String) : Option ObjectSpec :=
  if objectName = "" then rootSpec s.impls protocol else specFor s.impls protocol objectName

/-- The handler that `on_bind` finds is the one for root objects; the others do nothing. -/
def bindsHandler (s : Server) (protocol : String) (spec : Option ObjectSpec) : Bool :=
  match spec, rootSpec s.impls protocol with
  | some spec, some root => spec.objectName = root.objectName
  | _, _ => false

/-- `create_object`, up to the callback of `on_bind`. -/
def createObject (s : Server) (protocol objectName : String) (version seq : Nat) : Server :=
  let spec := s.findSpec protocol objectName
  let obj : ServerObject :=
    { id := s.maxId, seq, version, protocolName := protocol, spec
      objectData := s.bindsHandler protocol spec }
  { s.write (.newObject seq s.maxId) with
    maxId := (s.maxId + 1) % wordSize
    objects := fun i => if i = s.size then obj else s.objects i
    size := s.size + 1
    table := s.table ++ [s.size] }

/-! ## What handlers do -/

/-- `ServerObject::error`. -/
def objectError (s : Server) (k errorId : Nat) (errorMsg : String) : Server :=
  if (s.objects k).destroyed then s
  else { s.write (.fatalProtocolError (s.objects k).id errorId errorMsg) with error := true }

/-- `ServerObject::call`, from the method that was found on. -/
def emitMethod (s : Server) (k method : Nat) (m : MethodSpec) (args : List CallArg) : Server :=
  let s := if m.destructor then s.setObject k fun obj => { obj with destroyed := true } else s
  s.write (.generic
    { object := (s.objects k).id, method, seq := 0, args
      origin := k, destructor := m.destructor, during := s.during })

/-- `ServerObject::call`: nothing happens on a destroyed object, and a method that a server
cannot call is reported as an error on it. -/
def call (s : Server) (k method : Nat) (args : List CallArg) : Server :=
  if (s.objects k).destroyed then s
  else
    match (s.objects k).methodsOut[method]? with
    | none =>
      s.objectError k (s.objects k).id s!"invalid method {method} for object {(s.objects k).id}"
    | some m =>
      if (s.objects k).version < m.since.toNat then
        s.objectError k (s.objects k).id
          s!"method {method} since {m.since} but has {(s.objects k).version}"
      else if m.returnsType ≠ "" then
        s.objectError k (s.objects k).id
          s!"invalid method spec {method} for object {(s.objects k).id} -> server cannot call returnsType methods"
      else s.emitMethod k method m args

/-! ## Messages -/

/-- The end of `on_generic`: a destructor takes the object off the table. -/
def afterDispatch (s : Server) (k method : Nat) : Server :=
  match (s.objects k).methodsIn[method]? with
  | none => s
  | some m =>
    if m.destructor then
      let s := s.setObject k fun obj => { obj with destroyed := true }
      if (s.objects k).id ≠ 0 then s.destroyObject (s.objects k).id else s
    else s

/-- `object_data.dispatch` up to the callback: a method with a result creates the object first,
and calls nobody when that fails. -/
def dispatch (s : Server) (k : Nat) (msg : Generic) (rest : List C2S) : Server :=
  let obj := s.objects k
  match obj.methodsIn[msg.method]? with
  | none => { s.afterDispatch k msg.method with phase := .batch rest }
  | some m =>
    if obj.objectData = false then { s.afterDispatch k msg.method with phase := .batch rest }
    else if m.returnsType = "" then { s with phase := .callback rest k (some msg.method) }
    else if obj.destroyed then { s.afterDispatch k msg.method with phase := .batch rest }
    else
      let child := s.size
      let s := s.createObject obj.protocolName m.returnsType obj.version msg.seq
      let s := s.setObject child fun obj => { obj with objectData := true }
      { s with phase := .callback rest k (some msg.method) }

/-- The method is a destructor of the object's interface. -/
def isDestructor (obj : ServerObject) (method : Nat) : Bool :=
  match obj.methodsIn[method]? with
  | some m => m.destructor
  | none => false

/-- The record of the destructors that were dispatched. -/
def note (s : Server) (k method : Nat) : Server :=
  if isDestructor (s.objects k) method then { s with destructs := s.destructs ++ [k] } else s

/-- `on_generic`, up to the callback. -/
def onGeneric (s : Server) (msg : Generic) (rest : List C2S) : Server :=
  match s.objectForId msg.object with
  | some k => (s.note k msg.method).dispatch k msg rest
  | none =>
    let error := s!"generic message references unknown object {msg.object}"
    { s.write (.fatalProtocolError msg.object (wordSize - 1) error) with
      error := true, unknownObject := true, phase := .batch rest }

/-- The client is to be removed: `destroy_objects_for_disconnect` takes a copy of the table and
goes through it from behind. -/
def startLeaving (s : Server) : Server := { s with phase := .leaving s.table.reverse }

/-- The error is flagged, the stream shut down, and the client leaves. -/
def close (s : Server) : Server := { s with error := true, shut := true }.startLeaving

/-- `dispatch_client` could not read, or not handle, what was sent. -/
def abort (s : Server) (errorMsg : String) : Server :=
  (s.write (.fatalProtocolError 0 (wordSize - 1) errorMsg)).close

/-- `handle_message` gave up. -/
def malformed (s : Server) : Server := s.abort "fatal: failed to handle message on wire"

/-- One turn of the loop of `ServerClientState::handle_message`. -/
def handle (s : Server) (msg : C2S) (rest : List C2S) : Server :=
  let s := { s with handled := s.handled ++ [msg], phase := .batch rest }
  match msg with
  | .sup => s.write (.handshakeBegin [1])
  | .handshakeAck version =>
    let protocols := s.impls.map fun imp => (imp.specName, imp.specVer.toNat)
    { s.write (.handshakeProtocols protocols) with version }
  | .bindProtocol seq version protocol =>
    if version = 0 then s.malformed
    else
      let s' := s.createObject protocol "" version seq
      if (s'.objects s.size).objectData then { s' with phase := .callback rest s.size none } else s'
  | .generic msg => s.onGeneric msg rest
  | .roundtripRequest seq _ =>
    { s with scheduledRoundtripSeq := seq, scheduledRequest := s.handled.length - 1 }

/-- The callback has returned. -/
def returned (s : Server) (rest : List C2S) (k : Nat) (method : Option Nat) : Server :=
  match method with
  | some method => { s.afterDispatch k method with phase := .batch rest }
  | none => { s with phase := .batch rest }

/-- What `dispatch_client` does behind `handle_message`. -/
def acknowledge (s : Server) : Server :=
  if 0 < s.scheduledRoundtripSeq then
    { s.write (.roundtripDone s.scheduledRoundtripSeq s.scheduledRequest) with
      scheduledRoundtripSeq := 0 }
  else s

/-- … and `dispatch_pending` with a client in error. -/
def finish (s : Server) : Server :=
  let s := s.acknowledge
  if s.error then s.startLeaving else { s with phase := .idle }

/-! ## Leaving -/

/-- The method `destroy_for_disconnect` synthesises. -/
def disconnectDestructor (obj : ServerObject) : Option MethodSpec :=
  if obj.destroyed then none
  else obj.methodsIn.find? fun m => m.destructor ∧ m.params = [] ∧ m.returnsType = ""

/-- `ServerObject::destroy`. -/
def destroy (s : Server) (k : Nat) : Server :=
  s.setObject k fun obj => { obj with destroyed := true }

/-- `destroy_for_disconnect`, up to the callback. -/
def visit (s : Server) (k : Nat) (rest : List Nat) : Server :=
  match disconnectDestructor (s.objects k) with
  | none => { s with phase := .leaving rest }
  | some _ =>
    let s := { s with destructs := s.destructs ++ [k] }
    if (s.objects k).objectData then { s with phase := .leavingCallback rest k }
    else { s.destroy k with phase := .leaving rest }

/-- The end of `destroy_objects_for_disconnect`. -/
def leave (s : Server) : Server := { s with table := [], phase := .idle, gone := true }

/-! ## Actions -/

inductive Action
  | emit (k method : Nat) (args : List CallArg)
  | error (k errorId : Nat) (errorMsg : String)
  | read (batch : List C2S)
  | handle
  | return_
  | malformed
  | finish
  | unreadable
  | hangup
  | remove
  | visit

/-- **The server.** A dispatch reads from a client that is in the list of clients, whatever its
error flag says. Between two dispatches the client may hang up, and may be removed. -/
def step (s : Server) : Action → Option Server
  | .emit k method args => if k < s.size then some (s.call k method args) else none
  | .error k errorId errorMsg => if k < s.size then some (s.objectError k errorId errorMsg) else none
  | .read batch =>
    if s.phase = .idle ∧ s.gone = false ∧ batch ≠ [] then some { s with phase := .batch batch }
    else none
  | .handle =>
    match s.phase with
    | .batch (msg :: rest) => some (s.handle msg rest)
    | _ => none
  | .return_ =>
    match s.phase with
    | .callback rest k method => some (s.returned rest k method)
    | .leavingCallback rest k => some { s.destroy k with phase := .leaving rest }
    | _ => none
  | .malformed =>
    match s.phase with
    | .batch _ => some s.malformed
    | _ => none
  | .finish =>
    match s.phase with
    | .batch [] => some s.finish
    | _ => none
  | .unreadable =>
    if s.phase = .idle ∧ s.gone = false then some (s.abort "fatal: invalid message on wire")
    else none
  | .hangup => if s.phase = .idle ∧ s.gone = false then some s.close else none
  | .remove => if s.phase = .idle ∧ s.gone = false then some s.close else none
  | .visit =>
    match s.phase with
    | .leaving (k :: rest) => some (s.visit k rest)
    | .leaving [] => some s.leave
    | _ => none

end Server

end Hyprwire
