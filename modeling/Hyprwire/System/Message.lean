import Hyprwire.Core.Types

/-!
# `System/Message.lean` — whole messages

What the two sides exchange once the decoders have done their work: a batch of whole messages,
each read for what it says (`Wire/Batch.lean`), a generic one for the call it was built from
(`Wire/RoundTrip.lean`). Object ids, sequence numbers and versions are `u32`s; they are `Nat`s
here, and the two counters that hand them out wrap explicitly.
-/

namespace Hyprwire

/-- A generic message. What follows `args` is history and not on the wire: the object it was
sent on, as its sender counts its objects, which call of a client it is, whether the method is a
destructor, and which message a server was handling when it sent it. -/
structure Generic where
  object : Nat
  method : Nat
  seq : Nat
  args : List CallArg
  origin : Nat
  call : Nat := 0
  destructor : Bool
  during : Option Nat := none
  deriving DecidableEq, Repr

/-- What a client sends. The queue of a roundtrip request is history. -/
inductive C2S
  | sup
  | handshakeAck (version : Nat)
  | bindProtocol (seq version : Nat) (protocol : String)
  | generic (msg : Generic)
  | roundtripRequest (seq queue : Nat)
  deriving DecidableEq, Repr

/-- What a server sends. The protocols are advertised as `name@version`. The request a
`RoundtripDone` answers, by its place in what the client sent, is history. -/
inductive S2C
  | handshakeBegin (versions : List Nat)
  | handshakeProtocols (protocols : List (String × Nat))
  | newObject (seq id : Nat)
  | generic (msg : Generic)
  | fatalProtocolError (objectId errorId : Nat) (errorMsg : String)
  | roundtripDone (seq request : Nat)
  deriving DecidableEq, Repr

/-- `u32::MAX + 1`, where the two counters wrap. -/
def wordSize : Nat := 2 ^ 32

/-- The generic message among the messages of a client. -/
def C2S.generic? : C2S → Option Generic
  | .generic msg => some msg
  | _ => none

/-- The generic message among the messages of a server. -/
def S2C.generic? : S2C → Option Generic
  | .generic msg => some msg
  | _ => none

/-- The sequence number a message asks the server to create an object for. -/
def C2S.carries : C2S → Option Nat
  | .bindProtocol seq _ _ => some seq
  | .generic msg => if msg.seq = 0 then none else some msg.seq
  | _ => none

/-- `imp.protocol().spec_name() == protocol`, then the object of a name: the lookup of
`ClientSocket::make_object`, and of `ServerClientState::create_object` with a name. -/
def specFor (impls : List ProtocolSpec) (protocol object : String) : Option ObjectSpec :=
  (impls.find? fun imp => imp.specName = protocol).bind fun imp =>
    imp.objects.find? fun spec => spec.objectName = object

/-- The root object of a protocol: the lookup of `create_object` without a name. -/
def rootSpec (impls : List ProtocolSpec) (protocol : String) : Option ObjectSpec :=
  (impls.find? fun imp => imp.specName = protocol).bind fun imp => imp.objects.head?

/-! ## A protocol for the runs that are shown

A manager makes items and is pinged; the server ticks. An item is drawn and destroyed, reports
that it was drawn, and may be taken away by the server. -/

def managerSpec : ObjectSpec where
  objectName := "manager"
  c2s := [⟨0, [], "item", 0, false⟩, ⟨1, [], "", 0, false⟩]
  s2c := [⟨0, [], "", 0, false⟩]

def itemSpec : ObjectSpec where
  objectName := "item"
  c2s := [⟨0, [], "", 0, false⟩, ⟨1, [], "", 0, true⟩]
  s2c := [⟨0, [], "", 0, false⟩, ⟨1, [], "", 0, true⟩]

def shopProtocol : ProtocolSpec where
  specName := "shop"
  specVer := 1
  objects := [managerSpec, itemSpec]

end Hyprwire
