import Hyprwire.Core.Generic

/-!
# `Wire/Call.lean` — `WireObject::call`

Every generated `send_` method ends here: the untyped arguments are written out by the tag
bytes the method table lists, one after the other. The marshaller trusts neither list. A
parameter byte that is no tag ends it early, an argument of another type than its parameter
writes the tag alone, and only an array is refused.

What the call reads of the object it is made on is a `Receiver`; what it does to it (mark it
destroyed, report an error, queue or send the message) is left to the caller of this module
and described by the result.
-/

namespace Hyprwire

open Rust

/-- What `call` reads of its `self`. `freshSeq` is what `seq.fetch_add(1) + 1` gives; only
objects of a client have a counter to take it from. -/
structure Receiver where
  id : UInt32
  seq : UInt32
  version : UInt32
  server : Bool
  methodsOut : List MethodSpec
  freshSeq : Option UInt32
  deriving DecidableEq, Repr

/-- A call that puts nothing on the wire and answers 0. -/
inductive Refused
  | error (objectId : UInt32) (msg : String)
  | errd
  deriving DecidableEq, Repr

/-- A call that was marshalled. It waits in the queue of its object's seq when `deferred`. -/
structure Called where
  msg : GenericProtocolMessage
  returnSeq : UInt32
  destructor : Bool
  deferred : Bool
  deriving DecidableEq, Repr

/-! ## The marshaller -/

/-- The bytes of a 4-byte argument; none when it is not of the parameter's type. -/
def marshalScalar : MessageMagic → Option CallArg → List UInt8
  | .typeUint, some (.uint v) => Bytes.toLeBytes v
  | .typeInt, some (.int v) => Bytes.toLeBytes v.toUInt32
  | .typeObject, some (.object v) => Bytes.toLeBytes v
  | .typeF32, some (.f32 bits) => Bytes.toLeBytes bits
  | _, _ => []

/-- A string with its length prefix. -/
def marshalStr (s : List UInt8) : List UInt8 := varInt s.length ++ s

/-- An array argument after its two tags: bytes and descriptors. -/
def marshalArray : Option CallArg → Outcome Refused (List UInt8 × List RawFd)
  | some (.uintArray arr) | some (.objectArray arr) | some (.f32Array arr) =>
    .ok (varInt arr.length ++ arr.flatMap Bytes.toLeBytes, [])
  | some (.intArray arr) =>
    .ok (varInt arr.length ++ (arr.map Int32.toUInt32).flatMap Bytes.toLeBytes, [])
  | some (.fdArray arr) => .ok (varInt arr.length, arr)
  | some (.varcharArray arr) => .ok (varInt arr.length ++ arr.flatMap marshalStr, [])
  | _ => .err .errd

/-- The `while i < method.params.len()` loop: what it appends to `data` and to `fds`. -/
def marshalArgs : List UInt8 → List CallArg → Outcome Refused (List UInt8 × List RawFd)
  | [], _ => .ok ([], [])
  | byte :: params, args =>
    match (MessageMagic.tryFrom byte) with
    | .ok .typeArray =>
      match params with
      | [] => .panic .indexOutOfRange
      | byte :: params =>
        match MessageMagic.tryFrom byte with
        | .ok arrType => do
          let (bytes, fds) ← marshalArray args.head?
          let (data, fds') ← marshalArgs params args.tail
          .ok (MessageMagic.typeArray.toU8 :: arrType.toU8 :: (bytes ++ data), fds ++ fds')
        | _ => .ok ([], [])
    | .ok .typeVarchar => do
      let (data, fds) ← marshalArgs params args.tail
      let str := match args.head? with
        | some (.varchar s) => marshalStr s
        | _ => []
      .ok (MessageMagic.typeVarchar.toU8 :: (str ++ data), fds)
    | .ok .typeFd => do
      let (data, fds) ← marshalArgs params args.tail
      let fd := match args.head? with
        | some (.fd fd) => [fd]
        | _ => []
      .ok (MessageMagic.typeFd.toU8 :: data, fd ++ fds)
    | .ok .end_ | .ok .typeSeq | .ok .typeObjectId => .ok ([], [])
    | .ok magic => do
      let (data, fds) ← marshalArgs params args.tail
      .ok (magic.toU8 :: (marshalScalar magic args.head? ++ data), fds)
    | _ => .ok ([], [])

/-- The 11 bytes in front of the fields. -/
def callHeader (object id : UInt32) : List UInt8 :=
  MessageType.genericProtocolMessage.toU8 :: MessageMagic.typeObject.toU8 ::
    (Bytes.toLeBytes object ++ MessageMagic.typeUint.toU8 :: Bytes.toLeBytes id)

/-- The field of a method that creates an object. -/
def callReturn (method : MethodSpec) (returnSeq : UInt32) : List UInt8 :=
  if method.returnsType ≠ "" then
    MessageMagic.typeSeq.toU8 :: Bytes.toLeBytes returnSeq
  else []

/-! ## `WireObject::call` -/

/-- The seq a call allocates for the object it creates; 0 when it creates none. -/
def callReturnSeq (self : Receiver) (method : MethodSpec) : UInt32 :=
  if method.returnsType ≠ "" then self.freshSeq.getD 0 else 0

/-- `WireObject::call`, up to handing the message on. -/
def call (self : Receiver) (id : UInt32) (args : List CallArg) : Outcome Refused Called :=
  match self.methodsOut[id.toNat]? with
  | none => .err (.error self.id s!"invalid method {id} for object {self.id}")
  | some method =>
    if self.version < method.since then
      .err (.error self.id s!"method {id} since {method.since} but has {self.version}")
    else if method.returnsType ≠ "" ∧ self.server = true then
      .err (.error self.id
        s!"invalid method spec {id} for object {self.id} -> server cannot call returnsType methods")
    else do
      let returnSeq := callReturnSeq self method
      let (data, fds) ← marshalArgs method.params args
      let data := callHeader self.id id ++ callReturn method returnSeq ++ data
        ++ [MessageMagic.end_.toU8]
      let msg := GenericProtocolMessage.new data fds
      let deferred := self.id = 0 ∧ self.server = false
      .ok {
        msg := if deferred then msg.setDependsOnSeq self.seq else msg
        returnSeq
        destructor := method.destructor
        deferred }

/-! ## The object id on the wire -/

/-- Patching the id into a message gives the message of a call on an object with that id. -/
theorem resolveSeq_data {msg : GenericProtocolMessage} {object method : UInt32}
    {rest : List UInt8} (h : msg.data = callHeader object method ++ rest) (id : UInt32) :
    (msg.resolveSeq id).data = callHeader id method ++ rest := by
  simp only [GenericProtocolMessage.resolveSeq, h]
  rw [if_pos (by simp [callHeader])]
  simp [callHeader, Bytes.toLeBytes]

theorem length_callHeader (object id : UInt32) : (callHeader object id).length = 11 := rfl

end Hyprwire
