import Hyprwire.Lib.Outcome

/-!
# `Core/Types.lean` — tags, call arguments, method tables

The vocabulary of `hyprwire-core`: the one-byte tags that begin a message (`MessageType`)
and a field (`MessageMagic`), the arguments a call is made with, and the method tables the
scanner emits for every object.

Both tag types are read with `tryFrom`, which refuses every byte that is not a tag; the
`tryFrom_*` lemmas say that it is the exact inverse of `toU8`.
-/

namespace Hyprwire

open Rust

/-- A raw file descriptor number (`i32`). -/
abbrev RawFd := Int32

/-- `message::Error`. -/
inductive Error
  | unexpectedEof
  | invalidMessageType
  | invalidFieldType
  | invalidVarInt
  | malformedMessage
  | tooManyVersions
  | tooManyProtocols
  | arrayTooLong
  | invalidVersion
  | invalidMessage
  | versionNegotiationFailed
  | noSpec
  | invalidMethod
  | invalidParameter
  deriving DecidableEq, Repr

/-- `types::MessageMagic`: the tag of a field. -/
inductive MessageMagic
  | end_
  | typeUint
  | typeInt
  | typeF32
  | typeSeq
  | typeObjectId
  | typeVarchar
  | typeArray
  | typeObject
  | typeFd
  deriving DecidableEq, Repr

namespace MessageMagic

def toU8 : MessageMagic → UInt8
  | end_ => 0x00
  | typeUint => 0x10
  | typeInt => 0x11
  | typeF32 => 0x12
  | typeSeq => 0x13
  | typeObjectId => 0x14
  | typeVarchar => 0x20
  | typeArray => 0x21
  | typeObject => 0x22
  | typeFd => 0x40

def tryFrom (value : UInt8) : Outcome Error MessageMagic :=
  if value = 0x00 then .ok end_
  else if value = 0x10 then .ok typeUint
  else if value = 0x11 then .ok typeInt
  else if value = 0x12 then .ok typeF32
  else if value = 0x13 then .ok typeSeq
  else if value = 0x14 then .ok typeObjectId
  else if value = 0x20 then .ok typeVarchar
  else if value = 0x21 then .ok typeArray
  else if value = 0x22 then .ok typeObject
  else if value = 0x40 then .ok typeFd
  else .err .malformedMessage

@[simp] theorem tryFrom_toU8 (m : MessageMagic) : tryFrom m.toU8 = .ok m := by
  cases m <;> rfl

theorem toU8_of_tryFrom {value : UInt8} {m : MessageMagic} (h : tryFrom value = .ok m) :
    value = m.toU8 := by
  unfold tryFrom at h
  repeat' split at h
  all_goals cases h
  all_goals assumption

@[simp] theorem toU8_eq_end {m : MessageMagic} : m.toU8 = end_.toU8 ↔ m = end_ := by
  cases m <;> decide

theorem returns_tryFrom (value : UInt8) : (tryFrom value).Returns := by
  unfold tryFrom
  repeat' split
  all_goals trivial

end MessageMagic

/-- `message::MessageType`: the first byte of every message. -/
inductive MessageType
  | sup
  | handshakeBegin
  | handshakeAck
  | handshakeProtocols
  | bindProtocol
  | newObject
  | fatalProtocolError
  | roundtripRequest
  | roundtripDone
  | genericProtocolMessage
  deriving DecidableEq, Repr

namespace MessageType

def toU8 : MessageType → UInt8
  | sup => 1
  | handshakeBegin => 2
  | handshakeAck => 3
  | handshakeProtocols => 4
  | bindProtocol => 10
  | newObject => 11
  | fatalProtocolError => 12
  | roundtripRequest => 13
  | roundtripDone => 14
  | genericProtocolMessage => 100

def tryFrom (value : UInt8) : Outcome Error MessageType :=
  if value = 1 then .ok sup
  else if value = 2 then .ok handshakeBegin
  else if value = 3 then .ok handshakeAck
  else if value = 4 then .ok handshakeProtocols
  else if value = 10 then .ok bindProtocol
  else if value = 11 then .ok newObject
  else if value = 12 then .ok fatalProtocolError
  else if value = 13 then .ok roundtripRequest
  else if value = 14 then .ok roundtripDone
  else if value = 100 then .ok genericProtocolMessage
  else .err .invalidMessageType

@[simp] theorem tryFrom_toU8 (t : MessageType) : tryFrom t.toU8 = .ok t := by
  cases t <;> rfl

end MessageType

/-- `types::CallArg`: an untyped argument of `WireObject::call`. Floats are their 32 bits. -/
inductive CallArg
  | uint (v : UInt32)
  | int (v : Int32)
  | f32 (bits : UInt32)
  | object (id : UInt32)
  | varchar (s : List UInt8)
  | fd (fd : RawFd)
  | uintArray (vs : List UInt32)
  | intArray (vs : List Int32)
  | f32Array (vs : List UInt32)
  | objectArray (ids : List UInt32)
  | fdArray (fds : List RawFd)
  | varcharArray (ss : List (List UInt8))
  deriving DecidableEq, Repr

/-- `types::Method`: one row of an object's method table, its parameters as tag bytes. -/
structure MethodSpec where
  idx : UInt32
  params : List UInt8
  returnsType : String
  since : UInt32
  destructor : Bool
  deriving DecidableEq, Repr

/-- `types::ProtocolObjectSpec`. -/
structure ObjectSpec where
  objectName : String
  c2s : List MethodSpec
  s2c : List MethodSpec
  deriving DecidableEq, Repr

/-- `types::ProtocolSpec`. -/
structure ProtocolSpec where
  specName : String
  specVer : UInt32
  objects : List ObjectSpec
  deriving DecidableEq, Repr

/-! ## Reading a buffer

`data.get(i).ok_or(UnexpectedEof)?` and the fixed-width reads built on it. The additions
inside them are the source's own unchecked `offset + 4`. -/

/-- `*data.get(pos).ok_or(UnexpectedEof)?`. -/
def getByte (data : List UInt8) (pos : Nat) : Outcome Error UInt8 :=
  Outcome.okOr data[pos]? .unexpectedEof

/-- The check every decoder makes of a tag byte: `if *data.get(pos)? != tag { return Err(e) }`. -/
def expectByte (data : List UInt8) (pos : Nat) (tag : UInt8) (e : Error) : Outcome Error Unit := do
  let byte ← getByte data pos
  if byte ≠ tag then .err e else .ok ()

/-- `data.get(start..stop).ok_or(UnexpectedEof)?`. -/
def getBytes (data : List UInt8) (start stop : Nat) : Outcome Error (List UInt8) :=
  Outcome.okOr (getRange data start stop) .unexpectedEof

@[simp] theorem returns_getByte (data : List UInt8) (pos : Nat) : (getByte data pos).Returns :=
  Outcome.returns_okOr _ _

@[simp] theorem returns_getBytes (data : List UInt8) (start stop : Nat) :
    (getBytes data start stop).Returns := Outcome.returns_okOr _ _

@[simp] theorem getByte_eq_ok {data : List UInt8} {pos : Nat} {b : UInt8} :
    getByte data pos = .ok b ↔ data[pos]? = some b := Outcome.okOr_eq_ok

theorem expectByte_eq_ok {data : List UInt8} {pos : Nat} {tag : UInt8} {e : Error} :
    expectByte data pos tag e = .ok () ↔ data[pos]? = some tag := by
  unfold expectByte
  rw [Outcome.bind_eq_ok]
  constructor
  · rintro ⟨b, hb, h⟩
    by_cases hne : b ≠ tag
    · rw [if_pos hne] at h; cases h
    · rw [getByte_eq_ok.mp hb, not_not.mp hne]
  · intro h
    exact ⟨tag, getByte_eq_ok.mpr h, by simp⟩

@[simp] theorem returns_expectByte (data : List UInt8) (pos : Nat) (tag : UInt8) (e : Error) :
    (expectByte data pos tag e).Returns := by
  unfold expectByte
  rw [Outcome.returns_bind]
  refine ⟨returns_getByte _ _, fun b _ => ?_⟩
  split <;> simp

end Hyprwire
