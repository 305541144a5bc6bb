import Hyprwire.Lib.Bytes
import Hyprwire.Core.VarInt

/-!
# `Core/Generic.lean` — `GenericProtocolMessage`

The one message whose length is not known in advance: a header (object id, method index)
and any number of tagged fields up to an `End` byte. `from_bytes` walks the fields with an
index `i` that it advances by the length each field declares for itself, and takes one
descriptor off the caller's list for every fd slot it passes.

The `while` loop is split at its natural seam: `scanStep` is the loop condition followed by
one run of the body, `scanLoop` runs it with a budget of iterations. `data.len() + 1`
evaluations of the condition are what `from_bytes` is given; that they suffice is a theorem
in a checked build, and the subject of `Wire/Release.lean` in a release build.
-/

namespace Hyprwire

open Rust

/-- `read_u32`. -/
def readU32 (m : Overflow) (data : List UInt8) (offset : Nat) : Outcome Error UInt32 := do
  let stop ← uadd m offset 4
  let bytes ← getBytes data offset stop
  Outcome.okOr (Bytes.fromLeBytes bytes) .unexpectedEof

/-- The loop variables of `from_bytes`. -/
structure Scan where
  i : Nat
  fdsCursor : Nat
  consumedFds : List RawFd
  deriving DecidableEq, Repr

/-- Passes `n` fd slots: each takes the next descriptor, or the message is malformed. -/
def consumeFds (m : Overflow) (fds : List RawFd) : Nat → Scan → Outcome Error Scan
  | 0, s => .ok s
  | n + 1, s => do
    let fd ← Outcome.okOr fds[s.fdsCursor]? .malformedMessage
    let fdsCursor ← uadd m s.fdsCursor 1
    consumeFds m fds n { s with fdsCursor, consumedFds := s.consumedFds ++ [fd] }

/-- Adds the lengths of `n` strings, read from `base + arr_message_len` on, to
`arr_message_len`. -/
def skipStrings (m : Overflow) (data : List UInt8) (base : Nat) : Nat → Nat → Outcome Error Nat
  | 0, arrMessageLen => .ok arrMessageLen
  | n + 1, arrMessageLen => do
    let p ← uadd m base arrMessageLen
    let (strLen, strLenLen) ← parseVarInt m data p
    let d ← uadd m strLen strLenLen
    let arrMessageLen ← uadd m arrMessageLen d
    skipStrings m data base n arrMessageLen

/-- The elements of an array, after its type and its length prefix. -/
def scanElements (m : Overflow) (data : List UInt8) (fds : List RawFd) (pos : Nat)
    (arrType : MessageMagic) (arrLen arrMessageLen : Nat) (s : Scan) :
    Outcome Error (Nat × Scan) :=
  match arrType with
  | .typeUint | .typeF32 | .typeInt | .typeObject | .typeSeq => do
    let d ← umul m 4 arrLen
    let arrMessageLen ← uadd m arrMessageLen d
    .ok (arrMessageLen, s)
  | .typeVarchar => do
    let arrMessageLen ← skipStrings m data pos arrLen arrMessageLen
    .ok (arrMessageLen, s)
  | .typeFd => do
    let s ← consumeFds m fds arrLen s
    .ok (arrMessageLen, s)
  | _ => .err .malformedMessage

/-- The loop body: the field with tag `magic` at `pos = offset + i`. -/
def scanBody (m : Overflow) (data : List UInt8) (fds : List RawFd) (pos : Nat)
    (magic : MessageMagic) (s : Scan) : Outcome Error Scan :=
  match magic with
  | .typeUint | .typeF32 | .typeInt | .typeObject | .typeSeq => do
    let i ← uadd m s.i 5
    .ok { s with i }
  | .typeVarchar => do
    let p ← uadd m pos 1
    let (strLen, varIntLen) ← parseVarInt m data p
    let d ← uadd m strLen varIntLen
    let d ← uadd m d 1
    let i ← uadd m s.i d
    .ok { s with i }
  | .typeArray => do
    let p ← uadd m pos 1
    let byte ← getByte data p
    let arrType ← MessageMagic.tryFrom byte
    let p ← uadd m pos 2
    let (arrLen, lenLen) ← parseVarInt m data p
    let arrMessageLen ← uadd m 2 lenLen
    if 10000 ≤ arrLen then .err .arrayTooLong
    else do
      let (arrMessageLen, s) ← scanElements m data fds pos arrType arrLen arrMessageLen s
      let i ← uadd m s.i arrMessageLen
      .ok { s with i }
  | .typeFd => do
    let s ← consumeFds m fds 1 s
    let i ← uadd m s.i 1
    .ok { s with i }
  | _ => .err .malformedMessage

/-- The loop condition, and the body when it holds; `none` is the `End` byte. -/
def scanStep (m : Overflow) (data : List UInt8) (fds : List RawFd) (offset : Nat) (s : Scan) :
    Outcome Error (Option Scan) := do
  let pos ← uadd m offset s.i
  let byte ← getByte data pos
  if byte = MessageMagic.end_.toU8 then .ok none
  else do
    let magic ← MessageMagic.tryFrom byte
    let s ← scanBody m data fds pos magic s
    .ok (some s)

/-- The loop, with a budget of evaluations of its condition. -/
def scanLoop (m : Overflow) (data : List UInt8) (fds : List RawFd) (offset : Nat) :
    Nat → Scan → Outcome Error Scan
  | 0, _ => .stall
  | fuel + 1, s => do
    match ← scanStep m data fds offset s with
    | none => .ok s
    | some s => scanLoop m data fds offset fuel s

/-- `GenericProtocolMessage<Range<usize>>`. -/
structure GenericProtocolMessage where
  dependsOnSeq : UInt32
  object : UInt32
  method : UInt32
  fds : List RawFd
  data : List UInt8
  range : Nat × Nat
  deriving DecidableEq, Repr

namespace GenericProtocolMessage

/-- `GenericProtocolMessage::new`, the constructor of the sending side. -/
def new (data : List UInt8) (fds : List RawFd) : GenericProtocolMessage :=
  { dependsOnSeq := 0, object := 0, method := 0, fds, data, range := (0, data.length) }

/-- The 11 bytes in front of the fields: object id and method index. -/
def readHeader (m : Overflow) (data : List UInt8) (offset : Nat) :
    Outcome Error (UInt32 × UInt32) := do
  expectByte data offset MessageType.genericProtocolMessage.toU8 .invalidMessageType
  let p ← uadd m offset 1
  expectByte data p MessageMagic.typeObject.toU8 .invalidFieldType
  let p ← uadd m offset 2
  let object ← readU32 m data p
  let p ← uadd m offset 6
  expectByte data p MessageMagic.typeUint.toU8 .invalidFieldType
  let p ← uadd m offset 7
  let method ← readU32 m data p
  .ok (object, method)

/-- What `from_bytes` builds from the final loop state, and the descriptors it leaves.
The range drained off the caller's list is checked like any other. -/
def finish (m : Overflow) (data : List UInt8) (fds : List RawFd) (offset : Nat)
    (header : UInt32 × UInt32) (s : Scan) :
    Outcome Error (GenericProtocolMessage × List RawFd) := do
  let len ← uadd m s.i 1
  let _ ← slice fds 0 s.fdsCursor
  let stop ← uadd m offset len
  let bytes ← slice data offset stop
  .ok ({ dependsOnSeq := 0, object := header.1, method := header.2, fds := s.consumedFds,
         data := bytes, range := (11, len) }, fds.drop s.fdsCursor)

def fromBytes (m : Overflow) (data : List UInt8) (fds : List RawFd) (offset : Nat) :
    Outcome Error (GenericProtocolMessage × List RawFd) := do
  let header ← readHeader m data offset
  let s ← scanLoop m data fds offset (data.length + 1) ⟨11, 0, []⟩
  finish m data fds offset header s

/-- `data_span`: the fields, with the `End` byte. -/
def dataSpan (msg : GenericProtocolMessage) : Outcome Error (List UInt8) :=
  slice msg.data msg.range.1 msg.range.2

def setDependsOnSeq (msg : GenericProtocolMessage) (seq : UInt32) : GenericProtocolMessage :=
  { msg with dependsOnSeq := seq }

/-- `resolve_seq`: patches the object id, also in the bytes. -/
def resolveSeq (msg : GenericProtocolMessage) (id : UInt32) : GenericProtocolMessage :=
  { msg with
    object := id
    data := if 6 ≤ msg.data.length then
        msg.data.take 2 ++ Bytes.toLeBytes id ++ msg.data.drop 6
      else msg.data }

end GenericProtocolMessage

/-! ## Fixed-width reads -/

theorem readU32_of_drop {m : Overflow} {data rest : List UInt8} {p : Nat} {w : UInt32}
    (hd : data.drop p = Bytes.toLeBytes w ++ rest) (hp : p + 4 < 2 ^ 64) :
    readU32 m data p = .ok w := by
  have hlen : p + 4 ≤ data.length := by
    have := congrArg List.length hd
    simp only [List.length_drop, List.length_append, Bytes.length_toLeBytes] at this
    omega
  have hget : getRange data p (p + 4) = some (Bytes.toLeBytes w) := by
    rw [getRange_eq_some]
    refine ⟨by omega, hlen, ?_⟩
    rw [hd, Nat.add_sub_cancel_left, List.take_left' (Bytes.length_toLeBytes w)]
  simp only [readU32, uadd_eq hp, Outcome.ok_bind, getBytes, hget, Outcome.okOr_some,
    Bytes.fromLeBytes_toLeBytes]

/-- A word that was read is there. -/
theorem drop_of_readU32 {m : Overflow} {data : List UInt8} {p : Nat} {w : UInt32}
    (hp : p + 4 < 2 ^ 64) (h : readU32 m data p = .ok w) :
    data.drop p = Bytes.toLeBytes w ++ data.drop (p + 4) := by
  simp only [readU32, uadd_eq hp, Outcome.ok_bind, Outcome.bind_eq_ok, getBytes,
    Outcome.okOr_eq_ok] at h
  obtain ⟨bytes, hget, hw⟩ := h
  obtain ⟨-, -, hb⟩ := getRange_eq_some.mp hget
  rw [Nat.add_sub_cancel_left] at hb
  rw [← Bytes.fromLeBytes_eq_some hw, hb, ← List.drop_drop, List.take_append_drop]

theorem returns_readU32 {m : Overflow} {data : List UInt8} {p : Nat} (hp : p + 4 < 2 ^ 64) :
    (readU32 m data p).Returns := by
  simp only [readU32, uadd_eq hp, Outcome.ok_bind, Outcome.returns_bind]
  exact ⟨returns_getBytes _ _ _, fun _ _ => Outcome.returns_okOr _ _⟩

end Hyprwire
