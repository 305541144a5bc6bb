import Hyprwire.Core.Grammar
import Hyprwire.Lib.Utf8

/-!
# `Core/Control.lean` — the nine control messages

Everything but the generic message: the handshake, binding, object ids, errors and
roundtrips. Each is a record of what it carries with the bytes it stands for, a constructor
`new` for the sending side, and `from_bytes`, with the checks in the source's order.

Three of them are five or seven or twelve bytes wide and nothing else; the other six carry a
number the sender chose, a count or a length, which the decoder steps over.
-/

namespace Hyprwire

open Rust

/-- `str::from_utf8(data.get(start..start + len)?)?`. -/
def getStr (m : Overflow) (data : List UInt8) (start len : Nat) : Outcome Error String := do
  let stop ← uadd m start len
  let bytes ← getBytes data start stop
  Outcome.okOr (Utf8.fromUtf8 bytes) .malformedMessage

/-- `data.get(offset..offset + n)`, for the messages of a fixed width. -/
def getArray (m : Overflow) (data : List UInt8) (offset n : Nat) : Outcome Error (List UInt8) := do
  let stop ← uadd m offset n
  getBytes data offset stop

/-- A string with its length prefix, as every constructor writes it. -/
def encodeStr (s : String) : List UInt8 :=
  varInt (Utf8.asBytes s).length ++ Utf8.asBytes s

/-- `hello::Hello`. -/
structure Hello where
  data : List UInt8
  deriving DecidableEq, Repr

def Hello.new : Hello where
  data := [MessageType.sup.toU8, MessageMagic.typeVarchar.toU8, 0x03, 0x56, 0x41, 0x58,
    MessageMagic.end_.toU8]

def Hello.fromBytes (m : Overflow) (data : List UInt8) (offset : Nat) : Outcome Error Hello := do
  let msgData ← getArray m data offset 7
  if msgData ≠ Hello.new.data then .err .malformedMessage else .ok ⟨msgData⟩

/-- `handshake_begin::HandshakeBegin`. -/
structure HandshakeBegin where
  versions : List UInt32
  data : List UInt8
  deriving DecidableEq, Repr

def HandshakeBegin.new (versions : List UInt32) : HandshakeBegin where
  versions
  data := MessageType.handshakeBegin.toU8 :: MessageMagic.typeArray.toU8 ::
    MessageMagic.typeUint.toU8 ::
      (varInt versions.length ++ (versions.flatMap Bytes.toLeBytes ++ [MessageMagic.end_.toU8]))

/-- `(i..n).map(|i| read_u32(data, needle + (i * 4))).collect()`, `n` elements from `i` on. -/
def readVersions (m : Overflow) (data : List UInt8) (needle : Nat) :
    Nat → Nat → Outcome Error (List UInt32)
  | 0, _ => .ok []
  | n + 1, i => do
    let d ← umul m i 4
    let p ← uadd m needle d
    let version ← readU32 m data p
    let versions ← readVersions m data needle n (i + 1)
    .ok (version :: versions)

def HandshakeBegin.fromBytes (m : Overflow) (data : List UInt8) (offset : Nat) :
    Outcome Error HandshakeBegin := do
  expectByte data offset MessageType.handshakeBegin.toU8 .invalidMessageType
  let needle ← uadd m offset 1
  expectByte data needle MessageMagic.typeArray.toU8 .invalidFieldType
  let needle ← uadd m needle 1
  expectByte data needle MessageMagic.typeUint.toU8 .invalidFieldType
  let needle ← uadd m needle 1
  let (nVars, varIntLen) ← parseVarInt m data needle
  let needle ← uadd m needle varIntLen
  if 256 ≤ nVars then .err .tooManyVersions
  else do
    let versions ← readVersions m data needle nVars 0
    let d ← umul m nVars 4
    let needle ← uadd m needle d
    expectByte data needle MessageMagic.end_.toU8 .malformedMessage
    let needle ← uadd m needle 1
    let messageLen ← usub m needle offset
    let stop ← uadd m offset messageLen
    let bytes ← slice data offset stop
    .ok ⟨versions, bytes⟩

/-- `handshake_ack::HandshakeAck`. -/
structure HandshakeAck where
  version : UInt32
  data : List UInt8
  deriving DecidableEq, Repr

def HandshakeAck.new (version : UInt32) : HandshakeAck where
  version
  data := MessageType.handshakeAck.toU8 :: MessageMagic.typeUint.toU8 ::
    (Bytes.toLeBytes version ++ [MessageMagic.end_.toU8])

/-- `from_bytes`; the `End` byte is checked before the version is read. -/
def HandshakeAck.fromBytes (m : Overflow) (data : List UInt8) (offset : Nat) :
    Outcome Error HandshakeAck := do
  expectByte data offset MessageType.handshakeAck.toU8 .invalidMessageType
  let p ← uadd m offset 1
  expectByte data p MessageMagic.typeUint.toU8 .invalidFieldType
  let p ← uadd m offset 6
  expectByte data p MessageMagic.end_.toU8 .malformedMessage
  let p ← uadd m offset 2
  let version ← readU32 m data p
  let bytes ← getArray m data offset 7
  .ok ⟨version, bytes⟩

/-- `handshake_protocols::HandshakeProtocols`. -/
structure HandshakeProtocols where
  protocols : List String
  data : List UInt8
  deriving DecidableEq, Repr

def HandshakeProtocols.new (protocols : List String) : HandshakeProtocols where
  protocols
  data := MessageType.handshakeProtocols.toU8 :: MessageMagic.typeArray.toU8 ::
    MessageMagic.typeVarchar.toU8 ::
      (varInt protocols.length ++ (protocols.flatMap encodeStr ++ [MessageMagic.end_.toU8]))

/-- The `for _ in 0..els` loop; the new needle comes with the strings. -/
def readProtocols (m : Overflow) (data : List UInt8) (offset : Nat) :
    Nat → Nat → Outcome Error (List String × Nat)
  | 0, needle => .ok ([], needle)
  | n + 1, needle => do
    let p ← uadd m offset needle
    let _ ← getByte data p
    let (strLen, varIntLen) ← parseVarInt m data p
    let needle ← uadd m needle varIntLen
    let p ← uadd m offset needle
    let protocol ← getStr m data p strLen
    let needle ← uadd m needle strLen
    let (protocols, needle) ← readProtocols m data offset n needle
    .ok (protocol :: protocols, needle)

def HandshakeProtocols.fromBytes (m : Overflow) (data : List UInt8) (offset : Nat) :
    Outcome Error HandshakeProtocols := do
  expectByte data offset MessageType.handshakeProtocols.toU8 .invalidMessageType
  let p ← uadd m offset 1
  expectByte data p MessageMagic.typeArray.toU8 .invalidFieldType
  let p ← uadd m offset 2
  expectByte data p MessageMagic.typeVarchar.toU8 .invalidFieldType
  let p ← uadd m offset 3
  let (els, varIntLen) ← parseVarInt m data p
  let needle ← uadd m 3 varIntLen
  if 2048 ≤ els then .err .tooManyProtocols
  else do
    withCapacity 16 els
    let (protocols, needle) ← readProtocols m data offset els needle
    let p ← uadd m offset needle
    expectByte data p MessageMagic.end_.toU8 .malformedMessage
    let needle ← uadd m needle 1
    let stop ← uadd m offset needle
    let bytes ← slice data offset stop
    .ok ⟨protocols, bytes⟩

/-- `bind_protocol::BindProtocol`. -/
structure BindProtocol where
  seq : UInt32
  version : UInt32
  protocol : String
  data : List UInt8
  deriving DecidableEq, Repr

def BindProtocol.new (protocol : String) (seq version : UInt32) : BindProtocol where
  seq
  version
  protocol
  data := MessageType.bindProtocol.toU8 :: MessageMagic.typeUint.toU8 :: (Bytes.toLeBytes seq ++
    MessageMagic.typeVarchar.toU8 :: (encodeStr protocol ++
      MessageMagic.typeUint.toU8 :: (Bytes.toLeBytes version ++ [MessageMagic.end_.toU8])))

def BindProtocol.fromBytes (m : Overflow) (data : List UInt8) (offset : Nat) :
    Outcome Error BindProtocol := do
  expectByte data offset MessageType.bindProtocol.toU8 .invalidMessageType
  let needle ← uadd m offset 1
  expectByte data needle MessageMagic.typeUint.toU8 .invalidFieldType
  let needle ← uadd m needle 1
  let seq ← readU32 m data needle
  let needle ← uadd m needle 4
  expectByte data needle MessageMagic.typeVarchar.toU8 .invalidFieldType
  let needle ← uadd m needle 1
  let (protocolLen, varIntLen) ← parseVarInt m data needle
  let needle ← uadd m needle varIntLen
  let protocol ← getStr m data needle protocolLen
  let needle ← uadd m needle protocolLen
  expectByte data needle MessageMagic.typeUint.toU8 .invalidFieldType
  let needle ← uadd m needle 1
  let version ← readU32 m data needle
  if version = 0 then .err .invalidVersion
  else do
    let needle ← uadd m needle 4
    expectByte data needle MessageMagic.end_.toU8 .malformedMessage
    let needle ← uadd m needle 1
    let stop ← uadd m offset needle
    let stop ← usub m stop offset
    let bytes ← slice data offset stop
    .ok ⟨seq, version, protocol, bytes⟩

/-- `new_object::NewObject`. -/
structure NewObject where
  id : UInt32
  seq : UInt32
  data : List UInt8
  deriving DecidableEq, Repr

def NewObject.new (seq id : UInt32) : NewObject where
  id
  seq
  data := MessageType.newObject.toU8 :: MessageMagic.typeUint.toU8 :: (Bytes.toLeBytes id ++
    MessageMagic.typeUint.toU8 :: (Bytes.toLeBytes seq ++ [MessageMagic.end_.toU8]))

def NewObject.fromBytes (m : Overflow) (data : List UInt8) (offset : Nat) :
    Outcome Error NewObject := do
  expectByte data offset MessageType.newObject.toU8 .invalidMessageType
  let p ← uadd m offset 1
  expectByte data p MessageMagic.typeUint.toU8 .invalidFieldType
  let p ← uadd m offset 2
  let id ← readU32 m data p
  let p ← uadd m offset 6
  expectByte data p MessageMagic.typeUint.toU8 .invalidFieldType
  let p ← uadd m offset 7
  let seq ← readU32 m data p
  let p ← uadd m offset 11
  expectByte data p MessageMagic.end_.toU8 .malformedMessage
  let bytes ← getArray m data offset 12
  .ok ⟨id, seq, bytes⟩

/-- `fatal_protocol_error::FatalProtocolError`. -/
structure FatalProtocolError where
  objectId : UInt32
  errorId : UInt32
  errorMsg : String
  data : List UInt8
  deriving DecidableEq, Repr

def FatalProtocolError.new (objectId errorId : UInt32) (errorMsg : String) : FatalProtocolError where
  objectId
  errorId
  errorMsg
  data := MessageType.fatalProtocolError.toU8 :: MessageMagic.typeUint.toU8 ::
    (Bytes.toLeBytes objectId ++ MessageMagic.typeUint.toU8 :: (Bytes.toLeBytes errorId ++
      MessageMagic.typeVarchar.toU8 :: (encodeStr errorMsg ++ [MessageMagic.end_.toU8])))

def FatalProtocolError.fromBytes (m : Overflow) (data : List UInt8) (offset : Nat) :
    Outcome Error FatalProtocolError := do
  expectByte data offset MessageType.fatalProtocolError.toU8 .invalidMessageType
  let p ← uadd m offset 1
  expectByte data p MessageMagic.typeUint.toU8 .invalidFieldType
  let p ← uadd m offset 2
  let objectId ← readU32 m data p
  let p ← uadd m offset 6
  expectByte data p MessageMagic.typeUint.toU8 .invalidFieldType
  let p ← uadd m offset 7
  let errorId ← readU32 m data p
  let p ← uadd m offset 11
  expectByte data p MessageMagic.typeVarchar.toU8 .invalidFieldType
  let p ← uadd m offset 12
  let (strLen, varIntLen) ← parseVarInt m data p
  let needle ← uadd m 12 varIntLen
  let p ← uadd m offset needle
  let errorMsg ← getStr m data p strLen
  let needle ← uadd m needle strLen
  let p ← uadd m offset needle
  expectByte data p MessageMagic.end_.toU8 .malformedMessage
  let needle ← uadd m needle 1
  let stop ← uadd m offset needle
  let bytes ← slice data offset stop
  .ok ⟨objectId, errorId, errorMsg, bytes⟩

/-! ## Roundtrips

Request and acknowledgement differ in their type byte alone. -/

/-- `RoundtripRequest::new` and `RoundtripDone::new`. -/
def roundtripData (type : MessageType) (seq : UInt32) : List UInt8 :=
  type.toU8 :: MessageMagic.typeUint.toU8 :: (Bytes.toLeBytes seq ++ [MessageMagic.end_.toU8])

/-- `RoundtripRequest::from_bytes` and `RoundtripDone::from_bytes`. -/
def roundtripFromBytes (m : Overflow) (type : MessageType) (data : List UInt8) (offset : Nat) :
    Outcome Error (UInt32 × List UInt8) := do
  expectByte data offset type.toU8 .invalidMessageType
  let p ← uadd m offset 1
  expectByte data p MessageMagic.typeUint.toU8 .invalidFieldType
  let p ← uadd m offset 2
  let seq ← readU32 m data p
  let p ← uadd m offset 6
  expectByte data p MessageMagic.end_.toU8 .malformedMessage
  let bytes ← getArray m data offset 7
  .ok (seq, bytes)

/-- `roundtrip_request::RoundtripRequest`. -/
structure RoundtripRequest where
  seq : UInt32
  data : List UInt8
  deriving DecidableEq, Repr

def RoundtripRequest.new (seq : UInt32) : RoundtripRequest :=
  ⟨seq, roundtripData .roundtripRequest seq⟩

def RoundtripRequest.fromBytes (m : Overflow) (data : List UInt8) (offset : Nat) :
    Outcome Error RoundtripRequest := do
  let (seq, bytes) ← roundtripFromBytes m .roundtripRequest data offset
  .ok ⟨seq, bytes⟩

/-- `roundtrip_done::RoundtripDone`. -/
structure RoundtripDone where
  seq : UInt32
  data : List UInt8
  deriving DecidableEq, Repr

def RoundtripDone.new (seq : UInt32) : RoundtripDone :=
  ⟨seq, roundtripData .roundtripDone seq⟩

def RoundtripDone.fromBytes (m : Overflow) (data : List UInt8) (offset : Nat) :
    Outcome Error RoundtripDone := do
  let (seq, bytes) ← roundtripFromBytes m .roundtripDone data offset
  .ok ⟨seq, bytes⟩

/-! ## Reading back what was written

Every decoder accepts the bytes of its own constructor at any offset and before any suffix,
and its `data` is exactly them. A buffer is at most `isizeMax` long, so that none of the
additions overflows. -/

variable {m : Overflow} {data rest : List UInt8} {offset p : Nat}

theorem getArray_of_drop {mid : List UInt8} {n : Nat} (hn : mid.length = n)
    (hd : data.drop offset = mid ++ rest) (hoff : offset ≤ data.length)
    (hlen : data.length ≤ isizeMax) : getArray m data offset n = .ok mid := by
  have hbound := Bytes.length_of_drop_eq_append hoff hd
  simp only [isizeMax] at hlen
  have hget : getRange data offset (offset + n) = some mid := by
    rw [getRange_eq_some]
    refine ⟨by omega, by omega, ?_⟩
    rw [hd, Nat.add_sub_cancel_left, List.take_left' hn]
  simp only [getArray]
  rw [uadd_eq (by omega), Outcome.ok_bind, getBytes, hget, Outcome.okOr_some]

theorem slice_of_drop {mid : List UInt8} {stop : Nat} (hstop : offset + mid.length = stop)
    (hd : data.drop offset = mid ++ rest) (hoff : offset ≤ data.length) :
    (slice data offset stop : Outcome Error (List UInt8)) = .ok mid := by
  have hbound := Bytes.length_of_drop_eq_append hoff hd
  rw [slice_eq (by omega) (by omega), hd, ← hstop, Nat.add_sub_cancel_left, List.take_left]

/-- Bytes of a string read behind its prefix. -/
theorem getStr_bytes_of_drop {bytes : List UInt8} {s : String} (hs : Utf8.fromUtf8 bytes = some s)
    (hd : data.drop p = bytes ++ rest) (hp : p ≤ data.length) (hlen : data.length ≤ isizeMax) :
    getStr m data p bytes.length = .ok s := by
  have hbound := Bytes.length_of_drop_eq_append hp hd
  have hget : getRange data p (p + bytes.length) = some bytes := by
    rw [getRange_eq_some]
    refine ⟨by omega, by omega, ?_⟩
    rw [hd, Nat.add_sub_cancel_left, List.take_left]
  simp only [isizeMax] at hlen
  simp only [getStr]
  rw [uadd_eq (by omega), Outcome.ok_bind, getBytes, hget, Outcome.okOr_some, Outcome.ok_bind, hs,
    Outcome.okOr_some]

theorem getStr_of_drop {s : String} (hd : data.drop p = Utf8.asBytes s ++ rest)
    (hp : p ≤ data.length) (hlen : data.length ≤ isizeMax) :
    getStr m data p (Utf8.asBytes s).length = .ok s :=
  getStr_bytes_of_drop (Utf8.fromUtf8_asBytes s) hd hp hlen

/-- A length prefix that was written by `encode_var_int`. -/
theorem parseVarInt_varInt {n : Nat} (hd : data.drop p = varInt n ++ rest) (hn : n < 2 ^ 64) :
    parseVarInt m data p = .ok (n, (varInt n).length) := by
  rw [varInt_eq hn] at hd ⊢
  exact parseVarInt_encode hd hn

theorem length_varInt_pos {n : Nat} (hn : n < 2 ^ 64) : 0 < (varInt n).length := by
  rw [varInt_eq hn]
  exact List.length_pos_iff.mpr (Leb128.terminated_encode n).ne_nil

theorem expectByte_of_drop {tag : UInt8} {e : Error} (hd : data.drop p = tag :: rest) :
    expectByte data p tag e = .ok () :=
  expectByte_eq_ok.mpr (Bytes.getElem?_of_drop_eq_cons hd)

theorem Hello.fromBytes_new (hd : data.drop offset = Hello.new.data ++ rest)
    (hoff : offset ≤ data.length) (hlen : data.length ≤ isizeMax) :
    Hello.fromBytes m data offset = .ok Hello.new := by
  simp only [Hello.fromBytes]
  rw [getArray_of_drop (show Hello.new.data.length = 7 from rfl) hd hoff hlen, Outcome.ok_bind,
    if_neg (by simp)]

theorem readVersions_of_drop : ∀ (versions : List UInt32) (needle i : Nat),
    data.drop (needle + i * 4) = versions.flatMap Bytes.toLeBytes ++ rest →
    needle + (i + versions.length) * 4 < 2 ^ 64 →
      readVersions m data needle versions.length i = .ok versions
  | [], _, _, _, _ => rfl
  | version :: versions, needle, i, hd, hfit => by
    simp only [List.flatMap_cons, List.append_assoc, List.length_cons] at hd hfit ⊢
    have hrest := Bytes.drop_add_of_drop_eq_append hd
    rw [Bytes.length_toLeBytes, show needle + i * 4 + 4 = needle + (i + 1) * 4 by omega] at hrest
    simp only [readVersions]
    rw [umul_eq (by omega), Outcome.ok_bind, uadd_eq (by omega), Outcome.ok_bind,
      readU32_of_drop hd (by omega), Outcome.ok_bind,
      readVersions_of_drop versions needle (i + 1) hrest (by omega), Outcome.ok_bind]

theorem HandshakeBegin.fromBytes_new {versions : List UInt32} (hn : versions.length < 256)
    (hd : data.drop offset = (HandshakeBegin.new versions).data ++ rest)
    (hoff : offset ≤ data.length) (hlen : data.length ≤ isizeMax) :
    HandshakeBegin.fromBytes m data offset = .ok (HandshakeBegin.new versions) := by
  have hbound := Bytes.length_of_drop_eq_append hoff hd
  have hdata := hd
  simp only [HandshakeBegin.new, List.cons_append, List.append_assoc, List.nil_append] at hdata
  have h1 := Bytes.drop_succ_of_drop_eq_cons hdata
  have h2 := Bytes.drop_succ_of_drop_eq_cons h1
  have h3 := Bytes.drop_succ_of_drop_eq_cons h2
  have h4 := Bytes.drop_add_of_drop_eq_append h3
  have h5 := Bytes.drop_add_of_drop_eq_append h4
  rw [length_flatMap_toLeBytes] at h5
  simp only [HandshakeBegin.new, List.length_cons, List.length_append, length_flatMap_toLeBytes,
    List.length_nil, isizeMax] at hbound hlen
  simp only [HandshakeBegin.fromBytes]
  rw [expectByte_of_drop hdata, Outcome.ok_bind, uadd_eq (by omega), Outcome.ok_bind,
    expectByte_of_drop h1, Outcome.ok_bind, uadd_eq (by omega), Outcome.ok_bind,
    expectByte_of_drop h2, Outcome.ok_bind, uadd_eq (by omega), Outcome.ok_bind,
    parseVarInt_varInt h3 (by omega), Outcome.ok_bind]
  simp only []
  rw [uadd_eq (by omega), Outcome.ok_bind, if_neg (by omega),
    readVersions_of_drop versions _ 0 (by rw [Nat.zero_mul]; exact h4) (by omega), Outcome.ok_bind,
    umul_eq (by omega), Outcome.ok_bind, uadd_eq (by omega), Outcome.ok_bind,
    expectByte_of_drop (by rw [Nat.mul_comm]; exact h5), Outcome.ok_bind, uadd_eq (by omega),
    Outcome.ok_bind, usub_eq (by omega), Outcome.ok_bind, uadd_eq (by omega), Outcome.ok_bind,
    slice_of_drop _ hd hoff, Outcome.ok_bind]
  · rfl
  · simp only [HandshakeBegin.new, List.length_cons, List.length_append, length_flatMap_toLeBytes,
      List.length_nil]
    omega

theorem HandshakeAck.fromBytes_new {version : UInt32}
    (hd : data.drop offset = (HandshakeAck.new version).data ++ rest)
    (hoff : offset ≤ data.length) (hlen : data.length ≤ isizeMax) :
    HandshakeAck.fromBytes m data offset = .ok (HandshakeAck.new version) := by
  have hbound := Bytes.length_of_drop_eq_append hoff hd
  have hdata := hd
  simp only [HandshakeAck.new, List.cons_append, List.append_assoc, List.nil_append] at hdata
  have h1 := Bytes.drop_succ_of_drop_eq_cons hdata
  have h2 := Bytes.drop_succ_of_drop_eq_cons h1
  have h6 := Bytes.drop_add_of_drop_eq_append h2
  simp only [Bytes.length_toLeBytes] at h6
  simp only [HandshakeAck.new, List.length_cons, List.length_append, Bytes.length_toLeBytes,
    List.length_nil, isizeMax] at hbound hlen
  simp only [HandshakeAck.fromBytes]
  rw [expectByte_of_drop hdata, Outcome.ok_bind, uadd_eq (by omega), Outcome.ok_bind,
    expectByte_of_drop h1, Outcome.ok_bind, uadd_eq (by omega), Outcome.ok_bind,
    expectByte_of_drop h6, Outcome.ok_bind, uadd_eq (by omega), Outcome.ok_bind,
    readU32_of_drop h2 (by omega), Outcome.ok_bind,
    getArray_of_drop (show (HandshakeAck.new version).data.length = 7 from rfl) hd hoff hlen,
    Outcome.ok_bind]
  rfl

theorem readProtocols_of_drop (hlen : data.length ≤ isizeMax) :
    ∀ (protocols : List String) (needle : Nat),
    data.drop (offset + needle) = protocols.flatMap encodeStr ++ rest →
    offset + needle + (protocols.flatMap encodeStr).length ≤ data.length →
      readProtocols m data offset protocols.length needle
        = .ok (protocols, needle + (protocols.flatMap encodeStr).length)
  | [], _, _, _ => rfl
  | s :: ss, needle, hd, hfit => by
    simp only [List.flatMap_cons, List.length_append, encodeStr, List.append_assoc] at hd hfit
    have hcap : data.length ≤ 2 ^ 63 - 1 := hlen
    have h1 := Bytes.drop_add_of_drop_eq_append hd
    have h2 := Bytes.drop_add_of_drop_eq_append h1
    have hpos := length_varInt_pos (show (Utf8.asBytes s).length < 2 ^ 64 by omega)
    have hb := List.getElem?_eq_getElem (show offset + needle < data.length by omega)
    rw [Nat.add_assoc] at h1
    rw [Nat.add_assoc, Nat.add_assoc, ← Nat.add_assoc needle] at h2
    simp only [List.length_cons, readProtocols]
    rw [uadd_eq (by omega), Outcome.ok_bind, getByte_eq_ok.mpr hb, Outcome.ok_bind,
      parseVarInt_varInt hd (by omega), Outcome.ok_bind]
    simp only []
    rw [uadd_eq (by omega), Outcome.ok_bind, uadd_eq (by omega), Outcome.ok_bind,
      getStr_of_drop h1 (by omega) hlen, Outcome.ok_bind, uadd_eq (by omega), Outcome.ok_bind,
      readProtocols_of_drop hlen ss _ h2 (by omega), Outcome.ok_bind]
    simp only [List.flatMap_cons, List.length_append, encodeStr, Nat.add_assoc]

/-- The protocols a server advertises, as a client reads them: there must be fewer than 2048. -/
theorem HandshakeProtocols.fromBytes_data {protocols : List String}
    (hd : data.drop offset = (HandshakeProtocols.new protocols).data ++ rest)
    (hoff : offset ≤ data.length) (hlen : data.length ≤ isizeMax)
    (hcount : protocols.length < 2 ^ 64) :
    HandshakeProtocols.fromBytes m data offset =
      if 2048 ≤ protocols.length then .err .tooManyProtocols
      else .ok (HandshakeProtocols.new protocols) := by
  have hbound := Bytes.length_of_drop_eq_append hoff hd
  have hcap : data.length ≤ 2 ^ 63 - 1 := hlen
  have hdata := hd
  simp only [HandshakeProtocols.new, List.cons_append, List.append_assoc, List.nil_append] at hdata
  have h1 := Bytes.drop_succ_of_drop_eq_cons hdata
  have h2 := Bytes.drop_succ_of_drop_eq_cons h1
  have h3 := Bytes.drop_succ_of_drop_eq_cons h2
  have h4 := Bytes.drop_add_of_drop_eq_append h3
  have h5 := Bytes.drop_add_of_drop_eq_append h4
  rw [show offset + 1 + 1 + 1 + (varInt protocols.length).length
    = offset + (3 + (varInt protocols.length).length) by omega] at h4 h5
  rw [Nat.add_assoc] at h5
  simp only [HandshakeProtocols.new, List.length_cons, List.length_append, List.length_nil]
    at hbound
  simp only [HandshakeProtocols.fromBytes]
  rw [expectByte_of_drop hdata, Outcome.ok_bind, uadd_eq (by omega), Outcome.ok_bind,
    expectByte_of_drop h1, Outcome.ok_bind, uadd_eq (by omega), Outcome.ok_bind,
    expectByte_of_drop h2, Outcome.ok_bind, uadd_eq (by omega), Outcome.ok_bind,
    parseVarInt_varInt h3 hcount, Outcome.ok_bind]
  simp only []
  rw [uadd_eq (by omega), Outcome.ok_bind]
  by_cases hmany : 2048 ≤ protocols.length
  · rw [if_pos hmany, if_pos hmany]
  · rw [if_neg hmany, if_neg hmany, withCapacity_eq (by unfold isizeMax; omega), Outcome.ok_bind,
      readProtocols_of_drop hlen protocols _ h4 (by omega), Outcome.ok_bind]
    simp only []
    rw [uadd_eq (by omega), Outcome.ok_bind, expectByte_of_drop h5, Outcome.ok_bind,
      uadd_eq (by omega), Outcome.ok_bind, uadd_eq (by omega), Outcome.ok_bind,
      slice_of_drop _ hd hoff, Outcome.ok_bind]
    · rfl
    · simp only [HandshakeProtocols.new, List.length_cons, List.length_append, List.length_nil]
      omega

theorem HandshakeProtocols.fromBytes_new {protocols : List String} (hn : protocols.length < 2048)
    (hd : data.drop offset = (HandshakeProtocols.new protocols).data ++ rest)
    (hoff : offset ≤ data.length) (hlen : data.length ≤ isizeMax) :
    HandshakeProtocols.fromBytes m data offset = .ok (HandshakeProtocols.new protocols) := by
  rw [HandshakeProtocols.fromBytes_data hd hoff hlen (by omega), if_neg (Nat.not_le.mpr hn)]

/-- A request to bind, as a server reads it: version 0 is refused. -/
theorem BindProtocol.fromBytes_data {protocol : String} {seq version : UInt32}
    (hd : data.drop offset = (BindProtocol.new protocol seq version).data ++ rest)
    (hoff : offset ≤ data.length) (hlen : data.length ≤ isizeMax) :
    BindProtocol.fromBytes m data offset =
      if version = 0 then .err .invalidVersion
      else .ok (BindProtocol.new protocol seq version) := by
  have hbound := Bytes.length_of_drop_eq_append hoff hd
  have hcap : data.length ≤ 2 ^ 63 - 1 := hlen
  have hdata := hd
  simp only [BindProtocol.new, encodeStr, List.cons_append, List.append_assoc, List.nil_append]
    at hdata
  have h1 := Bytes.drop_succ_of_drop_eq_cons hdata
  have h2 := Bytes.drop_succ_of_drop_eq_cons h1
  have h6 := Bytes.drop_add_of_drop_eq_append h2
  have h7 := Bytes.drop_succ_of_drop_eq_cons h6
  have h8 := Bytes.drop_add_of_drop_eq_append h7
  have h9 := Bytes.drop_add_of_drop_eq_append h8
  have h10 := Bytes.drop_succ_of_drop_eq_cons h9
  have h11 := Bytes.drop_add_of_drop_eq_append h10
  simp only [Bytes.length_toLeBytes] at h6 h7 h8 h9 h10 h11
  simp only [BindProtocol.new, encodeStr, List.length_cons, List.length_append,
    Bytes.length_toLeBytes, List.length_nil] at hbound
  simp only [BindProtocol.fromBytes]
  rw [expectByte_of_drop hdata, Outcome.ok_bind, uadd_eq (by omega), Outcome.ok_bind,
    expectByte_of_drop h1, Outcome.ok_bind, uadd_eq (by omega), Outcome.ok_bind,
    readU32_of_drop h2 (by omega), Outcome.ok_bind, uadd_eq (by omega), Outcome.ok_bind,
    expectByte_of_drop h6, Outcome.ok_bind, uadd_eq (by omega), Outcome.ok_bind,
    parseVarInt_varInt h7 (by omega), Outcome.ok_bind]
  simp only []
  rw [uadd_eq (by omega), Outcome.ok_bind, getStr_of_drop h8 (by omega) hlen, Outcome.ok_bind,
    uadd_eq (by omega), Outcome.ok_bind, expectByte_of_drop h9, Outcome.ok_bind,
    uadd_eq (by omega), Outcome.ok_bind, readU32_of_drop h10 (by omega), Outcome.ok_bind]
  by_cases hversion : version = 0
  · rw [if_pos hversion, if_pos hversion]
  · rw [if_neg hversion, if_neg hversion, uadd_eq (by omega), Outcome.ok_bind,
      expectByte_of_drop h11, Outcome.ok_bind, uadd_eq (by omega), Outcome.ok_bind,
      uadd_eq (by omega), Outcome.ok_bind, usub_eq (by omega), Outcome.ok_bind,
      slice_of_drop _ hd hoff, Outcome.ok_bind]
    · rfl
    · simp only [BindProtocol.new, encodeStr, List.length_cons, List.length_append,
        Bytes.length_toLeBytes, List.length_nil]
      omega

theorem BindProtocol.fromBytes_new {protocol : String} {seq version : UInt32}
    (hversion : version ≠ 0)
    (hd : data.drop offset = (BindProtocol.new protocol seq version).data ++ rest)
    (hoff : offset ≤ data.length) (hlen : data.length ≤ isizeMax) :
    BindProtocol.fromBytes m data offset = .ok (BindProtocol.new protocol seq version) := by
  rw [BindProtocol.fromBytes_data hd hoff hlen, if_neg hversion]

theorem NewObject.fromBytes_new {seq id : UInt32}
    (hd : data.drop offset = (NewObject.new seq id).data ++ rest)
    (hoff : offset ≤ data.length) (hlen : data.length ≤ isizeMax) :
    NewObject.fromBytes m data offset = .ok (NewObject.new seq id) := by
  have hbound := Bytes.length_of_drop_eq_append hoff hd
  have hcap : data.length ≤ 2 ^ 63 - 1 := hlen
  have hdata := hd
  simp only [NewObject.new, List.cons_append, List.append_assoc, List.nil_append] at hdata
  have h1 := Bytes.drop_succ_of_drop_eq_cons hdata
  have h2 := Bytes.drop_succ_of_drop_eq_cons h1
  have h6 := Bytes.drop_add_of_drop_eq_append h2
  have h7 := Bytes.drop_succ_of_drop_eq_cons h6
  have h11 := Bytes.drop_add_of_drop_eq_append h7
  simp only [Bytes.length_toLeBytes] at h6 h7 h11
  simp only [NewObject.new, List.length_cons, List.length_append, Bytes.length_toLeBytes,
    List.length_nil] at hbound
  simp only [NewObject.fromBytes]
  rw [expectByte_of_drop hdata, Outcome.ok_bind, uadd_eq (by omega), Outcome.ok_bind,
    expectByte_of_drop h1, Outcome.ok_bind, uadd_eq (by omega), Outcome.ok_bind,
    readU32_of_drop h2 (by omega), Outcome.ok_bind, uadd_eq (by omega), Outcome.ok_bind,
    expectByte_of_drop h6, Outcome.ok_bind, uadd_eq (by omega), Outcome.ok_bind,
    readU32_of_drop h7 (by omega), Outcome.ok_bind, uadd_eq (by omega), Outcome.ok_bind,
    expectByte_of_drop h11, Outcome.ok_bind,
    getArray_of_drop (show (NewObject.new seq id).data.length = 12 from rfl) hd hoff hlen,
    Outcome.ok_bind]
  rfl

theorem FatalProtocolError.fromBytes_new {objectId errorId : UInt32} {errorMsg : String}
    (hd : data.drop offset = (FatalProtocolError.new objectId errorId errorMsg).data ++ rest)
    (hoff : offset ≤ data.length) (hlen : data.length ≤ isizeMax) :
    FatalProtocolError.fromBytes m data offset
      = .ok (FatalProtocolError.new objectId errorId errorMsg) := by
  have hbound := Bytes.length_of_drop_eq_append hoff hd
  have hcap : data.length ≤ 2 ^ 63 - 1 := hlen
  have hdata := hd
  simp only [FatalProtocolError.new, encodeStr, List.cons_append, List.append_assoc,
    List.nil_append] at hdata
  have h1 := Bytes.drop_succ_of_drop_eq_cons hdata
  have h2 := Bytes.drop_succ_of_drop_eq_cons h1
  have h6 := Bytes.drop_add_of_drop_eq_append h2
  have h7 := Bytes.drop_succ_of_drop_eq_cons h6
  have h11 := Bytes.drop_add_of_drop_eq_append h7
  have h12 := Bytes.drop_succ_of_drop_eq_cons h11
  have h13 := Bytes.drop_add_of_drop_eq_append h12
  have h14 := Bytes.drop_add_of_drop_eq_append h13
  simp only [Bytes.length_toLeBytes] at h6 h7 h11 h12 h13 h14
  rw [show offset + 1 + 1 + 4 + 1 + 4 + 1 + (varInt (Utf8.asBytes errorMsg).length).length
    = offset + (12 + (varInt (Utf8.asBytes errorMsg).length).length) by omega] at h13 h14
  rw [Nat.add_assoc] at h14
  simp only [FatalProtocolError.new, encodeStr, List.length_cons, List.length_append,
    Bytes.length_toLeBytes, List.length_nil] at hbound
  simp only [FatalProtocolError.fromBytes]
  rw [expectByte_of_drop hdata, Outcome.ok_bind, uadd_eq (by omega), Outcome.ok_bind,
    expectByte_of_drop h1, Outcome.ok_bind, uadd_eq (by omega), Outcome.ok_bind,
    readU32_of_drop h2 (by omega), Outcome.ok_bind, uadd_eq (by omega), Outcome.ok_bind,
    expectByte_of_drop h6, Outcome.ok_bind, uadd_eq (by omega), Outcome.ok_bind,
    readU32_of_drop h7 (by omega), Outcome.ok_bind, uadd_eq (by omega), Outcome.ok_bind,
    expectByte_of_drop h11, Outcome.ok_bind, uadd_eq (by omega), Outcome.ok_bind,
    parseVarInt_varInt h12 (by omega), Outcome.ok_bind]
  simp only []
  rw [uadd_eq (by omega), Outcome.ok_bind, uadd_eq (by omega), Outcome.ok_bind,
    getStr_of_drop h13 (by omega) hlen, Outcome.ok_bind, uadd_eq (by omega), Outcome.ok_bind,
    uadd_eq (by omega), Outcome.ok_bind, expectByte_of_drop h14, Outcome.ok_bind,
    uadd_eq (by omega), Outcome.ok_bind, uadd_eq (by omega), Outcome.ok_bind,
    slice_of_drop _ hd hoff, Outcome.ok_bind]
  · rfl
  · simp only [FatalProtocolError.new, encodeStr, List.length_cons, List.length_append,
      Bytes.length_toLeBytes, List.length_nil]
    omega

theorem roundtripFromBytes_data {type : MessageType} {seq : UInt32}
    (hd : data.drop offset = roundtripData type seq ++ rest)
    (hoff : offset ≤ data.length) (hlen : data.length ≤ isizeMax) :
    roundtripFromBytes m type data offset = .ok (seq, roundtripData type seq) := by
  have hbound := Bytes.length_of_drop_eq_append hoff hd
  have hcap : data.length ≤ 2 ^ 63 - 1 := hlen
  have hdata := hd
  simp only [roundtripData, List.cons_append, List.append_assoc, List.nil_append] at hdata
  have h1 := Bytes.drop_succ_of_drop_eq_cons hdata
  have h2 := Bytes.drop_succ_of_drop_eq_cons h1
  have h6 := Bytes.drop_add_of_drop_eq_append h2
  simp only [Bytes.length_toLeBytes] at h6
  simp only [roundtripData, List.length_cons, List.length_append, Bytes.length_toLeBytes,
    List.length_nil] at hbound
  simp only [roundtripFromBytes]
  rw [expectByte_of_drop hdata, Outcome.ok_bind, uadd_eq (by omega), Outcome.ok_bind,
    expectByte_of_drop h1, Outcome.ok_bind, uadd_eq (by omega), Outcome.ok_bind,
    readU32_of_drop h2 (by omega), Outcome.ok_bind, uadd_eq (by omega), Outcome.ok_bind,
    expectByte_of_drop h6, Outcome.ok_bind,
    getArray_of_drop (show (roundtripData type seq).length = 7 from rfl) hd hoff hlen,
    Outcome.ok_bind]

end Hyprwire
