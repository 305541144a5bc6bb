import Hyprwire.Wire.RoundTrip
import Hyprwire.Wire.Tracing

/-!
# `Wire/Traced.lean` — every message can be traced, but for some arrays and some bytes

The messages that come out of a decoder, out of a constructor or out of `WireObject::call`, as
`parse_data` is given them. The nine control messages are made of strings and words, and never
trip. A generic message is traced as it was scanned unless it has an array of seqs or a string in
an array that is not UTF-8 (`tracing_iff`).
-/

namespace Hyprwire

open Rust Trace Scanner

variable {showF32 : UInt32 → String} {data rest : List UInt8} {offset p q : Nat}

/-! ## Control messages -/

/-- Behind its type byte the message is made of fields that can be shown. -/
def Framed (bytes : List UInt8) : Prop :=
  ∃ fs : List (Field .checked), (∀ f ∈ fs, f.Shown) ∧
    bytes.drop 1 = encodeAll fs ++ [MessageMagic.end_.toU8]

theorem Framed.not_derails {bytes : List UInt8} (h : Framed bytes) (hlen : bytes.length ≤ isizeMax) :
    ¬ Derails bytes 1 := by
  obtain ⟨fs, hshown, hd⟩ := h
  exact (positions_fields hlen fs _ 1 (Nat.lt_succ_self _) hd).1 hshown

/-- What was cut out of the buffer is the message that stands there. -/
theorem framed_of_drop {tag : UInt8} {fs : List (Field .checked)} {n : Nat}
    (hshown : ∀ f ∈ fs, f.Shown)
    (hd : data.drop offset = tag :: (encodeAll fs ++ MessageMagic.end_.toU8 :: rest))
    (hn : n = (encodeAll fs).length + 2) : Framed ((data.drop offset).take n) := by
  refine ⟨fs, hshown, ?_⟩
  have hmid : data.drop offset = (tag :: (encodeAll fs ++ [MessageMagic.end_.toU8])) ++ rest := by
    rw [hd]
    simp
  rw [hmid, List.take_left' (by simp [hn])]
  rfl

theorem drop_of_expectByte {tag : UInt8} {e : Error} (h : expectByte data p tag e = .ok ()) :
    data.drop p = tag :: data.drop (p + 1) :=
  Bytes.drop_eq_cons_of_getElem? (expectByte_eq_ok.mp h)

theorem getArray_eq_ok {n : Nat} {bytes : List UInt8}
    (h : getArray .checked data offset n = .ok bytes) : bytes = (data.drop offset).take n := by
  simp only [getArray, Outcome.bind_eq_ok, uadd_checked_eq_ok] at h
  obtain ⟨stop, ⟨-, rfl⟩, hget⟩ := h
  have hb := (getRange_eq_some.mp (Outcome.okOr_eq_ok.mp hget)).2.2
  rwa [Nat.add_sub_cancel_left] at hb

theorem Hello.new_framed : Framed Hello.new.data := by
  refine ⟨[.varchar ⟨LenPrefix.ofNat .checked 3 (by decide), [0x56, 0x41, 0x58], rfl⟩], ?_, ?_⟩
  · simp [Field.Shown]
  · have hthree : Leb128.encode 3 = [3] := Leb128.encode_small (by decide)
    simp [encodeAll, Field.encode, Str.encode, LenPrefix.ofNat, hthree, Hello.new]

theorem Hello.framed {msg : Hello} (h : Hello.fromBytes .checked data offset = .ok msg) :
    Framed msg.data := by
  simp only [Hello.fromBytes, Outcome.bind_eq_ok] at h
  obtain ⟨bytes, -, h⟩ := h
  split at h
  · cases h
  · next heq =>
    cases h
    rw [not_not.mp heq]
    exact Hello.new_framed

theorem HandshakeAck.framed {msg : HandshakeAck}
    (h : HandshakeAck.fromBytes .checked data offset = .ok msg) : Framed msg.data := by
  simp only [HandshakeAck.fromBytes, Outcome.bind_eq_ok, uadd_checked_eq_ok] at h
  obtain ⟨_, h0, _, ⟨-, rfl⟩, _, h1, _, ⟨hfit, rfl⟩, _, h6, _, ⟨-, rfl⟩, version, hversion, bytes,
    hbytes, h⟩ := h
  cases h
  have hd : data.drop offset = MessageType.handshakeAck.toU8 ::
      (encodeAll [Field.scalar (m := .checked) .uint version] ++
        MessageMagic.end_.toU8 :: data.drop (offset + 6 + 1)) := by
    rw [drop_of_expectByte h0, drop_of_expectByte h1, drop_of_readU32 (by omega) hversion,
      drop_of_expectByte h6]
    rfl
  simp only
  rw [getArray_eq_ok hbytes]
  exact framed_of_drop (by simp [Field.Shown]) hd rfl

theorem NewObject.framed {msg : NewObject}
    (h : NewObject.fromBytes .checked data offset = .ok msg) : Framed msg.data := by
  simp only [NewObject.fromBytes, Outcome.bind_eq_ok, uadd_checked_eq_ok] at h
  obtain ⟨_, h0, _, ⟨-, rfl⟩, _, h1, _, ⟨-, rfl⟩, id, hid, _, ⟨-, rfl⟩, _, h6, _, ⟨-, rfl⟩, seq, hseq,
    _, ⟨hfit, rfl⟩, _, h11, bytes, hbytes, h⟩ := h
  cases h
  have hd : data.drop offset = MessageType.newObject.toU8 ::
      (encodeAll [Field.scalar (m := .checked) .uint id, .scalar .uint seq] ++
        MessageMagic.end_.toU8 :: data.drop (offset + 11 + 1)) := by
    rw [drop_of_expectByte h0, drop_of_expectByte h1, drop_of_readU32 (by omega) hid,
      drop_of_expectByte h6, drop_of_readU32 (by omega) hseq, drop_of_expectByte h11]
    rfl
  simp only
  rw [getArray_eq_ok hbytes]
  exact framed_of_drop (by simp [Field.Shown]) hd rfl

theorem roundtrip_framed {type : MessageType} {seq : UInt32} {bytes : List UInt8}
    (h : roundtripFromBytes .checked type data offset = .ok (seq, bytes)) : Framed bytes := by
  simp only [roundtripFromBytes, Outcome.bind_eq_ok, uadd_checked_eq_ok] at h
  obtain ⟨_, h0, _, ⟨-, rfl⟩, _, h1, _, ⟨-, rfl⟩, seq, hseq, _, ⟨hfit, rfl⟩, _, h6, bytes, hbytes,
    h⟩ := h
  cases h
  have hd : data.drop offset = type.toU8 ::
      (encodeAll [Field.scalar (m := .checked) .uint seq] ++
        MessageMagic.end_.toU8 :: data.drop (offset + 6 + 1)) := by
    rw [drop_of_expectByte h0, drop_of_expectByte h1, drop_of_readU32 (by omega) hseq,
      drop_of_expectByte h6]
    rfl
  rw [getArray_eq_ok hbytes]
  exact framed_of_drop (by simp [Field.Shown]) hd rfl

/-- A string that was read, with something behind it. -/
theorem exists_legible {len k : Nat} {s : String} (hlen : data.length ≤ isizeMax)
    (hparse : parseVarInt .checked data p = .ok (len, k))
    (hstr : getStr .checked data (p + k) len = .ok s) (hmore : p + k + len < data.length) :
    ∃ st : Str .checked, Legible st ∧ st.encode.length = k + len ∧
      data.drop p = st.encode ++ data.drop (p + k + len) := by
  have hcap : data.length ≤ 2 ^ 63 - 1 := hlen
  have hshort : ¬ HostileLen data p := by
    intro hbad
    rw [parseVarInt_checked_panic hbad] at hparse
    cases hparse
  rw [parseVarInt_eq (Nat.le_of_not_lt hshort)] at hparse
  cases hparse
  obtain ⟨st, hsize, hd⟩ := @exists_str .checked (data.drop p)
    (Nat.le_of_not_lt hshort) (by rw [List.length_drop]; omega)
  rw [List.drop_drop, ← Nat.add_assoc] at hd
  refine ⟨st, ?_, hsize, hd⟩
  rw [Str.encode, List.append_assoc] at hd
  obtain ⟨-, hcount, hspan⟩ := lenPrefix_of_drop st.len hd
  have hrest := Bytes.drop_add_of_drop_eq_append hd
  have hvalue : Leb128.value (data.drop p) % 2 ^ 64 = st.payload.length :=
    hcount.trans st.length_payload.symm
  rw [hvalue, hspan] at hstr hmore
  rw [Legible, fromUtf8_of_getStr (by omega) hstr hrest]
  rfl

theorem BindProtocol.framed {msg : BindProtocol} (hlen : data.length ≤ isizeMax)
    (h : BindProtocol.fromBytes .checked data offset = .ok msg) : Framed msg.data := by
  have hcap : data.length ≤ 2 ^ 63 - 1 := hlen
  simp only [BindProtocol.fromBytes, Outcome.bind_eq_ok, uadd_checked_eq_ok] at h
  obtain ⟨_, h0, _, ⟨-, rfl⟩, _, h1, _, ⟨-, rfl⟩, seq, hseq, _, ⟨hfit, rfl⟩, _, h6, _, ⟨-, rfl⟩,
    ⟨len, k⟩, hparse, _, ⟨-, rfl⟩, protocol, hstr, _, ⟨-, rfl⟩, _, hversion, _, ⟨-, rfl⟩, version,
    hread, h⟩ := h
  split at h
  · cases h
  simp only [Outcome.bind_eq_ok, uadd_checked_eq_ok] at h
  obtain ⟨_, ⟨hfit', rfl⟩, _, hend, _, ⟨-, rfl⟩, _, ⟨-, rfl⟩, stop, hstop, bytes, hslice, h⟩ := h
  cases h
  have hmore := lt_length_of_getElem? (expectByte_eq_ok.mp hversion)
  obtain ⟨st, hlegible, hsize, hst⟩ := exists_legible hlen hparse hstr hmore
  rw [usub_eq (Nat.le_add_right _ _)] at hstop
  cases hstop
  obtain ⟨-, -, rfl⟩ := slice_eq_ok.mp hslice
  have hd : data.drop offset = MessageType.bindProtocol.toU8 ::
      (encodeAll [Field.scalar .uint seq, .varchar st, .scalar .uint version] ++
        MessageMagic.end_.toU8 :: data.drop (offset + 1 + 1 + 4 + 1 + k + len + 1 + 4 + 1)) := by
    rw [drop_of_expectByte h0, drop_of_expectByte h1, drop_of_readU32 (by omega) hseq,
      drop_of_expectByte h6, hst, drop_of_expectByte hversion, drop_of_readU32 (by omega) hread,
      drop_of_expectByte hend]
    simp [encodeAll, Field.encode, Scalar.magic]
  refine framed_of_drop (by simp [Field.Shown]) hd ?_
  simp only [encodeAll, List.flatMap_cons, List.flatMap_nil, Field.encode, List.length_append,
    List.length_cons, List.length_nil, Bytes.length_toLeBytes, hsize]
  omega

theorem FatalProtocolError.framed {msg : FatalProtocolError} (hlen : data.length ≤ isizeMax)
    (h : FatalProtocolError.fromBytes .checked data offset = .ok msg) : Framed msg.data := by
  have hcap : data.length ≤ 2 ^ 63 - 1 := hlen
  simp only [FatalProtocolError.fromBytes, Outcome.bind_eq_ok, uadd_checked_eq_ok] at h
  obtain ⟨_, h0, _, ⟨-, rfl⟩, _, h1, _, ⟨-, rfl⟩, objectId, hobject, _, ⟨-, rfl⟩, _, h6, _, ⟨-, rfl⟩,
    errorId, herror, _, ⟨-, rfl⟩, _, h11, _, ⟨hfit, rfl⟩, ⟨len, k⟩, hparse, _, ⟨-, rfl⟩, _,
    ⟨-, rfl⟩, errorMsg, hstr, _, ⟨-, rfl⟩, _, ⟨-, rfl⟩, _, hend, _, ⟨-, rfl⟩, _, ⟨-, rfl⟩, bytes,
    hslice, h⟩ := h
  cases h
  have hpos : offset + (12 + k + len) = offset + 12 + k + len := by omega
  rw [← Nat.add_assoc] at hstr
  rw [hpos] at hend
  have hmore := lt_length_of_getElem? (expectByte_eq_ok.mp hend)
  obtain ⟨st, hlegible, hsize, hst⟩ := exists_legible hlen hparse hstr hmore
  obtain ⟨-, -, rfl⟩ := slice_eq_ok.mp hslice
  have hd : data.drop offset = MessageType.fatalProtocolError.toU8 ::
      (encodeAll [Field.scalar .uint objectId, .scalar .uint errorId, .varchar st] ++
        MessageMagic.end_.toU8 :: data.drop (offset + 12 + k + len + 1)) := by
    rw [drop_of_expectByte h0, drop_of_expectByte h1, drop_of_readU32 (by omega) hobject,
      drop_of_expectByte h6, drop_of_readU32 (by omega) herror, drop_of_expectByte h11, hst,
      drop_of_expectByte hend]
    simp [encodeAll, Field.encode, Scalar.magic]
  refine framed_of_drop (by simp [Field.Shown]) hd ?_
  simp only [encodeAll, List.flatMap_cons, List.flatMap_nil, Field.encode, List.length_append,
    List.length_cons, List.length_nil, Bytes.length_toLeBytes, hsize]
  omega

/-- A length prefix that was read, with something behind it. -/
theorem exists_prefix {len k : Nat} (hparse : parseVarInt .checked data p = .ok (len, k))
    (hmore : p + k < data.length) :
    ∃ n : LenPrefix .checked, n.count = len ∧ n.bytes.length = k ∧
      data.drop p = n.bytes ++ data.drop (p + k) := by
  have hshort : ¬ HostileLen data p := by
    intro hbad
    rw [parseVarInt_checked_panic hbad] at hparse
    cases hparse
  rw [parseVarInt_eq (Nat.le_of_not_lt hshort)] at hparse
  cases hparse
  obtain ⟨n, hcount, hsize, hd⟩ := @exists_lenPrefix .checked (data.drop p)
    (Nat.le_of_not_lt hshort) (by rw [List.length_drop]; omega)
  rw [List.drop_drop] at hd
  exact ⟨n, hcount, hsize, hd⟩

/-- The words of an array that was read. -/
theorem drop_of_readVersions {needle : Nat} : ∀ (n i : Nat) (versions : List UInt32),
    readVersions .checked data needle n i = .ok versions → versions.length = n ∧
      data.drop (needle + i * 4) = versions.flatMap Bytes.toLeBytes ++ data.drop (needle + (i + n) * 4)
  | 0, i, versions, h => by
    cases h
    exact ⟨rfl, rfl⟩
  | n + 1, i, versions, h => by
    simp only [readVersions, Outcome.bind_eq_ok, uadd_checked_eq_ok, umul_checked_eq_ok] at h
    obtain ⟨_, ⟨-, rfl⟩, _, ⟨-, rfl⟩, version, hread, versions, hrest, h⟩ := h
    cases h
    have hfit : needle + i * 4 + 4 < 2 ^ 64 := by
      simp only [readU32, Outcome.bind_eq_ok, uadd_checked_eq_ok] at hread
      obtain ⟨_, ⟨hfit, -⟩, -⟩ := hread
      exact hfit
    obtain ⟨hcount, hd⟩ := drop_of_readVersions n (i + 1) versions hrest
    refine ⟨by rw [List.length_cons, hcount], ?_⟩
    rw [drop_of_readU32 hfit hread, List.flatMap_cons, List.append_assoc]
    rw [show needle + i * 4 + 4 = needle + (i + 1) * 4 by omega, hd,
      show i + 1 + n = i + (n + 1) by omega]

theorem HandshakeBegin.framed {msg : HandshakeBegin} (hlen : data.length ≤ isizeMax)
    (h : HandshakeBegin.fromBytes .checked data offset = .ok msg) : Framed msg.data := by
  have hcap : data.length ≤ 2 ^ 63 - 1 := hlen
  simp only [HandshakeBegin.fromBytes, Outcome.bind_eq_ok, uadd_checked_eq_ok] at h
  obtain ⟨_, h0, _, ⟨-, rfl⟩, _, h1, _, ⟨-, rfl⟩, _, h2, _, ⟨-, rfl⟩, ⟨n, k⟩, hparse, _, ⟨hfit, rfl⟩,
    h⟩ := h
  split at h
  · cases h
  next hfew =>
  simp only [Outcome.bind_eq_ok, uadd_checked_eq_ok, umul_checked_eq_ok] at h
  obtain ⟨versions, hversions, _, ⟨-, rfl⟩, _, ⟨-, rfl⟩, _, hend, _, ⟨-, rfl⟩, messageLen, hmessage,
    _, ⟨-, rfl⟩, bytes, hslice, h⟩ := h
  cases h
  have hmore := lt_length_of_getElem? (expectByte_eq_ok.mp hend)
  obtain ⟨lenBytes, hcount, hsize, hprefix⟩ := exists_prefix hparse (by omega)
  obtain ⟨hlength, hwords⟩ := drop_of_readVersions n 0 versions hversions
  rw [Nat.zero_mul, Nat.add_zero, Nat.zero_add] at hwords
  rw [usub_eq (by omega)] at hmessage
  cases hmessage
  obtain ⟨-, -, rfl⟩ := slice_eq_ok.mp hslice
  let field : Field .checked :=
    .scalars .uint lenBytes versions (hlength.trans hcount.symm) (by omega)
  have hd : data.drop offset = MessageType.handshakeBegin.toU8 ::
      (encodeAll [field] ++
        MessageMagic.end_.toU8 :: data.drop (offset + 1 + 1 + 1 + k + n * 4 + 1)) := by
    rw [drop_of_expectByte h0, drop_of_expectByte h1, drop_of_expectByte h2, hprefix, hwords,
      drop_of_expectByte hend]
    simp [encodeAll, field, Field.encode, Scalar.magic]
  refine framed_of_drop (by simp [field, Field.Shown]) hd ?_
  simp only [encodeAll, field, List.flatMap_cons, List.flatMap_nil, Field.encode, List.length_append,
    List.length_cons, List.length_nil, length_flatMap_toLeBytes, hsize, hlength]
  omega

/-- The strings of an array that was read. -/
theorem drop_of_readProtocols (hlen : data.length ≤ isizeMax) : ∀ (n needle : Nat)
    (protocols : List String) (needle' : Nat),
    readProtocols .checked data offset n needle = .ok (protocols, needle') →
      offset + needle' < data.length →
      ∃ ss : List (Str .checked), ss.length = n ∧ (∀ s ∈ ss, Legible s) ∧
        needle' = needle + (ss.flatMap Str.encode).length ∧
        data.drop (offset + needle) = ss.flatMap Str.encode ++ data.drop (offset + needle')
  | 0, needle, protocols, needle', h, _ => by
    cases h
    exact ⟨[], rfl, nofun, rfl, rfl⟩
  | n + 1, needle, protocols, needle', h, hmore => by
    simp only [readProtocols, Outcome.bind_eq_ok, uadd_checked_eq_ok] at h
    obtain ⟨_, ⟨-, rfl⟩, byte, -, ⟨len, k⟩, hparse, _, ⟨-, rfl⟩, _, ⟨-, rfl⟩, protocol, hstr, _,
      ⟨-, rfl⟩, ⟨protocols', needle''⟩, hrest, h⟩ := h
    cases h
    obtain ⟨ss, hcount, hall, hneedle, hd⟩ :=
      drop_of_readProtocols hlen n _ protocols' _ hrest hmore
    rw [← Nat.add_assoc] at hstr
    obtain ⟨st, hlegible, hsize, hst⟩ := exists_legible hlen hparse hstr (by omega)
    refine ⟨st :: ss, by rw [List.length_cons, hcount], ?_, ?_, ?_⟩
    · rw [List.forall_mem_cons]
      exact ⟨hlegible, hall⟩
    · rw [List.flatMap_cons, List.length_append]
      omega
    · rw [hst, List.flatMap_cons, List.append_assoc, ← hd]
      congr 2
      omega

theorem HandshakeProtocols.framed {msg : HandshakeProtocols} (hlen : data.length ≤ isizeMax)
    (h : HandshakeProtocols.fromBytes .checked data offset = .ok msg) : Framed msg.data := by
  have hcap : data.length ≤ 2 ^ 63 - 1 := hlen
  simp only [HandshakeProtocols.fromBytes, Outcome.bind_eq_ok, uadd_checked_eq_ok] at h
  obtain ⟨_, h0, _, ⟨-, rfl⟩, _, h1, _, ⟨-, rfl⟩, _, h2, _, ⟨-, rfl⟩, ⟨els, k⟩, hparse, _, ⟨hfit, rfl⟩,
    h⟩ := h
  split at h
  · cases h
  next hfew =>
  simp only [Outcome.bind_eq_ok, uadd_checked_eq_ok] at h
  obtain ⟨_, -, ⟨protocols, needle⟩, hread, _, ⟨-, rfl⟩, _, hend, _, ⟨-, rfl⟩, _, ⟨-, rfl⟩, bytes,
    hslice, h⟩ := h
  cases h
  have hmore := lt_length_of_getElem? (expectByte_eq_ok.mp hend)
  obtain ⟨ss, hcount, hall, hneedle, hstrings⟩ :=
    drop_of_readProtocols hlen els _ protocols needle hread hmore
  obtain ⟨lenBytes, hels, hsize, hprefix⟩ := exists_prefix hparse (by omega)
  obtain ⟨-, -, rfl⟩ := slice_eq_ok.mp hslice
  rw [← Nat.add_assoc] at hstrings
  let field : Field .checked := .strings lenBytes ss (hcount.trans hels.symm) (by omega)
  have hd : data.drop offset = MessageType.handshakeProtocols.toU8 ::
      (encodeAll [field] ++ MessageMagic.end_.toU8 :: data.drop (offset + needle + 1)) := by
    rw [drop_of_expectByte h0, drop_of_expectByte h1, drop_of_expectByte h2, hprefix, hstrings,
      drop_of_expectByte hend]
    simp [encodeAll, field, Field.encode]
  refine framed_of_drop ?_ hd ?_
  · rw [List.forall_mem_singleton]
    exact hall
  · simp only [encodeAll, field, List.flatMap_cons, List.flatMap_nil, Field.encode,
      List.length_append, List.length_cons, List.length_nil, hsize]
    omega

/-! ## Constructors -/

theorem roundtripData_framed (type : MessageType) (seq : UInt32) :
    Framed (roundtripData type seq) :=
  ⟨[.scalar .uint seq], by simp [Field.Shown], by
    simp [roundtripData, encodeAll, Field.encode, Scalar.magic]⟩

theorem HandshakeAck.new_framed (version : UInt32) : Framed (HandshakeAck.new version).data :=
  ⟨[.scalar .uint version], by simp [Field.Shown], by
    simp [HandshakeAck.new, encodeAll, Field.encode, Scalar.magic]⟩

theorem NewObject.new_framed (seq id : UInt32) : Framed (NewObject.new seq id).data :=
  ⟨[.scalar .uint id, .scalar .uint seq], by simp [Field.Shown], by
    simp [NewObject.new, encodeAll, Field.encode, Scalar.magic]⟩

theorem BindProtocol.new_framed {protocol : String} {seq version : UInt32}
    (h : (BindProtocol.new protocol seq version).data.length ≤ isizeMax) :
    Framed (BindProtocol.new protocol seq version).data := by
  have hcap : _ ≤ 2 ^ 63 - 1 := h
  simp only [BindProtocol.new, encodeStr, List.length_append, List.length_cons] at hcap
  refine ⟨[.scalar .uint seq, .varchar (strOf .checked protocol (by omega)), .scalar .uint version],
    by simp [Field.Shown], ?_⟩
  simp [BindProtocol.new, encodeAll, Field.encode, Scalar.magic, strOf_encode, marshalStr, encodeStr]

theorem FatalProtocolError.new_framed {objectId errorId : UInt32} {errorMsg : String}
    (h : (FatalProtocolError.new objectId errorId errorMsg).data.length ≤ isizeMax) :
    Framed (FatalProtocolError.new objectId errorId errorMsg).data := by
  have hcap : _ ≤ 2 ^ 63 - 1 := h
  simp only [FatalProtocolError.new, encodeStr, List.length_append, List.length_cons] at hcap
  refine ⟨[.scalar .uint objectId, .scalar .uint errorId,
    .varchar (strOf .checked errorMsg (by omega))], by simp [Field.Shown], ?_⟩
  simp [FatalProtocolError.new, encodeAll, Field.encode, Scalar.magic, strOf_encode, marshalStr,
    encodeStr]

/-- However many versions there are. -/
theorem HandshakeBegin.not_derails_new {versions : List UInt32}
    (h : (HandshakeBegin.new versions).data.length ≤ isizeMax) :
    ¬ Derails (HandshakeBegin.new versions).data 1 := by
  have hcap : (HandshakeBegin.new versions).data.length ≤ 2 ^ 63 - 1 := h
  have hsize : (HandshakeBegin.new versions).data.length
      = 3 + (varInt versions.length).length + 4 * versions.length + 1 := by
    simp only [HandshakeBegin.new, List.length_cons, List.length_append, length_flatMap_toLeBytes,
      List.length_nil]
    omega
  let n := LenPrefix.ofNat .checked versions.length (by omega)
  have hn : n.bytes = varInt versions.length := lenPrefix_varInt .checked (by omega)
  have hd : (HandshakeBegin.new versions).data.drop 1 = MessageMagic.typeArray.toU8 ::
      Scalar.uint.magic.toU8 :: (n.bytes ++
        (versions.flatMap Bytes.toLeBytes ++ [MessageMagic.end_.toU8])) := by
    rw [hn]
    rfl
  have hwords := Bytes.drop_add_of_drop_eq_append
    (Bytes.drop_succ_of_drop_eq_cons (Bytes.drop_succ_of_drop_eq_cons hd))
  have hpass := passes_array n hd (not_elementsTrip (by decide) _ _)
  have hcount : n.count = versions.length := rfl
  rw [hcount, elementsEnd_words (by decide) versions _ hwords (by rw [hn]; omega)] at hpass
  have hend := Bytes.drop_add_of_drop_eq_append hwords
  rw [length_flatMap_toLeBytes] at hend
  rw [hpass.derails_iff, (passes_end hend).derails_iff]
  exact not_derails_end (by rw [hn]; omega)

/-- Strings that were written, as strings of the grammar. -/
theorem exists_written : ∀ protocols : List String, (protocols.flatMap encodeStr).length < 2 ^ 64 →
    ∃ ss : List (Str .checked), ss.length = protocols.length ∧ (∀ s ∈ ss, Legible s) ∧
      ss.flatMap Str.encode = protocols.flatMap encodeStr ∧
      ss.length ≤ (ss.flatMap Str.encode).length
  | [], _ => ⟨[], rfl, nofun, rfl, Nat.le_refl _⟩
  | protocol :: protocols, h => by
    simp only [List.flatMap_cons, List.length_append, encodeStr] at h
    obtain ⟨ss, hcount, hall, henc, hle⟩ := exists_written protocols (by omega)
    let st := strOf .checked protocol (by omega)
    have hlegible : Legible st := by
      show (Utf8.fromUtf8 (Utf8.asBytes protocol)).isSome
      rw [Utf8.fromUtf8_asBytes]
      rfl
    have hpos : 0 < st.encode.length := by
      rw [Str.encode, List.length_append]
      have hne := List.length_pos_iff.mpr st.len.terminated.ne_nil
      omega
    refine ⟨st :: ss, by rw [List.length_cons, hcount, List.length_cons], ?_, ?_, ?_⟩
    · rw [List.forall_mem_cons]
      exact ⟨hlegible, hall⟩
    · rw [List.flatMap_cons, List.flatMap_cons, henc, strOf_encode]
      rfl
    · rw [List.flatMap_cons, List.length_append, List.length_cons]
      omega

/-- However many protocols there are. -/
theorem HandshakeProtocols.not_derails_new {protocols : List String}
    (h : (HandshakeProtocols.new protocols).data.length ≤ isizeMax) :
    ¬ Derails (HandshakeProtocols.new protocols).data 1 := by
  have hcap : (HandshakeProtocols.new protocols).data.length ≤ 2 ^ 63 - 1 := h
  have hsize : (HandshakeProtocols.new protocols).data.length
      = 3 + (varInt protocols.length).length + (protocols.flatMap encodeStr).length + 1 := by
    simp only [HandshakeProtocols.new, List.length_cons, List.length_append, List.length_nil]
    omega
  obtain ⟨ss, hlength, hall, henc, hle⟩ := exists_written protocols (by omega)
  rw [← henc] at hsize
  let n := LenPrefix.ofNat .checked protocols.length (by omega)
  have hn : n.bytes = varInt protocols.length := lenPrefix_varInt .checked (by omega)
  have hd : (HandshakeProtocols.new protocols).data.drop 1 = MessageMagic.typeArray.toU8 ::
      MessageMagic.typeVarchar.toU8 :: (n.bytes ++
        (ss.flatMap Str.encode ++ [MessageMagic.end_.toU8])) := by
    rw [hn, henc]
    rfl
  have hstrings := Bytes.drop_add_of_drop_eq_append
    (Bytes.drop_succ_of_drop_eq_cons (Bytes.drop_succ_of_drop_eq_cons hd))
  obtain ⟨hsafe, hend, -⟩ := elements_strings h ss _ hstrings (by rw [hn]; omega)
  have hcount : ss.length = n.count := hlength
  rw [hcount] at hsafe hend
  have hpass := passes_array n hd hsafe
  rw [hend hall] at hpass
  rw [hpass.derails_iff, (passes_end (Bytes.drop_add_of_drop_eq_append hstrings)).derails_iff]
  exact not_derails_end (by rw [hn]; omega)

/-! ## All messages -/

/-- **Where messages come from**: a decoder has returned it, a constructor has made it, or a call
has. -/
inductive Arises : Decoded → Prop
  | decoded (msg : Decoded) (type : MessageType) (data : List UInt8) (fds left : List RawFd)
      (offset : Nat) (hlen : data.length ≤ isizeMax)
      (h : decode .checked type data fds offset = .ok (msg, left)) : Arises msg
  | hello : Arises (.sup Hello.new)
  | handshakeBegin (versions : List UInt32) : Arises (.handshakeBegin (HandshakeBegin.new versions))
  | handshakeAck (version : UInt32) : Arises (.handshakeAck (HandshakeAck.new version))
  | handshakeProtocols (protocols : List String) :
      Arises (.handshakeProtocols (HandshakeProtocols.new protocols))
  | bindProtocol (protocol : String) (seq version : UInt32) :
      Arises (.bindProtocol (BindProtocol.new protocol seq version))
  | newObject (seq id : UInt32) : Arises (.newObject (NewObject.new seq id))
  | fatalProtocolError (objectId errorId : UInt32) (errorMsg : String) :
      Arises (.fatalProtocolError (FatalProtocolError.new objectId errorId errorMsg))
  | roundtripRequest (seq : UInt32) : Arises (.roundtripRequest (RoundtripRequest.new seq))
  | roundtripDone (seq : UInt32) : Arises (.roundtripDone (RoundtripDone.new seq))
  | generic (data : List UInt8) (fds : List RawFd) :
      Arises (.generic (GenericProtocolMessage.new data fds))
  | called (self : Receiver) (id : UInt32) (args : List CallArg) (called : Called)
      (h : call self id args = .ok called) : Arises (.generic called.msg)

/-- **Tracing the message is harmless**: `parse_data` returns, and when the bytes are a word that
`from_bytes` accepts, its needle goes through the two fields of the header and then through the
places where `from_bytes` found a field, and through no others. -/
structure Traced (showF32 : UInt32 → String) (msg : Decoded) : Prop where
  returns : (parseData .checked showF32 msg.messageType msg.data).Returns
  walks : ∀ visits, msg.messageType = .genericProtocolMessage → Accepted msg.data visits →
    ∃ t, Trace.run .checked showF32 msg.data msg.messageType = .ok t ∧ t.visited = 1 :: 6 :: visits

/-- **The condition** on a generic message: if its bytes are a word, the fields can be shown. If they
are none, the needle comes to no string or array that trips. -/
def Traceable : Decoded → Prop
  | .generic msg =>
    (∀ (object method : UInt32) (fs : List (Field .checked)), msg.data = word object method fs →
      slotsAll fs ≤ isizeMax → ∀ f ∈ fs, f.Shown) ∧
    ((¬ ∃ visits, Accepted msg.data visits) → ¬ Derails msg.data 1)
  | _ => True

theorem returns_parseData {type : MessageType} (hlen : data.length ≤ isizeMax) :
    (parseData .checked showF32 type data).Returns ↔ ¬ Derails data 1 := by
  rw [parseData, Outcome.returns_bind]
  rcases run_cases showF32 hlen type with ⟨hderails, hpanics⟩ | ⟨hsafe, t, hok, -⟩
  · exact iff_of_false (fun h => hpanics h.1) (fun h => h hderails)
  · refine iff_of_true ⟨?_, fun _ _ => trivial⟩ hsafe
    rw [hok]
    trivial

/-- Over a word the needle goes where `from_bytes` went exactly if the fields can be shown. -/
theorem positions_word {object method : UInt32} {fs : List (Field .checked)}
    (hlen : (word object method fs).length ≤ isizeMax) :
    positions (word object method fs) ((word object method fs).length + 1) 1
      = 1 :: 6 :: fieldStarts 11 fs ↔ ∀ f ∈ fs, f.Shown := by
  have hsize := length_word object method fs
  have hfields := length_le_length_encodeAll fs
  have hwalk := (positions_fields hlen (.scalar .object object :: .scalar .uint method :: fs)
    ((word object method fs).length + 1) 1 (by simp only [List.length_cons]; omega)
    (word_drop_one object method fs)).2
  rw [← fieldStarts_header object method fs, hwalk, List.forall_mem_cons, List.forall_mem_cons]
  exact ⟨fun h => h.2.2, fun h => ⟨trivial, trivial, h⟩⟩

/-- Fields that can be shown do not trip. -/
theorem not_derails_word {object method : UInt32} {fs : List (Field .checked)}
    (hlen : (word object method fs).length ≤ isizeMax) (hshown : ∀ f ∈ fs, f.Shown) :
    ¬ Derails (word object method fs) 1 := by
  refine (positions_fields hlen (.scalar .object object :: .scalar .uint method :: fs) _ 1
    (Nat.lt_succ_self _) (word_drop_one object method fs)).1 ?_
  rw [List.forall_mem_cons, List.forall_mem_cons]
  exact ⟨trivial, trivial, hshown⟩

theorem traced_generic_iff {msg : GenericProtocolMessage} (hlen : msg.data.length ≤ isizeMax) :
    Traced showF32 (.generic msg) ↔ Traceable (.generic msg) := by
  constructor
  · intro h
    have hsafe := (returns_parseData hlen).mp h.returns
    refine ⟨?_, fun _ => hsafe⟩
    intro object method fs hword hslots
    obtain ⟨t, hok, hvisited⟩ := h.walks _ rfl
      (accepted_iff.mpr ⟨object, method, fs, hword, hlen, hslots, rfl⟩)
    rcases run_cases showF32 hlen .genericProtocolMessage with
      ⟨hderails, -⟩ | ⟨-, t', hok', hvisited'⟩
    · exact absurd hderails hsafe
    · have hsame : t = t' := by
        have heq := hok.symm.trans hok'
        cases heq
        rfl
      rw [← hsame] at hvisited'
      have hpositions := hvisited'.symm.trans hvisited
      rw [hword] at hpositions hlen
      exact (positions_word hlen).mp hpositions
  · intro ⟨hshown, hother⟩
    have hsafe : ¬ Derails msg.data 1 := by
      by_cases hword : ∃ visits, Accepted msg.data visits
      · obtain ⟨visits, hacc⟩ := hword
        obtain ⟨object, method, fs, hword, -, hslots, -⟩ := accepted_iff.mp hacc
        have hall := hshown object method fs hword hslots
        rw [hword] at hlen ⊢
        exact not_derails_word hlen hall
      · exact hother hword
    refine ⟨(returns_parseData hlen).mpr hsafe, ?_⟩
    intro visits _ hacc
    obtain ⟨object, method, fs, hword, -, hslots, rfl⟩ := accepted_iff.mp hacc
    rcases run_cases showF32 hlen .genericProtocolMessage with
      ⟨hderails, -⟩ | ⟨-, t, hok, hvisited⟩
    · exact absurd hderails hsafe
    · refine ⟨t, hok, hvisited.trans ?_⟩
      have hall := hshown object method fs hword hslots
      have hword' : msg.data = word object method fs := hword
      rw [hword'] at hlen ⊢
      exact (positions_word hlen).mpr hall

theorem traced_control {msg : Decoded} (hlen : msg.data.length ≤ isizeMax)
    (hsafe : ¬ Derails msg.data 1) (hcontrol : msg.messageType ≠ .genericProtocolMessage) :
    Traced showF32 msg :=
  ⟨(returns_parseData hlen).mpr hsafe, fun _ h => absurd h hcontrol⟩

/-- A message that a decoder has returned and that is not a generic one. -/
theorem not_derails_decoded {type : MessageType} {fds left : List RawFd} {msg : Decoded}
    (hlen : data.length ≤ isizeMax) (hmsg : msg.data.length ≤ isizeMax)
    (h : decode .checked type data fds offset = .ok (msg, left))
    (hcontrol : msg.messageType ≠ .genericProtocolMessage) : ¬ Derails msg.data 1 := by
  suffices Framed msg.data from this.not_derails hmsg
  cases type <;> simp only [decode, Outcome.bind_eq_ok] at h <;> obtain ⟨decoded, hdec, h⟩ := h <;>
    cases h
  case sup => exact Hello.framed hdec
  case handshakeBegin => exact HandshakeBegin.framed hlen hdec
  case handshakeAck => exact HandshakeAck.framed hdec
  case handshakeProtocols => exact HandshakeProtocols.framed hlen hdec
  case bindProtocol => exact BindProtocol.framed hlen hdec
  case newObject => exact NewObject.framed hdec
  case fatalProtocolError => exact FatalProtocolError.framed hlen hdec
  case genericProtocolMessage => exact absurd rfl hcontrol
  all_goals
    simp only [RoundtripRequest.fromBytes, RoundtripDone.fromBytes, Outcome.bind_eq_ok] at hdec
    obtain ⟨⟨seq, bytes⟩, hread, hmk⟩ := hdec
    cases hmk
    exact roundtrip_framed hread

/-- Only a generic message can trip. -/
theorem Arises.not_derails {msg : Decoded} (h : Arises msg) (hlen : msg.data.length ≤ isizeMax)
    (hcontrol : msg.messageType ≠ .genericProtocolMessage) : ¬ Derails msg.data 1 := by
  cases h with
  | decoded _ type data fds left offset hdata hdec =>
    exact not_derails_decoded hdata hlen hdec hcontrol
  | hello => exact Hello.new_framed.not_derails hlen
  | handshakeBegin versions => exact HandshakeBegin.not_derails_new hlen
  | handshakeAck version => exact (HandshakeAck.new_framed version).not_derails hlen
  | handshakeProtocols protocols => exact HandshakeProtocols.not_derails_new hlen
  | bindProtocol protocol seq version => exact (BindProtocol.new_framed hlen).not_derails hlen
  | newObject seq id => exact (NewObject.new_framed seq id).not_derails hlen
  | fatalProtocolError objectId errorId errorMsg =>
    exact (FatalProtocolError.new_framed hlen).not_derails hlen
  | roundtripRequest seq => exact (roundtripData_framed .roundtripRequest seq).not_derails hlen
  | roundtripDone seq => exact (roundtripData_framed .roundtripDone seq).not_derails hlen
  | generic data fds => exact absurd rfl hcontrol
  | called self id args called h => exact absurd rfl hcontrol

/-- **Tracing a message is harmless exactly if it is a control message, or a generic one that has no
array of seqs and no string in an array that is not UTF-8.** Bytes that are no word, which only the
constructor and a call with arguments of the wrong types can give, must not lead the needle to a
string or an array that trips. -/
theorem tracing_iff (showF32 : UInt32 → String) {msg : Decoded} (h : Arises msg)
    (hlen : msg.data.length ≤ isizeMax) : Traced showF32 msg ↔ Traceable msg := by
  by_cases hkind : msg.messageType = .genericProtocolMessage
  · cases msg with
    | generic msg => exact traced_generic_iff hlen
    | _ => cases hkind
  · have htraced : Traced showF32 msg := traced_control hlen (h.not_derails hlen hkind) hkind
    refine iff_of_true htraced ?_
    cases msg with
    | generic msg => exact absurd rfl hkind
    | _ => trivial

/-- A word needs to be taken apart in one way only. -/
theorem traceable_word {object method : UInt32} {fs : List (Field .checked)} (fds : List RawFd)
    (hlen : (word object method fs).length ≤ isizeMax) (hslots : slotsAll fs ≤ isizeMax)
    (hshown : ∀ f ∈ fs, f.Shown) :
    Traceable (.generic (GenericProtocolMessage.new (word object method fs) fds)) := by
  refine ⟨?_, fun hother => absurd ⟨_, accepted_iff.mpr ⟨object, method, fs, rfl, hlen, hslots, rfl⟩⟩
    hother⟩
  intro object' method' fs' hword hslots'
  have heq : word object method fs = word object' method' fs' := hword
  have hstarts := fieldStarts_of_word_eq hlen hslots hslots' heq
  have hwalk := (positions_word hlen).mpr hshown
  rw [hstarts, heq] at hwalk
  rw [heq] at hlen
  exact (positions_word hlen).mp hwalk

/-- A message with one unsigned integer. -/
theorem tracing_iff_uint : ∃ msg : Decoded,
    msg.data = word 1 0 [Field.scalar (m := .checked) .uint 7] ∧ Arises msg ∧
      msg.data.length ≤ isizeMax ∧ Traced (fun _ => "") msg :=
  have hlen : (word 1 0 [Field.scalar (m := .checked) .uint 7]).length ≤ isizeMax := by decide
  have hshown : ∀ f ∈ [Field.scalar (m := .checked) .uint 7], f.Shown := by simp [Field.Shown]
  ⟨.generic (GenericProtocolMessage.new (word 1 0 [Field.scalar (m := .checked) .uint 7]) []), rfl,
    .generic _ _, hlen,
    (tracing_iff (fun _ => "") (.generic _ _) hlen).mpr
      (traceable_word [] hlen (by decide) hshown)⟩

/-- An array of one seq, the bytes of which read like a string of 127 bytes. -/
theorem not_always_traced : ¬ ∀ (showF32 : UInt32 → String) (msg : Decoded), Arises msg →
    Traced showF32 msg := by
  intro h
  let data : List UInt8 :=
    [100, 0x22, 1, 0, 0, 0, 0x10, 0, 0, 0, 0, 0x21, 0x13, 0x01, 0x20, 0x7f, 0, 0, 0]
  have hdecoded : decode .checked .genericProtocolMessage data [] 0
      = .ok (.generic ⟨0, 1, 0, [], data, (11, 19)⟩, []) := rfl
  have hreturns := (h (fun _ => "") _ (.decoded _ _ data [] [] 0 (by decide) hdecoded)).returns
  have hpanics : parseData .checked (fun _ => "") .genericProtocolMessage data
      = .panic .sliceOutOfRange := rfl
  have hfalse : (parseData .checked (fun _ => "") .genericProtocolMessage data).Returns := hreturns
  rw [hpanics] at hfalse
  exact hfalse

end Hyprwire
