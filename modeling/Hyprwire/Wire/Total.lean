import Hyprwire.Core.Accept
import Hyprwire.Wire.Batch

/-!
# `Wire/Total.lean` — which inputs a decoder does not survive

In a checked build a decoder panics where an addition or a shift overflows. `Hostile` names
the inputs on which one does, for each of the ten: a length prefix of more than ten bytes
where the decoder reads one, or a string that would end at an address of 2^64 or more. Every
other input is answered with `Ok` or `Err` (`decode_returns_iff`).

Five of the ten read no length at all and survive everything.
-/

namespace Hyprwire

open Rust

variable {α : Type} {data : List UInt8} {fds : List RawFd} {offset p : Nat}

/-! ## Returning, one operation at a time -/

theorem returns_expectByte_bind {tag : UInt8} {e : Error} {f : Unit → Outcome Error α} :
    (expectByte data p tag e >>= f).Returns ↔ (data[p]? = some tag → (f ()).Returns) := by
  rw [Outcome.returns_bind]
  constructor
  · rintro ⟨-, h⟩ hp
    exact h () (expectByte_eq_ok.mpr hp)
  · intro h
    exact ⟨returns_expectByte _ _ _ _, fun _ ha => h (expectByte_eq_ok.mp ha)⟩

theorem returns_readU32_bind {f : UInt32 → Outcome Error α} :
    (readU32 .checked data p >>= f).Returns
      ↔ p + 4 < 2 ^ 64 ∧ ∀ w, readU32 .checked data p = .ok w → (f w).Returns := by
  rw [Outcome.returns_bind]
  refine and_congr_left fun _ => ⟨fun h => ?_, returns_readU32⟩
  exact (returns_uadd_bind.mp h).1

theorem returns_getStr_bind {len : Nat} {f : String → Outcome Error α} :
    (getStr .checked data p len >>= f).Returns
      ↔ p + len < 2 ^ 64 ∧ ∀ s, getStr .checked data p len = .ok s → (f s).Returns := by
  rw [Outcome.returns_bind, getStr, returns_uadd_bind, Outcome.returns_bind]
  constructor
  · rintro ⟨⟨h, -⟩, hf⟩
    exact ⟨h, hf⟩
  · rintro ⟨h, hf⟩
    exact ⟨⟨h, returns_getBytes _ _ _, fun _ _ => Outcome.returns_okOr _ _⟩, hf⟩

theorem returns_getArray_bind {n : Nat} {f : List UInt8 → Outcome Error α} :
    (getArray .checked data offset n >>= f).Returns
      ↔ offset + n < 2 ^ 64 ∧ ∀ bytes, getArray .checked data offset n = .ok bytes →
        (f bytes).Returns := by
  rw [Outcome.returns_bind]
  refine and_congr_left fun _ => ⟨fun h => (returns_uadd_bind.mp h).1, fun h => ?_⟩
  exact returns_uadd_bind.mpr ⟨h, returns_getBytes _ _ _⟩

theorem returns_slice_bind {start stop : Nat} {f : List UInt8 → Outcome Error α} :
    ((slice data start stop : Outcome Error (List UInt8)) >>= f).Returns
      ↔ (start ≤ stop ∧ stop ≤ data.length) ∧
        ∀ bytes, (slice data start stop : Outcome Error (List UInt8)) = .ok bytes →
          (f bytes).Returns := by
  rw [Outcome.returns_bind, returns_slice]

/-- A word is read wherever four bytes are. -/
theorem exists_readU32 {m : Overflow} (h : p + 4 ≤ data.length) (hlen : data.length ≤ isizeMax) :
    ∃ w, readU32 m data p = .ok w := by
  simp only [isizeMax] at hlen
  obtain ⟨ws, hws, hsplit⟩ := @exists_words 1 (data.drop p) (by rw [List.length_drop]; omega)
  obtain ⟨w, rfl⟩ := List.length_eq_one_iff.mp hws
  rw [List.flatMap_cons, List.flatMap_nil, List.append_nil] at hsplit
  exact ⟨w, readU32_of_drop hsplit (by omega)⟩

/-- A string that was read lies inside the buffer. -/
theorem le_length_of_getStr {len : Nat} {s : String} (hfit : p + len < 2 ^ 64)
    (h : getStr .checked data p len = .ok s) : p + len ≤ data.length := by
  simp only [getStr] at h
  rw [uadd_eq hfit, Outcome.ok_bind, Outcome.bind_eq_ok] at h
  obtain ⟨bytes, hb, -⟩ := h
  exact (getRange_eq_some.mp (Outcome.okOr_eq_ok.mp hb)).2.1

/-- … and it is valid. -/
theorem fromUtf8_of_getStr {bytes rest : List UInt8} {s : String} (hfit : p + bytes.length < 2 ^ 64)
    (h : getStr .checked data p bytes.length = .ok s) (hd : data.drop p = bytes ++ rest) :
    Utf8.fromUtf8 bytes = some s := by
  simp only [getStr] at h
  rw [uadd_eq hfit, Outcome.ok_bind, Outcome.bind_eq_ok] at h
  obtain ⟨read, hread, hs⟩ := h
  obtain ⟨-, -, hb⟩ := getRange_eq_some.mp (Outcome.okOr_eq_ok.mp hread)
  rw [Nat.add_sub_cancel_left, hd, List.take_left] at hb
  rw [hb] at hs
  exact Outcome.okOr_eq_ok.mp hs

theorem lt_length_of_getElem? {b : UInt8} (h : data[p]? = some b) : p < data.length :=
  (List.getElem?_eq_some_iff.mp h).1

/-- Past the end of the buffer nothing is hostile. -/
theorem lt_length_of_hostileStr (hfit : p < 2 ^ 64) (h : HostileStr data p) : p < data.length := by
  by_contra hge
  have hnil : data.drop p = [] := List.drop_eq_nil_of_le (Nat.le_of_not_lt hge)
  simp only [HostileStr, HostileLen, strEnd, lenAt, hnil, Leb128.span, Leb128.value] at h
  omega

theorem lt_length_of_hostileStrs {valid : List UInt8 → Prop} {n : Nat} (hp : p ≤ data.length)
    (hlen : data.length ≤ isizeMax) (h : HostileStrs data valid p n) : p < data.length := by
  have hcap : data.length ≤ 2 ^ 63 - 1 := hlen
  obtain ⟨ss, rest, -, -, hd, hbad⟩ := h
  have hbound := Bytes.length_of_drop_eq_append hp hd
  have hlt := lt_length_of_hostileStr (by omega) hbad
  omega

/-! ## The condition -/

/-- The bytes of a message in front of its first length prefix, as far as they are checked:
position and value. -/
def HasBytes (data : List UInt8) (offset : Nat) (bytes : List (Nat × UInt8)) : Prop :=
  ∀ x ∈ bytes, data[offset + x.1]? = some x.2

/-- **The inputs a decoder does not survive** in a checked build. -/
def Hostile (type : MessageType) (data : List UInt8) (fds : List RawFd) (offset : Nat) : Prop :=
  match type with
  | .handshakeBegin =>
    HasBytes data offset [(0, 2), (1, 0x21), (2, 0x10)] ∧ HostileLen data (offset + 3)
  | .handshakeProtocols =>
    HasBytes data offset [(0, 4), (1, 0x21), (2, 0x20)] ∧
      (HostileLen data (offset + 3) ∨ (lenAt data (offset + 3) < 2048 ∧
        HostileStrs data (fun bytes => (Utf8.fromUtf8 bytes).isSome)
          (offset + 3 + Leb128.span (data.drop (offset + 3))) (lenAt data (offset + 3))))
  | .bindProtocol =>
    HasBytes data offset [(0, 10), (1, 0x10), (6, 0x20)] ∧ HostileStr data (offset + 7)
  | .fatalProtocolError =>
    HasBytes data offset [(0, 12), (1, 0x10), (6, 0x10), (11, 0x20)] ∧
      HostileStr data (offset + 12)
  | .genericProtocolMessage =>
    HasBytes data offset [(0, 100), (1, 0x22), (6, 0x10)] ∧ offset + 11 ≤ data.length ∧
      HostileFrom data fds (offset + 11) 0
  | .sup | .handshakeAck | .newObject | .roundtripRequest | .roundtripDone => False

/-! ## The decoders -/

theorem Hello.returns_fromBytes (hoff : offset < data.length) (hlen : data.length ≤ isizeMax) :
    (Hello.fromBytes .checked data offset).Returns := by
  simp only [isizeMax] at hlen
  rw [Hello.fromBytes, returns_getArray_bind]
  refine ⟨by omega, fun bytes _ => ?_⟩
  split <;> trivial

theorem HandshakeAck.returns_fromBytes (hoff : offset < data.length)
    (hlen : data.length ≤ isizeMax) : (HandshakeAck.fromBytes .checked data offset).Returns := by
  simp only [isizeMax] at hlen
  simp only [HandshakeAck.fromBytes, returns_expectByte_bind, returns_uadd_bind,
    returns_readU32_bind, returns_getArray_bind]
  intro _
  refine ⟨by omega, fun _ => ⟨by omega, fun _ => ⟨by omega, by omega, fun _ _ => ?_⟩⟩⟩
  exact ⟨by omega, fun _ _ => trivial⟩

theorem NewObject.returns_fromBytes (hoff : offset < data.length)
    (hlen : data.length ≤ isizeMax) : (NewObject.fromBytes .checked data offset).Returns := by
  simp only [isizeMax] at hlen
  simp only [NewObject.fromBytes, returns_expectByte_bind, returns_uadd_bind,
    returns_readU32_bind, returns_getArray_bind]
  intro _
  refine ⟨by omega, fun _ => ⟨by omega, by omega, fun _ _ => ⟨by omega, fun _ => ?_⟩⟩⟩
  refine ⟨by omega, by omega, fun _ _ => ⟨by omega, fun _ => ?_⟩⟩
  exact ⟨by omega, fun _ _ => trivial⟩

theorem returns_roundtripFromBytes {type : MessageType} (hoff : offset < data.length)
    (hlen : data.length ≤ isizeMax) : (roundtripFromBytes .checked type data offset).Returns := by
  simp only [isizeMax] at hlen
  simp only [roundtripFromBytes, returns_expectByte_bind, returns_uadd_bind,
    returns_readU32_bind, returns_getArray_bind]
  intro _
  refine ⟨by omega, fun _ => ⟨by omega, by omega, fun _ _ => ⟨by omega, fun _ => ?_⟩⟩⟩
  exact ⟨by omega, fun _ _ => trivial⟩

theorem BindProtocol.returns_fromBytes_iff (hoff : offset < data.length)
    (hlen : data.length ≤ isizeMax) : (BindProtocol.fromBytes .checked data offset).Returns
      ↔ ¬ Hostile .bindProtocol data fds offset := by
  have hcap : data.length ≤ 2 ^ 63 - 1 := hlen
  simp only [BindProtocol.fromBytes, Hostile, HasBytes, List.forall_mem_cons, List.not_mem_nil,
    false_implies, implies_true, and_true, Nat.add_zero, returns_expectByte_bind,
    returns_uadd_bind, returns_readU32_bind, returns_parseVarInt_bind, returns_getStr_bind,
    Nat.add_assoc, Nat.reduceAdd]
  constructor
  · rintro h ⟨⟨h0, h1, h6⟩, hbad⟩
    have h6' := lt_length_of_getElem? h6
    obtain ⟨w, hw⟩ := exists_readU32 (m := .checked) (p := offset + 2) (by omega) hlen
    obtain ⟨-, -, h⟩ := (h h0).2 h1
    obtain ⟨-, hl, -, hfit, -⟩ := (h w hw).2 h6
    rcases hbad with hbad | hbad
    · exact hl hbad
    · simp only [strEnd] at hbad
      omega
  · intro hnot h0
    refine ⟨by omega, fun h1 => ⟨by omega, by omega, fun w _ => ⟨by omega, fun h6 => ?_⟩⟩⟩
    have h6' := lt_length_of_getElem? h6
    have hgood : ¬ HostileStr data (offset + 7) := fun hbad => hnot ⟨⟨h0, h1, h6⟩, hbad⟩
    have hl : ¬ HostileLen data (offset + 7) := fun h => hgood (.inl h)
    have hend : strEnd data (offset + 7) < 2 ^ 64 := Nat.lt_of_not_le fun h => hgood (.inr h)
    have hspan := Nat.le_of_not_lt hl
    simp only [strEnd] at hend
    refine ⟨by omega, hl, by omega, by omega, fun s hs => ?_⟩
    have hin := le_length_of_getStr (by omega) hs
    refine ⟨by omega, fun _ => ⟨by omega, by omega, fun version _ => ?_⟩⟩
    split
    · trivial
    · simp only [returns_expectByte_bind, returns_uadd_bind]
      refine ⟨by omega, fun hend => ⟨by omega, by omega, ?_⟩⟩
      have hend' := lt_length_of_getElem? hend
      rw [usub_eq (by omega), Outcome.ok_bind, returns_slice_bind]
      exact ⟨⟨by omega, by omega⟩, fun _ _ => trivial⟩

theorem FatalProtocolError.returns_fromBytes_iff (hoff : offset < data.length)
    (hlen : data.length ≤ isizeMax) : (FatalProtocolError.fromBytes .checked data offset).Returns
      ↔ ¬ Hostile .fatalProtocolError data fds offset := by
  have hcap : data.length ≤ 2 ^ 63 - 1 := hlen
  simp only [FatalProtocolError.fromBytes, Hostile, HasBytes, List.forall_mem_cons,
    List.not_mem_nil, false_implies, implies_true, and_true, Nat.add_zero, returns_expectByte_bind,
    returns_uadd_bind, returns_readU32_bind, returns_parseVarInt_bind, returns_getStr_bind,
    returns_slice_bind]
  constructor
  · rintro h ⟨⟨h0, h1, h6, h11⟩, hbad⟩
    have h11' := lt_length_of_getElem? h11
    obtain ⟨w, hw⟩ := exists_readU32 (m := .checked) (p := offset + 2) (by omega) hlen
    obtain ⟨w', hw'⟩ := exists_readU32 (m := .checked) (p := offset + 7) (by omega) hlen
    obtain ⟨-, -, h⟩ := (h h0).2 h1
    obtain ⟨-, -, h⟩ := (h w hw).2 h6
    obtain ⟨-, hl, -, -, hfit, -⟩ := (h w' hw').2 h11
    rcases hbad with hbad | hbad
    · exact hl hbad
    · simp only [strEnd] at hbad
      omega
  · intro hnot h0
    refine ⟨by omega, fun h1 => ⟨by omega, by omega, fun _ _ => ⟨by omega, fun h6 => ?_⟩⟩⟩
    refine ⟨by omega, by omega, fun _ _ => ⟨by omega, fun h11 => ?_⟩⟩
    have h11' := lt_length_of_getElem? h11
    have hgood : ¬ HostileStr data (offset + 12) := fun hbad => hnot ⟨⟨h0, h1, h6, h11⟩, hbad⟩
    have hl : ¬ HostileLen data (offset + 12) := fun h => hgood (.inl h)
    have hend : strEnd data (offset + 12) < 2 ^ 64 := Nat.lt_of_not_le fun h => hgood (.inr h)
    have hspan := Nat.le_of_not_lt hl
    simp only [strEnd] at hend
    refine ⟨by omega, hl, by omega, by omega, by omega, fun s hs => ?_⟩
    have hin := le_length_of_getStr (by omega) hs
    refine ⟨by omega, by omega, fun hend => ?_⟩
    have hend' := lt_length_of_getElem? hend
    exact ⟨by omega, by omega, ⟨by omega, by omega⟩, fun _ _ => trivial⟩

/-! ### The handshake -/

theorem returns_readVersions {needle : Nat} : ∀ (n i : Nat), needle + 4 * (i + n) < 2 ^ 64 →
    (readVersions .checked data needle n i).Returns
  | 0, _, _ => trivial
  | n + 1, i, hfit => by
    simp only [readVersions]
    rw [umul_eq (by omega), Outcome.ok_bind, returns_uadd_bind, returns_readU32_bind]
    refine ⟨by omega, by omega, fun version _ => ?_⟩
    rw [Outcome.returns_bind]
    exact ⟨returns_readVersions n (i + 1) (by omega), fun _ _ => trivial⟩

theorem HandshakeBegin.returns_fromBytes_iff (hoff : offset < data.length)
    (hlen : data.length ≤ isizeMax) : (HandshakeBegin.fromBytes .checked data offset).Returns
      ↔ ¬ Hostile .handshakeBegin data fds offset := by
  have hcap : data.length ≤ 2 ^ 63 - 1 := hlen
  simp only [HandshakeBegin.fromBytes, Hostile, HasBytes, List.forall_mem_cons, List.not_mem_nil,
    false_implies, implies_true, and_true, Nat.add_zero, returns_expectByte_bind,
    returns_uadd_bind, returns_parseVarInt_bind, Nat.add_assoc, Nat.reduceAdd]
  constructor
  · rintro h ⟨⟨h0, h1, h2⟩, hbad⟩
    obtain ⟨-, h⟩ := (h h0).2 h1
    exact (h h2).2.1 hbad
  · intro hnot h0
    refine ⟨by omega, fun h1 => ⟨by omega, fun h2 => ?_⟩⟩
    have hl : ¬ HostileLen data (offset + 3) := fun hbad => hnot ⟨⟨h0, h1, h2⟩, hbad⟩
    have hspan := Nat.le_of_not_lt hl
    have h2' := lt_length_of_getElem? h2
    refine ⟨by omega, hl, by omega, ?_⟩
    split
    · trivial
    · next hn =>
      rw [Outcome.returns_bind]
      refine ⟨returns_readVersions _ _ (by omega), fun versions _ => ?_⟩
      rw [umul_eq (by omega), Outcome.ok_bind]
      simp only [returns_expectByte_bind, returns_uadd_bind]
      refine ⟨by omega, fun hend => ⟨by omega, ?_⟩⟩
      have hend' := lt_length_of_getElem? hend
      rw [usub_eq (by omega), Outcome.ok_bind, returns_uadd_bind, returns_slice_bind]
      exact ⟨by omega, ⟨by omega, by omega⟩, fun _ _ => trivial⟩

/-- The names of the protocols: one is hostile, or they are refused, or read inside the
buffer. -/
theorem readProtocols_cases (hlen : data.length ≤ isizeMax) : ∀ (n needle : Nat),
    offset + needle ≤ data.length →
    HostileStrs data (fun bytes => (Utf8.fromUtf8 bytes).isSome) (offset + needle) n ∨
    (∃ e, readProtocols .checked data offset n needle = .err e) ∨
    ∃ protocols needle', readProtocols .checked data offset n needle = .ok (protocols, needle') ∧
      offset + needle' ≤ data.length
  | 0, needle, hle => .inr (.inr ⟨[], needle, rfl, hle⟩)
  | n + 1, needle, hle => by
    have hcap : data.length ≤ 2 ^ 63 - 1 := hlen
    rcases str_cases data (offset + needle) with hbad | ⟨hparse, hend, hwhole⟩
    · exact .inl ⟨[], _, Nat.succ_pos n, fun _ h => (by cases h), rfl, hbad⟩
    · simp only [strEnd] at hend hwhole
      have hspan := Leb128.span_le_length (data.drop (offset + needle))
      rw [List.length_drop] at hspan
      simp only [readProtocols]
      rw [uadd_eq (by omega), Outcome.ok_bind]
      by_cases hlt : offset + needle < data.length
      · rw [getByte_eq_ok.mpr (List.getElem?_eq_getElem hlt), Outcome.ok_bind, hparse,
          Outcome.ok_bind]
        simp only []
        rw [uadd_eq (by omega), Outcome.ok_bind, uadd_eq (by omega), Outcome.ok_bind,
          ← Nat.add_assoc]
        cases hstr : getStr .checked data (offset + needle
            + Leb128.span (data.drop (offset + needle))) (lenAt data (offset + needle)) with
        | err e => exact .inr (.inl ⟨e, rfl⟩)
        | panic p =>
          have h := (@returns_getStr_bind _ data _ _ (fun s => .ok s)).mpr ⟨hend, fun _ _ => trivial⟩
          rw [hstr] at h
          exact h.elim
        | stall =>
          have h := (@returns_getStr_bind _ data _ _ (fun s => .ok s)).mpr ⟨hend, fun _ _ => trivial⟩
          rw [hstr] at h
          exact h.elim
        | ok protocol =>
          have hin := le_length_of_getStr hend hstr
          have hnext : offset + (needle + Leb128.span (data.drop (offset + needle))
              + lenAt data (offset + needle)) = offset + needle
                + Leb128.span (data.drop (offset + needle)) + lenAt data (offset + needle) := by
            omega
          rw [Outcome.ok_bind, uadd_eq (by omega), Outcome.ok_bind]
          rcases readProtocols_cases hlen n _ (by rw [hnext]; exact hin) with
            hbad | ⟨e, herr⟩ | ⟨protocols, needle', hok, hle'⟩
          · -- The string that was read is whole, for something stands behind it.
            rw [hnext] at hbad
            obtain ⟨s, hs, hd⟩ := hwhole (lt_length_of_hostileStrs hin hlen hbad)
            rw [hs] at hbad
            refine .inl (hbad.cons ?_ hd)
            rw [Str.encode, List.append_assoc] at hd
            obtain ⟨hcount, hbytes⟩ := lenAt_of_drop s.len hd
              (fun h => by rw [parseVarInt_checked_panic h] at hparse; cases hparse)
            have hd' := Bytes.drop_add_of_drop_eq_append hd
            rw [hbytes, hcount, ← s.length_payload] at hstr hend
            exact Option.isSome_of_eq_some (fromUtf8_of_getStr hend hstr hd')
          · rw [herr]
            exact .inr (.inl ⟨e, rfl⟩)
          · rw [hok]
            exact .inr (.inr ⟨_, _, rfl, hle'⟩)
      · rw [getByte, List.getElem?_eq_none (Nat.le_of_not_lt hlt)]
        exact .inr (.inl ⟨_, rfl⟩)

/-- A hostile name among them is fatal. -/
theorem readProtocols_hostile (hlen : data.length ≤ isizeMax) :
    ∀ (ss : List (Str .checked)) {n needle : Nat} {rest : List UInt8}, ss.length < n →
    (∀ s ∈ ss, (Utf8.fromUtf8 s.payload).isSome) → offset + needle ≤ data.length →
    data.drop (offset + needle) = ss.flatMap Str.encode ++ rest →
    HostileStr data (offset + needle + (ss.flatMap Str.encode).length) →
      ¬ (readProtocols .checked data offset n needle).Returns
  | [], n + 1, needle, _, _, _, hle, _, hbad => by
    intro hret
    simp only [List.flatMap_nil, List.length_nil, Nat.add_zero] at hbad
    have hcap : data.length ≤ 2 ^ 63 - 1 := hlen
    have hlt := lt_length_of_hostileStr (by omega) hbad
    simp only [readProtocols, returns_uadd_bind, getByte_eq_ok.mpr (List.getElem?_eq_getElem hlt),
      Outcome.ok_bind, returns_parseVarInt_bind, returns_getStr_bind] at hret
    obtain ⟨-, hl, -, -, hfit, -⟩ := hret
    rcases hbad with h | h
    · exact hl h
    · simp only [strEnd] at h
      omega
  | s :: ss, n + 1, needle, rest, hlt, hvalid, hle, hd, hbad => by
    intro hret
    have hcap : data.length ≤ 2 ^ 63 - 1 := hlen
    simp only [List.flatMap_cons, List.append_assoc, List.length_append, Str.encode] at hd hbad
    have hb1 := Bytes.length_of_drop_eq_append hle hd
    have hd1 := Bytes.drop_add_of_drop_eq_append hd
    simp only [List.length_append] at hb1
    have hle1 : offset + needle + s.len.bytes.length ≤ data.length := by omega
    have hle2 : offset + needle + s.len.bytes.length + s.payload.length ≤ data.length := by omega
    have hd2 := Bytes.drop_add_of_drop_eq_append hd1
    obtain ⟨name, hname⟩ := Option.isSome_iff_exists.mp (hvalid s (List.mem_cons_self ..))
    have hpos := List.length_pos_iff.mpr s.len.terminated.ne_nil
    simp only [readProtocols, returns_uadd_bind,
      getByte_eq_ok.mpr (List.getElem?_eq_getElem (show offset + needle < data.length by omega)),
      Outcome.ok_bind, returns_parseVarInt_bind] at hret
    obtain ⟨-, hl, -, -, hret⟩ := hret
    obtain ⟨hcount, hspan⟩ := lenAt_of_drop s.len hd hl
    rw [hcount, hspan, ← s.length_payload, ← Nat.add_assoc,
      getStr_bytes_of_drop hname hd1 hle1 hlen, Outcome.ok_bind, returns_uadd_bind,
      Outcome.returns_bind] at hret
    have hnext : offset + (needle + s.len.bytes.length + s.payload.length)
        = offset + needle + s.len.bytes.length + s.payload.length := by omega
    refine readProtocols_hostile hlen ss (Nat.lt_of_succ_lt_succ hlt)
      (fun x hx => hvalid x (List.mem_cons_of_mem s hx)) (by rw [hnext]; exact hle2)
      (by rw [hnext]; exact hd2) ?_ hret.2.1
    rw [hnext]
    simpa only [Nat.add_assoc] using hbad

theorem HandshakeProtocols.returns_fromBytes_iff (hoff : offset < data.length)
    (hlen : data.length ≤ isizeMax) : (HandshakeProtocols.fromBytes .checked data offset).Returns
      ↔ ¬ Hostile .handshakeProtocols data fds offset := by
  have hcap : data.length ≤ 2 ^ 63 - 1 := hlen
  simp only [HandshakeProtocols.fromBytes, Hostile, HasBytes, List.forall_mem_cons,
    List.not_mem_nil, false_implies, implies_true, and_true, Nat.add_zero,
    returns_expectByte_bind, returns_uadd_bind, returns_parseVarInt_bind]
  constructor
  · rintro h ⟨⟨h0, h1, h2⟩, hbad⟩
    obtain ⟨-, h⟩ := (h h0).2 h1
    obtain ⟨-, hl, -, h⟩ := h h2
    rcases hbad with hbad | ⟨hn, ss, rest, hlt, hvalid, hd, hbad⟩
    · exact hl hbad
    · have hspan := Leb128.span_le_length (data.drop (offset + 3))
      have h2' := lt_length_of_getElem? h2
      rw [List.length_drop] at hspan
      rw [if_neg (Nat.not_le_of_lt hn), withCapacity_eq (by simp only [isizeMax]; omega),
        Outcome.ok_bind, Outcome.returns_bind] at h
      rw [Nat.add_assoc offset] at hd hbad
      exact readProtocols_hostile hlen ss hlt hvalid (by omega) hd hbad h.1
  · intro hnot h0
    refine ⟨by omega, fun h1 => ⟨by omega, fun h2 => ?_⟩⟩
    have h2' := lt_length_of_getElem? h2
    have hspan := Leb128.span_le_length (data.drop (offset + 3))
    rw [List.length_drop] at hspan
    refine ⟨by omega, fun hbad => hnot ⟨⟨h0, h1, h2⟩, .inl hbad⟩, by omega, ?_⟩
    split
    · trivial
    · next hn =>
      rw [withCapacity_eq (by simp only [isizeMax]; omega), Outcome.ok_bind]
      rcases @readProtocols_cases data offset hlen (lenAt data (offset + 3))
        (3 + Leb128.span (data.drop (offset + 3))) (by omega) with
        hbad | ⟨e, herr⟩ | ⟨protocols, needle, hok, hle⟩
      · rw [← Nat.add_assoc] at hbad
        exact absurd ⟨⟨h0, h1, h2⟩, .inr ⟨Nat.lt_of_not_le hn, hbad⟩⟩ hnot
      · rw [herr]
        trivial
      · rw [hok, Outcome.ok_bind]
        simp only [returns_expectByte_bind, returns_uadd_bind, returns_slice_bind]
        refine ⟨by omega, fun hend => ?_⟩
        have hend' := lt_length_of_getElem? hend
        exact ⟨by omega, by omega, ⟨by omega, by omega⟩, fun _ _ => trivial⟩

/-! ### The generic message -/

theorem returns_readHeader {m : Overflow} (hlen : data.length ≤ isizeMax) (offset : Nat) :
    (GenericProtocolMessage.readHeader m data offset).Returns := by
  have hcap : data.length ≤ 2 ^ 63 - 1 := hlen
  rw [GenericProtocolMessage.readHeader, Outcome.returns_bind]
  refine ⟨returns_expectByte _ _ _ _, fun _ h0 => ?_⟩
  have hoff := lt_length_of_getElem? (expectByte_eq_ok.mp h0)
  rw [uadd_eq (by omega), Outcome.ok_bind, Outcome.returns_bind]
  refine ⟨returns_expectByte _ _ _ _, fun _ _ => ?_⟩
  rw [uadd_eq (by omega), Outcome.ok_bind, Outcome.returns_bind]
  refine ⟨returns_readU32 (by omega), fun _ _ => ?_⟩
  rw [uadd_eq (by omega), Outcome.ok_bind, Outcome.returns_bind]
  refine ⟨returns_expectByte _ _ _ _, fun _ _ => ?_⟩
  rw [uadd_eq (by omega), Outcome.ok_bind, Outcome.returns_bind]
  exact ⟨returns_readU32 (by omega), fun _ _ => trivial⟩

/-- A header is read off its three tags and two words. -/
theorem readHeader_eq_ok_iff {m : Overflow} (hlen : data.length ≤ isizeMax) :
    (∃ header, GenericProtocolMessage.readHeader m data offset = .ok header) ↔
      HasBytes data offset [(0, 100), (1, 0x22), (6, 0x10)] ∧ offset + 11 ≤ data.length := by
  have hcap : data.length ≤ 2 ^ 63 - 1 := hlen
  simp only [HasBytes, List.forall_mem_cons, List.not_mem_nil, false_implies, implies_true,
    and_true, Nat.add_zero]
  constructor
  · rintro ⟨header, h⟩
    rw [GenericProtocolMessage.readHeader, Outcome.bind_eq_ok] at h
    obtain ⟨_, h0, h⟩ := h
    have hoff := lt_length_of_getElem? (expectByte_eq_ok.mp h0)
    rw [uadd_eq (by omega), Outcome.ok_bind, Outcome.bind_eq_ok] at h
    obtain ⟨_, h1, h⟩ := h
    rw [uadd_eq (by omega), Outcome.ok_bind, Outcome.bind_eq_ok] at h
    obtain ⟨object, -, h⟩ := h
    rw [uadd_eq (by omega), Outcome.ok_bind, Outcome.bind_eq_ok] at h
    obtain ⟨_, h6, h⟩ := h
    rw [uadd_eq (by omega), Outcome.ok_bind, Outcome.bind_eq_ok] at h
    obtain ⟨method, hmethod, -⟩ := h
    have h6' := lt_length_of_getElem? (expectByte_eq_ok.mp h6)
    have hmethod' := congrArg List.length (drop_of_readU32 (by omega) hmethod)
    simp only [List.length_append, List.length_drop, Bytes.length_toLeBytes] at hmethod'
    exact ⟨⟨expectByte_eq_ok.mp h0, expectByte_eq_ok.mp h1, expectByte_eq_ok.mp h6⟩, by omega⟩
  · rintro ⟨⟨h0, h1, h6⟩, hle⟩
    obtain ⟨object, hobject⟩ := exists_readU32 (m := m) (p := offset + 2) (by omega) hlen
    obtain ⟨method, hmethod⟩ := exists_readU32 (m := m) (p := offset + 7) (by omega) hlen
    refine ⟨(object, method), ?_⟩
    simp only [GenericProtocolMessage.readHeader, MessageType.toU8, MessageMagic.toU8]
    rw [expectByte_eq_ok.mpr h0, Outcome.ok_bind, uadd_eq (by omega), Outcome.ok_bind,
      expectByte_eq_ok.mpr h1, Outcome.ok_bind, uadd_eq (by omega), Outcome.ok_bind, hobject,
      Outcome.ok_bind, uadd_eq (by omega), Outcome.ok_bind, expectByte_eq_ok.mpr h6,
      Outcome.ok_bind, uadd_eq (by omega), Outcome.ok_bind, hmethod, Outcome.ok_bind]

theorem GenericProtocolMessage.returns_fromBytes_iff
    (hlen : data.length ≤ isizeMax) (hfds : fds.length ≤ isizeMax) :
    (GenericProtocolMessage.fromBytes .checked data fds offset).Returns
      ↔ ¬ Hostile .genericProtocolMessage data fds offset := by
  have hcap : data.length ≤ 2 ^ 63 - 1 := hlen
  have hfcap : fds.length ≤ 2 ^ 63 - 1 := hfds
  have hreads := @readHeader_eq_ok_iff data offset .checked hlen
  simp only [Hostile]
  rw [GenericProtocolMessage.fromBytes, Outcome.returns_bind]
  constructor
  · rintro ⟨-, h⟩ ⟨hhead, hle, fs, rest, hslots, hd, hbad⟩
    obtain ⟨header, hheader⟩ := hreads.mpr ⟨hhead, hle⟩
    have hret := (Outcome.returns_bind.mp (h header hheader)).1
    exact scanLoop_hostile hlen (by omega) fs _ ⟨11, 0, []⟩ hle hslots hd hbad hret
  · intro hnot
    refine ⟨returns_readHeader hlen offset, fun header hheader => ?_⟩
    obtain ⟨hhead, hle⟩ := hreads.mp ⟨header, hheader⟩
    rcases @scanLoop_cases data fds offset hlen (by omega) (data.length + 1) ⟨11, 0, []⟩
      (by simp only; omega) (Nat.succ_pos _) (by simp only; omega) (Nat.zero_le _) with
      hbad | ⟨e, herr⟩ | ⟨fs, rest, hslots, hd, hok⟩
    · exact absurd ⟨hhead, hle, hbad⟩ hnot
    · rw [herr]
      trivial
    · have hbound := Bytes.length_of_drop_eq_append hle hd
      rw [List.length_cons] at hbound
      rw [Nat.zero_add] at hslots
      rw [hok, Outcome.ok_bind]
      simp only [GenericProtocolMessage.finish, Scan.advance_i, Scan.advance_fdsCursor,
        Nat.zero_add, returns_uadd_bind, Outcome.returns_bind (x := slice _ _ _), returns_slice]
      refine ⟨by omega, ⟨by omega, hslots⟩, fun _ _ => ⟨by omega, ⟨by omega, by omega⟩, ?_⟩⟩
      exact fun _ _ => trivial

/-! ## All ten -/

theorem returns_map {β : Type} {x : Outcome Error α} {g : α → β} :
    (x >>= fun a => .ok (g a)).Returns ↔ x.Returns := by
  cases x <;> simp

/-- **A decoder survives its input iff no hostile prefix is reached.** -/
theorem decode_returns_iff (type : MessageType) (data : List UInt8) (fds : List RawFd)
    (offset : Nat) (hoff : offset < data.length) (hlen : data.length ≤ isizeMax)
    (hfds : fds.length ≤ isizeMax) :
    (decode .checked type data fds offset).Returns ↔ ¬ Hostile type data fds offset := by
  cases type with
  | sup => simp [decode, returns_map, Hostile, Hello.returns_fromBytes hoff hlen]
  | handshakeBegin =>
    simp only [decode, returns_map]
    exact HandshakeBegin.returns_fromBytes_iff hoff hlen
  | handshakeAck => simp [decode, returns_map, Hostile, HandshakeAck.returns_fromBytes hoff hlen]
  | handshakeProtocols =>
    simp only [decode, returns_map]
    exact HandshakeProtocols.returns_fromBytes_iff hoff hlen
  | bindProtocol =>
    simp only [decode, returns_map]
    exact BindProtocol.returns_fromBytes_iff hoff hlen
  | newObject => simp [decode, returns_map, Hostile, NewObject.returns_fromBytes hoff hlen]
  | fatalProtocolError =>
    simp only [decode, returns_map]
    exact FatalProtocolError.returns_fromBytes_iff hoff hlen
  | roundtripRequest =>
    simp [decode, RoundtripRequest.fromBytes, returns_map, Hostile,
      returns_roundtripFromBytes hoff hlen]
  | roundtripDone =>
    simp [decode, RoundtripDone.fromBytes, returns_map, Hostile,
      returns_roundtripFromBytes hoff hlen]
  | genericProtocolMessage =>
    simp only [decode, returns_map]
    exact GenericProtocolMessage.returns_fromBytes_iff hlen hfds

/-- A generic message whose one string has a length prefix of eleven bytes. -/
def overlongVarchar : List UInt8 :=
  [100, 0x22, 1, 0, 0, 0, 0x10, 0, 0, 0, 0, 0x20, 0x80, 0x80, 0x80, 0x80, 0x80, 0x80, 0x80, 0x80,
    0x80, 0x80, 0x01, 0x00]

theorem decode_overlongVarchar :
    decode .checked .genericProtocolMessage overlongVarchar [] 0 = .panic .shlOverflow := by
  rfl

/-- **Not every decoder survives every input.** -/
theorem decode_not_total : ¬ ∀ (type : MessageType) (data : List UInt8) (fds : List RawFd)
    (offset : Nat), offset < data.length → data.length ≤ isizeMax → fds.length ≤ isizeMax →
      (decode .checked type data fds offset).Returns := by
  intro h
  have hret := h .genericProtocolMessage overlongVarchar [] 0 (by decide) (by decide) (by decide)
  rw [decode_overlongVarchar] at hret
  exact hret

/-- The same input, seen by `decode_returns_iff`. -/
theorem hostile_overlongVarchar :
    ¬ (decode .checked .genericProtocolMessage overlongVarchar [] 0).Returns ∧
      ¬ ¬ Hostile .genericProtocolMessage overlongVarchar [] 0 := by
  have hpanic : ¬ (decode .checked .genericProtocolMessage overlongVarchar [] 0).Returns := by
    rw [decode_overlongVarchar]
    exact id
  exact ⟨hpanic, fun hnot => hpanic ((decode_returns_iff .genericProtocolMessage overlongVarchar [] 0
    (by decide) (by decide) (by decide)).mpr hnot)⟩

end Hyprwire
