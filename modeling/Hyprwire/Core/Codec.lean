import Hyprwire.Core.Control

/-!
# `Core/Codec.lean` — control messages, whole and cut off

Reading back what was written is in `Core/Control.lean`. Here the other half: a message whose
end is missing is refused by every decoder, so that none is taken for a shorter one. The
decoders read from the front, and what is left of the buffer is a strict front part of what is
left of the message (`CutOff`) until one of the reads meets the end.

Only a length prefix can be cut without a read failing: it is taken for the smaller number its
first groups make, and every byte of the buffer belongs to it. What is expected next is missing.
-/

namespace Hyprwire

open Rust

variable {m : Overflow} {α : Type} {data bytes : List UInt8} {offset p n : Nat}

/-! ## What is left of a message -/

/-- From `p` on the buffer holds a front part of `bytes`, and not all of them. -/
structure CutOff (data : List UInt8) (p : Nat) (bytes : List UInt8) : Prop where
  le : p ≤ data.length
  missing : ∃ missing, missing ≠ [] ∧ data.drop p ++ missing = bytes

theorem CutOff.length_lt (h : CutOff data p bytes) : data.length < p + bytes.length := by
  obtain ⟨missing, hne, heq⟩ := h.missing
  have hlen := congrArg List.length heq
  have hpos := List.length_pos_iff.mpr hne
  have hle := h.le
  simp only [List.length_append, List.length_drop] at hlen
  omega

/-- The next byte is missing or there. -/
theorem CutOff.byte {b : UInt8} (h : CutOff data p (b :: bytes)) :
    p = data.length ∨ (data[p]? = some b ∧ CutOff data (p + 1) bytes) := by
  obtain ⟨missing, hne, heq⟩ := h.missing
  cases hd : data.drop p with
  | nil => exact .inl (Nat.le_antisymm h.le (List.drop_eq_nil_iff.mp hd))
  | cons c rest =>
    rw [hd, List.cons_append] at heq
    obtain ⟨rfl, hrest⟩ := List.cons.inj heq
    refine .inr ⟨Bytes.getElem?_of_drop_eq_cons hd, Bytes.lt_length_of_drop_eq_cons hd, missing, hne, ?_⟩
    rw [Bytes.drop_succ_of_drop_eq_cons hd, hrest]

/-- A block is cut off, or it is there. -/
theorem CutOff.block {front : List UInt8} (h : CutOff data p (front ++ bytes)) :
    CutOff data p front ∨ (data.drop p = front ++ data.drop (p + front.length) ∧
      CutOff data (p + front.length) bytes) := by
  obtain ⟨missing, hne, heq⟩ := h.missing
  rcases List.append_eq_append_iff.mp heq with ⟨more, hfront, hmore⟩ | ⟨more, hd, hmore⟩
  · by_cases hnil : more = []
    · subst hnil
      rw [List.append_nil] at hfront
      rw [List.nil_append] at hmore
      have hlen := congrArg List.length hfront
      rw [List.length_drop] at hlen
      have hstop : p + front.length = data.length := by
        have := h.le
        omega
      refine .inr ⟨?_, Nat.le_of_eq hstop, missing, hne, ?_⟩
      · rw [hstop, List.drop_length, List.append_nil, hfront]
      · rw [hstop, List.drop_length, List.nil_append, hmore]
    · exact .inl ⟨h.le, more, hnil, hfront.symm⟩
  · have hrest := Bytes.drop_add_of_drop_eq_append hd
    have hbound := Bytes.length_of_drop_eq_append h.le hd
    refine .inr ⟨by rw [hrest, hd], by omega, missing, hne, ?_⟩
    rw [hrest, hmore]

/-! ## Reads that meet the end -/

/-- The decoder says no. -/
def Refuses (x : Outcome Error α) : Prop := ∃ e, x = .err e

theorem refuses_bind {β : Type} {x : Outcome Error β} {f : β → Outcome Error α} (h : Refuses x) :
    Refuses (x >>= f) := by
  obtain ⟨e, rfl⟩ := h
  exact ⟨e, rfl⟩

theorem refuses_getByte (hp : data.length ≤ p) : Refuses (getByte data p) := by
  rw [getByte, List.getElem?_eq_none hp]
  exact ⟨_, rfl⟩

theorem refuses_getBytes {stop : Nat} (hstop : data.length < stop) : Refuses (getBytes data p stop) := by
  have hnone : getRange data p stop = none := by
    cases hget : getRange data p stop with
    | none => rfl
    | some bytes => exact absurd (getRange_eq_some.mp hget).2.1 (Nat.not_le_of_lt hstop)
  rw [getBytes, hnone]
  exact ⟨_, rfl⟩

theorem refuses_expectByte {tag : UInt8} {e : Error} (hp : data.length ≤ p) :
    Refuses (expectByte data p tag e) := refuses_bind (refuses_getByte hp)

theorem refuses_readU32 (hlt : data.length < p + 4) (hfit : p + 4 < 2 ^ 64) :
    Refuses (readU32 m data p) := by
  rw [readU32, uadd_eq hfit, Outcome.ok_bind]
  exact refuses_bind (refuses_getBytes hlt)

theorem refuses_getArray (hlt : data.length < p + n) (hfit : p + n < 2 ^ 64) :
    Refuses (getArray m data p n) := by
  rw [getArray, uadd_eq hfit, Outcome.ok_bind]
  exact refuses_getBytes hlt

theorem refuses_getStr (hlt : data.length < p + n) (hfit : p + n < 2 ^ 64) :
    Refuses (getStr m data p n) := by
  rw [getStr, uadd_eq hfit, Outcome.ok_bind]
  exact refuses_bind (refuses_getBytes hlt)

/-! ## Reads in the middle -/

/-- A tag is missing, or it is passed. -/
theorem CutOff.expectByte {tag : UInt8} {e : Error} {f : Unit → Outcome Error α}
    (h : CutOff data p (tag :: bytes)) (hnext : CutOff data (p + 1) bytes → Refuses (f ())) :
    Refuses (expectByte data p tag e >>= f) := by
  rcases h.byte with hend | ⟨hb, hcut⟩
  · exact refuses_bind (refuses_expectByte (Nat.le_of_eq hend.symm))
  · rw [expectByte_eq_ok.mpr hb, Outcome.ok_bind]
    exact hnext hcut

/-- A word is cut off, or it is read. -/
theorem CutOff.readU32 {w : UInt32} {f : UInt32 → Outcome Error α}
    (h : CutOff data p (Bytes.toLeBytes w ++ bytes)) (hlen : data.length ≤ isizeMax)
    (hnext : CutOff data (p + 4) bytes → Refuses (f w)) : Refuses (readU32 m data p >>= f) := by
  have hle := h.le
  simp only [isizeMax] at hlen
  rcases h.block with hcut | ⟨hd, hcut⟩
  · exact refuses_bind (refuses_readU32 hcut.length_lt (by omega))
  · rw [readU32_of_drop hd (by omega), Outcome.ok_bind]
    exact hnext hcut

/-- A length prefix is read for what it is, or takes all that is left of the buffer and is read as
a number no larger. -/
theorem CutOff.parseVarInt (h : CutOff data p (varInt n ++ bytes)) (hn : n < 2 ^ 64) :
    (parseVarInt m data p = .ok (n, (varInt n).length) ∧ CutOff data (p + (varInt n).length) bytes) ∨
      ∃ v, v ≤ n ∧ parseVarInt m data p = .ok (v, data.length - p) := by
  rcases h.block with hcut | ⟨hd, hcut⟩
  · obtain ⟨missing, hne, heq⟩ := hcut.missing
    rw [varInt_eq hn] at heq
    have hterm := Leb128.terminated_encode n
    rw [← heq] at hterm
    have hspan := Leb128.span_front hterm hne
    have hvalue := Leb128.value_front_le (data.drop p) missing
    rw [heq, Leb128.value_encode] at hvalue
    have hshort := Leb128.length_encode_le 9 n (Nat.lt_of_lt_of_le hn (by decide))
    have hlt := hcut.length_lt
    rw [varInt_eq hn] at hlt
    rw [List.length_drop] at hspan
    refine .inr ⟨Leb128.value (data.drop p), hvalue, ?_⟩
    rw [parseVarInt_eq (by omega), Nat.mod_eq_of_lt (by omega), hspan]
  · exact .inl ⟨parseVarInt_varInt hd hn, hcut⟩

/-- A string is cut off, or it is read. -/
theorem CutOff.getStr {s : String} {f : String → Outcome Error α}
    (h : CutOff data p (Utf8.asBytes s ++ bytes)) (hlen : data.length ≤ isizeMax)
    (hs : (Utf8.asBytes s).length ≤ isizeMax)
    (hnext : CutOff data (p + (Utf8.asBytes s).length) bytes → Refuses (f s)) :
    Refuses (getStr m data p (Utf8.asBytes s).length >>= f) := by
  have hle := h.le
  rcases h.block with hcut | ⟨hd, hcut⟩
  · simp only [isizeMax] at hlen hs
    exact refuses_bind (refuses_getStr hcut.length_lt (by omega))
  · rw [getStr_of_drop hd hle hlen, Outcome.ok_bind]
    exact hnext hcut

theorem getStr_empty (hlen : data.length ≤ isizeMax) : getStr m data data.length 0 = .ok "" := by
  have hd : data.drop data.length = ([] : List UInt8) ++ [] := by simp
  exact getStr_bytes_of_drop rfl hd (Nat.le_refl _) hlen

/-- At the end of the buffer only the empty string is read. -/
theorem getStr_end {f : String → Outcome Error α} (hp : p = data.length)
    (hlen : data.length ≤ isizeMax) (hn : n ≤ isizeMax)
    (hnext : n = 0 → Refuses (f "")) : Refuses (getStr m data p n >>= f) := by
  rcases Nat.eq_zero_or_pos n with hzero | hpos
  · subst hzero hp
    rw [getStr_empty hlen, Outcome.ok_bind]
    exact hnext rfl
  · simp only [isizeMax] at hlen hn
    exact refuses_bind (refuses_getStr (by omega) (by omega))

/-! ## One decoder after the other -/

theorem Hello.fromBytes_cutOff (h : CutOff data offset Hello.new.data)
    (hlen : data.length ≤ isizeMax) : Refuses (Hello.fromBytes m data offset) := by
  have hlt : data.length < offset + 7 := h.length_lt
  have hle := h.le
  simp only [isizeMax] at hlen
  exact refuses_bind (refuses_getArray hlt (by omega))

theorem HandshakeAck.fromBytes_cutOff {version : UInt32}
    (h : CutOff data offset (HandshakeAck.new version).data) (hlen : data.length ≤ isizeMax) :
    Refuses (HandshakeAck.fromBytes m data offset) := by
  have hlt : data.length < offset + 7 := h.length_lt
  have hle := h.le
  simp only [isizeMax] at hlen
  unfold HandshakeAck.fromBytes
  refine h.expectByte fun h => ?_
  rw [uadd_eq (by omega), Outcome.ok_bind]
  refine h.expectByte fun _ => ?_
  rw [uadd_eq (by omega), Outcome.ok_bind]
  exact refuses_bind (refuses_expectByte (by omega))

theorem roundtripFromBytes_cutOff {type : MessageType} {seq : UInt32}
    (h : CutOff data offset (roundtripData type seq)) (hlen : data.length ≤ isizeMax) :
    Refuses (roundtripFromBytes m type data offset) := by
  have hlt : data.length < offset + 7 := h.length_lt
  have hle := h.le
  have hcap := hlen
  simp only [isizeMax] at hcap
  unfold roundtripFromBytes
  refine h.expectByte fun h => ?_
  rw [uadd_eq (by omega), Outcome.ok_bind]
  refine h.expectByte fun h => ?_
  rw [uadd_eq (by omega), Outcome.ok_bind]
  refine h.readU32 hlen fun _ => ?_
  rw [uadd_eq (by omega), Outcome.ok_bind]
  exact refuses_bind (refuses_expectByte (by omega))

theorem NewObject.fromBytes_cutOff {seq id : UInt32}
    (h : CutOff data offset (NewObject.new seq id).data) (hlen : data.length ≤ isizeMax) :
    Refuses (NewObject.fromBytes m data offset) := by
  have hlt : data.length < offset + 12 := h.length_lt
  have hle := h.le
  have hcap := hlen
  simp only [isizeMax] at hcap
  unfold NewObject.fromBytes
  refine h.expectByte fun h => ?_
  rw [uadd_eq (by omega), Outcome.ok_bind]
  refine h.expectByte fun h => ?_
  rw [uadd_eq (by omega), Outcome.ok_bind]
  refine h.readU32 hlen fun h => ?_
  rw [uadd_eq (by omega), Outcome.ok_bind]
  refine h.expectByte fun h => ?_
  rw [uadd_eq (by omega), Outcome.ok_bind]
  refine h.readU32 hlen fun _ => ?_
  rw [uadd_eq (by omega), Outcome.ok_bind]
  exact refuses_bind (refuses_expectByte (by omega))

/-! ### Those with strings -/

/-- What is left when only the `End` byte is missing. -/
theorem CutOff.only_end {b : UInt8} (h : CutOff data p [b]) : p = data.length := by
  have hle := h.le
  have hlt := h.length_lt
  simp only [List.length_singleton] at hlt
  omega

theorem BindProtocol.fromBytes_cutOff {protocol : String} {seq version : UInt32}
    (h : CutOff data offset (BindProtocol.new protocol seq version).data)
    (hlen : data.length ≤ isizeMax)
    (hwhole : (BindProtocol.new protocol seq version).data.length ≤ isizeMax) :
    Refuses (BindProtocol.fromBytes m data offset) := by
  have hcap := hlen
  simp only [isizeMax] at hcap
  have hstr : (Utf8.asBytes protocol).length ≤ isizeMax := by
    simp only [BindProtocol.new, encodeStr, List.length_cons, List.length_append] at hwhole
    omega
  have hnum : (Utf8.asBytes protocol).length < 2 ^ 64 := by
    simp only [isizeMax] at hstr
    omega
  simp only [BindProtocol.new, encodeStr, List.append_assoc] at h
  unfold BindProtocol.fromBytes
  have hle := h.le
  refine h.expectByte fun h => ?_
  rw [uadd_eq (by omega), Outcome.ok_bind]
  have hle := h.le
  refine h.expectByte fun h => ?_
  rw [uadd_eq (by omega), Outcome.ok_bind]
  have hle := h.le
  refine h.readU32 hlen fun h => ?_
  rw [uadd_eq (by omega), Outcome.ok_bind]
  have hle := h.le
  refine h.expectByte fun h => ?_
  rw [uadd_eq (by omega), Outcome.ok_bind]
  rcases h.parseVarInt hnum with ⟨hparse, h⟩ | ⟨v, hv, hparse⟩
  · rw [hparse, Outcome.ok_bind]
    simp only []
    have hle := h.le
    rw [uadd_eq (by omega), Outcome.ok_bind]
    refine h.getStr hlen hstr fun h => ?_
    have hle := h.le
    rw [uadd_eq (by omega), Outcome.ok_bind]
    refine h.expectByte fun h => ?_
    have hle := h.le
    rw [uadd_eq (by omega), Outcome.ok_bind]
    refine h.readU32 hlen fun h => ?_
    split
    · exact ⟨_, rfl⟩
    · have hle := h.le
      rw [uadd_eq (by omega), Outcome.ok_bind]
      exact refuses_bind (refuses_expectByte (Nat.le_of_eq h.only_end.symm))
  · rw [hparse, Outcome.ok_bind]
    simp only []
    have hle := h.le
    rw [uadd_eq (by omega), Outcome.ok_bind]
    refine getStr_end (by omega) hlen (by omega) fun hzero => ?_
    rw [uadd_eq (by omega), Outcome.ok_bind]
    exact refuses_bind (refuses_expectByte (by omega))

theorem FatalProtocolError.fromBytes_cutOff {objectId errorId : UInt32} {errorMsg : String}
    (h : CutOff data offset (FatalProtocolError.new objectId errorId errorMsg).data)
    (hlen : data.length ≤ isizeMax)
    (hwhole : (FatalProtocolError.new objectId errorId errorMsg).data.length ≤ isizeMax) :
    Refuses (FatalProtocolError.fromBytes m data offset) := by
  have hcap := hlen
  simp only [isizeMax] at hcap
  have hstr : (Utf8.asBytes errorMsg).length ≤ isizeMax := by
    simp only [FatalProtocolError.new, encodeStr, List.length_cons, List.length_append] at hwhole
    omega
  have hnum : (Utf8.asBytes errorMsg).length < 2 ^ 64 := by
    simp only [isizeMax] at hstr
    omega
  simp only [FatalProtocolError.new, encodeStr, List.append_assoc] at h
  unfold FatalProtocolError.fromBytes
  refine h.expectByte fun h => ?_
  have hle := h.le
  rw [uadd_eq (by omega), Outcome.ok_bind]
  refine h.expectByte fun h => ?_
  have hle := h.le
  rw [uadd_eq (by omega), Outcome.ok_bind]
  refine h.readU32 hlen fun h => ?_
  have hle := h.le
  rw [uadd_eq (by omega), Outcome.ok_bind]
  refine h.expectByte fun h => ?_
  have hle := h.le
  rw [uadd_eq (by omega), Outcome.ok_bind]
  refine h.readU32 hlen fun h => ?_
  have hle := h.le
  rw [uadd_eq (by omega), Outcome.ok_bind]
  refine h.expectByte fun h => ?_
  have hle := h.le
  rw [uadd_eq (by omega), Outcome.ok_bind]
  rcases h.parseVarInt hnum with ⟨hparse, h⟩ | ⟨v, hv, hparse⟩
  · rw [hparse, Outcome.ok_bind]
    simp only []
    have hle := h.le
    rw [uadd_eq (by omega), Outcome.ok_bind, uadd_eq (by omega), Outcome.ok_bind, ← Nat.add_assoc]
    refine h.getStr hlen hstr fun h => ?_
    have hle := h.le
    have hend := h.only_end
    rw [uadd_eq (by omega), Outcome.ok_bind, uadd_eq (by omega), Outcome.ok_bind]
    exact refuses_bind (refuses_expectByte (by omega))
  · rw [hparse, Outcome.ok_bind]
    simp only []
    rw [uadd_eq (by omega), Outcome.ok_bind, uadd_eq (by omega), Outcome.ok_bind]
    refine getStr_end (by omega) hlen (by omega) fun hzero => ?_
    rw [uadd_eq (by omega), Outcome.ok_bind, uadd_eq (by omega), Outcome.ok_bind]
    exact refuses_bind (refuses_expectByte (by omega))

/-! ### Those with lists -/

/-- The versions run out before their number is read. -/
theorem CutOff.readVersions (hlen : data.length ≤ isizeMax) : ∀ (versions : List UInt32) (i : Nat),
    CutOff data (p + i * 4) (versions.flatMap Bytes.toLeBytes ++ bytes) →
    Refuses (readVersions m data p versions.length i) ∨
      (readVersions m data p versions.length i = .ok versions ∧
        CutOff data (p + (i + versions.length) * 4) bytes)
  | [], _, h => .inr ⟨rfl, h⟩
  | version :: versions, i, h => by
    rw [List.flatMap_cons, List.append_assoc] at h
    have hle := h.le
    have hcap : data.length ≤ 2 ^ 63 - 1 := hlen
    have hread : ∀ f : UInt32 → Outcome Error (List UInt32),
        (umul m i 4 >>= fun d => uadd m p d >>= fun q => Hyprwire.readU32 m data q >>= f) =
          Hyprwire.readU32 m data (p + i * 4) >>= f := by
      intro f
      rw [umul_eq (by omega), Outcome.ok_bind, uadd_eq (by omega), Outcome.ok_bind]
    rw [List.length_cons, Hyprwire.readVersions, hread]
    rcases h.block with hcut | ⟨hd, hcut⟩
    · have hlt := hcut.length_lt
      rw [Bytes.length_toLeBytes] at hlt
      exact .inl (refuses_bind (refuses_readU32 hlt (by omega)))
    · rw [Bytes.length_toLeBytes, show p + i * 4 + 4 = p + (i + 1) * 4 by omega] at hcut
      rw [readU32_of_drop hd (by omega), Outcome.ok_bind]
      rcases hcut.readVersions hlen versions (i + 1) with hrefuses | ⟨hok, hcut⟩
      · exact .inl (refuses_bind hrefuses)
      · rw [hok, Outcome.ok_bind]
        refine .inr ⟨rfl, ?_⟩
        rwa [show i + 1 + versions.length = i + (versions.length + 1) by omega] at hcut

theorem HandshakeBegin.fromBytes_cutOff {versions : List UInt32} (hn : versions.length < 256)
    (h : CutOff data offset (HandshakeBegin.new versions).data) (hlen : data.length ≤ isizeMax) :
    Refuses (HandshakeBegin.fromBytes m data offset) := by
  have hcap := hlen
  simp only [isizeMax] at hcap
  simp only [HandshakeBegin.new] at h
  unfold HandshakeBegin.fromBytes
  have hle := h.le
  refine h.expectByte fun h => ?_
  rw [uadd_eq (by omega), Outcome.ok_bind]
  have hle := h.le
  refine h.expectByte fun h => ?_
  rw [uadd_eq (by omega), Outcome.ok_bind]
  have hle := h.le
  refine h.expectByte fun h => ?_
  rw [uadd_eq (by omega), Outcome.ok_bind]
  have hle := h.le
  rcases h.parseVarInt (by omega) with ⟨hparse, h⟩ | ⟨v, hv, hparse⟩
  · rw [hparse, Outcome.ok_bind]
    simp only []
    have hle := h.le
    rw [uadd_eq (by omega), Outcome.ok_bind, if_neg (by omega)]
    rw [← Nat.add_zero (offset + 1 + 1 + 1 + (varInt versions.length).length), ← Nat.zero_mul 4] at h
    rcases h.readVersions hlen versions 0 with hrefuses | ⟨hok, h⟩
    · exact refuses_bind hrefuses
    · rw [hok, Outcome.ok_bind, umul_eq (by omega), Outcome.ok_bind, uadd_eq (by omega),
        Outcome.ok_bind]
      have hend := h.only_end
      exact refuses_bind (refuses_expectByte (by omega))
  · rw [hparse, Outcome.ok_bind]
    simp only []
    rw [uadd_eq (by omega), Outcome.ok_bind, if_neg (by omega)]
    cases v with
    | zero =>
      rw [readVersions, Outcome.ok_bind, umul_eq (by omega), Outcome.ok_bind, uadd_eq (by omega),
        Outcome.ok_bind]
      exact refuses_bind (refuses_expectByte (by omega))
    | succ v =>
      rw [readVersions, umul_eq (by omega), Outcome.ok_bind, uadd_eq (by omega), Outcome.ok_bind]
      exact refuses_bind (refuses_bind (refuses_readU32 (by omega) (by omega)))

/-- At the end of the buffer no string is read. -/
theorem readProtocols_end {needle : Nat} (hend : offset + needle = data.length)
    (hlen : data.length ≤ isizeMax) : ∀ n, Refuses (readProtocols m data offset n needle) ∨
      readProtocols m data offset n needle = .ok ([], needle)
  | 0 => .inr rfl
  | n + 1 => by
    simp only [isizeMax] at hlen
    rw [readProtocols, uadd_eq (by omega), Outcome.ok_bind]
    exact .inl (refuses_bind (refuses_getByte (Nat.le_of_eq hend.symm)))

/-- The strings run out before their number is read, or with the last of them. -/
theorem CutOff.readProtocols (hlen : data.length ≤ isizeMax) {b : UInt8} :
    ∀ (protocols : List String) (needle : Nat),
    CutOff data (offset + needle) (protocols.flatMap encodeStr ++ [b]) →
    (protocols.flatMap encodeStr).length ≤ isizeMax →
    Refuses (readProtocols m data offset protocols.length needle) ∨
      ∃ read stop, readProtocols m data offset protocols.length needle = .ok (read, stop) ∧
        offset + stop = data.length
  | [], needle, h, _ => .inr ⟨[], needle, rfl, h.only_end⟩
  | s :: ss, needle, h, hwhole => by
    have hcap := hlen
    simp only [isizeMax] at hcap
    simp only [List.flatMap_cons, encodeStr, List.append_assoc, List.length_append] at h hwhole
    have hstr : (Utf8.asBytes s).length ≤ isizeMax := by omega
    have hrest : (ss.flatMap encodeStr).length ≤ isizeMax := by
      exact Nat.le_trans (Nat.le_add_left ..) (Nat.le_trans (Nat.le_add_left ..) hwhole)
    have hnum : (Utf8.asBytes s).length < 2 ^ 64 := by
      simp only [isizeMax] at hstr
      omega
    have hle := h.le
    rw [List.length_cons, Hyprwire.readProtocols, uadd_eq (by omega), Outcome.ok_bind]
    rcases Nat.lt_or_ge (offset + needle) data.length with hlt | hge
    · rw [getByte_eq_ok.mpr (List.getElem?_eq_getElem hlt), Outcome.ok_bind]
      rcases h.parseVarInt hnum with ⟨hparse, h⟩ | ⟨v, hv, hparse⟩
      · rw [hparse, Outcome.ok_bind]
        simp only []
        have hle := h.le
        rw [uadd_eq (by omega), Outcome.ok_bind, uadd_eq (by omega), Outcome.ok_bind,
          ← Nat.add_assoc]
        rcases h.block with hcut | ⟨hd, h⟩
        · have hlt := hcut.length_lt
          simp only [isizeMax] at hstr
          exact .inl (refuses_bind (refuses_getStr hlt (by omega)))
        · rw [getStr_of_drop hd hle hlen, Outcome.ok_bind]
          have hle := h.le
          rw [uadd_eq (by omega), Outcome.ok_bind]
          rw [Nat.add_assoc, Nat.add_assoc, ← Nat.add_assoc needle] at h
          rcases h.readProtocols hlen ss _ hrest with hrefuses | ⟨read, stop, hok, hstop⟩
          · exact .inl (refuses_bind hrefuses)
          · rw [hok, Outcome.ok_bind]
            exact .inr ⟨_, stop, rfl, hstop⟩
      · rw [hparse, Outcome.ok_bind]
        simp only []
        rw [uadd_eq (by omega), Outcome.ok_bind, uadd_eq (by omega), Outcome.ok_bind]
        have hend : offset + (needle + (data.length - (offset + needle))) = data.length := by omega
        rw [hend]
        rcases Nat.eq_zero_or_pos v with rfl | hpos
        · rw [getStr_empty hlen, Outcome.ok_bind, uadd_eq (by omega), Outcome.ok_bind, Nat.add_zero]
          rcases readProtocols_end hend hlen ss.length with hrefuses | hok
          · exact .inl (refuses_bind hrefuses)
          · rw [hok, Outcome.ok_bind]
            exact .inr ⟨_, _, rfl, hend⟩
        · simp only [isizeMax] at hstr
          exact .inl (refuses_bind (refuses_getStr (by omega) (by omega)))
    · exact .inl (refuses_bind (refuses_getByte hge))

theorem HandshakeProtocols.fromBytes_cutOff {protocols : List String}
    (hn : protocols.length < 2048)
    (h : CutOff data offset (HandshakeProtocols.new protocols).data) (hlen : data.length ≤ isizeMax)
    (hwhole : (HandshakeProtocols.new protocols).data.length ≤ isizeMax) :
    Refuses (HandshakeProtocols.fromBytes m data offset) := by
  have hcap := hlen
  simp only [isizeMax] at hcap
  have hstrs : (protocols.flatMap encodeStr).length ≤ isizeMax := by
    simp only [HandshakeProtocols.new, List.length_cons, List.length_append] at hwhole
    omega
  simp only [HandshakeProtocols.new] at h
  unfold HandshakeProtocols.fromBytes
  have hle := h.le
  refine h.expectByte fun h => ?_
  rw [uadd_eq (by omega), Outcome.ok_bind]
  refine h.expectByte fun h => ?_
  have hle := h.le
  rw [uadd_eq (by omega), Outcome.ok_bind]
  refine h.expectByte fun h => ?_
  have hle := h.le
  rw [uadd_eq (by omega), Outcome.ok_bind]
  -- the strings end the buffer, so that the `End` byte is not there
  have hstop : ∀ {n needle : Nat} {f : List String × Nat → Outcome Error HandshakeProtocols},
      (∀ read stop, offset + stop = data.length → Refuses (f (read, stop))) →
      (Refuses (readProtocols m data offset n needle) ∨
        ∃ read stop, readProtocols m data offset n needle = .ok (read, stop) ∧
          offset + stop = data.length) → Refuses (readProtocols m data offset n needle >>= f) := by
    intro n needle f hf hread
    rcases hread with hrefuses | ⟨read, stop, hok, hstop⟩
    · exact refuses_bind hrefuses
    · rw [hok, Outcome.ok_bind]
      exact hf read stop hstop
  rcases h.parseVarInt (by omega) with ⟨hparse, h⟩ | ⟨v, hv, hparse⟩
  · rw [hparse, Outcome.ok_bind]
    simp only []
    have hle := h.le
    rw [uadd_eq (by omega), Outcome.ok_bind, if_neg (by omega),
      withCapacity_eq (by simp only [isizeMax]; omega), Outcome.ok_bind]
    rw [show offset + 1 + 1 + 1 = offset + 3 from rfl, Nat.add_assoc] at h
    refine hstop (fun read stop hend => ?_) (h.readProtocols hlen protocols _ hstrs)
    simp only []
    rw [uadd_eq (by omega), Outcome.ok_bind]
    exact refuses_bind (refuses_expectByte (by omega))
  · rw [hparse, Outcome.ok_bind]
    simp only []
    rw [uadd_eq (by omega), Outcome.ok_bind, if_neg (by omega),
      withCapacity_eq (by simp only [isizeMax]; omega), Outcome.ok_bind]
    have hend : offset + (3 + (data.length - (offset + 1 + 1 + 1))) = data.length := by omega
    refine hstop (fun read stop hend => ?_)
      ((readProtocols_end hend hlen v).imp id fun hok => ⟨_, _, hok, hend⟩)
    simp only []
    rw [uadd_eq (by omega), Outcome.ok_bind]
    exact refuses_bind (refuses_expectByte (by omega))

/-! ## The nine codecs -/

/-- **A codec**: the bytes of a message are read back wherever they stand in a buffer, and are
refused when their end is missing. No buffer is longer than `isizeMax`. -/
structure Codec (fromBytes : List UInt8 → Nat → Outcome Error α) (msg : α) (bytes : List UInt8) :
    Prop where
  whole : ∀ front rest, (front ++ bytes ++ rest).length ≤ isizeMax →
    fromBytes (front ++ bytes ++ rest) front.length = .ok msg
  cutOff : ∀ front part missing, part ++ missing = bytes → missing ≠ [] →
    bytes.length ≤ isizeMax → (front ++ part).length ≤ isizeMax →
    Refuses (fromBytes (front ++ part) front.length)

theorem codec_of {fromBytes : List UInt8 → Nat → Outcome Error α} {msg : α}
    (hwhole : ∀ {data rest : List UInt8} {offset : Nat}, data.drop offset = bytes ++ rest →
      offset ≤ data.length → data.length ≤ isizeMax → fromBytes data offset = .ok msg)
    (hcut : ∀ {data : List UInt8} {offset : Nat}, CutOff data offset bytes →
      data.length ≤ isizeMax → bytes.length ≤ isizeMax → Refuses (fromBytes data offset)) :
    Codec fromBytes msg bytes where
  whole front rest hlen := by
    refine @hwhole _ rest _ ?_ ?_ hlen
    · rw [List.append_assoc, List.drop_left]
    · rw [List.append_assoc, List.length_append]
      exact Nat.le_add_right ..
  cutOff front part missing hsplit hne hbytes hlen := by
    refine hcut ⟨?_, missing, hne, ?_⟩ hlen hbytes
    · rw [List.length_append]
      exact Nat.le_add_right ..
    · rw [List.drop_left, hsplit]

theorem roundtripFromBytes_codec (type : MessageType) (seq : UInt32) :
    Codec (roundtripFromBytes m type) (seq, roundtripData type seq) (roundtripData type seq) :=
  codec_of roundtripFromBytes_data fun hcut hlen _ => roundtripFromBytes_cutOff hcut hlen

/-- What is made of a decoded message does not decide whether it is one. -/
theorem Codec.map {β : Type} {fromBytes : List UInt8 → Nat → Outcome Error β} {msg : β}
    (h : Codec fromBytes msg bytes) (f : β → α) :
    Codec (fun data offset => fromBytes data offset >>= fun msg => .ok (f msg)) (f msg) bytes where
  whole front rest hlen := by
    rw [h.whole front rest hlen, Outcome.ok_bind]
  cutOff front part missing hsplit hne hbytes hlen :=
    refuses_bind (h.cutOff front part missing hsplit hne hbytes hlen)

/-- **Every control message is read back**, with its fields and its bytes, and no part of one is
taken for a message. -/
theorem control_codec (m : Overflow) :
    Codec (Hello.fromBytes m) Hello.new Hello.new.data ∧
    (∀ versions : List UInt32, versions.length < 256 →
      Codec (HandshakeBegin.fromBytes m) (HandshakeBegin.new versions)
        (HandshakeBegin.new versions).data) ∧
    (∀ version, Codec (HandshakeAck.fromBytes m) (HandshakeAck.new version)
      (HandshakeAck.new version).data) ∧
    (∀ protocols : List String, protocols.length < 2048 →
      Codec (HandshakeProtocols.fromBytes m) (HandshakeProtocols.new protocols)
        (HandshakeProtocols.new protocols).data) ∧
    (∀ protocol seq version, version ≠ 0 →
      Codec (BindProtocol.fromBytes m) (BindProtocol.new protocol seq version)
        (BindProtocol.new protocol seq version).data) ∧
    (∀ seq id, Codec (NewObject.fromBytes m) (NewObject.new seq id) (NewObject.new seq id).data) ∧
    (∀ objectId errorId errorMsg,
      Codec (FatalProtocolError.fromBytes m) (FatalProtocolError.new objectId errorId errorMsg)
        (FatalProtocolError.new objectId errorId errorMsg).data) ∧
    (∀ seq, Codec (RoundtripRequest.fromBytes m) (RoundtripRequest.new seq)
      (RoundtripRequest.new seq).data) ∧
    ∀ seq, Codec (RoundtripDone.fromBytes m) (RoundtripDone.new seq) (RoundtripDone.new seq).data := by
  refine ⟨?_, fun versions hn => ?_, fun version => ?_, fun protocols hn => ?_,
    fun protocol seq version hversion => ?_, fun seq id => ?_, fun objectId errorId errorMsg => ?_,
    fun seq => ?_, fun seq => ?_⟩
  · exact codec_of Hello.fromBytes_new fun hcut hlen _ => Hello.fromBytes_cutOff hcut hlen
  · exact codec_of (HandshakeBegin.fromBytes_new hn) fun hcut hlen _ =>
      HandshakeBegin.fromBytes_cutOff hn hcut hlen
  · exact codec_of HandshakeAck.fromBytes_new fun hcut hlen _ =>
      HandshakeAck.fromBytes_cutOff hcut hlen
  · exact codec_of (HandshakeProtocols.fromBytes_new hn) fun hcut hlen hbytes =>
      HandshakeProtocols.fromBytes_cutOff hn hcut hlen hbytes
  · exact codec_of (BindProtocol.fromBytes_new hversion) fun hcut hlen hbytes =>
      BindProtocol.fromBytes_cutOff hcut hlen hbytes
  · exact codec_of NewObject.fromBytes_new fun hcut hlen _ => NewObject.fromBytes_cutOff hcut hlen
  · exact codec_of FatalProtocolError.fromBytes_new fun hcut hlen hbytes =>
      FatalProtocolError.fromBytes_cutOff hcut hlen hbytes
  · exact (roundtripFromBytes_codec .roundtripRequest seq).map fun msg =>
      (⟨msg.1, msg.2⟩ : RoundtripRequest)
  · exact (roundtripFromBytes_codec .roundtripDone seq).map fun msg =>
      (⟨msg.1, msg.2⟩ : RoundtripDone)

/-- One version, between two bytes that do not belong to it, and its message without `End`. -/
theorem control_codec_versions :
    HandshakeBegin.fromBytes .checked ([7] ++ (HandshakeBegin.new [1]).data ++ [9]) 1 =
      .ok (HandshakeBegin.new [1]) ∧
    Refuses (HandshakeBegin.fromBytes .checked ([7] ++ [2, 33, 16, 1, 1, 0, 0, 0]) 1) := by
  have hcodec := (control_codec .checked).2.1 [1] (by decide)
  exact ⟨hcodec.whole [7] [9] (by decide),
    hcodec.cutOff [7] [2, 33, 16, 1, 1, 0, 0, 0] [0] (by decide) (by decide) (by decide) (by decide)⟩

end Hyprwire
