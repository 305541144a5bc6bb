import Hyprwire.Lib.Leb128
import Hyprwire.Core.Types

/-!
# `Core/VarInt.lean` — `encode_var_int` and `parse_var_int`

The two functions of `message/mod.rs`, and what they mean in terms of `Leb128`:

* `encode_var_int` writes `Leb128.encode`, and its 10-byte buffer is enough for every
  `usize` (`encodeVarInt_eq`);
* `parse_var_int` reads `Leb128.span` bytes. Up to ten of them, both builds agree and the
  value is `Leb128.value` cut to 64 bits (`parseVarInt_eq`). An eleventh byte is shifted by
  70: a checked build panics there (`parseVarInt_checked_panic`), a release build reduces
  the shift distance and goes on (`parseVarInt_wrapping`);
* `encode_var_int` again, as the loop it is, over a buffer it writes into (`varIntLoop`). It
  ends and leaves the bytes of the first model (`varIntLoop_eq`), and what it writes is read
  back (`varInt_round_trip`).
-/

namespace Hyprwire

open Rust

/-! ## Writing -/

/-- `encode_var_int` into a buffer with `room` bytes left; `none` is an index past its end. -/
def encodeVarInt (num : Nat) : (room : Nat) → Option (List UInt8)
  | 0 => none
  | room + 1 =>
    let chunk := UInt8.ofNat (num &&& 0x7F)
    let n := num >>> 7
    if n = 0 then some [chunk] else (encodeVarInt n room).map ((chunk ||| 0x80) :: ·)

/-- The bytes a caller copies out of its `[0u8; 10]` buffer. -/
def varInt (num : Nat) : List UInt8 := (encodeVarInt num 10).getD []

theorem ofNat_or_high {k : Nat} (h : k < 128) :
    UInt8.ofNat k ||| 0x80 = UInt8.ofNat (k + 128) := by
  apply UInt8.toNat_inj.mp
  rw [UInt8.toNat_or, Leb128.toNat_ofNat_of_lt (show k < 256 by omega),
    Leb128.toNat_ofNat_of_lt (show k + 128 < 256 by omega)]
  have : (0x80 : UInt8).toNat = 2 ^ 7 * 1 := rfl
  rw [this, Nat.or_comm, ← Nat.two_pow_add_eq_or_of_lt h]
  omega

theorem encodeVarInt_eq_of_lt : ∀ (room num : Nat), num < 128 ^ (room + 1) →
    encodeVarInt num (room + 1) = some (Leb128.encode num)
  | room, num, h => by
    have hand : num &&& 0x7F = num % 128 := Nat.and_two_pow_sub_one_eq_mod num 7
    have hshr : num >>> 7 = num / 128 := Nat.shiftRight_eq_div_pow num 7
    simp only [encodeVarInt, hand, hshr]
    by_cases hs : num < 128
    · rw [if_pos (by omega), Leb128.encode_small hs, Nat.mod_eq_of_lt hs]
    · rw [if_neg (by omega), Leb128.encode_large hs]
      cases room with
      | zero => exact absurd (by simpa using h) hs
      | succ room =>
        have hlt : num / 128 < 128 ^ (room + 1) := by
          rw [Nat.div_lt_iff_lt_mul (by decide)]
          rwa [Nat.pow_succ] at h
        rw [encodeVarInt_eq_of_lt room _ hlt, Option.map_some,
          ofNat_or_high (Nat.mod_lt _ (by decide))]

/-- **The 10-byte buffer is enough**: no `usize` makes `encode_var_int` index past it. -/
theorem encodeVarInt_eq {num : Nat} (h : num < 2 ^ 64) :
    encodeVarInt num 10 = some (Leb128.encode num) :=
  encodeVarInt_eq_of_lt 9 num (by omega)

theorem varInt_eq {num : Nat} (h : num < 2 ^ 64) : varInt num = Leb128.encode num := by
  rw [varInt, encodeVarInt_eq h]; rfl

/-! ## Reading -/

/-- `parse_var_int_span` from the loop state `rolling`, `i` on. -/
def parseVarIntSpanFrom (m : Overflow) : List UInt8 → Nat → Nat → Outcome Error (Nat × Nat)
  | [], rolling, i => .ok (rolling, i)
  | byte :: rest, rolling, i => do
    let dist ← umul m i 7
    let chunk ← ushl m (byte &&& 0x7F).toNat dist
    let rolling ← uadd m rolling chunk
    let i ← uadd m i 1
    if byte &&& 0x80 = 0 then .ok (rolling, i) else parseVarIntSpanFrom m rest rolling i

def parseVarIntSpan (m : Overflow) (data : List UInt8) : Outcome Error (Nat × Nat) :=
  parseVarIntSpanFrom m data 0 0

def parseVarInt (m : Overflow) (data : List UInt8) (offset : Nat) : Outcome Error (Nat × Nat) :=
  if data.length ≤ offset then .ok (0, 0) else parseVarIntSpan m (data.drop offset)

theorem toNat_and_low (b : UInt8) : (b &&& 0x7F).toNat = Leb128.payload b := by
  rw [UInt8.toNat_and]
  exact Nat.and_two_pow_sub_one_eq_mod b.toNat 7

theorem and_high_eq_zero (b : UInt8) : b &&& 0x80 = 0 ↔ Leb128.more b = false := by
  have key : ∀ i : Fin 256, (i.val &&& 128 = 0) ↔ ¬ 128 ≤ i.val := by decide +kernel
  have hb := key ⟨b.toNat, b.toNat_lt⟩
  rw [← UInt8.toNat_inj, UInt8.toNat_and, Leb128.more, decide_eq_false_iff_not]
  exact hb

/-- Seven more bits at shift distance `7 * i`. The tenth group keeps one of its bits. -/
theorem roll_step {r i k : Nat} (hi : i < 10) (hr : r < 128 ^ i) (hr64 : r < 2 ^ 64)
    (hk : k < 128) :
    r + k * 2 ^ (i * 7) % 2 ^ 64 < 2 ^ 64 ∧ r + k * 2 ^ (i * 7) % 2 ^ 64 < 128 ^ (i + 1) := by
  rw [Nat.mul_comm i 7, Nat.pow_mul, show (2 : Nat) ^ 7 = 128 from rfl, Nat.pow_succ]
  by_cases h9 : i = 9
  · subst h9
    have : (128 : Nat) ^ 9 = 2 ^ 63 := by decide
    omega
  · have hle : (128 : Nat) ^ (i + 1) ≤ 128 ^ 9 := Nat.pow_le_pow_right (by decide) (by omega)
    have h63 : (128 : Nat) ^ 9 = 2 ^ 63 := by decide
    have hmul := Nat.mul_le_mul_right (128 ^ i) (show k ≤ 127 by omega)
    have hmod := Nat.mod_le (k * 128 ^ i) (2 ^ 64)
    rw [Nat.pow_succ] at hle
    omega

theorem parseVarIntSpanFrom_eq {m : Overflow} : ∀ {bs : List UInt8} {r i : Nat},
    i + Leb128.span bs ≤ 10 → r < 128 ^ i → r < 2 ^ 64 →
      parseVarIntSpanFrom m bs r i
        = .ok ((r + 128 ^ i * Leb128.value bs) % 2 ^ 64, i + Leb128.span bs)
  | [], r, i, _, _, hr64 => by
    rw [parseVarIntSpanFrom, Leb128.value, Leb128.span, Nat.mul_zero, Nat.add_zero, Nat.add_zero,
      Nat.mod_eq_of_lt hr64]
  | b :: bs, r, i, hs, hr, hr64 => by
    have hpos := Leb128.span_pos (show b :: bs ≠ [] by simp)
    have hi : i < 10 := by omega
    obtain ⟨hfit, hroll⟩ := roll_step hi hr hr64 (Leb128.payload_lt b)
    have hpow : (2 : Nat) ^ (i * 7) = 128 ^ i := by
      rw [Nat.mul_comm, Nat.pow_mul]
    simp only [parseVarIntSpanFrom, toNat_and_low]
    rw [umul_eq (by omega), Outcome.ok_bind, ushl_eq (by omega), Outcome.ok_bind, uadd_eq hfit,
      Outcome.ok_bind, uadd_eq (by omega), Outcome.ok_bind]
    by_cases hb : Leb128.more b = true
    · rw [if_neg (by rw [and_high_eq_zero, hb]; simp)]
      simp only [Leb128.span, Leb128.value, hb, if_true] at hs ⊢
      rw [parseVarIntSpanFrom_eq (by omega) hroll hfit]
      have hexp : 128 ^ i * (Leb128.payload b + 128 * Leb128.value bs)
          = Leb128.payload b * 128 ^ i + 128 ^ (i + 1) * Leb128.value bs := by
        rw [Nat.pow_succ, Nat.mul_add, Nat.mul_comm (128 ^ i) (Leb128.payload b), Nat.mul_assoc]
      simp only [hpow, Outcome.ok.injEq, Prod.mk.injEq, hexp]
      refine ⟨by omega, by omega⟩
    · simp only [Bool.not_eq_true] at hb
      rw [if_pos ((and_high_eq_zero b).mpr hb)]
      simp only [Leb128.span, Leb128.value, hb, Bool.false_eq_true, if_false, hpow] at hfit ⊢
      rw [Nat.mul_comm (128 ^ i), ← Nat.add_mod_mod, Nat.mod_eq_of_lt hfit]

/-- An eleventh byte is shifted by 70 bits, which a checked build refuses. -/
theorem parseVarIntSpanFrom_checked_panic : ∀ {bs : List UInt8} {r i : Nat},
    10 < i + Leb128.span bs → i ≤ 10 → r < 128 ^ i → r < 2 ^ 64 →
      parseVarIntSpanFrom .checked bs r i = .panic .shlOverflow
  | [], r, i, hs, hi, _, _ => by simp only [Leb128.span] at hs; omega
  | b :: bs, r, i, hs, hi, hr, hr64 => by
    simp only [parseVarIntSpanFrom, toNat_and_low]
    rw [umul_eq (by omega), Outcome.ok_bind]
    by_cases h10 : i = 10
    · subst h10; rfl
    · obtain ⟨hfit, hroll⟩ := roll_step (show i < 10 by omega) hr hr64 (Leb128.payload_lt b)
      have hb : Leb128.more b = true := by
        by_contra hb
        simp only [Leb128.span, hb, if_false] at hs
        omega
      rw [ushl_eq (by omega), Outcome.ok_bind, uadd_eq hfit, Outcome.ok_bind,
        uadd_eq (by omega), Outcome.ok_bind, if_neg (by rw [and_high_eq_zero, hb]; simp)]
      simp only [Leb128.span, hb, if_true] at hs
      exact parseVarIntSpanFrom_checked_panic (by omega) (by omega) hroll hfit

theorem parseVarIntSpanFrom_wrapping : ∀ {bs : List UInt8} {r i : Nat},
    r < 2 ^ 64 → i + bs.length < 2 ^ 64 →
      ∃ v, v < 2 ^ 64 ∧ parseVarIntSpanFrom .wrapping bs r i = .ok (v, i + Leb128.span bs)
  | [], r, i, hr, _ => ⟨r, hr, rfl⟩
  | b :: bs, r, i, hr, hi => by
    simp only [List.length_cons] at hi
    simp only [parseVarIntSpanFrom, umul_wrapping, Outcome.ok_bind]
    obtain ⟨c, hc⟩ : ∃ c, (ushl .wrapping (b &&& 0x7F).toNat (i * 7 % 2 ^ 64) :
        Outcome Error Nat) = .ok c := by
      unfold ushl
      split
      · exact ⟨_, rfl⟩
      · exact ⟨_, rfl⟩
    rw [hc, Outcome.ok_bind, uadd_wrapping, Outcome.ok_bind, uadd_eq (by omega), Outcome.ok_bind]
    by_cases hb : Leb128.more b = true
    · rw [if_neg (by rw [and_high_eq_zero, hb]; simp)]
      obtain ⟨v, hv, he⟩ := parseVarIntSpanFrom_wrapping
        (Nat.mod_lt (r + c) (by decide)) (show i + 1 + bs.length < 2 ^ 64 by omega)
      exact ⟨v, hv, by rw [he]; simp only [Leb128.span, hb, if_true]; congr 2; omega⟩
    · simp only [Bool.not_eq_true] at hb
      rw [if_pos ((and_high_eq_zero b).mpr hb)]
      exact ⟨_, Nat.mod_lt (r + c) (by decide), by simp [Leb128.span, hb]⟩

/-- A run that ends is read the same way whatever follows it, in either build. -/
theorem parseVarIntSpanFrom_append {m : Overflow} {bs : List UInt8} (h : Leb128.Terminated bs)
    (rest : List UInt8) : ∀ r i, parseVarIntSpanFrom m (bs ++ rest) r i
      = parseVarIntSpanFrom m bs r i := by
  induction bs with
  | nil => exact h.elim
  | cons b bs ih =>
    intro r i
    simp only [List.cons_append, parseVarIntSpanFrom]
    rcases h.cases_on' with ⟨hb, rfl⟩ | ⟨hb, ht⟩
    · simp only [if_pos ((and_high_eq_zero b).mpr hb)]
    · simp only [ih ht]

/-! ## `parse_var_int` at an offset

The bounds check on the offset disappears here: past the end of the data `drop` is empty,
and the empty run has span and value 0, which is what the source answers. -/

theorem parseVarInt_eq_span (m : Overflow) (data : List UInt8) (p : Nat) :
    parseVarInt m data p = parseVarIntSpanFrom m (data.drop p) 0 0 := by
  unfold parseVarInt
  split
  · next h => rw [List.drop_eq_nil_of_le h]; rfl
  · rfl

/-- **Up to ten bytes both builds read `Leb128.value`**, cut to 64 bits. -/
theorem parseVarInt_eq {m : Overflow} {data : List UInt8} {p : Nat}
    (h : Leb128.span (data.drop p) ≤ 10) :
    parseVarInt m data p
      = .ok (Leb128.value (data.drop p) % 2 ^ 64, Leb128.span (data.drop p)) := by
  rw [parseVarInt_eq_span, parseVarIntSpanFrom_eq (by omega) (by decide) (by decide)]
  simp

/-- **An eleventh byte panics a checked build.** -/
theorem parseVarInt_checked_panic {data : List UInt8} {p : Nat}
    (h : 10 < Leb128.span (data.drop p)) :
    parseVarInt .checked data p = .panic .shlOverflow := by
  rw [parseVarInt_eq_span]
  exact parseVarIntSpanFrom_checked_panic (by omega) (by omega) (by decide) (by decide)

theorem returns_parseVarInt_checked {data : List UInt8} {p : Nat} :
    (parseVarInt .checked data p).Returns ↔ Leb128.span (data.drop p) ≤ 10 := by
  by_cases h : Leb128.span (data.drop p) ≤ 10
  · rw [parseVarInt_eq h]; simp [h]
  · rw [parseVarInt_checked_panic (by omega)]; simp [h]

/-- A release build always answers, and always with the span. -/
theorem parseVarInt_wrapping {data : List UInt8} (h : data.length < 2 ^ 64) (p : Nat) :
    ∃ v, v < 2 ^ 64 ∧ parseVarInt .wrapping data p = .ok (v, Leb128.span (data.drop p)) := by
  rw [parseVarInt_eq_span]
  have hlen : 0 + (data.drop p).length < 2 ^ 64 := by rw [List.length_drop]; omega
  simpa using parseVarIntSpanFrom_wrapping (show 0 < 2 ^ 64 by decide) hlen

/-- A terminated prefix of at most ten bytes is read for what it is, whatever follows it. -/
theorem parseVarInt_of_drop {m : Overflow} {data vb rest : List UInt8} {p : Nat}
    (hd : data.drop p = vb ++ rest) (ht : Leb128.Terminated vb) (hlen : vb.length ≤ 10) :
    parseVarInt m data p = .ok (Leb128.value vb % 2 ^ 64, vb.length) := by
  have hs : Leb128.span (data.drop p) = vb.length := by rw [hd, Leb128.span_append ht]
  rw [parseVarInt_eq (by omega), hs, hd, Leb128.value_append ht]

/-- Reading back what `encode_var_int` wrote. -/
theorem parseVarInt_encode {m : Overflow} {data rest : List UInt8} {p n : Nat}
    (hd : data.drop p = Leb128.encode n ++ rest) (hn : n < 2 ^ 64) :
    parseVarInt m data p = .ok (n, (Leb128.encode n).length) := by
  have hlen := Leb128.length_encode_le 9 n (by omega)
  rw [parseVarInt_of_drop hd (Leb128.terminated_encode n) hlen, Leb128.value_encode,
    Nat.mod_eq_of_lt hn]

/-! ## The loop of `encode_var_int`, and the round trip

`encodeVarInt` above takes two things for granted that the source spells out: that the seven
bits it masks out are a `u8` (the loop has a `continue` for when they are not, which would
run forever), and that the bytes go one after the other into the caller's buffer. -/

/-- `encode_var_int` at the head of its loop, `fuel` passes before it counts as stuck: `n` is
what is left of the number, `i` the index written next. -/
def varIntLoop : (fuel : Nat) → (n i : Nat) → (buffer : List UInt8) → Outcome Error (List UInt8)
  | 0, _, _, _ => .stall
  | fuel + 1, n, i, buffer =>
    if n &&& 0x7F < 256 then
      let chunk := UInt8.ofNat (n &&& 0x7F)
      let n := n >>> 7
      if i < buffer.length then
        let buffer := buffer.set i (if n = 0 then chunk else chunk ||| 0x80)
        if n = 0 then .ok (buffer.take (i + 1)) else varIntLoop fuel n (i + 1) buffer
      else .panic .indexOutOfRange
    else varIntLoop fuel n i buffer

theorem set_take_succ {buffer : List UInt8} {i : Nat} (h : i < buffer.length) (b : UInt8) :
    (buffer.set i b).take (i + 1) = buffer.take i ++ [b] := by
  rw [List.take_succ_eq_append_getElem (by rwa [List.length_set]), List.take_set_of_le (le_refl i),
    List.getElem_set_self]

/-- The loop writes behind what is in the buffer already, and one pass for each byte of room
is enough to end it. -/
theorem varIntLoop_eq_append : ∀ (room fuel n i : Nat) (buffer bytes : List UInt8),
    encodeVarInt n room = some bytes → room ≤ fuel → i + room ≤ buffer.length →
      varIntLoop fuel n i buffer = .ok (buffer.take i ++ bytes)
  | 0, _, _, _, _, _, h, _, _ => nomatch h
  | room + 1, 0, _, _, _, _, _, hfuel, _ => absurd hfuel (Nat.not_succ_le_zero room)
  | room + 1, fuel + 1, n, i, buffer, bytes, h, hfuel, hroom => by
    have hchunk : n &&& 0x7F < 256 := Nat.lt_of_le_of_lt Nat.and_le_right (by decide)
    have hi : i < buffer.length := by omega
    simp only [encodeVarInt] at h
    simp only [varIntLoop, if_pos hchunk, if_pos hi]
    by_cases hlast : n >>> 7 = 0
    · rw [if_pos hlast] at h
      cases h
      simp only [if_pos hlast, set_take_succ hi]
    · rw [if_neg hlast] at h
      obtain ⟨tail, htail, rfl⟩ := Option.map_eq_some_iff.mp h
      simp only [if_neg hlast]
      rw [varIntLoop_eq_append room fuel _ (i + 1) _ tail htail (by omega)
        (by rw [List.length_set]; omega), set_take_succ hi, List.append_assoc,
        List.singleton_append]

/-- **The loop ends** within ten passes, and a buffer of ten bytes is never indexed past. -/
theorem varIntLoop_eq {n fuel : Nat} {buffer : List UInt8} (h : n < 2 ^ 64) (hfuel : 10 ≤ fuel)
    (hbuf : 10 ≤ buffer.length) : varIntLoop fuel n 0 buffer = .ok (varInt n) := by
  rw [varIntLoop_eq_append 10 fuel n 0 buffer _ (encodeVarInt_eq h) hfuel (by omega), varInt_eq h,
    List.take_zero, List.nil_append]

/-- Whatever bytes `parse_var_int` reads `n` from, `encode_var_int` writes no more of them. -/
theorem length_varInt_le_of_parse {m : Overflow} {bs : List UInt8} {n : Nat} (h : n < 2 ^ 64)
    (hne : bs ≠ []) (hp : parseVarInt m bs 0 = .ok (n, bs.length)) :
    (varInt n).length ≤ bs.length := by
  rw [varInt_eq h]
  by_cases hspan : Leb128.span bs ≤ 10
  · rw [parseVarInt_eq (by simpa using hspan), List.drop_zero] at hp
    simp only [Outcome.ok.injEq, Prod.mk.injEq] at hp
    obtain ⟨hval, hlen⟩ := hp
    have hle : n ≤ Leb128.value bs := hval ▸ Nat.mod_le _ _
    exact Nat.le_trans (Leb128.length_encode_le_span hne hle) (Nat.le_of_eq hlen)
  · have hshort := Leb128.length_encode_le 9 n (by omega)
    have hlong := Leb128.span_le_length bs
    omega

/-- **Every `usize` survives the trip**, in either build and wherever in the data it stands:
`encode_var_int` ends inside any buffer of ten bytes, nothing shorter is read as the number, and
`parse_var_int` reads the number and the length of its encoding back. -/
theorem varInt_round_trip (m : Overflow) (n : Nat) (h : n < 2 ^ 64) :
    (∀ fuel buffer, 10 ≤ fuel → 10 ≤ buffer.length →
      varIntLoop fuel n 0 buffer = .ok (varInt n)) ∧
    (varInt n).length ≤ 10 ∧
    (∀ bs, bs ≠ [] → parseVarInt m bs 0 = .ok (n, bs.length) → (varInt n).length ≤ bs.length) ∧
    ∀ front back, parseVarInt m (front ++ varInt n ++ back) front.length
      = .ok (n, (varInt n).length) := by
  refine ⟨?_, ?_, ?_, ?_⟩
  · intro fuel buffer hfuel hbuf
    exact varIntLoop_eq h hfuel hbuf
  · rw [varInt_eq h]
    exact Leb128.length_encode_le 9 n (by omega)
  · intro bs hne hp
    exact length_varInt_le_of_parse h hne hp
  · intro front back
    have hdrop : (front ++ varInt n ++ back).drop front.length = Leb128.encode n ++ back := by
      rw [List.append_assoc, List.drop_left, varInt_eq h]
    rw [parseVarInt_encode hdrop h, varInt_eq h]

/-- At the top of the range, ten bytes in the middle of a message. -/
theorem varInt_round_trip_max :
    (varInt (2 ^ 64 - 1)).length = 10 ∧
    parseVarInt .checked ([0x19] ++ varInt (2 ^ 64 - 1) ++ [0]) 1 = .ok (2 ^ 64 - 1, 10) := by
  have hlen : (varInt (2 ^ 64 - 1)).length = 10 := by decide +kernel
  obtain ⟨-, -, -, hback⟩ := varInt_round_trip .checked (2 ^ 64 - 1) (by decide)
  exact ⟨hlen, hlen ▸ hback [0x19] [0]⟩

end Hyprwire
