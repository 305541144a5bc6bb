import Hyprwire.Core.VarInt

/-!
# `Core/Unreported.lean` — what `parse_var_int` does not report

`parse_var_int` answers with two numbers and has no way to say that there was no varint, though
`Error` has an `InvalidVarInt` for it. Where the bytes at the offset begin with a run that ends and
whose number fits, the answer is exact, however long the run is padded (`parseVarInt_exact`); a
checked build takes ten bytes at most. Everywhere else something is passed off for a number, or the
thread unwinds (`exact_or_reported_iff`).
-/

namespace Hyprwire

open Rust

/-! ## Long runs in a release build -/

/-- A group of zeros is shifted by any distance. -/
theorem ushl_zero_wrapping {ε : Type} (s : Nat) : (ushl .wrapping 0 s : Outcome ε Nat) = .ok 0 := by
  unfold ushl
  split <;> simp

/-- **The wrapped shifts lose nothing of a number that fits.** From the eleventh byte on the distance
is reduced, but there a group that is not zero would be too large. -/
theorem parseVarIntSpanFrom_exact : ∀ {bs : List UInt8} {r i : Nat},
    r + 128 ^ i * Leb128.value bs < 2 ^ 64 → i + bs.length < 2 ^ 64 →
      parseVarIntSpanFrom .wrapping bs r i
        = .ok (r + 128 ^ i * Leb128.value bs, i + Leb128.span bs)
  | [], r, i, _, _ => by
    rw [parseVarIntSpanFrom, Leb128.value, Leb128.span, Nat.mul_zero, Nat.add_zero, Nat.add_zero]
  | b :: bs, r, i, hfit, hlen => by
    rw [List.length_cons] at hlen
    -- One group: what is rolled in is exactly its share of the number.
    have hroll : r + 128 ^ i * Leb128.payload b < 2 ^ 64 →
        ∃ dist chunk, (umul .wrapping i 7 : Outcome Error Nat) = .ok dist ∧
          (ushl .wrapping (Leb128.payload b) dist : Outcome Error Nat) = .ok chunk ∧
          (uadd .wrapping r chunk : Outcome Error Nat) = .ok (r + 128 ^ i * Leb128.payload b) := by
      intro hgroup
      refine ⟨i * 7 % 2 ^ 64, 128 ^ i * Leb128.payload b, umul_wrapping i 7, ?_, uadd_eq hgroup⟩
      by_cases hzero : Leb128.payload b = 0
      · rw [hzero, Nat.mul_zero]
        exact ushl_zero_wrapping _
      · have hpow : 128 ^ i < 2 ^ 64 := by
          calc 128 ^ i ≤ 128 ^ i * Leb128.payload b :=
                Nat.le_mul_of_pos_right _ (Nat.pos_of_ne_zero hzero)
            _ ≤ r + 128 ^ i * Leb128.payload b := Nat.le_add_left _ _
            _ < 2 ^ 64 := hgroup
        have hi : i < 10 := by
          by_contra hge
          have hle := Nat.pow_le_pow_right (show 0 < 128 by decide) (Nat.le_of_not_lt hge)
          exact absurd (Nat.lt_of_le_of_lt hle hpow) (by decide)
        have hdist : (2 : Nat) ^ (i * 7) = 128 ^ i := by rw [Nat.mul_comm, Nat.pow_mul]
        rw [Nat.mod_eq_of_lt (show i * 7 < 2 ^ 64 by omega), ushl_eq (by omega), hdist, Nat.mul_comm,
          Nat.mod_eq_of_lt (Nat.lt_of_le_of_lt (Nat.le_add_left _ _) hgroup)]
    simp only [parseVarIntSpanFrom, toNat_and_low]
    by_cases hb : Leb128.more b = true
    · have hvalue : 128 ^ i * Leb128.value (b :: bs)
          = 128 ^ i * Leb128.payload b + 128 ^ (i + 1) * Leb128.value bs := by
        rw [Leb128.value, if_pos hb, Nat.mul_add, Nat.pow_succ, Nat.mul_assoc]
      rw [hvalue, ← Nat.add_assoc] at hfit ⊢
      obtain ⟨dist, chunk, hdist, hchunk, hadd⟩ :=
        hroll (Nat.lt_of_le_of_lt (Nat.le_add_right _ _) hfit)
      rw [hdist, Outcome.ok_bind, hchunk, Outcome.ok_bind, hadd, Outcome.ok_bind,
        uadd_eq (by omega), Outcome.ok_bind, if_neg (by rw [and_high_eq_zero, hb]; simp),
        parseVarIntSpanFrom_exact hfit (by omega), Leb128.span, if_pos hb]
      congr 2
      omega
    · have hb' : Leb128.more b = false := Bool.eq_false_iff.mpr hb
      rw [Leb128.value, if_neg hb] at hfit ⊢
      obtain ⟨dist, chunk, hdist, hchunk, hadd⟩ := hroll hfit
      rw [hdist, Outcome.ok_bind, hchunk, Outcome.ok_bind, hadd, Outcome.ok_bind,
        uadd_eq (by omega), Outcome.ok_bind, if_pos ((and_high_eq_zero b).mpr hb'), Leb128.span,
        if_neg hb]

/-! ## Exact, or reported -/

/-- The caller can tell that there was no varint: by an error, or because nothing was consumed. -/
def Signalled : Outcome Error (Nat × Nat) → Prop
  | .err _ => True
  | .ok (_, n) => n = 0
  | .panic _ | .stall => False

/-- The bytes are one varint, `n` bytes long, and `v` is its number, which a `usize` holds. -/
structure Reads (bytes : List UInt8) (v n : Nat) : Prop where
  length : bytes.length = n
  terminated : Leb128.Terminated bytes
  value : v = Leb128.value bytes
  fits : v < 2 ^ 64

/-- The data end inside the run. -/
def Unterminated (bytes : List UInt8) : Prop := bytes ≠ [] ∧ ∀ b ∈ bytes, Leb128.more b = true

/-- The run ends and makes a number that no `usize` holds. -/
def Oversized (bytes : List UInt8) : Prop :=
  Leb128.Terminated (bytes.take (Leb128.span bytes)) ∧ 2 ^ 64 ≤ Leb128.value bytes

/-- **Exact or reported**: the call comes back; what it says it consumed is a varint whose number it
gives; and a run that does not end, or does not fit, is signalled. -/
structure ExactOrReported (m : Overflow) (data : List UInt8) (offset : Nat) : Prop where
  returns : (parseVarInt m data offset).Returns
  exact : ∀ v n, parseVarInt m data offset = .ok (v, n) → 1 ≤ n →
    Reads ((data.drop offset).take n) v n
  unterminated : Unterminated (data.drop offset) → Signalled (parseVarInt m data offset)
  oversized : Oversized (data.drop offset) → Signalled (parseVarInt m data offset)

/-- **The condition** on the bytes at the offset: they begin with a run that ends, its number fits,
and a checked build finds its end within ten bytes. -/
structure Representable (m : Overflow) (bytes : List UInt8) : Prop where
  ends : ∃ b ∈ bytes, Leb128.more b = false
  fits : Leb128.value bytes < 2 ^ 64
  short : m = .checked → Leb128.span bytes ≤ 10

/-- What is representable is read for what it is, in either build. -/
theorem parseVarInt_exact {m : Overflow} {data : List UInt8} {offset : Nat}
    (hlen : data.length < 2 ^ 64) (h : Representable m (data.drop offset)) :
    parseVarInt m data offset
      = .ok (Leb128.value (data.drop offset), Leb128.span (data.drop offset)) := by
  cases m with
  | checked => rw [parseVarInt_eq (h.short rfl), Nat.mod_eq_of_lt h.fits]
  | wrapping =>
    have hdrop : 0 + (data.drop offset).length < 2 ^ 64 := by
      rw [List.length_drop]
      omega
    have hfit : 0 + 128 ^ 0 * Leb128.value (data.drop offset) < 2 ^ 64 := by
      rw [Nat.zero_add, Nat.pow_zero, Nat.one_mul]
      exact h.fits
    rw [parseVarInt_eq_span, parseVarIntSpanFrom_exact hfit hdrop, Nat.zero_add, Nat.zero_add,
      Nat.pow_zero, Nat.one_mul]

/-- A call that comes back says it consumed the run at the offset. -/
theorem parseVarInt_of_returns {m : Overflow} {data : List UInt8} {offset : Nat}
    (hlen : data.length < 2 ^ 64) (h : (parseVarInt m data offset).Returns) :
    ∃ v, parseVarInt m data offset = .ok (v, Leb128.span (data.drop offset)) := by
  cases m with
  | checked => exact ⟨_, parseVarInt_eq (returns_parseVarInt_checked.mp h)⟩
  | wrapping =>
    obtain ⟨v, -, heq⟩ := parseVarInt_wrapping hlen offset
    exact ⟨v, heq⟩

/-- **`parse_var_int` is exact or reports** exactly where there is nothing to read, and where the
bytes at the offset are representable. -/
theorem exact_or_reported_iff {m : Overflow} {data : List UInt8} {offset : Nat}
    (hlen : data.length < 2 ^ 64) :
    ExactOrReported m data offset ↔
      data.length ≤ offset ∨ Representable m (data.drop offset) := by
  constructor
  · intro h
    by_cases hpast : data.length ≤ offset
    · exact .inl hpast
    · have hne : data.drop offset ≠ [] := fun hnil => hpast (List.drop_eq_nil_iff.mp hnil)
      obtain ⟨v, heq⟩ := parseVarInt_of_returns hlen h.returns
      have hreads := h.exact v _ heq (Leb128.span_pos hne)
      refine .inr ⟨?_, ?_, fun hm => ?_⟩
      · obtain ⟨b, hb, hlast⟩ := hreads.terminated.exists_last
        exact ⟨b, List.mem_of_mem_take hb, hlast⟩
      · rw [← Leb128.value_take_span hreads.terminated, ← hreads.value]
        exact hreads.fits
      · subst hm
        exact returns_parseVarInt_checked.mp h.returns
  · rintro (hpast | hrep)
    · have hnil : data.drop offset = [] := List.drop_eq_nil_of_le hpast
      have heq : parseVarInt m data offset = .ok (0, 0) := if_pos hpast
      refine ⟨by rw [heq]; exact trivial, fun v n hok hn => ?_, fun hrun => ?_, fun hrun => ?_⟩
      · rw [heq] at hok
        cases hok
        exact absurd hn (Nat.not_succ_le_zero 0)
      · exact absurd hnil hrun.1
      · rw [heq]
        exact rfl
    · have heq := parseVarInt_exact hlen hrep
      have hends := Leb128.terminated_take_span_of_mem hrep.ends
      refine ⟨by rw [heq]; exact trivial, fun v n hok _ => ?_, fun hrun => ?_, fun hrun => ?_⟩
      · rw [heq] at hok
        cases hok
        exact ⟨List.length_take_of_le (Leb128.span_le_length _), hends,
          (Leb128.value_take_span hends).symm, hrep.fits⟩
      · -- Some byte ends the run, so that not all of them go on.
        obtain ⟨b, hb, hlast⟩ := hrep.ends
        rw [hrun.2 b hb] at hlast
        cases hlast
      · exact absurd hrep.fits (Nat.not_lt_of_le hrun.2)

/-- Zero, padded to eleven bytes, in the middle of a message: a release build reads it. -/
def padded : List UInt8 := [0x19] ++ List.replicate 10 0x80 ++ [0x00]

theorem exact_or_reported_padded :
    ExactOrReported .wrapping padded 1 ∧ parseVarInt .wrapping padded 1 = .ok (0, 11) ∧
      ¬ ExactOrReported .checked padded 1 := by
  have hlen : padded.length < 2 ^ 64 := by decide
  refine ⟨(exact_or_reported_iff hlen).mpr (.inr ⟨?_, ?_, nofun⟩), ?_, fun h => ?_⟩
  · exact ⟨0x00, by decide, rfl⟩
  · decide
  · decide +kernel
  · rcases (exact_or_reported_iff hlen).mp h with hpast | hrep
    · exact absurd hpast (by decide)
    · exact absurd (hrep.short rfl) (by decide)

/-- A byte that promises another one is a varint of its own to either build, and the 65 bits of
2^64 + 1 are cut to 1. -/
theorem neither_exact_nor_reported :
    (∀ m, ¬ ExactOrReported m [0x80] 0) ∧
      ∀ m, ¬ ExactOrReported m ([0x81] ++ List.replicate 8 0x80 ++ [0x02]) 0 := by
  constructor
  · intro m h
    have heq : parseVarInt m [0x80] 0 = .ok (0, 1) := by cases m <;> decide +kernel
    have hreads := h.exact 0 1 heq (Nat.le_refl 1)
    exact absurd hreads.terminated (by decide)
  · intro m h
    have heq : parseVarInt m ([0x81] ++ List.replicate 8 0x80 ++ [0x02]) 0 = .ok (1, 10) := by
      cases m <;> decide +kernel
    have hreads := h.exact 1 10 heq (by decide)
    exact absurd hreads.value (by decide)

end Hyprwire
