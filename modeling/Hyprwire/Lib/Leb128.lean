import Mathlib.Tactic.Common
import Mathlib.Algebra.GroupWithZero.Nat
import Mathlib.Data.Nat.Basic

/-!
# `Lib/Leb128.lean` — base-128 little-endian integers

A *varint* is a run of bytes, each carrying seven payload bits, least significant group
first, ended by the first byte whose high bit is clear. The format is read in two ways:

* `encode n` writes the shortest varint of `n`;
* `span`/`value` read the run at the head of any list of bytes: how many bytes it takes and
  the number its payload bits make. Both are total: a run the list ends before its last byte
  spans everything there is.

`Terminated` is the reading under which the two agree: a run that does end. `span_append`
and `value_append` say such a run is self-delimiting, so what follows it is never looked at,
and `span_encode`, `value_encode` that `encode` is a right inverse of reading.
-/

namespace Leb128

/-- The byte says another one follows. -/
def more (b : UInt8) : Bool := 128 ≤ b.toNat

/-- The seven payload bits. -/
def payload (b : UInt8) : Nat := b.toNat % 128

theorem payload_lt (b : UInt8) : payload b < 128 := Nat.mod_lt _ (by decide)

/-- Bytes taken by the run at the head of the list. -/
def span : List UInt8 → Nat
  | [] => 0
  | b :: bs => if more b then span bs + 1 else 1

/-- The number the payload bits of that run make. -/
def value : List UInt8 → Nat
  | [] => 0
  | b :: bs => if more b then payload b + 128 * value bs else payload b

theorem span_le_length : ∀ bs : List UInt8, span bs ≤ bs.length
  | [] => Nat.le_refl _
  | b :: bs => by
    have := span_le_length bs
    simp only [span, List.length_cons]
    split <;> omega

theorem span_pos {bs : List UInt8} (h : bs ≠ []) : 0 < span bs := by
  cases bs with
  | nil => exact absurd rfl h
  | cons b bs => simp only [span]; split <;> omega

/-- `k` groups hold `7 * k` bits. -/
theorem value_lt : ∀ bs : List UInt8, value bs < 128 ^ span bs
  | [] => by simp [value, span]
  | b :: bs => by
    have hb := payload_lt b
    have ih := value_lt bs
    simp only [value, span]
    split
    · rw [Nat.pow_succ]; omega
    · simpa using hb

/-! ## Runs that end -/

/-- The list is exactly one run: every byte but the last has its high bit set. -/
def Terminated : List UInt8 → Prop
  | [] => False
  | [b] => more b = false
  | b :: bs => more b = true ∧ Terminated bs

instance decidableTerminated : DecidablePred Terminated
  | [] => isFalse id
  | [b] => inferInstanceAs (Decidable (more b = false))
  | b :: c :: cs =>
    have := decidableTerminated (c :: cs)
    inferInstanceAs (Decidable (more b = true ∧ Terminated (c :: cs)))

theorem Terminated.cons {b : UInt8} {bs : List UInt8} (hb : more b = true)
    (h : Terminated bs) : Terminated (b :: bs) := by
  cases bs with
  | nil => exact h.elim
  | cons c cs => exact ⟨hb, h⟩

/-- A terminated run, taken from the front: its only byte, or one more and a shorter run. -/
theorem Terminated.cases_on' {b : UInt8} {bs : List UInt8} (h : Terminated (b :: bs)) :
    (more b = false ∧ bs = []) ∨ (more b = true ∧ Terminated bs) := by
  cases bs with
  | nil => exact .inl ⟨h, rfl⟩
  | cons c cs => exact .inr h

theorem Terminated.ne_nil {bs : List UInt8} (h : Terminated bs) : bs ≠ [] := by
  rintro rfl
  exact h

/-- A terminated run spans itself, whatever follows. -/
theorem span_append {bs : List UInt8} (h : Terminated bs) (rest : List UInt8) :
    span (bs ++ rest) = bs.length := by
  induction bs with
  | nil => exact h.elim
  | cons b bs ih =>
    rcases h.cases_on' with ⟨hb, rfl⟩ | ⟨hb, ht⟩
    · simp [span, hb]
    · simp [span, hb, ih ht]

/-- … and its value does not depend on what follows. -/
theorem value_append {bs : List UInt8} (h : Terminated bs) (rest : List UInt8) :
    value (bs ++ rest) = value bs := by
  induction bs with
  | nil => exact h.elim
  | cons b bs ih =>
    rcases h.cases_on' with ⟨hb, rfl⟩ | ⟨hb, ht⟩
    · simp [value, hb]
    · simp [value, hb, ih ht]

/-- A run that was cut off spans what is left of it. -/
theorem span_front {bs missing : List UInt8} (h : Terminated (bs ++ missing)) (hcut : missing ≠ []) :
    span bs = bs.length := by
  induction bs with
  | nil => rfl
  | cons b bs ih =>
    rcases h.cases_on' with ⟨-, hnil⟩ | ⟨hb, ht⟩
    · exact absurd (List.append_eq_nil_iff.mp hnil).2 hcut
    · rw [span, if_pos hb, ih ht, List.length_cons]

/-- … and is no larger a number. -/
theorem value_front_le (bs missing : List UInt8) : value bs ≤ value (bs ++ missing) := by
  induction bs with
  | nil => exact Nat.zero_le _
  | cons b bs ih =>
    rw [List.cons_append, value, value]
    split
    · exact Nat.add_le_add_left (Nat.mul_le_mul_left 128 ih) _
    · exact Nat.le_refl _

/-- The run at the head of a list ends inside it, or takes all of it. -/
theorem terminated_take_span {bs : List UInt8} (h : span bs < bs.length) :
    Terminated (bs.take (span bs)) := by
  induction bs with
  | nil => exact absurd h (by simp [span])
  | cons b bs ih =>
    by_cases hb : more b = true
    · simp only [span, hb, if_true, List.length_cons, List.take_succ_cons] at h ⊢
      exact .cons hb (ih (by omega))
    · simp only [Bool.not_eq_true] at hb
      simp [span, hb, Terminated]

/-- A byte with its high bit clear inside the list ends the run at the head of it. -/
theorem terminated_take_span_of_mem {bs : List UInt8} (h : ∃ b ∈ bs, more b = false) :
    Terminated (bs.take (span bs)) := by
  induction bs with
  | nil => obtain ⟨b, hb, -⟩ := h; exact absurd hb (by simp)
  | cons b bs ih =>
    by_cases hb : more b = true
    · obtain ⟨c, hc, hm⟩ := h
      rcases List.mem_cons.mp hc with rfl | hc
      · rw [hb] at hm; cases hm
      · simp only [span, hb, if_true, List.take_succ_cons]
        exact .cons hb (ih ⟨c, hc, hm⟩)
    · simp only [Bool.not_eq_true] at hb
      simp [span, hb, Terminated]

/-- A terminated run has a byte that ends it. -/
theorem Terminated.exists_last {bs : List UInt8} (h : Terminated bs) : ∃ b ∈ bs, more b = false := by
  induction bs with
  | nil => exact h.elim
  | cons b bs ih =>
    rcases h.cases_on' with ⟨hb, -⟩ | ⟨-, ht⟩
    · exact ⟨b, List.mem_cons_self .., hb⟩
    · obtain ⟨c, hc, hlast⟩ := ih ht
      exact ⟨c, List.mem_cons_of_mem b hc, hlast⟩

/-- The run at the head of a list makes the number of the list. -/
theorem value_take_span {bs : List UInt8} (h : Terminated (bs.take (span bs))) :
    value (bs.take (span bs)) = value bs := by
  conv_rhs => rw [← List.take_append_drop (span bs) bs]
  exact (value_append h _).symm

/-! ## Writing -/

/-- The shortest varint of `n`. -/
def encode (n : Nat) : List UInt8 :=
  if n < 128 then [UInt8.ofNat n] else UInt8.ofNat (n % 128 + 128) :: encode (n / 128)

theorem encode_small {n : Nat} (h : n < 128) : encode n = [UInt8.ofNat n] := by
  rw [encode, if_pos h]

theorem encode_large {n : Nat} (h : ¬ n < 128) :
    encode n = UInt8.ofNat (n % 128 + 128) :: encode (n / 128) := by
  rw [encode, if_neg h]

theorem toNat_ofNat_of_lt {n : Nat} (h : n < 256) : (UInt8.ofNat n).toNat = n := by
  rw [UInt8.toNat_ofNat']
  exact Nat.mod_eq_of_lt h

theorem terminated_encode (n : Nat) : Terminated (encode n) := by
  induction n using Nat.strongRecOn with
  | ind n ih =>
    by_cases h : n < 128
    · rw [encode_small h]
      show more _ = false
      simp only [more, toNat_ofNat_of_lt (show n < 256 by omega)]
      simpa using h
    · rw [encode_large h]
      refine .cons ?_ (ih _ (by omega))
      simp only [more, toNat_ofNat_of_lt (show n % 128 + 128 < 256 by omega)]
      simp

theorem value_encode (n : Nat) : value (encode n) = n := by
  induction n using Nat.strongRecOn with
  | ind n ih =>
    by_cases h : n < 128
    · rw [encode_small h]
      have hb := toNat_ofNat_of_lt (show n < 256 by omega)
      have hm : more (UInt8.ofNat n) = false := by simp only [more, hb]; simpa using h
      simp only [value, hm, payload, hb]
      simpa using Nat.mod_eq_of_lt h
    · rw [encode_large h]
      have hb := toNat_ofNat_of_lt (show n % 128 + 128 < 256 by omega)
      have hm : more (UInt8.ofNat (n % 128 + 128)) = true := by
        simp only [more, hb]; simp
      have hi := ih (n / 128) (by omega)
      simp only [value, hm, if_true, payload, hb, hi]
      omega

theorem span_encode (n : Nat) : span (encode n) = (encode n).length := by
  have := span_append (terminated_encode n) []
  simpa using this

/-- `k` bytes are enough for a number of `7 * k` bits. -/
theorem length_encode_le : ∀ (k n : Nat), n < 128 ^ (k + 1) → (encode n).length ≤ k + 1
  | k, n, h => by
    by_cases hs : n < 128
    · rw [encode_small hs]; simp
    · rw [encode_large hs]
      cases k with
      | zero => exact absurd (by simpa using h) hs
      | succ k =>
        have : n / 128 < 128 ^ (k + 1) := by
          rw [Nat.div_lt_iff_lt_mul (by decide)]
          rwa [Nat.pow_succ] at h
        have := length_encode_le k (n / 128) this
        simp only [List.length_cons]
        omega

/-- No run whose payload makes `n` or more is shorter than `encode n`. -/
theorem length_encode_le_span {bs : List UInt8} {n : Nat} (hne : bs ≠ []) (h : n ≤ value bs) :
    (encode n).length ≤ span bs := by
  obtain ⟨k, hk⟩ := Nat.exists_eq_succ_of_ne_zero (Nat.ne_of_gt (span_pos hne))
  have hlt : n < 128 ^ (k + 1) := by
    calc n ≤ value bs := h
      _ < 128 ^ span bs := value_lt bs
      _ = 128 ^ (k + 1) := by rw [hk]
  rw [hk]
  exact length_encode_le k n hlt

end Leb128
