import Mathlib.Tactic.Common

/-!
# `Lib/Bytes.lean` — reading a list of bytes at an offset

The decoders of this development take a whole buffer and an offset into it. Two notations
connect that to lists: a buffer *splits* at an offset as `pre ++ rest` with
`pre.length = offset`, and `data.drop offset` is that `rest`. The lemmas here move a
lookup from the first form to the second, so that a proof never does list surgery twice.

The second half is the 4-byte little-endian word, in both directions.
-/

namespace Bytes

variable {α : Type}

/-! ## Lookups and `drop` -/

theorem getElem?_eq_head?_drop (data : List α) (p : Nat) : data[p]? = (data.drop p).head? := by
  rw [List.head?_drop]

theorem drop_eq_cons_of_getElem? {data : List α} {p : Nat} {a : α} (h : data[p]? = some a) :
    data.drop p = a :: data.drop (p + 1) := by
  obtain ⟨hlt, rfl⟩ := List.getElem?_eq_some_iff.mp h
  exact List.drop_eq_getElem_cons hlt

theorem getElem?_of_drop_eq_cons {data rest : List α} {p : Nat} {a : α}
    (h : data.drop p = a :: rest) : data[p]? = some a := by
  rw [getElem?_eq_head?_drop, h]; rfl

theorem drop_succ_of_drop_eq_cons {data rest : List α} {p : Nat} {a : α}
    (h : data.drop p = a :: rest) : data.drop (p + 1) = rest := by
  rw [← List.drop_drop, h]; rfl

/-- Passing over a block: what is left after it. -/
theorem drop_add_of_drop_eq_append {data mid rest : List α} {p : Nat}
    (h : data.drop p = mid ++ rest) : data.drop (p + mid.length) = rest := by
  rw [← List.drop_drop, h, List.drop_left]

theorem lt_length_of_drop_eq_cons {data rest : List α} {p : Nat} {a : α}
    (h : data.drop p = a :: rest) : p < data.length := by
  have := congrArg List.length h
  simp only [List.length_drop, List.length_cons] at this
  omega

theorem length_of_drop_eq_append {data mid rest : List α} {p : Nat} (hp : p ≤ data.length)
    (h : data.drop p = mid ++ rest) : p + mid.length + rest.length = data.length := by
  have := congrArg List.length h
  simp only [List.length_drop, List.length_append] at this
  omega

/-! ## 4-byte words -/

/-- `u32::to_le_bytes`. -/
def toLeBytes (w : UInt32) : List UInt8 :=
  [UInt8.ofNat w.toNat, UInt8.ofNat (w.toNat / 256), UInt8.ofNat (w.toNat / 65536),
    UInt8.ofNat (w.toNat / 16777216)]

/-- `u32::from_le_bytes`, on a slice that may not have four bytes. -/
def fromLeBytes : List UInt8 → Option UInt32
  | [a, b, c, d] =>
    some (UInt32.ofNat (a.toNat + 256 * b.toNat + 65536 * c.toNat + 16777216 * d.toNat))
  | _ => none

@[simp] theorem length_toLeBytes (w : UInt32) : (toLeBytes w).length = 4 := rfl

@[simp] theorem fromLeBytes_toLeBytes (w : UInt32) : fromLeBytes (toLeBytes w) = some w := by
  have hw := w.toNat_lt
  simp only [toLeBytes, fromLeBytes, UInt8.toNat_ofNat', Option.some.injEq]
  apply UInt32.toNat_inj.mp
  rw [UInt32.toNat_ofNat']
  omega

theorem fromLeBytes_isSome {bs : List UInt8} (h : bs.length = 4) :
    ∃ w, fromLeBytes bs = some w ∧ toLeBytes w = bs := by
  match bs, h with
  | [a, b, c, d], _ =>
    have ha := a.toNat_lt
    have hb := b.toNat_lt
    have hc := c.toNat_lt
    have hd := d.toNat_lt
    refine ⟨_, rfl, ?_⟩
    simp only [toLeBytes, UInt32.toNat_ofNat', List.cons.injEq, and_true]
    refine ⟨?_, ?_, ?_, ?_⟩ <;> apply UInt8.toNat_inj.mp <;> rw [UInt8.toNat_ofNat'] <;> omega

theorem fromLeBytes_eq_some {bs : List UInt8} {w : UInt32} (h : fromLeBytes bs = some w) :
    bs = toLeBytes w := by
  unfold fromLeBytes at h
  split at h
  · next a b c d =>
    obtain ⟨w', hw', he⟩ := @fromLeBytes_isSome [a, b, c, d] rfl
    rw [fromLeBytes] at hw'
    rw [← he, Option.some.inj (hw'.symm.trans h)]
  · exact absurd h (by simp)

end Bytes
