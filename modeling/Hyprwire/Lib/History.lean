import Mathlib.Data.List.Basic

/-!
# `Lib/History.lean` — lists that only grow

A log, the traffic on a channel, the record of what was done: a list that is only ever appended
to. What an entry owes to the ones before it (`Led`) is settled when it is appended, whatever is
appended later; and what was looked up stays where it was.
-/

namespace History

variable {α : Type}

theorem prefix_of_eq {l l' : List α} (h : l' = l) : l <+: l' := h ▸ List.prefix_refl _

theorem getElem?_grown {l l' : List α} (h : l <+: l') {i : Nat} {a : α} (hi : l[i]? = some a) :
    l'[i]? = some a := by
  obtain ⟨t, rfl⟩ := h
  rw [List.getElem?_append_left (List.getElem?_eq_some_iff.mp hi).1, hi]

/-- What is found in a list one longer is the new entry, or it was there. -/
theorem getElem?_concat {l : List α} {i : Nat} {a b : α} (h : (l ++ [b])[i]? = some a) :
    l[i]? = some a ∨ (i = l.length ∧ a = b) := by
  rcases Nat.lt_trichotomy i l.length with hlt | rfl | hgt
  · rw [List.getElem?_append_left hlt] at h
    exact .inl h
  · rw [List.getElem?_concat_length] at h
    exact .inr ⟨rfl, (Option.some.inj h).symm⟩
  · rw [List.getElem?_eq_none] at h
    · cases h
    · rw [List.length_append]
      exact hgt

/-- What was found first is found first when others are gone. -/
theorem find?_filter_of_some {l : List α} {p q : α → Bool} {a : α} (hfind : l.find? p = some a)
    (hq : q a = true) : (l.filter q).find? p = some a := by
  obtain ⟨hp, front, back, rfl, hfront⟩ := List.find?_eq_some_iff_append.mp hfind
  refine List.find?_eq_some_iff_append.mpr ⟨hp, front.filter q, back.filter q, ?_, ?_⟩
  · simp [List.filter_append, hq]
  · intro x hx
    exact hfront x (List.mem_filter.mp hx).1

/-- A place in a list one longer is the new one, or it was there. -/
theorem split_append_one {l pre post : List α} {x y : α} (h : l ++ [x] = pre ++ y :: post) :
    (post = [] ∧ pre = l ∧ y = x) ∨ ∃ post', post = post' ++ [x] ∧ l = pre ++ y :: post' := by
  rcases List.eq_nil_or_concat post with rfl | ⟨post', z, rfl⟩
  · obtain ⟨rfl, hy⟩ := List.append_inj' h rfl
    exact .inl ⟨rfl, rfl, (List.singleton_inj.mp hy).symm⟩
  · rw [List.concat_eq_append] at h ⊢
    rw [← List.cons_append, ← List.append_assoc] at h
    obtain ⟨hl, hz⟩ := List.append_inj' h rfl
    exact .inr ⟨post', by rw [List.singleton_inj.mp hz], hl⟩

/-! ## What an entry owes to the ones before it -/

/-- Every entry meets `P` with what precedes it. -/
def Led (P : List α → α → Prop) (l : List α) : Prop :=
  ∀ pre x post, l = pre ++ x :: post → P pre x

variable {P Q : List α → α → Prop} {l l' : List α}

theorem led_nil : Led P ([] : List α) := by
  intro pre x post h
  simp at h

/-- A history is led when every place of it is. -/
theorem led_iff_getElem : Led P l ↔ ∀ i (hi : i < l.length), P (l.take i) l[i] := by
  constructor
  · intro h i hi
    exact h _ _ (l.drop (i + 1)) (by rw [← List.drop_eq_getElem_cons hi, List.take_append_drop])
  · rintro h pre x post rfl
    simpa using h pre.length (by simp)

instance [∀ pre x, Decidable (P pre x)] : Decidable (Led P l) :=
  decidable_of_iff _ led_iff_getElem.symm

/-- An entry is settled when it is appended. -/
theorem led_append_one {x : α} (h : Led P l) (hx : P l x) : Led P (l ++ [x]) := by
  intro pre y post heq
  rcases split_append_one heq with ⟨-, rfl, rfl⟩ | ⟨post', -, hl⟩
  · exact hx
  · exact h pre y post' hl

theorem Led.mono (h : Led P l) (hPQ : ∀ pre x, x ∈ l → P pre x → Q pre x) : Led Q l := by
  intro pre x post heq
  refine hPQ pre x ?_ (h pre x post heq)
  rw [heq]
  exact List.mem_append.mpr (.inr (List.mem_cons_self ..))

/-- What is read off the front of a history is led as the history is. -/
theorem Led.of_prefix (h : Led P l') (hl : l <+: l') : Led P l := by
  obtain ⟨t, rfl⟩ := hl
  intro pre x post heq
  exact h pre x (post ++ t) (by rw [heq, List.append_assoc, List.cons_append])

/-- The next entry to be read is met by what was read before. -/
theorem Led.next (h : Led P l') {x : α} {rest : List α} (hl : l ++ x :: rest <+: l') : P l x := by
  obtain ⟨t, rfl⟩ := hl
  exact h l x (rest ++ t) (by rw [List.append_assoc, List.cons_append])

/-! ## Pairwise -/

theorem pairwise_append_one {r : α → α → Prop} {x : α} (h : l.Pairwise r) (hx : ∀ y ∈ l, r y x) :
    (l ++ [x]).Pairwise r := by
  refine List.pairwise_append.mpr ⟨h, List.pairwise_singleton _ _, fun y hy z hz => ?_⟩
  rw [List.mem_singleton.mp hz]
  exact hx y hy

end History
