import Mathlib.Tactic.Common
import Mathlib.Algebra.GroupWithZero.Nat

/-!
# `Lib/Outcome.lean` — what a Rust function call can do

A call either returns (`Ok` or `Err`), or it panics, or it never gets out of a loop. The
last two are not values of the program's own result type, so they get constructors of their
own here; a model that folds them into `Err` cannot state that a decoder is total.

Two things are made explicit that the source leaves to the build:

* **overflow.** A debug or test build panics when an integer operation overflows, a release
  build wraps. `Overflow` is the switch, and every `usize` operation takes it.
* **fuel.** A `while` loop is run with a budget of iterations; `stall` says the budget was
  not enough. Nothing is claimed about a loop whose budget is not shown to suffice.

`Returns` is the predicate totality is stated with, and `returns_bind` is the rule that
takes a sequence of operations apart.
-/

namespace Rust

/-- Why a thread unwinds. `undefined` stands for undefined behaviour (a `transmute` to a
value the type does not have): nothing may be assumed of a run that reaches it. -/
inductive Panic
  | addOverflow
  | subOverflow
  | mulOverflow
  | shlOverflow
  | indexOutOfRange
  | sliceOutOfRange
  | unwrapNone
  | capacityOverflow
  | undefined
  deriving DecidableEq, Repr

/-- The outcome of a call with error type `ε` and result type `α`. -/
inductive Outcome (ε α : Type)
  | ok (a : α)
  | err (e : ε)
  | panic (p : Panic)
  | stall
  deriving DecidableEq, Repr

namespace Outcome

variable {ε α β : Type}

/-- Sequencing: the `?` operator, with panics and stalls passed on as well. -/
def bind (x : Outcome ε α) (f : α → Outcome ε β) : Outcome ε β :=
  match x with
  | .ok a => f a
  | .err e => .err e
  | .panic p => .panic p
  | .stall => .stall

instance : Monad (Outcome ε) where
  pure := .ok
  bind := bind

instance : LawfulMonad (Outcome ε) := LawfulMonad.mk' (Outcome ε)
  (fun x => by cases x <;> rfl) (fun _ _ => rfl) (fun x _ _ => by cases x <;> rfl)

/-- `Option::ok_or`. -/
def okOr (o : Option α) (e : ε) : Outcome ε α :=
  match o with
  | some a => .ok a
  | none => .err e

@[simp] theorem pure_eq (a : α) : (pure a : Outcome ε α) = .ok a := rfl
@[simp] theorem ok_bind (a : α) (f : α → Outcome ε β) : (Outcome.ok a >>= f) = f a := rfl
@[simp] theorem err_bind (e : ε) (f : α → Outcome ε β) : (Outcome.err e >>= f) = .err e := rfl
@[simp] theorem panic_bind (p : Panic) (f : α → Outcome ε β) :
    (Outcome.panic p >>= f) = .panic p := rfl
@[simp] theorem stall_bind (f : α → Outcome ε β) : (Outcome.stall >>= f) = .stall := rfl
@[simp] theorem okOr_some (a : α) (e : ε) : okOr (some a) e = .ok a := rfl
@[simp] theorem okOr_none (e : ε) : okOr (none : Option α) e = .err e := rfl

/-- A sequence that succeeded took each of its steps. -/
theorem bind_eq_ok {x : Outcome ε α} {f : α → Outcome ε β} {b : β} :
    (x >>= f) = .ok b ↔ ∃ a, x = .ok a ∧ f a = .ok b := by
  cases x <;> simp

/-- One that failed failed at a step. -/
theorem bind_eq_err {x : Outcome ε α} {f : α → Outcome ε β} {e : ε} :
    (x >>= f) = .err e ↔ x = .err e ∨ ∃ a, x = .ok a ∧ f a = .err e := by
  cases x <;> simp

@[simp] theorem okOr_eq_ok {o : Option α} {e : ε} {a : α} : okOr o e = .ok a ↔ o = some a := by
  cases o <;> simp [okOr]

/-- The call came back, with `Ok` or with `Err`. -/
def Returns : Outcome ε α → Prop
  | .ok _ | .err _ => True
  | .panic _ | .stall => False

instance : DecidablePred (Returns : Outcome ε α → Prop) := fun x =>
  match x with
  | .ok _ | .err _ => isTrue trivial
  | .panic _ | .stall => isFalse id

@[simp] theorem returns_ok (a : α) : (Outcome.ok a : Outcome ε α).Returns := trivial
@[simp] theorem returns_err (e : ε) : (Outcome.err e : Outcome ε α).Returns := trivial
@[simp] theorem not_returns_panic (p : Panic) : ¬ (Outcome.panic p : Outcome ε α).Returns := id
@[simp] theorem not_returns_stall : ¬ (Outcome.stall : Outcome ε α).Returns := id
@[simp] theorem returns_okOr (o : Option α) (e : ε) : (okOr o e).Returns := by
  cases o <;> simp [okOr]

/-- **A sequence returns iff its first step does, and what follows an `Ok` does.** -/
theorem returns_bind {x : Outcome ε α} {f : α → Outcome ε β} :
    (x >>= f).Returns ↔ x.Returns ∧ ∀ a, x = .ok a → (f a).Returns := by
  cases x <;> simp

/-- The call has no error to report, whatever else becomes of it. -/
def Infallible : Outcome ε α → Prop
  | .err _ => False
  | .ok _ | .panic _ | .stall => True

theorem Infallible.bind {x : Outcome ε α} {f : α → Outcome ε β} (hx : x.Infallible)
    (hf : ∀ a, (f a).Infallible) : (x >>= f).Infallible := by
  cases x with
  | ok a => exact hf a
  | err e => exact hx
  | panic p => trivial
  | stall => trivial

/-- An error is that of the call when nothing behind it has one to report. -/
theorem eq_err_of_bind {x : Outcome ε α} {f : α → Outcome ε β} {e : ε}
    (h : (x >>= f) = .err e) (hf : ∀ a, (f a).Infallible) : x = .err e := by
  cases x with
  | ok a =>
    have hquiet := hf a
    rw [show f a = .err e from h] at hquiet
    exact hquiet.elim
  | err e' => exact congrArg Outcome.err (Outcome.err.inj h)
  | panic p => cases h
  | stall => cases h

end Outcome

/-! ## `usize` on a 64-bit target -/

/-- Debug and test builds check for overflow, release builds wrap. -/
inductive Overflow
  | checked
  | wrapping
  deriving DecidableEq, Repr

variable {ε α : Type}

/-- What the build does with a result that needs more than 64 bits. -/
def Overflow.fit (m : Overflow) (p : Panic) (n : Nat) : Outcome ε Nat :=
  if n < 2 ^ 64 then .ok n
  else match m with
    | .checked => .panic p
    | .wrapping => .ok (n % 2 ^ 64)

/-- `a + b`. -/
def uadd (m : Overflow) (a b : Nat) : Outcome ε Nat := m.fit .addOverflow (a + b)

/-- `a - b`. -/
def usub (m : Overflow) (a b : Nat) : Outcome ε Nat :=
  if b ≤ a then .ok (a - b)
  else match m with
    | .checked => .panic .subOverflow
    | .wrapping => .ok (a + 2 ^ 64 - b)

/-- `a * b`. -/
def umul (m : Overflow) (a b : Nat) : Outcome ε Nat := m.fit .mulOverflow (a * b)

/-- `a << s`: the shift distance is what overflows; bits shifted out are lost silently. -/
def ushl (m : Overflow) (a s : Nat) : Outcome ε Nat :=
  if s < 64 then .ok (a * 2 ^ s % 2 ^ 64)
  else match m with
    | .checked => .panic .shlOverflow
    | .wrapping => .ok (a * 2 ^ (s % 64) % 2 ^ 64)

theorem uadd_eq {m : Overflow} {a b : Nat} (h : a + b < 2 ^ 64) :
    (uadd m a b : Outcome ε Nat) = .ok (a + b) := by
  simp only [uadd, Overflow.fit, if_pos h]

theorem usub_eq {m : Overflow} {a b : Nat} (h : b ≤ a) :
    (usub m a b : Outcome ε Nat) = .ok (a - b) := by
  simp only [usub, if_pos h]

theorem umul_eq {m : Overflow} {a b : Nat} (h : a * b < 2 ^ 64) :
    (umul m a b : Outcome ε Nat) = .ok (a * b) := by
  simp only [umul, Overflow.fit, if_pos h]

theorem ushl_eq {m : Overflow} {a s : Nat} (h : s < 64) :
    (ushl m a s : Outcome ε Nat) = .ok (a * 2 ^ s % 2 ^ 64) := by
  simp only [ushl, if_pos h]

theorem uadd_wrapping (a b : Nat) :
    (uadd .wrapping a b : Outcome ε Nat) = .ok ((a + b) % 2 ^ 64) := by
  unfold uadd Overflow.fit
  split
  · next h => rw [Nat.mod_eq_of_lt h]
  · rfl

theorem umul_wrapping (a b : Nat) :
    (umul .wrapping a b : Outcome ε Nat) = .ok ((a * b) % 2 ^ 64) := by
  unfold umul Overflow.fit
  split
  · next h => rw [Nat.mod_eq_of_lt h]
  · rfl

theorem uadd_checked_eq_ok {a b c : Nat} :
    (uadd .checked a b : Outcome ε Nat) = .ok c ↔ a + b < 2 ^ 64 ∧ c = a + b := by
  unfold uadd Overflow.fit
  by_cases h : a + b < 2 ^ 64
  · rw [if_pos h]
    constructor
    · intro heq
      cases heq
      exact ⟨h, rfl⟩
    · rintro ⟨-, rfl⟩
      rfl
  · rw [if_neg h]
    constructor
    · nofun
    · exact fun hlt => absurd hlt.1 h

theorem umul_checked_eq_ok {a b c : Nat} :
    (umul .checked a b : Outcome ε Nat) = .ok c ↔ a * b < 2 ^ 64 ∧ c = a * b := by
  unfold umul Overflow.fit
  by_cases h : a * b < 2 ^ 64
  · rw [if_pos h]
    constructor
    · intro heq
      cases heq
      exact ⟨h, rfl⟩
    · rintro ⟨-, rfl⟩
      rfl
  · rw [if_neg h]
    constructor
    · nofun
    · exact fun hlt => absurd hlt.1 h

theorem returns_uadd_checked {a b : Nat} :
    (uadd .checked a b : Outcome ε Nat).Returns ↔ a + b < 2 ^ 64 := by
  unfold uadd Overflow.fit
  by_cases h : a + b < 2 ^ 64
  · rw [if_pos h]
    exact iff_of_true trivial h
  · rw [if_neg h]
    exact iff_of_false (Outcome.not_returns_panic _) h

/-- In a checked build a sequence that returns did not overflow. -/
theorem returns_uadd_bind {β : Type} {a b : Nat} {f : Nat → Outcome ε β} :
    (uadd .checked a b >>= f).Returns ↔ a + b < 2 ^ 64 ∧ (f (a + b)).Returns := by
  rw [Outcome.returns_bind, returns_uadd_checked]
  constructor
  · rintro ⟨h, hf⟩
    exact ⟨h, hf _ (uadd_eq h)⟩
  · rintro ⟨h, hf⟩
    refine ⟨h, fun c hc => ?_⟩
    rw [(uadd_checked_eq_ok.mp hc).2]
    exact hf

/-! ## Slices

A slice is a list; a range of it is out of bounds when its end lies before its start or past
the end of the list. `get` answers `None` there and indexing panics. -/

/-- `data.get(start..stop)`. -/
def getRange (data : List α) (start stop : Nat) : Option (List α) :=
  if start ≤ stop ∧ stop ≤ data.length then some ((data.drop start).take (stop - start)) else none

/-- `data[start..stop]`. -/
def slice (data : List α) (start stop : Nat) : Outcome ε (List α) :=
  match getRange data start stop with
  | some xs => .ok xs
  | none => .panic .sliceOutOfRange

/-- The longest a Rust slice of bytes can be (`isize::MAX`). -/
def isizeMax : Nat := 2 ^ 63 - 1

/-- `Vec::with_capacity(count)` for elements of `size` bytes. -/
def withCapacity (size count : Nat) : Outcome ε Unit :=
  if size * count ≤ isizeMax then .ok () else .panic .capacityOverflow

theorem withCapacity_eq {size count : Nat} (h : size * count ≤ isizeMax) :
    (withCapacity size count : Outcome ε Unit) = .ok () := by
  simp only [withCapacity, if_pos h]

theorem getRange_eq_some {data xs : List α} {start stop : Nat} :
    getRange data start stop = some xs ↔
      start ≤ stop ∧ stop ≤ data.length ∧ xs = (data.drop start).take (stop - start) := by
  unfold getRange
  split
  · next h => simp [h.1, h.2, eq_comm]
  · next h =>
    simp only [reduceCtorEq, false_iff]
    rintro ⟨h₁, h₂, -⟩
    exact h ⟨h₁, h₂⟩

theorem slice_eq {data : List α} {start stop : Nat} (h₁ : start ≤ stop) (h₂ : stop ≤ data.length) :
    (slice data start stop : Outcome ε (List α)) = .ok ((data.drop start).take (stop - start)) := by
  simp only [slice, getRange, if_pos (And.intro h₁ h₂)]

theorem slice_eq_ok {data xs : List α} {start stop : Nat} :
    (slice data start stop : Outcome ε (List α)) = .ok xs ↔
      start ≤ stop ∧ stop ≤ data.length ∧ xs = (data.drop start).take (stop - start) := by
  rw [← getRange_eq_some, slice]
  cases getRange data start stop <;> simp

theorem slice_eq_panic {data : List α} {start stop : Nat}
    (h : ¬ (start ≤ stop ∧ stop ≤ data.length)) :
    (slice data start stop : Outcome ε (List α)) = .panic .sliceOutOfRange := by
  simp only [slice, getRange, if_neg h]

theorem returns_slice {data : List α} {start stop : Nat} :
    (slice data start stop : Outcome ε (List α)).Returns ↔
      start ≤ stop ∧ stop ≤ data.length := by
  by_cases h : start ≤ stop ∧ stop ≤ data.length
  · rw [slice_eq h.1 h.2]; simp [h]
  · rw [slice_eq_panic h]; simp [h]

end Rust
