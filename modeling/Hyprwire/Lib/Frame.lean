import Hyprwire.Lib.Outcome

/-!
# `Lib/Frame.lean` — a cursor loop over frames

A reader holds a buffer, a cursor into it, and a queue of things that travel beside the bytes
(descriptors, here). Each turn of its loop takes one frame: it moves the cursor on and takes
something off the queue, and it acts on a state. This is `while cursor < len { … }`, run with
a budget of turns.

What a format has to offer is `Takes`: at its place in the buffer a frame is taken by one turn,
whatever the state and whatever is queued behind its own items (up to `cap`, the longest queue
there can be). `loop_laid` then says that frames laid out one behind the other up to the end
are all taken, in order, each once, and that nothing of the queue but their own items is gone.
-/

namespace Frame

open Rust

variable {σ φ ε : Type}

/-- One turn of the loop: the new state, and the cursor and queue to go on with. -/
abbrev Step (σ φ ε : Type) := σ → List φ → Nat → σ × Outcome ε (Nat × List φ)

/-- How a loop ended. -/
structure Result (σ φ ε : Type) where
  state : σ
  cursor : Nat
  queue : List φ
  outcome : Outcome ε Unit

/-- `while cursor < len`, with a budget of turns. -/
def loop (step : Step σ φ ε) (len : Nat) : Nat → σ → List φ → Nat → Result σ φ ε
  | 0, s, q, n => ⟨s, n, q, if n < len then .stall else .ok ()⟩
  | fuel + 1, s, q, n =>
    if n < len then
      match step s q n with
      | (s, .ok (n, q)) => loop step len fuel s q n
      | (s, .err e) => ⟨s, n, q, .err e⟩
      | (s, .panic p) => ⟨s, n, q, .panic p⟩
      | (s, .stall) => ⟨s, n, q, .stall⟩
    else ⟨s, n, q, .ok ()⟩

/-- A frame: its width in the buffer, its queued items, and its effect. -/
structure Item (σ φ : Type) where
  width : Nat
  queued : List φ
  act : σ → σ

/-- At `n`, one turn takes the frame. -/
structure Takes (step : Step σ φ ε) (cap n : Nat) (f : Item σ φ) : Prop where
  width_pos : 0 < f.width
  step_eq : ∀ (s : σ) (q : List φ), (f.queued ++ q).length ≤ cap →
    step s (f.queued ++ q) n = (f.act s, .ok (n + f.width, q))

/-- Frames laid out one behind the other from `n` on. -/
def Laid (step : Step σ φ ε) (cap : Nat) : Nat → List (Item σ φ) → Prop
  | _, [] => True
  | n, f :: fs => Takes step cap n f ∧ Laid step cap (n + f.width) fs

/-- The bytes the frames take. -/
def totalWidth (fs : List (Item σ φ)) : Nat := (fs.map Item.width).sum

@[simp] theorem totalWidth_nil : totalWidth ([] : List (Item σ φ)) = 0 := rfl
@[simp] theorem totalWidth_cons (f : Item σ φ) (fs : List (Item σ φ)) :
    totalWidth (f :: fs) = f.width + totalWidth fs := by simp [totalWidth]

theorem loop_end (step : Step σ φ ε) {len n : Nat} (h : len ≤ n) (fuel : Nat) (s : σ) (q : List φ) :
    loop step len fuel s q n = ⟨s, n, q, .ok ()⟩ := by
  have hlt : ¬ n < len := Nat.not_lt.mpr h
  cases fuel with
  | zero => rw [loop, if_neg hlt]
  | succ fuel => rw [loop, if_neg hlt]

/-- A larger budget makes no difference to a loop that has come to its end. -/
theorem loop_mono {step : Step σ φ ε} {len fuel : Nat} {s : σ} {q : List φ} {n : Nat}
    (h : (loop step len fuel s q n).outcome ≠ .stall) {fuel' : Nat} (hle : fuel ≤ fuel') :
    loop step len fuel' s q n = loop step len fuel s q n := by
  induction fuel generalizing s q n fuel' with
  | zero =>
    by_cases hlt : n < len
    · rw [loop, if_pos hlt] at h
      exact absurd rfl h
    · rw [loop_end step (Nat.le_of_not_lt hlt), loop_end step (Nat.le_of_not_lt hlt)]
  | succ fuel ih =>
    by_cases hlt : n < len
    · obtain ⟨fuel', rfl⟩ : ∃ k, fuel' = k + 1 := ⟨fuel' - 1, by omega⟩
      rw [loop, if_pos hlt] at h ⊢
      rw [loop, if_pos hlt]
      rcases hturn : step s q n with ⟨s', ⟨n', q'⟩ | e | p | _⟩
      · rw [hturn] at h
        exact ih h (Nat.le_of_succ_le_succ hle)
      · rfl
      · rfl
      · rfl
    · rw [loop_end step (Nat.le_of_not_lt hlt), loop_end step (Nat.le_of_not_lt hlt)]

/-- A loop on a part of the state: what its turns do to it, the loop does. -/
theorem loop_map {τ : Type} {step : Step σ φ ε} {step' : Step τ φ ε} {f : σ → τ}
    (h : ∀ s q n, step' (f s) q n = (f (step s q n).1, (step s q n).2)) (len fuel : Nat) (s : σ)
    (q : List φ) (n : Nat) :
    loop step' len fuel (f s) q n =
      { state := f (loop step len fuel s q n).state
        cursor := (loop step len fuel s q n).cursor
        queue := (loop step len fuel s q n).queue
        outcome := (loop step len fuel s q n).outcome } := by
  induction fuel generalizing s q n with
  | zero => rfl
  | succ fuel ih =>
    by_cases hlt : n < len
    · rw [loop, if_pos hlt, loop, if_pos hlt, h]
      rcases step s q n with ⟨s', ⟨n', q'⟩ | e | p | _⟩
      · exact ih s' q' n'
      · rfl
      · rfl
      · rfl
    · rw [loop_end step' (Nat.le_of_not_lt hlt), loop_end step (Nat.le_of_not_lt hlt)]

/-- **Every frame is taken, in order.** The induction is on the frames: one turn takes the
first, and the others are laid out from where it ends. -/
theorem loop_laid {step : Step σ φ ε} {cap len : Nat} : ∀ {fs : List (Item σ φ)} {n : Nat},
    Laid step cap n fs → n + totalWidth fs = len → ∀ {fuel : Nat}, fs.length ≤ fuel →
    ∀ (s : σ) (extra : List φ), (fs.flatMap Item.queued ++ extra).length ≤ cap →
      loop step len fuel s (fs.flatMap Item.queued ++ extra) n
        = ⟨fs.foldl (fun s f => f.act s) s, len, extra, .ok ()⟩
  | [], n, _, hlen, fuel, _, s, extra, _ => by
    obtain rfl : n = len := hlen
    exact loop_end step (Nat.le_refl n) fuel s extra
  | f :: fs, n, ⟨htake, hlaid⟩, hlen, fuel, hfuel, s, extra, hcap => by
    rw [totalWidth_cons, ← Nat.add_assoc] at hlen
    rw [List.flatMap_cons, List.append_assoc] at hcap
    have hcap' : (fs.flatMap Item.queued ++ extra).length ≤ cap := by
      rw [List.length_append] at hcap
      exact Nat.le_trans (Nat.le_add_left _ _) hcap
    have hpos := htake.width_pos
    cases fuel with
    | zero => exact absurd hfuel (by simp)
    | succ fuel =>
      rw [loop, if_pos (by omega), List.flatMap_cons, List.append_assoc, htake.step_eq _ _ hcap]
      exact loop_laid hlaid hlen (Nat.le_of_succ_le_succ hfuel) (f.act s) extra hcap'

/-! ## Loops whose turns take what they find

Where nothing is laid out beforehand: what a turn that goes on has taken, the loop takes one behind
the other, up to its end or to the turn that gives up. -/

/-- One thing after the other. -/
inductive Chain {μ : Type} (took : σ → μ → σ → Prop) : σ → List μ → σ → Prop
  | nil (s : σ) : Chain took s [] s
  | cons {s t u : σ} {x : μ} {xs : List μ} (first : took s x u) (more : Chain took u xs t) :
      Chain took s (x :: xs) t

/-- **What the turns take, the loop takes.** The induction is on its budget. -/
theorem loop_chain {μ : Type} {step : Step σ φ ε} {len : Nat} {inv : σ → Prop}
    {took : σ → μ → σ → Prop}
    (hturn : ∀ s q n t next, inv s → step s q n = (t, .ok next) → ∃ x, took s x t ∧ inv t) :
    ∀ {fuel : Nat} {s : σ} {q : List φ} {n : Nat}, inv s →
      (loop step len fuel s q n).outcome.Returns →
      ∃ xs t, Chain took s xs t ∧ inv t ∧
        (((loop step len fuel s q n).outcome = .ok () ∧ (loop step len fuel s q n).state = t ∧
            (n < len → xs ≠ [])) ∨
          ∃ e q' n', (loop step len fuel s q n).outcome = .err e ∧
            step t q' n' = ((loop step len fuel s q n).state, .err e))
  | 0, s, q, n, hs, hreturns => by
    have hend : ¬ n < len := by
      intro hlt
      rw [loop, if_pos hlt] at hreturns
      exact hreturns
    rw [loop_end step (Nat.le_of_not_lt hend)]
    exact ⟨[], s, .nil s, hs, .inl ⟨rfl, rfl, fun hlt => absurd hlt hend⟩⟩
  | fuel + 1, s, q, n, hs, hreturns => by
    by_cases hlt : n < len
    · rw [loop, if_pos hlt] at hreturns ⊢
      rcases hstep : step s q n with ⟨u, ⟨n', q'⟩ | e | p | _⟩
      · rw [hstep] at hreturns
        obtain ⟨x, hfirst, hu⟩ := hturn s q n u (n', q') hs hstep
        obtain ⟨xs, t, hmore, ht, hend⟩ := loop_chain hturn hu hreturns
        refine ⟨x :: xs, t, .cons hfirst hmore, ht, hend.imp_left fun h => ?_⟩
        exact ⟨h.1, h.2.1, fun _ => List.cons_ne_nil x xs⟩
      · exact ⟨[], s, .nil s, hs, .inr ⟨e, q, n, rfl, hstep⟩⟩
      · rw [hstep] at hreturns
        exact hreturns.elim
      · rw [hstep] at hreturns
        exact hreturns.elim
    · rw [loop_end step (Nat.le_of_not_lt hlt)]
      exact ⟨[], s, .nil s, hs, .inl ⟨rfl, rfl, fun h => absurd h hlt⟩⟩

end Frame
