import Mathlib.Tactic.Common

/-!
# `Lib/Run.lean` — guarded step functions and their runs

A system is a step function `step : σ → α → Option σ`: what action `a` makes of state `s`, or
`none` where the action is not possible. A run is a list of actions. One definition serves the
proofs, which go by induction on the run, and the examples of a run, which evaluate it.

Two rules carry every theorem about runs. `run_induction` proves an invariant of all runs from
what one step preserves. `run_meeting` does it for the runs whose every step meets a condition
on the state it starts from, which is how a property is stated that holds unless someone does
something that breaks it.
-/

namespace Run

variable {σ α : Type} {step : σ → α → Option σ}

/-- The state after the actions, one after the other. -/
def run (step : σ → α → Option σ) (s : σ) : List α → Option σ
  | [] => some s
  | a :: as =>
    match step s a with
    | some t => run step t as
    | none => none

/-- Every step of the run meets `cond` in the state it starts from. -/
def Meets (step : σ → α → Option σ) (cond : σ → α → Prop) : σ → List α → Prop
  | _, [] => True
  | s, a :: as => cond s a ∧ ∀ t, step s a = some t → Meets step cond t as

@[simp] theorem run_nil (s : σ) : run step s [] = some s := rfl

theorem run_cons {s u : σ} {a : α} {as : List α} :
    run step s (a :: as) = some u ↔ ∃ t, step s a = some t ∧ run step t as = some u := by
  rw [run]
  cases step s a <;> simp

theorem run_append {u : σ} : ∀ {as bs : List α} {s : σ},
    run step s (as ++ bs) = some u ↔ ∃ t, run step s as = some t ∧ run step t bs = some u
  | [], bs, s => by simp
  | a :: as, bs, s => by
    rw [List.cons_append, run_cons]
    constructor
    · rintro ⟨t, hstep, h⟩
      obtain ⟨t', h₁, h₂⟩ := run_append.mp h
      exact ⟨t', run_cons.mpr ⟨t, hstep, h₁⟩, h₂⟩
    · rintro ⟨t', h₁, h₂⟩
      obtain ⟨t, hstep, h⟩ := run_cons.mp h₁
      exact ⟨t, hstep, run_append.mpr ⟨t', h, h₂⟩⟩

theorem meets_cons {cond : σ → α → Prop} {s t : σ} {a : α} {as : List α} (hcond : cond s a)
    (hstep : step s a = some t) (h : Meets step cond t as) : Meets step cond s (a :: as) := by
  refine ⟨hcond, fun t' ht' => ?_⟩
  rw [hstep] at ht'
  cases ht'
  exact h

/-- Whether a run meets a condition is seen by running it. -/
instance decidableMeets {cond : σ → α → Prop} [∀ s a, Decidable (cond s a)] :
    ∀ (s : σ) (as : List α), Decidable (Meets step cond s as)
  | _, [] => .isTrue trivial
  | s, a :: as =>
    match hstep : step s a with
    | none =>
      decidable_of_iff (cond s a) ⟨fun h => ⟨h, fun t ht => by rw [hstep] at ht; cases ht⟩, And.left⟩
    | some t =>
      have := @decidableMeets cond _ t as
      decidable_of_iff (cond s a ∧ Meets step cond t as)
        ⟨fun h => meets_cons h.1 hstep h.2, fun h => ⟨h.1, h.2 t hstep⟩⟩

theorem meets_append {cond : σ → α → Prop} : ∀ {as bs : List α} {s : σ},
    Meets step cond s (as ++ bs) → Meets step cond s as
  | [], _, _, _ => trivial
  | _ :: _, _, _, h => ⟨h.1, fun t ht => meets_append (h.2 t ht)⟩

theorem meets_drop {cond : σ → α → Prop} : ∀ {as bs : List α} {s t : σ},
    run step s as = some t → Meets step cond s (as ++ bs) → Meets step cond t bs
  | [], _, _, _, hrun, h => by
    cases hrun
    exact h
  | _ :: _, _, _, _, hrun, h => by
    obtain ⟨_, ha, hrun⟩ := run_cons.mp hrun
    exact meets_drop hrun (h.2 _ ha)

/-- A condition that follows from another one is met where that one is. -/
theorem meets_mono {cond cond' : σ → α → Prop} (h : ∀ s a, cond s a → cond' s a) :
    ∀ {as : List α} {s : σ}, Meets step cond s as → Meets step cond' s as
  | [], _, _ => trivial
  | _ :: _, _, hmeets => ⟨h _ _ hmeets.1, fun t ht => meets_mono h (hmeets.2 t ht)⟩

/-- What a condition gives where an invariant holds, which it keeps up, is met where the condition
is. -/
theorem meets_meeting {inv : σ → Prop} {cond cond' : σ → α → Prop}
    (hstep : ∀ s a t, inv s → cond s a → step s a = some t → inv t)
    (h : ∀ s a, inv s → cond s a → cond' s a) :
    ∀ {as : List α} {s : σ}, inv s → Meets step cond s as → Meets step cond' s as
  | [], _, _, _ => trivial
  | a :: _, s, hs, hmeets =>
    ⟨h s a hs hmeets.1, fun t ht => meets_meeting hstep h (hstep s a t hs hmeets.1 ht) (hmeets.2 t ht)⟩

/-- A condition on the actions alone. -/
theorem meets_of_forall {p : α → Prop} :
    ∀ {as : List α} {s : σ}, (∀ a ∈ as, p a) → Meets step (fun _ a => p a) s as
  | [], _, _ => trivial
  | a :: _, _, h =>
    ⟨h a (List.mem_cons_self ..), fun _ _ => meets_of_forall fun b hb => h b (List.mem_cons_of_mem a hb)⟩

theorem meets_and {cond cond' : σ → α → Prop} : ∀ {as : List α} {s : σ},
    Meets step cond s as → Meets step cond' s as → Meets step (fun s a => cond s a ∧ cond' s a) s as
  | [], _, _, _ => trivial
  | _ :: _, _, h, h' => ⟨⟨h.1, h'.1⟩, fun t ht => meets_and (h.2 t ht) (h'.2 t ht)⟩

/-- Two conditions that agree wherever an invariant holds are met by the same runs. -/
theorem meets_congr {inv : σ → Prop} {cond cond' : σ → α → Prop}
    (hstep : ∀ s a t, inv s → step s a = some t → inv t)
    (h : ∀ s a t, inv s → step s a = some t → (cond s a ↔ cond' s a)) :
    ∀ {as : List α} {s u : σ}, inv s → run step s as = some u →
      (Meets step cond s as ↔ Meets step cond' s as)
  | [], _, _, _, _ => Iff.rfl
  | a :: as, s, u, hs, hrun => by
    obtain ⟨t, ha, hrun⟩ := run_cons.mp hrun
    have hrest := meets_congr hstep h (hstep s a t hs ha) hrun
    constructor
    · rintro ⟨hcond, hmeets⟩
      exact meets_cons ((h s a t hs ha).mp hcond) ha (hrest.mp (hmeets t ha))
    · rintro ⟨hcond, hmeets⟩
      exact meets_cons ((h s a t hs ha).mpr hcond) ha (hrest.mpr (hmeets t ha))

/-- Of a number of steps, those that are possible when they come up. -/
def attempt (step : σ → α → Option σ) (s : σ) : List α → σ
  | [] => s
  | a :: as => attempt step ((step s a).getD s) as

/-- What is attempted is a run of any system that has the steps. -/
theorem run_attempt {step' : σ → α → Option σ} {p : α → Prop}
    (h : ∀ s a t, step' s a = some t → p a ∧ step s a = some t) : ∀ (as : List α) (s : σ),
      ∃ bs, (∀ b ∈ bs, p b) ∧ run step s bs = some (attempt step' s as)
  | [], s => ⟨[], by simp, rfl⟩
  | a :: as, s => by
    unfold attempt
    cases hstep : step' s a with
    | none => exact run_attempt h as s
    | some t =>
      obtain ⟨hp, ha⟩ := h s a t hstep
      obtain ⟨bs, hbs, hrun⟩ := run_attempt h as t
      exact ⟨a :: bs, List.forall_mem_cons.mpr ⟨hp, hbs⟩, run_cons.mpr ⟨t, ha, hrun⟩⟩

/-- A change of the state that makes no difference to a step makes none to what is attempted. -/
theorem attempt_map {inv : σ → Prop} {f : σ → σ}
    (hinv : ∀ s a t, inv s → step s a = some t → inv t)
    (hmap : ∀ s a, inv s → step (f s) a = (step s a).map f) :
    ∀ {as : List α} {s : σ}, inv s → attempt step (f s) as = f (attempt step s as)
  | [], _, _ => rfl
  | a :: as, s, hs => by
    unfold attempt
    rw [hmap s a hs]
    cases hstep : step s a with
    | none => exact attempt_map hinv hmap hs
    | some t => exact attempt_map hinv hmap (hinv s a t hs hstep)

/-- **What every step preserves holds along every run.** -/
theorem run_induction {inv : σ → Prop} (hstep : ∀ s a t, inv s → step s a = some t → inv t) :
    ∀ {as : List α} {s u : σ}, inv s → run step s as = some u → inv u
  | [], s, u, hs, h => by
    cases h
    exact hs
  | a :: as, s, u, hs, h => by
    obtain ⟨t, ha, h⟩ := run_cons.mp h
    exact run_induction hstep (hstep s a t hs ha) h

/-- … also when a step preserves it only under a condition that every step meets. -/
theorem run_meeting {inv : σ → Prop} {cond : σ → α → Prop}
    (hstep : ∀ s a t, inv s → cond s a → step s a = some t → inv t) :
    ∀ {as : List α} {s u : σ}, inv s → Meets step cond s as → run step s as = some u → inv u
  | [], s, u, hs, _, h => by
    cases h
    exact hs
  | a :: as, s, u, hs, hmeets, h => by
    obtain ⟨t, ha, h⟩ := run_cons.mp h
    exact run_meeting hstep (hstep s a t hs hmeets.1 ha) (hmeets.2 t ha) h

/-- What a state owes to all that came before it is met by every step on the way, when it is what
an invariant and the next state ask for. -/
theorem meets_of_run {inv good : σ → Prop} {cond : σ → α → Prop}
    (hstep : ∀ s a t, inv s → step s a = some t → inv t)
    (hback : ∀ s a t, step s a = some t → good t → good s)
    (hcond : ∀ s a t, inv s → step s a = some t → good t → cond s a) :
    ∀ {as : List α} {s u : σ}, inv s → run step s as = some u → good u →
      good s ∧ Meets step cond s as
  | [], s, u, _, h, hgood => by
    cases h
    exact ⟨hgood, trivial⟩
  | a :: as, s, u, hs, h, hgood => by
    obtain ⟨t, ha, h⟩ := run_cons.mp h
    obtain ⟨ht, hmeets⟩ := meets_of_run hstep hback hcond (hstep s a t hs ha) h hgood
    exact ⟨hback s a t ha ht, meets_cons (hcond s a t hs ha ht) ha hmeets⟩

/-- What a step keeps in exactly the cases that a condition names is kept along exactly the runs
whose every step meets it. -/
theorem meets_kept_iff {base inv : σ → Prop} {cond : σ → α → Prop}
    (hbase : ∀ s a t, base s → step s a = some t → base t)
    (h : ∀ s a t, base s → inv s → step s a = some t → (inv t ↔ cond s a)) :
    ∀ {as : List α} {s u : σ}, base s → inv s → run step s as = some u →
      (Meets step (fun s a => ∀ t, step s a = some t → inv t) s as ↔ Meets step cond s as)
  | [], _, _, _, _, _ => Iff.rfl
  | a :: as, s, u, hb, hs, hrun => by
    obtain ⟨t, ha, hrun⟩ := run_cons.mp hrun
    have hbt := hbase s a t hb ha
    constructor
    · rintro ⟨hkept, hmeets⟩
      have ht := hkept t ha
      exact meets_cons ((h s a t hb hs ha).mp ht) ha
        ((meets_kept_iff hbase h hbt ht hrun).mp (hmeets t ha))
    · rintro ⟨hcond, hmeets⟩
      have ht := (h s a t hb hs ha).mpr hcond
      refine meets_cons (fun t' ha' => ?_) ha
        ((meets_kept_iff hbase h hbt ht hrun).mpr (hmeets t ha))
      rw [ha] at ha'
      cases ha'
      exact ht

/-- What every state along a run is asked for, where a step reaches it exactly when it meets a
condition, is had by exactly the runs whose every step meets the condition. -/
theorem reached_iff_meets {inv good : σ → Prop} {cond : σ → α → Prop}
    (hgood : ∀ s, inv s → good s)
    (hiff : ∀ s a t, inv s → step s a = some t → (good t ↔ cond s a))
    (hstep : ∀ s a t, inv s → step s a = some t → good t → inv t) :
    ∀ {as : List α} {s u : σ}, inv s → run step s as = some u →
      ((∀ before t, before <+: as → run step s before = some t → good t) ↔ Meets step cond s as)
  | [], s, u, hs, _ => by
    refine ⟨fun _ => trivial, fun _ before t hbefore hrun => ?_⟩
    rw [List.prefix_nil.mp hbefore] at hrun
    cases hrun
    exact hgood s hs
  | a :: as, s, u, hs, hrun => by
    obtain ⟨t, ha, htail⟩ := run_cons.mp hrun
    constructor
    · intro hall
      have ht : good t := hall [a] t ⟨as, rfl⟩ (run_cons.mpr ⟨t, ha, rfl⟩)
      refine meets_cons ((hiff s a t hs ha).mp ht) ha ?_
      refine (reached_iff_meets hgood hiff hstep (hstep s a t hs ha ht) htail).mp ?_
      intro before v hbefore hv
      exact hall (a :: before) v (List.cons_prefix_cons.mpr ⟨rfl, hbefore⟩)
        (run_cons.mpr ⟨t, ha, hv⟩)
    · rintro ⟨hcond, hmeets⟩ before v hbefore hv
      have ht := (hiff s a t hs ha).mpr hcond
      cases before with
      | nil =>
        cases hv
        exact hgood s hs
      | cons b before =>
        obtain ⟨rfl, hrest⟩ := List.cons_prefix_cons.mp hbefore
        obtain ⟨t', hb, hv⟩ := run_cons.mp hv
        rw [ha] at hb
        cases hb
        exact (reached_iff_meets hgood hiff hstep (hstep s b t hs ha ht) htail).mpr (hmeets t ha)
          before v hrest hv

/-- A part of a state that takes its own steps runs beside the rest. -/
theorem run_part {τ β : Type} {part : τ → β → Option τ} {p : β → Prop} {act : β → α}
    (get : σ → τ) (put : σ → τ → σ)
    (hstep : ∀ s b t, p b → part (get s) b = some t → step s (act b) = some (put s t))
    (hget : ∀ s t, get (put s t) = t) (hself : ∀ s, put s (get s) = s)
    (hput : ∀ s t u, put (put s t) u = put s u) {bs : List β} {s : σ} {t : τ} (hbs : ∀ b ∈ bs, p b)
    (h : run part (get s) bs = some t) : run step s (bs.map act) = some (put s t) := by
  induction bs generalizing s with
  | nil =>
    cases h
    rw [hself]
    rfl
  | cons b bs ih =>
    obtain ⟨u, hfirst, h⟩ := run_cons.mp h
    obtain ⟨hb, hbs⟩ := List.forall_mem_cons.mp hbs
    rw [← hget s u] at h
    have hrest := ih hbs h
    rw [hput] at hrest
    exact run_cons.mpr ⟨put s u, hstep s b u hb hfirst, hrest⟩

/-- A quantity that no step lowers is not lowered by a run. -/
theorem run_le {base : σ → Prop} {f : σ → Nat}
    (hbase : ∀ s a t, base s → step s a = some t → base t)
    (hmono : ∀ s a t, base s → step s a = some t → f s ≤ f t) :
    ∀ {as : List α} {s u : σ}, base s → run step s as = some u → f s ≤ f u
  | [], s, u, _, h => by
    cases h
    exact Nat.le_refl _
  | a :: as, s, u, hs, h => by
    obtain ⟨t, ha, h⟩ := run_cons.mp h
    exact Nat.le_trans (hmono s a t hs ha) (run_le hbase hmono (hbase s a t hs ha) h)

/-- An invariant that is kept while a quantity stays under a bound, where the quantity never
falls, holds of every run that ends under the bound. -/
theorem run_bounded {base inv : σ → Prop} {cond : σ → α → Prop} {f : σ → Nat} {bound : Nat}
    (hbase : ∀ s a t, base s → step s a = some t → base t)
    (hmono : ∀ s a t, base s → step s a = some t → f s ≤ f t)
    (hstep : ∀ s a t, inv s → cond s a → f t < bound → step s a = some t → inv t) :
    ∀ {as : List α} {s u : σ}, base s → inv s → Meets step cond s as → run step s as = some u →
      f u < bound → inv u
  | [], s, u, _, hs, _, h, _ => by
    cases h
    exact hs
  | a :: as, s, u, hb, hs, hmeets, h, hbound => by
    obtain ⟨t, ha, h⟩ := run_cons.mp h
    have ht : f t < bound := Nat.lt_of_le_of_lt (run_le hbase hmono (hbase s a t hb ha) h) hbound
    exact run_bounded hbase hmono hstep (hbase s a t hb ha) (hstep s a t hs hmeets.1 ht ha)
      (hmeets.2 t ha) h hbound

end Run
