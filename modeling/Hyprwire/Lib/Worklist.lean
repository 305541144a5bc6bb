import Mathlib.Data.List.Nodup
import Mathlib.Logic.Relation

/-!
# `Lib/Worklist.lean` — what a search over a graph finds

A graph is given by its successors, `next : α → List α`, and may be infinite, have cycles and
loops. A search keeps what it has seen, what it has found in the order it was found, and a queue of
what it has found and not yet expanded. It begins with the successors of an origin, which counts as
seen.

When the nodes that are successors of anything are among finitely many, the search ends, and it has
found exactly what is reached from the origin along one or more edges, the origin excepted, and each
node once (`search_spec`).
-/

namespace Worklist

variable {α : Type} [DecidableEq α]

/-! ## Each thing once -/

/-- A set and a list of what was put into it, in order. -/
structure Found (α : Type) where
  visited : List α := []
  result : List α := []

namespace Found

/-- A thing is added unless it is there. -/
def insert (s : Found α) (a : α) : Found α :=
  if a ∈ s.visited then s else { visited := a :: s.visited, result := s.result ++ [a] }

/-- What is in the set is what it was made with and what is in the list, each once. -/
def Valid (seed : List α) (s : Found α) : Prop :=
  (seed ++ s.result).Nodup ∧ ∀ x, x ∈ s.visited ↔ x ∈ seed ++ s.result

theorem Valid.insert {seed : List α} {s : Found α} (h : s.Valid seed) (a : α) :
    (s.insert a).Valid seed ∧ ∀ x, x ∈ seed ++ (s.insert a).result ↔ x ∈ seed ++ s.result ∨ x = a := by
  obtain ⟨hnodup, hvisited⟩ := h
  unfold Found.insert
  by_cases ha : a ∈ s.visited
  · rw [if_pos ha]
    refine ⟨⟨hnodup, hvisited⟩, fun x => ⟨.inl, ?_⟩⟩
    rintro (hx | rfl)
    · exact hx
    · exact (hvisited x).mp ha
  · rw [if_neg ha]
    have hfresh : a ∉ seed ++ s.result := fun hmem => ha ((hvisited a).mpr hmem)
    have hmem : ∀ x, x ∈ seed ++ (s.result ++ [a]) ↔ x ∈ seed ++ s.result ∨ x = a := by
      intro x
      rw [← List.append_assoc, List.mem_append, List.mem_singleton]
    refine ⟨⟨?_, ?_⟩, hmem⟩
    · rw [← List.append_assoc]
      exact List.nodup_append.mpr ⟨hnodup, List.nodup_singleton a, fun x hx y hy hxy =>
        hfresh (List.mem_singleton.mp hy ▸ hxy ▸ hx)⟩
    · intro x
      rw [hmem, List.mem_cons, hvisited, or_comm]

/-- Many things are added one after the other. -/
theorem Valid.insertAll {seed : List α} (as : List α) {s : Found α} (h : s.Valid seed) :
    (as.foldl Found.insert s).Valid seed ∧
      ∀ x, x ∈ seed ++ (as.foldl Found.insert s).result ↔ x ∈ seed ++ s.result ∨ x ∈ as := by
  induction as generalizing s with
  | nil => exact ⟨h, fun x => by simp⟩
  | cons a as ih =>
    obtain ⟨hvalid, hmem⟩ := h.insert a
    obtain ⟨hvalid', hmem'⟩ := ih hvalid
    refine ⟨hvalid', fun x => ?_⟩
    rw [List.foldl_cons, hmem', hmem, List.mem_cons, or_assoc]

end Found

/-! ## The search -/

/-- What was found, and what of it is still to be expanded. -/
structure Search (α : Type) extends Found α where
  queue : List α := []

namespace Search

/-- A node is met: a new one is found, and will be expanded. -/
def visit (s : Search α) (a : α) : Search α :=
  { s.toFound.insert a with queue := if a ∈ s.visited then s.queue else s.queue ++ [a] }

/-- Nodes are expanded until there are none left, at most `fuel` of them. -/
def loop (next : α → List α) : (fuel : Nat) → Search α → Option (Search α)
  | 0, _ => none
  | fuel + 1, s =>
    match s.queue with
    | [] => some s
    | a :: queue => loop next fuel ((next a).foldl visit { s with queue })

/-- The search from an origin. -/
def start (next : α → List α) (origin : α) : Search α :=
  (next origin).foldl visit { visited := [origin] }

theorem foldl_visit (as : List α) (s : Search α) :
    (as.foldl visit s).toFound = as.foldl Found.insert s.toFound ∧
      ∃ new, (as.foldl visit s).queue = s.queue ++ new ∧
        (as.foldl visit s).result = s.result ++ new := by
  induction as generalizing s with
  | nil => exact ⟨rfl, [], (List.append_nil _).symm, (List.append_nil _).symm⟩
  | cons a as ih =>
    obtain ⟨hfound, new, hqueue, hresult⟩ := ih (s.visit a)
    refine ⟨hfound, ?_⟩
    rw [List.foldl_cons, hqueue, hresult]
    by_cases ha : a ∈ s.visited
    · refine ⟨new, ?_, ?_⟩
      · simp [visit, ha]
      · simp [visit, Found.insert, ha]
    · refine ⟨a :: new, ?_, ?_⟩
      · simp [visit, ha]
      · simp [visit, Found.insert, ha]

variable {next : α → List α} {origin : α}

/-- `b` is a successor of `a`. -/
def Edge (next : α → List α) (a b : α) : Prop := b ∈ next a

/-- **The invariant**: what was found was reached, and all successors of what was expanded (`done`,
and the origin) were met. -/
structure Explored (next : α → List α) (origin : α) (done : List α) (s : Search α) : Prop where
  valid : s.toFound.Valid [origin]
  split : s.result = done ++ s.queue
  reached : ∀ x ∈ s.result, Relation.TransGen (Edge next) origin x
  closed : ∀ x ∈ origin :: done, ∀ y ∈ next x, y ∈ origin :: s.result

/-- One more node is expanded. -/
theorem Explored.expand {done queue : List α} {s : Search α} {a : α}
    (h : Explored next origin done s) (hqueue : s.queue = a :: queue) :
    Explored next origin (done ++ [a]) ((next a).foldl visit { s with queue }) := by
  obtain ⟨hfound, new, hqueue', hresult⟩ := foldl_visit (next a) { s with queue }
  obtain ⟨hvalid, hmem⟩ := h.valid.insertAll (next a)
  rw [← hfound] at hvalid hmem
  have ha : a ∈ s.result := by
    rw [h.split, hqueue]
    exact List.mem_append.mpr (.inr (List.mem_cons_self ..))
  have hreached := h.reached a ha
  refine ⟨hvalid, ?_, ?_, ?_⟩
  · rw [hresult, hqueue', h.split, hqueue]
    simp
  · intro x hx
    rcases (hmem x).mp (List.mem_cons_of_mem _ hx) with hold | hnew
    · rcases List.mem_cons.mp hold with rfl | hold
      -- The origin counts as seen, so it is never found.
      · exact absurd hx (List.nodup_cons.mp hvalid.1).1
      · exact h.reached x hold
    · exact hreached.tail hnew
  · intro x hx y hy
    rw [← List.cons_append] at hx
    rcases List.mem_append.mp hx with hx | hx
    · exact (hmem y).mpr (.inl (h.closed x hx y hy))
    · rw [List.mem_singleton.mp hx] at hy
      exact (hmem y).mpr (.inr hy)

theorem explored_start (next : α → List α) (origin : α) :
    Explored next origin [] (start next origin) := by
  obtain ⟨hfound, new, hqueue, hresult⟩ :=
    foldl_visit (next origin) { visited := [origin], result := [], queue := [] }
  have hbegin : Found.Valid [origin] ({ visited := [origin] } : Found α) :=
    ⟨List.nodup_singleton origin, fun x => Iff.rfl⟩
  obtain ⟨hvalid, hmem⟩ := hbegin.insertAll (next origin)
  rw [← hfound] at hvalid hmem
  refine ⟨hvalid, ?_, ?_, ?_⟩
  · exact hresult.trans hqueue.symm
  · intro x hx
    rcases (hmem x).mp (List.mem_cons_of_mem _ hx) with hold | hnew
    · rw [List.mem_singleton.mp hold] at hx
      exact absurd hx (List.nodup_cons.mp hvalid.1).1
    · exact .single hnew
  · intro x hx y hy
    rw [List.mem_singleton.mp hx] at hy
    exact (hmem y).mpr (.inr hy)

/-- **The search ends** when the nodes that can be found are among finitely many: it expands each
of them once. -/
theorem Explored.loop {nodes : List α} (hnodes : ∀ x, ∀ y ∈ next x, y ∈ nodes) {fuel : Nat}
    {done : List α} {s : Search α} (h : Explored next origin done s)
    (hfuel : nodes.length < fuel + done.length) :
    ∃ t, Search.loop next fuel s = some t ∧ Explored next origin t.result t := by
  induction fuel generalizing done s with
  | zero =>
    have hsub : done ⊆ nodes := by
      intro x hx
      have hfound : x ∈ s.result := h.split ▸ List.mem_append_left _ hx
      obtain ⟨y, -, hedge⟩ := Relation.TransGen.tail'_iff.mp (h.reached x hfound)
      exact hnodes y x hedge
    have hall : (done ++ s.queue).Nodup := h.split ▸ (List.nodup_cons.mp h.valid.1).2
    have hnodup : done.Nodup := (List.nodup_append.mp hall).1
    have hlen := List.Nodup.length_le_of_subset hnodup hsub
    omega
  | succ fuel ih =>
    unfold Search.loop
    cases hqueue : s.queue with
    | nil =>
      refine ⟨s, rfl, ?_⟩
      have hdone : s.result = done := by rw [h.split, hqueue, List.append_nil]
      exact ⟨h.valid, by rw [hqueue, List.append_nil], h.reached, hdone ▸ h.closed⟩
    | cons a queue =>
      exact ih (h.expand hqueue) (by rw [List.length_append, List.length_singleton]; omega)

/-- Fuel that is enough is enough when there is more of it. -/
theorem loop_mono {fuel more : Nat} {s t : Search α} (hle : fuel ≤ more)
    (h : Search.loop next fuel s = some t) : Search.loop next more s = some t := by
  induction fuel generalizing s more with
  | zero => cases h
  | succ fuel ih =>
    cases more with
    | zero => exact absurd hle (Nat.not_succ_le_zero fuel)
    | succ more =>
      unfold Search.loop at h ⊢
      cases hqueue : s.queue with
      | nil =>
        rw [hqueue] at h
        exact h
      | cons a queue =>
        rw [hqueue] at h
        exact ih (Nat.le_of_succ_le_succ hle) h

omit [DecidableEq α] in
/-- **What was found is what is reached**, but for the origin. -/
theorem Explored.mem_result {s : Search α} (h : Explored next origin s.result s) {x : α} :
    x ∈ s.result ↔ Relation.TransGen (Edge next) origin x ∧ x ≠ origin := by
  constructor
  · intro hx
    refine ⟨h.reached x hx, ?_⟩
    rintro rfl
    exact (List.nodup_cons.mp h.valid.1).1 hx
  · rintro ⟨hreach, hne⟩
    have hmet : x ∈ origin :: s.result := by
      clear hne
      induction hreach with
      | single hedge => exact h.closed origin (List.mem_cons_self ..) _ hedge
      | tail _ hedge ih => exact h.closed _ ih _ hedge
    exact (List.mem_cons.mp hmet).resolve_left hne

end Search

/-- **The search from an origin**, put together: one round for each node is enough. -/
theorem search_spec {next : α → List α} {nodes : List α} (hnodes : ∀ x, ∀ y ∈ next x, y ∈ nodes)
    (origin : α) :
    ∃ t, (∀ fuel, nodes.length < fuel →
        Search.loop next fuel (Search.start next origin) = some t) ∧ t.result.Nodup ∧
      ∀ x, x ∈ t.result ↔ Relation.TransGen (Search.Edge next) origin x ∧ x ≠ origin := by
  obtain ⟨t, hloop, ht⟩ := (Search.explored_start next origin).loop hnodes
    (Nat.lt_succ_self nodes.length)
  refine ⟨t, ?_, (List.nodup_cons.mp ht.valid.1).2, fun x => ht.mem_result⟩
  intro fuel hfuel
  exact Search.loop_mono hfuel hloop

end Worklist
