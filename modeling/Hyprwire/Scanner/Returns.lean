import Hyprwire.Lib.Worklist
import Hyprwire.Scanner.Protocol

/-!
# `Scanner/Returns.lean` — the `Dispatch` bounds of generated server code

Where a method makes an object, the generated server code wraps it with `new::<D>`, and asks of `D`
that it dispatches that object, those the object makes, and so on. `generate_server` collects the
names with a search over the `returns` of the methods, once for each object and once for all.

The names that are collected are those that are reached (`collectTransitiveReturns_spec`), so what
an object asks for is asked for by whatever makes it (`transitive_returns_closure`).
-/

namespace Hyprwire.Scanner

open Worklist

/-- The methods of the first object with the name. -/
def methodsOf (p : Protocol) (name : String) : List Method :=
  match p.objects.find? fun o => o.name = name with
  | some obj => obj.c2s
  | none => []

/-- What `m.returns.as_deref()` gives, method by method. -/
def returnsOf (p : Protocol) (name : String) : List String :=
  (methodsOf p name).filterMap Method.returns

/-- The loop over the methods of an object, in `collect_transitive_returns`. -/
def visitReturns (p : Protocol) (name : String) (s : Search String) : Search String :=
  (methodsOf p name).foldl (fun s m =>
    match m.returns with
    | some returned => s.visit returned
    | none => s) s

/-- Its `while let` loop. -/
def drainQueue (p : Protocol) : (fuel : Nat) → Search String → Option (Search String)
  | 0, _ => none
  | fuel + 1, s =>
    match s.queue with
    | [] => some s
    | current :: queue => drainQueue p fuel (visitReturns p current { s with queue })

/-- `collect_transitive_returns`, with `fuel` rounds of its loop; `none` when it has not ended. -/
def collectTransitiveReturns (fuel : Nat) (objName : String) (p : Protocol) :
    Option (List String) :=
  (drainQueue p fuel (visitReturns p objName { visited := [objName] })).map (·.result)

/-- The loop over the objects, in `collect_all_transitive_returns`. -/
def collectAll (fuel : Nat) (p : Protocol) : List Object → Found String → Option (Found String)
  | [], s => some s
  | obj :: objects, s =>
    match collectTransitiveReturns fuel obj.name p with
    | some names => collectAll fuel p objects (names.foldl Found.insert s)
    | none => none

/-- `collect_all_transitive_returns`. -/
def collectAllTransitiveReturns (fuel : Nat) (p : Protocol) : Option (List String) :=
  (collectAll fuel p p.objects {}).map (·.result)

/-- A method of the object of the first name returns the second. -/
def Returns (p : Protocol) : String → String → Prop := Search.Edge (returnsOf p)

theorem returns_iff {p : Protocol} {a b : String} :
    Returns p a b ↔ ∃ obj, (p.objects.find? fun o => o.name = a) = some obj ∧
      ∃ m ∈ obj.c2s, m.returns = some b := by
  unfold Returns Search.Edge returnsOf methodsOf
  rw [List.mem_filterMap]
  cases p.objects.find? fun o => o.name = a with
  | none => simp
  | some obj => simp

/-! ## The loops are the search -/

theorem visitReturns_eq (p : Protocol) (name : String) (s : Search String) :
    visitReturns p name s = (returnsOf p name).foldl Search.visit s := by
  unfold visitReturns returnsOf
  induction methodsOf p name generalizing s with
  | nil => rfl
  | cons m ms ih =>
    rw [List.foldl_cons, List.filterMap_cons, ih]
    cases m.returns <;> rfl

theorem drainQueue_eq (p : Protocol) (fuel : Nat) (s : Search String) :
    drainQueue p fuel s = Search.loop (returnsOf p) fuel s := by
  induction fuel generalizing s with
  | zero => rfl
  | succ fuel ih =>
    unfold drainQueue Search.loop
    cases s.queue with
    | nil => rfl
    | cons current queue =>
      simp only [ih, visitReturns_eq]

/-- Every name that some method returns. -/
def returnedNames (p : Protocol) : List String :=
  p.objects.flatMap fun o => o.c2s.filterMap Method.returns

theorem mem_returnedNames {p : Protocol} {name returned : String}
    (h : returned ∈ returnsOf p name) : returned ∈ returnedNames p := by
  obtain ⟨obj, hobj, m, hm, hreturned⟩ := returns_iff.mp h
  refine List.mem_flatMap.mpr ⟨obj, List.mem_of_find?_eq_some hobj, ?_⟩
  exact List.mem_filterMap.mpr ⟨m, hm, hreturned⟩

/-- **The names that are collected are those that are reached**, and as many rounds as there are
returned names are enough to find them. -/
theorem collectTransitiveReturns_spec (p : Protocol) (objName : String) :
    ∃ names, (∀ fuel, (returnedNames p).length < fuel →
        collectTransitiveReturns fuel objName p = some names) ∧ names.Nodup ∧
      ∀ x, x ∈ names ↔ Relation.TransGen (Returns p) objName x ∧ x ≠ objName := by
  obtain ⟨t, hloop, hnodup, hmem⟩ :=
    search_spec (fun _ _ h => mem_returnedNames (p := p) h) objName
  refine ⟨t.result, ?_, hnodup, hmem⟩
  intro fuel hfuel
  rw [collectTransitiveReturns, visitReturns_eq, drainQueue_eq]
  exact congrArg (Option.map (·.result)) (hloop fuel hfuel)

/-! ## The bounds -/

/-- The second search puts what the first finds together, object by object. -/
theorem collectAll_eq {p : Protocol} {fuel : Nat} {bounds : String → List String}
    (hbounds : ∀ name, collectTransitiveReturns fuel name p = some (bounds name))
    (objects : List Object) (s : Found String) :
    collectAll fuel p objects s
      = some ((objects.flatMap fun o => bounds o.name).foldl Found.insert s) := by
  induction objects generalizing s with
  | nil => rfl
  | cons o objects ih => rw [collectAll, hbounds, List.flatMap_cons, List.foldl_append, ← ih]

/-- As many rounds are enough for all objects. -/
theorem collectAllTransitiveReturns_spec {p : Protocol} {bounds : String → List String}
    (hrun : ∀ name fuel, (returnedNames p).length < fuel →
      collectTransitiveReturns fuel name p = some (bounds name)) :
    ∃ all, (∀ fuel, (returnedNames p).length < fuel →
        collectAllTransitiveReturns fuel p = some all) ∧ all.Nodup ∧
      ∀ x, x ∈ all ↔ ∃ o ∈ p.objects, x ∈ bounds o.name := by
  have hempty : ({} : Found String).Valid [] := ⟨List.nodup_nil, fun x => Iff.rfl⟩
  obtain ⟨hvalid, hall⟩ := hempty.insertAll (p.objects.flatMap fun o => bounds o.name)
  have hnodup : ((p.objects.flatMap fun o => bounds o.name).foldl Found.insert {}).result.Nodup :=
    hvalid.1
  refine ⟨((p.objects.flatMap fun o => bounds o.name).foldl Found.insert {}).result, ?_, hnodup, ?_⟩
  · intro fuel hfuel
    rw [collectAllTransitiveReturns, collectAll_eq fun name => hrun name fuel hfuel]
    rfl
  · intro x
    have hx := hall x
    rw [List.nil_append, List.mem_flatMap] at hx
    rw [hx]
    exact or_iff_right List.not_mem_nil

/-- When the objects have names of their own, every method counts. -/
theorem returns_of_mem {p : Protocol} {o : Object} {m : Method} {returned : String}
    (hnames : (p.objects.map Object.name).Nodup) (ho : o ∈ p.objects) (hm : m ∈ o.c2s)
    (hreturned : m.returns = some returned) : Returns p o.name returned := by
  refine returns_iff.mpr ⟨o, ?_, m, hm, hreturned⟩
  cases hfind : p.objects.find? fun o' => o'.name = o.name with
  | none =>
    exact absurd (decide_eq_true rfl) (List.find?_eq_none.mp hfind o ho)
  | some first =>
    have hname : first.name = o.name := by simpa using List.find?_some hfind
    exact congrArg some
      (List.inj_on_of_nodup_map hnames (List.mem_of_find?_eq_some hfind) ho hname)

/-- **Dispatch bounds are the reachability closure.** The searches end, and find without
duplicates what is reached from an object, and what is reached from any. If the objects have names
of their own, whoever meets the bounds of an object meets those of every object it makes, and whoever
meets all bounds those of the first object. -/
theorem transitive_returns_closure (p : Protocol) :
    ∃ (bounds : String → List String) (all : List String),
      (∀ name fuel, (returnedNames p).length < fuel →
        collectTransitiveReturns fuel name p = some (bounds name)) ∧
      (∀ fuel, (returnedNames p).length < fuel →
        collectAllTransitiveReturns fuel p = some all) ∧
      (∀ name, (bounds name).Nodup ∧ name ∉ bounds name ∧
        ∀ x, x ∈ bounds name ↔ Relation.TransGen (Returns p) name x ∧ x ≠ name) ∧
      (all.Nodup ∧ ∀ x, x ∈ all ↔ ∃ o ∈ p.objects, x ∈ bounds o.name) ∧
      ((p.objects.map Object.name).Nodup →
        (∀ o ∈ p.objects, ∀ m ∈ o.c2s, ∀ returned, m.returns = some returned →
          returned :: bounds returned ⊆ o.name :: bounds o.name) ∧
        ∀ first, p.objects.head? = some first →
          first.name :: bounds first.name ⊆ first.name :: all) := by
  choose bounds hrun hnodup hmem using collectTransitiveReturns_spec p
  obtain ⟨all, hend, hvalid, hunion⟩ := collectAllTransitiveReturns_spec hrun
  refine ⟨bounds, all, hrun, hend, ?_, ⟨hvalid, hunion⟩, ?_⟩
  · intro name
    exact ⟨hnodup name, fun hself => ((hmem name name).mp hself).2 rfl, hmem name⟩
  intro hnames
  constructor
  · intro o ho m hm returned hreturned x hx
    have hedge := returns_of_mem hnames ho hm hreturned
    -- Whatever is reached from the returned object is reached through it.
    have hreach : Relation.TransGen (Returns p) o.name x := by
      rcases List.mem_cons.mp hx with rfl | hx
      · exact .single hedge
      · exact .head hedge ((hmem returned x).mp hx).1
    by_cases hself : x = o.name
    · exact List.mem_cons.mpr (.inl hself)
    · exact List.mem_cons.mpr (.inr ((hmem o.name x).mpr ⟨hreach, hself⟩))
  · intro first hfirst
    refine List.cons_subset_cons _ ?_
    intro x hx
    exact (hunion x).mpr ⟨first, List.mem_of_head? hfirst, hx⟩

/-- A cycle: a root makes children, a child makes leaves and roots, a leaf makes leaves. -/
def cyclic : Protocol where
  name := "simple"
  version := 1
  objects := [
    { name := "root", version := 1, s2c := []
      c2s := [⟨"make_child", [], some "child", false⟩] },
    { name := "child", version := 1, s2c := []
      c2s := [⟨"make_leaf", [], some "leaf", false⟩, ⟨"make_root", [], some "root", false⟩] },
    { name := "leaf", version := 1, s2c := []
      c2s := [⟨"make_leaf", [], some "leaf", false⟩] }]
  enums := []

example : collectTransitiveReturns 5 "root" cyclic = some ["child", "leaf"]
    ∧ collectTransitiveReturns 5 "leaf" cyclic = some [] := by decide

end Hyprwire.Scanner
