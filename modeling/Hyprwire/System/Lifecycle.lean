import Mathlib.Data.List.Nodup
import Mathlib.Data.List.Induction
import Hyprwire.System.Turn

/-!
# `System/Lifecycle.lean` — destructors of server objects

The destructor of an object is dispatched when the client calls it or, when the client leaves, on
its behalf. Two pieces of state keep it from happening twice, the `destroyed` flag and the table.
They are changed together everywhere but for an object whose id is 0, which stays in the table
when its destructor was dispatched; ids start from 1, and the counter comes to 0 when it wraps.

A client that leaves has its objects visited one after the other, from the last to the first
(`departure`).
-/

namespace Hyprwire.Server

variable {s s' : Server}

/-! ## At most once -/

/-- A destructor that was dispatched has left its mark, and the object would not be in the table
but for its id. -/
def Spared (s : Server) (k : Nat) : Prop :=
  k ∈ s.destructs → (s.objects k).destroyed = true ∧ (s.objects k).id = 0

/-- What is known of the objects still to be dealt with, wherever the dispatch stands. -/
def Pending (s : Server) : Phase → Prop
  | .idle | .batch _ => ∀ k ∈ s.table, s.Spared k
  | .callback _ k₀ method => ∀ k ∈ s.table,
      s.Spared k ∨ (k = k₀ ∧ ∃ m, method = some m ∧ isDestructor (s.objects k) m = true)
  | .leaving rest =>
    rest.Pairwise (· > ·) ∧ (∀ k ∈ rest, k < s.size) ∧
      ∀ k ∈ rest, k ∈ s.destructs → (s.objects k).destroyed = true
  | .leavingCallback rest k₀ =>
    (k₀ :: rest).Pairwise (· > ·) ∧ (∀ k ∈ rest, k < s.size) ∧
      ∀ k ∈ rest, k ∈ s.destructs → (s.objects k).destroyed = true

/-- **No destructor was dispatched twice**, and none will be. -/
structure Once (s : Server) : Prop where
  table_lt : ∀ k ∈ s.table, k < s.size
  sorted : s.table.Pairwise (· < ·)
  destructs_lt : ∀ k ∈ s.destructs, k < s.size
  once : s.destructs.Nodup
  pending : s.Pending s.phase
  gone : s.gone = true → s.phase = .idle ∧ s.table = []

/-- **No destructor is called on an object with id 0 that was destroyed before.** -/
def Addressed (s : Server) : Action → Prop
  | .handle => ∀ msg rest k, s.phase = .batch (.generic msg :: rest) →
      s.objectForId msg.object = some k → isDestructor (s.objects k) msg.method = true →
        (s.objects k).id ≠ 0 ∨ (s.objects k).destroyed = false
  | _ => True

theorem Once.init (impls : List ProtocolSpec) : Once { impls } where
  table_lt _ h := by cases h
  sorted := .nil
  destructs_lt _ h := by cases h
  once := .nil
  pending _ h := by cases h
  gone h := by cases h

/-- What `Once` reads is left alone. -/
structure Alike (s s' : Server) : Prop where
  objects : ∀ k, SameObject (s.objects k) (s'.objects k)
  size : s'.size = s.size
  table : s'.table = s.table
  destructs : s'.destructs = s.destructs
  gone : s'.gone = s.gone

theorem Aside.alike (h : Aside s s') : Alike s s' :=
  ⟨h.objects, h.size, h.table, h.destructs, h.gone⟩

theorem Alike.spared (h : Alike s s') {k : Nat} (hs : s.Spared k) : s'.Spared k := by
  intro hk
  obtain ⟨hdestroyed, hid⟩ := hs (h.destructs ▸ hk)
  exact ⟨(h.objects k).destroyed hdestroyed, (h.objects k).id.trans hid⟩

theorem Alike.pending (h : Alike s s') {phase : Phase} (hp : s.Pending phase) :
    s'.Pending phase := by
  have hrest : ∀ {rest : List Nat}, (∀ k ∈ rest, k < s.size) ∧
      (∀ k ∈ rest, k ∈ s.destructs → (s.objects k).destroyed = true) →
      (∀ k ∈ rest, k < s'.size) ∧
        ∀ k ∈ rest, k ∈ s'.destructs → (s'.objects k).destroyed = true := by
    rintro rest ⟨hlt, hdestroyed⟩
    rw [h.size, h.destructs]
    exact ⟨hlt, fun k hk hin => (h.objects k).destroyed (hdestroyed k hk hin)⟩
  cases phase with
  | idle => exact fun k hk => h.spared (hp k (h.table ▸ hk))
  | batch rest => exact fun k hk => h.spared (hp k (h.table ▸ hk))
  | callback rest k₀ method =>
    intro k hk
    rcases hp k (h.table ▸ hk) with hs | ⟨hk₀, m, hm, hdes⟩
    · exact .inl (h.spared hs)
    · exact .inr ⟨hk₀, m, hm, ((h.objects k).isDestructor m).trans hdes⟩
  | leaving rest => exact ⟨hp.1, hrest hp.2⟩
  | leavingCallback rest k₀ => exact ⟨hp.1, hrest hp.2⟩

/-- A step that changes nothing of it but the phase. -/
theorem Once.alike (hs : Once s) (h : Alike s s') (hpending : s.Pending s'.phase)
    (hgone : s'.gone = true → s'.phase = .idle) : Once s' where
  table_lt k hk := h.size ▸ hs.table_lt k (h.table ▸ hk)
  sorted := h.table ▸ hs.sorted
  destructs_lt k hk := h.size ▸ hs.destructs_lt k (h.destructs ▸ hk)
  once := h.destructs ▸ hs.once
  pending := h.pending hpending
  gone hg := ⟨hgone hg, h.table ▸ (hs.gone (h.gone ▸ hg)).2⟩

theorem Once.aside (hs : Once s) (h : Aside s s') : Once s' :=
  hs.alike h.alike (h.phase ▸ hs.pending) fun hg => by
    rw [h.phase]
    exact (hs.gone (h.gone ▸ hg)).1

/-- The objects that are visited when a client starts to leave. -/
theorem pending_leaving (htable_lt : ∀ k ∈ s.table, k < s.size) (hsorted : s.table.Pairwise (· < ·))
    (hspared : ∀ k ∈ s.table, s.Spared k) : s.Pending (.leaving s.table.reverse) := by
  refine ⟨List.pairwise_reverse.mpr hsorted, fun k hk => ?_, fun k hk hin => ?_⟩
  · exact htable_lt k (List.mem_reverse.mp hk)
  · exact (hspared k (List.mem_reverse.mp hk) hin).1

theorem Once.abort (hs : Once s) (hgone : s.gone = false) (hspared : ∀ k ∈ s.table, s.Spared k)
    (errorMsg : String) : Once (s.abort errorMsg) := by
  have haside := Aside.write s (.fatalProtocolError 0 (wordSize - 1) errorMsg)
  have halike : Alike s (s.abort errorMsg) :=
    ⟨haside.objects, haside.size, haside.table, haside.destructs, haside.gone⟩
  refine hs.alike halike ?_ fun hg => ?_
  · have hphase : (s.abort errorMsg).phase = .leaving s.table.reverse := by
      rw [← haside.table]
      rfl
    rw [hphase]
    exact pending_leaving hs.table_lt hs.sorted hspared
  · rw [halike.gone, hgone] at hg
    cases hg

/-- The destructor that is recorded had not been dispatched. -/
theorem Once.note (hs : Once s) {k₀ method : Nat} (hspared : ∀ k ∈ s.table, s.Spared k)
    (hk₀ : k₀ ∈ s.table) (haddr : isDestructor (s.objects k₀) method = true →
      (s.objects k₀).id ≠ 0 ∨ (s.objects k₀).destroyed = false) :
    (s.note k₀ method).destructs.Nodup ∧ (∀ k ∈ (s.note k₀ method).destructs, k < s.size) ∧
      ∀ k, k ∈ s.table → k ∈ (s.note k₀ method).destructs →
        ((s.objects k).destroyed = true ∧ (s.objects k).id = 0) ∨
          (k = k₀ ∧ isDestructor (s.objects k) method = true) := by
  rw [note_eq]
  cases hdes : isDestructor (s.objects k₀) method with
  | false =>
    simp only [Bool.false_eq_true, if_false, List.append_nil]
    exact ⟨hs.once, hs.destructs_lt, fun k hk hin => .inl (hspared k hk hin)⟩
  | true =>
    simp only [if_true]
    have hfresh : k₀ ∉ s.destructs := by
      intro hin
      obtain ⟨hdestroyed, hid⟩ := hspared k₀ hk₀ hin
      rcases haddr hdes with hne | hnot
      · exact hne hid
      · rw [hdestroyed] at hnot
        cases hnot
    refine ⟨?_, fun k hk => ?_, fun k hk hin => ?_⟩
    · refine List.nodup_append.mpr ⟨hs.once, List.nodup_singleton _, fun k hk k' hk' heq => ?_⟩
      rw [List.mem_singleton.mp hk'] at heq
      exact hfresh (heq ▸ hk)
    · rcases List.mem_append.mp hk with hk | hk
      · exact hs.destructs_lt k hk
      · exact List.mem_singleton.mp hk ▸ hs.table_lt k₀ hk₀
    · rcases List.mem_append.mp hin with hin | hin
      · exact .inl (hspared k hk hin)
      · have heq := List.mem_singleton.mp hin
        exact .inr ⟨heq, heq ▸ hdes⟩

/-- When the callback is over, the object is off the table or its id is 0. -/
theorem spared_afterDispatch {k₀ method k : Nat}
    (h : k ∈ s.table → k ∈ s.destructs →
      ((s.objects k).destroyed = true ∧ (s.objects k).id = 0) ∨
        (k = k₀ ∧ isDestructor (s.objects k) method = true))
    (hk : k ∈ (s.afterDispatch k₀ method).table) : (s.afterDispatch k₀ method).Spared k := by
  rw [afterDispatch_eq] at hk ⊢
  cases hdes : isDestructor (s.objects k₀) method with
  | false =>
    simp only [hdes, Bool.false_eq_true, if_false] at hk ⊢
    intro hin
    rcases h hk hin with hs | ⟨rfl, hdes'⟩
    · exact hs
    · rw [hdes] at hdes'
      cases hdes'
  | true =>
    simp only [hdes, if_true] at hk ⊢
    intro hin
    have hin' : k ∈ s.destructs := hin
    by_cases hzero : (s.objects k₀).id = 0
    · simp only [hzero, if_true] at hk
      by_cases heq : k = k₀
      · subst heq
        simpa [setObject] using hzero
      · have := (h hk hin').resolve_right fun h' => heq h'.1
        simpa [setObject, heq] using this
    · simp only [hzero, if_false, List.mem_filter, decide_eq_true_eq] at hk
      have hne : k ≠ k₀ := fun heq => hk.2 (heq ▸ rfl)
      have := (h hk.1 hin').resolve_right fun h' => hne h'.1
      simpa [setObject, hne] using this

/-- A generic message is delivered. -/
theorem Once.onGeneric (hs : Once s) {msg : Generic} {rest : List C2S} (hgone : s.gone = false)
    (hspared : ∀ k ∈ s.table, s.Spared k)
    (haddr : ∀ k, s.objectForId msg.object = some k → isDestructor (s.objects k) msg.method = true →
      (s.objects k).id ≠ 0 ∨ (s.objects k).destroyed = false) :
    Once (s.onGeneric msg rest) := by
  have hdelivered := delivered s msg rest
  generalize s.onGeneric msg rest = t at hdelivered
  have hfalse : ∀ {t : Server} {p : Prop}, t.gone = s.gone → t.gone = true → p := by
    intro t p heq hg
    rw [heq, hgone] at hg
    cases hg
  cases hdelivered with
  | unknown hfind =>
    have haside := Aside.write s (.fatalProtocolError msg.object (wordSize - 1)
      s!"generic message references unknown object {msg.object}")
    exact hs.alike ⟨haside.objects, haside.size, haside.table, haside.destructs, haside.gone⟩ hspared
      (hfalse haside.gone)
  | silent k hfind hquiet =>
    obtain ⟨honce, hlt, hwhich⟩ :=
      hs.note hspared (List.mem_of_find?_eq_some hfind) (haddr k hfind)
    have hnote : (s.note k msg.method).objects = s.objects ∧ (s.note k msg.method).table = s.table ∧
        (s.note k msg.method).size = s.size ∧ (s.note k msg.method).gone = s.gone := by
      rw [note_eq]
      exact ⟨rfl, rfl, rfl, rfl⟩
    have hstill := Still.afterDispatch (s.note k msg.method) k msg.method
    have hdestructs : ((s.note k msg.method).afterDispatch k msg.method).destructs =
        (s.note k msg.method).destructs := by
      rw [afterDispatch_eq]
      split <;> rfl
    have hgone' : ((s.note k msg.method).afterDispatch k msg.method).gone = s.gone := by
      rw [afterDispatch_eq]
      split <;> exact hnote.2.2.2
    obtain ⟨p, hp⟩ := hstill.table
    rw [hnote.2.1] at hp
    refine ⟨fun i hi => ?_, ?_, fun i hi => ?_, ?_, fun i hi => ?_, hfalse hgone'⟩
    · have hi' : i ∈ s.table.filter p := hp ▸ hi
      exact (hstill.size.trans hnote.2.2.1) ▸ hs.table_lt i (List.mem_filter.mp hi').1
    · exact hp ▸ hs.sorted.sublist List.filter_sublist
    · exact (hstill.size.trans hnote.2.2.1) ▸ hlt i (hdestructs ▸ hi)
    · exact hdestructs ▸ honce
    · refine spared_afterDispatch (s := s.note k msg.method) ?_ hi
      rw [hnote.1, hnote.2.1]
      exact hwhich i
  | called k hfind hcalls =>
    obtain ⟨honce, hlt, hwhich⟩ :=
      hs.note hspared (List.mem_of_find?_eq_some hfind) (haddr k hfind)
    rw [note_eq] at honce hlt hwhich ⊢
    refine ⟨hs.table_lt, hs.sorted, hlt, honce, fun i hi => ?_, hfalse rfl⟩
    by_cases hin : i ∈ s.destructs ++ if isDestructor (s.objects k) msg.method then [k] else []
    · rcases hwhich i hi hin with hspare | ⟨heq, hdes⟩
      · exact .inl fun _ => hspare
      · exact .inr ⟨heq, msg.method, rfl, hdes⟩
    · exact .inl fun hin' => absurd hin' hin
  | made k m hfind hcalls hm hret =>
    obtain ⟨honce, hlt, hwhich⟩ :=
      hs.note hspared (List.mem_of_find?_eq_some hfind) (haddr k hfind)
    rw [note_eq] at honce hlt hwhich ⊢
    rw [createObject_eq]
    refine ⟨fun i hi => ?_, ?_, fun i hi => Nat.lt_succ_of_lt (hlt i hi), honce, fun i hi => ?_,
      hfalse rfl⟩
    · rcases List.mem_append.mp hi with hi | hi
      · exact Nat.lt_succ_of_lt (hs.table_lt i hi)
      · exact List.mem_singleton.mp hi ▸ Nat.lt_succ_self _
    · exact History.pairwise_append_one hs.sorted hs.table_lt
    · by_cases hin : i ∈ s.destructs ++ if isDestructor (s.objects k) msg.method then [k] else []
      · have hi' : i ∈ s.table := by
          rcases List.mem_append.mp hi with hi | hi
          · exact hi
          · rw [List.mem_singleton.mp hi] at hin
            exact absurd (hlt _ hin) (Nat.lt_irrefl _)
        have hne : i ≠ s.size := Nat.ne_of_lt (hs.table_lt i hi')
        rcases hwhich i hi' hin with hspare | ⟨heq, hdes⟩
        · exact .inl fun _ => by simpa [setObject, hne] using hspare
        · exact .inr ⟨heq, msg.method, rfl, by simpa [setObject, hne] using hdes⟩
      · exact .inl fun hin' => absurd hin' hin

theorem Once.handle (hs : Once s) {msg : C2S} {rest : List C2S}
    (hphase : s.phase = .batch (msg :: rest)) (haddr : Addressed s .handle) :
    Once (s.handle msg rest) := by
  have hspared : ∀ k ∈ s.table, s.Spared k := by
    have := hs.pending
    rwa [hphase] at this
  have hgone : s.gone = false := by
    cases hg : s.gone with
    | false => rfl
    | true =>
      have := (hs.gone hg).1
      rw [hphase] at this
      cases this
  have hheard : Once (s.heard msg rest) := by
    refine hs.alike ⟨fun _ => .refl _, rfl, rfl, rfl, rfl⟩ hspared fun hg => ?_
    rw [show (s.heard msg rest).gone = s.gone from rfl, hgone] at hg
    cases hg
  have hwrite : ∀ msg' : S2C, Once ((s.heard msg rest).write msg') :=
    fun msg' => hheard.aside (.write ..)
  cases msg with
  | sup => exact hwrite _
  | handshakeAck version =>
    have haside := Aside.write (s.heard (.handshakeAck version) rest)
    refine (hwrite (.handshakeProtocols (s.impls.map fun imp =>
      (imp.specName, imp.specVer.toNat)))).alike ⟨fun _ => .refl _, rfl, rfl, rfl, rfl⟩ ?_ fun hg => ?_
    · exact (hwrite _).pending
    · exact ((hwrite _).gone hg).1
  | bindProtocol seq version protocol =>
    by_cases hversion : version = 0
    · subst hversion
      exact hheard.abort hgone hspared _
    · obtain ⟨phase, hphase', heq⟩ := handle_bind s seq protocol rest hversion
      rw [heq, createObject_eq]
      have hpending : ∀ (obj : ServerObject), ∀ k ∈ s.table ++ [s.size], k ∈ s.destructs →
          ((if k = s.size then obj else s.objects k).destroyed = true ∧
            (if k = s.size then obj else s.objects k).id = 0) := by
        intro obj k hk hin
        have hne : k ≠ s.size := Nat.ne_of_lt (hs.destructs_lt k hin)
        rcases List.mem_append.mp hk with hk | hk
        · simpa [hne] using hspared k hk hin
        · exact absurd (List.mem_singleton.mp hk) hne
      refine ⟨fun i hi => ?_, ?_, fun i hi => Nat.lt_succ_of_lt (hs.destructs_lt i hi), hs.once, ?_,
        fun hg => ?_⟩
      · rcases List.mem_append.mp hi with hi | hi
        · exact Nat.lt_succ_of_lt (hs.table_lt i hi)
        · exact List.mem_singleton.mp hi ▸ Nat.lt_succ_self _
      · exact History.pairwise_append_one hs.sorted hs.table_lt
      · rcases hphase' with rfl | rfl
        · exact hpending _
        · exact fun k hk => .inl (hpending _ k hk)
      · rw [show s.gone = true from hg] at hgone
        cases hgone
  | generic g =>
    exact hheard.onGeneric hgone hspared fun k hfind => haddr g rest k hphase hfind
  | roundtripRequest seq queue =>
    refine hs.alike ⟨fun _ => .refl _, rfl, rfl, rfl, rfl⟩ hspared fun hg => ?_
    rw [show (s.handle (.roundtripRequest seq queue) rest).gone = s.gone from rfl, hgone] at hg
    cases hg

/-- **A step dispatches no destructor a second time.** -/
theorem Once.step {a : Action} (hs : Once s) (haddr : Addressed s a) (h : step s a = some s') :
    Once s' := by
  have hopen : ∀ {phase : Phase}, s.phase = phase → phase ≠ .idle → s.gone = false := by
    intro phase hphase hne
    cases hg : s.gone with
    | false => rfl
    | true => exact absurd (hphase.symm.trans (hs.gone hg).1) hne
  have hfalse : ∀ {t : Server} {p : Prop}, s.gone = false → t.gone = s.gone → t.gone = true → p := by
    intro t p hgone heq hg
    rw [heq, hgone] at hg
    cases hg
  have hidle : s.phase = .idle → ∀ k ∈ s.table, s.Spared k := by
    intro hphase
    have := hs.pending
    rwa [hphase] at this
  have hclose : s.phase = .idle ∧ s.gone = false → Once s.close := by
    rintro ⟨hphase, hgone⟩
    exact hs.alike ⟨fun _ => .refl _, rfl, rfl, rfl, rfl⟩
      (pending_leaving hs.table_lt hs.sorted (hidle hphase)) (hfalse hgone rfl)
  cases a with
  | emit k method args =>
    simp only [Server.step, Option.ite_none_right_eq_some, Option.some.injEq] at h
    exact h.2 ▸ hs.aside (.call ..)
  | error k errorId errorMsg =>
    simp only [Server.step, Option.ite_none_right_eq_some, Option.some.injEq] at h
    exact h.2 ▸ hs.aside (.objectError ..)
  | read batch =>
    simp only [Server.step, Option.ite_none_right_eq_some, Option.some.injEq] at h
    obtain ⟨⟨hphase, hgone, -⟩, rfl⟩ := h
    exact hs.alike ⟨fun _ => .refl _, rfl, rfl, rfl, rfl⟩ (hidle hphase) (hfalse hgone rfl)
  | handle =>
    obtain ⟨msg, rest, hphase, rfl⟩ := step_handle h
    exact hs.handle hphase haddr
  | return_ =>
    have hpending := hs.pending
    simp only [Server.step] at h
    split at h
    · next rest k₀ method hphase =>
      cases h
      rw [hphase] at hpending
      have hgone := hopen hphase (by simp)
      cases method with
      | none =>
        refine hs.alike ⟨fun _ => .refl _, rfl, rfl, rfl, rfl⟩ (fun k hk => ?_) (hfalse hgone rfl)
        refine (hpending k hk).resolve_right fun h => ?_
        obtain ⟨-, m, hm, -⟩ := h
        cases hm
      | some method =>
        have hstill := Still.afterDispatch s k₀ method
        have hsame : (s.afterDispatch k₀ method).destructs = s.destructs ∧
            (s.afterDispatch k₀ method).gone = s.gone := by
          rw [afterDispatch_eq]
          split <;> exact ⟨rfl, rfl⟩
        obtain ⟨p, hp⟩ := hstill.table
        refine ⟨fun i hi => ?_, ?_, fun i hi => ?_, ?_, fun i hi => ?_, hfalse hgone hsame.2⟩
        · have hi' : i ∈ s.table.filter p := hp ▸ hi
          exact hstill.size ▸ hs.table_lt i (List.mem_filter.mp hi').1
        · exact hp ▸ hs.sorted.sublist List.filter_sublist
        · exact hstill.size ▸ hs.destructs_lt i (hsame.1 ▸ hi)
        · exact hsame.1 ▸ hs.once
        · refine spared_afterDispatch (s := s) (fun hk hin => ?_) hi
          rcases hpending i hk with hspare | ⟨heq, m, hm, hdes⟩
          · exact .inl (hspare hin)
          · cases hm
            exact .inr ⟨heq, hdes⟩
    · next rest k₀ hphase =>
      cases h
      rw [hphase] at hpending
      have haside := Aside.markDestroyed s k₀
      refine hs.alike ⟨haside.objects, rfl, rfl, rfl, rfl⟩ ?_ (hfalse (hopen hphase (by simp)) rfl)
      exact ⟨(List.pairwise_cons.mp hpending.1).2, hpending.2⟩
    · cases h
  | malformed =>
    have hpending := hs.pending
    simp only [Server.step] at h
    split at h
    · next rest hphase =>
      cases h
      rw [hphase] at hpending
      exact hs.abort (hopen hphase (by simp)) hpending _
    · cases h
  | finish =>
    have hpending := hs.pending
    simp only [Server.step] at h
    split at h
    · next hphase =>
      cases h
      rw [hphase] at hpending
      have hack : Alike s s.acknowledge := by
        unfold acknowledge
        split
        · have haside := Aside.write s (.roundtripDone s.scheduledRoundtripSeq s.scheduledRequest)
          exact ⟨haside.objects, haside.size, haside.table, haside.destructs, haside.gone⟩
        · exact ⟨fun _ => .refl _, rfl, rfl, rfl, rfl⟩
      unfold finish
      simp only
      split
      · refine hs.alike ⟨hack.objects, hack.size, hack.table, hack.destructs, hack.gone⟩ ?_
          (hfalse (hopen hphase (by simp)) hack.gone)
        have hleaving := pending_leaving hs.table_lt hs.sorted hpending
        rwa [← hack.table] at hleaving
      · exact hs.alike ⟨hack.objects, hack.size, hack.table, hack.destructs, hack.gone⟩ hpending
          (hfalse (hopen hphase (by simp)) hack.gone)
    · cases h
  | unreadable =>
    simp only [Server.step, Option.ite_none_right_eq_some, Option.some.injEq] at h
    obtain ⟨⟨hphase, hgone⟩, rfl⟩ := h
    exact hs.abort hgone (hidle hphase) _
  | hangup =>
    simp only [Server.step, Option.ite_none_right_eq_some, Option.some.injEq] at h
    exact h.2 ▸ hclose h.1
  | remove =>
    simp only [Server.step, Option.ite_none_right_eq_some, Option.some.injEq] at h
    exact h.2 ▸ hclose h.1
  | visit =>
    have hpending := hs.pending
    simp only [Server.step] at h
    split at h
    · next k rest hphase =>
      cases h
      rw [hphase] at hpending
      obtain ⟨hsorted, hlt, hmarked⟩ := hpending
      obtain ⟨hgt, hsorted'⟩ := List.pairwise_cons.mp hsorted
      have hgone := hopen hphase (by simp)
      have hrest : rest.Pairwise (· > ·) ∧ (∀ i ∈ rest, i < s.size) ∧
          ∀ i ∈ rest, i ∈ s.destructs → (s.objects i).destroyed = true :=
        ⟨hsorted', fun i hi => hlt i (List.mem_cons_of_mem k hi),
          fun i hi => hmarked i (List.mem_cons_of_mem k hi)⟩
      unfold visit
      split
      · exact hs.alike ⟨fun _ => .refl _, rfl, rfl, rfl, rfl⟩ hrest (hfalse hgone rfl)
      · next m hm =>
        have hfresh : k ∉ s.destructs := by
          intro hin
          have hdestroyed := hmarked k (List.mem_cons_self ..) hin
          simp [disconnectDestructor, hdestroyed] at hm
        have honce : (s.destructs ++ [k]).Nodup := by
          refine List.nodup_append.mpr ⟨hs.once, List.nodup_singleton _, fun i hi j hj heq => ?_⟩
          rw [List.mem_singleton.mp hj] at heq
          exact hfresh (heq ▸ hi)
        have hdestructs_lt : ∀ i ∈ s.destructs ++ [k], i < s.size := by
          intro i hi
          rcases List.mem_append.mp hi with hi | hi
          · exact hs.destructs_lt i hi
          · exact List.mem_singleton.mp hi ▸ hlt k (List.mem_cons_self ..)
        have hmarked' : ∀ i ∈ rest, i ∈ s.destructs ++ [k] → (s.objects i).destroyed = true := by
          intro i hi hin
          rcases List.mem_append.mp hin with hin | hin
          · exact hrest.2.2 i hi hin
          · rw [List.mem_singleton.mp hin] at hi
            exact absurd (hgt k hi) (Nat.lt_irrefl k)
        simp only
        split
        · exact ⟨hs.table_lt, hs.sorted, hdestructs_lt, honce, ⟨hsorted, hrest.2.1, hmarked'⟩,
            hfalse hgone rfl⟩
        · refine ⟨hs.table_lt, hs.sorted, hdestructs_lt, honce, ⟨hsorted', hrest.2.1, fun i hi hin => ?_⟩,
            hfalse hgone rfl⟩
          exact ((Aside.markDestroyed s k).objects i).destroyed (hmarked' i hi hin)
    · next hphase =>
      cases h
      exact ⟨by simp [leave], .nil, hs.destructs_lt, hs.once, by simp [leave, Pending], fun _ => ⟨rfl, rfl⟩⟩
    · cases h

/-! ## Leaving -/

/-- A step of a client that leaves ends a callback or visits the next object, if it is not an
event or an error on the side. -/
theorem leaving_cases {a : Action} {rest : List Nat} (hrest : s.phase.unvisited = some rest)
    (h : step s a = some s') :
    Aside s s' ∨
    (∃ k, s.phase = .leavingCallback rest k ∧ s' = { s.destroy k with phase := .leaving rest }) ∨
    (a = .visit ∧ s.phase = .leaving rest ∧
      ((rest = [] ∧ s' = s.leave) ∨ ∃ k rest', rest = k :: rest' ∧ s' = s.visit k rest')) := by
  have hnot : s.phase ≠ .idle ∧ s.phase.dispatching = false := by
    constructor
    · intro hphase
      rw [hphase] at hrest
      cases hrest
    · cases hphase : s.phase with
      | batch rest' =>
        rw [hphase] at hrest
        cases hrest
      | callback rest' k method =>
        rw [hphase] at hrest
        cases hrest
      | _ => rfl
  cases a with
  | emit k method args =>
    simp only [Server.step, Option.ite_none_right_eq_some, Option.some.injEq] at h
    exact .inl (h.2 ▸ .call ..)
  | error k errorId errorMsg =>
    simp only [Server.step, Option.ite_none_right_eq_some, Option.some.injEq] at h
    exact .inl (h.2 ▸ .objectError ..)
  | read batch =>
    simp only [Server.step, Option.ite_none_right_eq_some] at h
    exact absurd h.1.1 hnot.1
  | handle =>
    obtain ⟨msg, rest', hphase, -⟩ := step_handle h
    rw [hphase] at hnot
    cases hnot.2
  | return_ =>
    simp only [Server.step] at h
    split at h
    · next hphase =>
      rw [hphase] at hnot
      cases hnot.2
    · next rest' k hphase =>
      cases h
      rw [hphase] at hrest
      cases hrest
      exact .inr (.inl ⟨k, hphase, rfl⟩)
    · cases h
  | malformed =>
    simp only [Server.step] at h
    split at h
    · next hphase =>
      rw [hphase] at hnot
      cases hnot.2
    · cases h
  | finish =>
    simp only [Server.step] at h
    split at h
    · next hphase =>
      rw [hphase] at hnot
      cases hnot.2
    · cases h
  | unreadable =>
    simp only [Server.step, Option.ite_none_right_eq_some] at h
    exact absurd h.1.1 hnot.1
  | hangup =>
    simp only [Server.step, Option.ite_none_right_eq_some] at h
    exact absurd h.1.1 hnot.1
  | remove =>
    simp only [Server.step, Option.ite_none_right_eq_some] at h
    exact absurd h.1.1 hnot.1
  | visit =>
    simp only [Server.step] at h
    split at h
    · next k rest' hphase =>
      cases h
      rw [hphase] at hrest
      cases hrest
      exact .inr (.inr ⟨rfl, hphase, .inr ⟨k, rest', rfl, rfl⟩⟩)
    · next hphase =>
      cases h
      rw [hphase] at hrest
      cases hrest
      exact .inr (.inr ⟨rfl, hphase, .inl ⟨rfl, rfl⟩⟩)
    · cases h

/-- The object still has a destructor that can be called on the client's behalf. -/
def Owed (obj : ServerObject) : Prop :=
  obj.destroyed = false ∧
    ∃ m ∈ obj.methodsIn, m.destructor = true ∧ m.params = [] ∧ m.returnsType = ""

theorem disconnectDestructor_isSome {obj : ServerObject} :
    (disconnectDestructor obj).isSome ↔ Owed obj := by
  unfold disconnectDestructor Owed
  cases obj.destroyed with
  | true => simp
  | false => simp [List.find?_isSome]

/-- Visiting an object dispatches the destructor it is owed. -/
theorem visit_effect (s : Server) (k : Nat) (rest : List Nat) :
    (s.visit k rest).phase.unvisited = some rest ∧ (s.visit k rest).gone = s.gone ∧
      ((Owed (s.objects k) ∧ (s.visit k rest).destructs = s.destructs ++ [k]) ∨
        (¬ Owed (s.objects k) ∧ (s.visit k rest).destructs = s.destructs)) := by
  rw [← disconnectDestructor_isSome]
  unfold visit
  split
  · next hnone => exact ⟨rfl, rfl, .inr ⟨by simp [hnone], rfl⟩⟩
  · next m hm =>
    simp only
    split
    · exact ⟨rfl, rfl, .inl ⟨by simp [hm], rfl⟩⟩
    · exact ⟨rfl, rfl, .inl ⟨by simp [hm], rfl⟩⟩

/-- Nothing more happens to a client that is gone. -/
theorem gone_step {a : Action} (hgone : s.gone = true ∧ s.phase = .idle)
    (h : step s a = some s') : Aside s s' := by
  cases a with
  | emit k method args =>
    simp only [Server.step, Option.ite_none_right_eq_some, Option.some.injEq] at h
    exact h.2 ▸ .call ..
  | error k errorId errorMsg =>
    simp only [Server.step, Option.ite_none_right_eq_some, Option.some.injEq] at h
    exact h.2 ▸ .objectError ..
  | _ => simp [Server.step, hgone.1, hgone.2] at h

theorem gone_run {as : List Action} (hgone : s.gone = true ∧ s.phase = .idle)
    (h : Run.run step s as = some s') : s'.table = s.table ∧ s'.destructs = s.destructs := by
  have hinv := @Run.run_induction _ _ step (fun t => (t.gone = true ∧ t.phase = .idle) ∧
    t.table = s.table ∧ t.destructs = s.destructs) (fun t a t' ht hstep => by
      have haside := gone_step ht.1 hstep
      exact ⟨⟨haside.gone.trans ht.1.1, haside.phase.trans ht.1.2⟩,
        haside.table.trans ht.2.1, haside.destructs.trans ht.2.2⟩) as s s' ⟨hgone, rfl, rfl⟩ h
  exact hinv.2

/-- The turn of `k` comes in the run: it is visited, and is among the `dispatched` if it is owed
its destructor then. -/
def Turn (s : Server) (as : List Action) (dispatched : List Nat) (k : Nat) : Prop :=
  ∃ before after t rest, as = before ++ .visit :: after ∧ Run.run step s before = some t ∧
    t.phase = .leaving (k :: rest) ∧ (k ∈ dispatched ↔ Owed (t.objects k))

theorem Turn.later {a : Action} {as : List Action} {dispatched more : List Nat} {k : Nat}
    (h : step s a = some s') (hsame : k ∈ more ↔ k ∈ dispatched) (ht : Turn s' as dispatched k) :
    Turn s (a :: as) more k := by
  obtain ⟨before, after, t, rest, rfl, hrun, hphase, howed⟩ := ht
  exact ⟨a :: before, after, t, rest, rfl, Run.run_cons.mpr ⟨s', h, hrun⟩, hphase,
    hsame.trans howed⟩

/-- **Every object that is left is visited.** The induction is on the run: each visit takes the
first of the objects that are left. -/
theorem visits : ∀ {as : List Action} {s s' : Server} {rest : List Nat},
    s.phase.unvisited = some rest → rest.Nodup → s.gone = false →
    Run.run step s as = some s' → s'.gone = true →
    s'.table = [] ∧ ∃ dispatched, s'.destructs = s.destructs ++ dispatched ∧
      dispatched.Sublist rest ∧ ∀ k ∈ rest, Turn s as dispatched k
  | [], s, s', rest, _, _, hopen, hrun, hgone => by
    cases hrun
    rw [hopen] at hgone
    cases hgone
  | a :: as, s, s', rest, hrest, hnodup, hopen, hrun, hgone => by
    obtain ⟨t, hstep, hrun⟩ := Run.run_cons.mp hrun
    rcases leaving_cases hrest hstep with haside | ⟨k₀, hphase, rfl⟩ | ⟨rfl, hphase, hvisit⟩
    · obtain ⟨htable, dispatched, hdestructs, hsub, hturn⟩ := visits
        (haside.phase ▸ hrest) hnodup (haside.gone.trans hopen) hrun hgone
      refine ⟨htable, dispatched, by rw [hdestructs, haside.destructs], hsub, fun k hk => ?_⟩
      exact (hturn k hk).later hstep Iff.rfl
    · obtain ⟨htable, dispatched, hdestructs, hsub, hturn⟩ :=
        visits (s := { s.destroy k₀ with phase := .leaving rest }) rfl hnodup hopen hrun hgone
      refine ⟨htable, dispatched, hdestructs, hsub, fun k hk => ?_⟩
      exact (hturn k hk).later hstep Iff.rfl
    · rcases hvisit with ⟨rfl, rfl⟩ | ⟨k₀, rest', rfl, rfl⟩
      · obtain ⟨htable, hdestructs⟩ := gone_run ⟨rfl, rfl⟩ hrun
        exact ⟨htable, [], by rw [hdestructs, List.append_nil]; rfl, List.Sublist.refl _, nofun⟩
      · obtain ⟨hleft, hgone', heffect⟩ := visit_effect s k₀ rest'
        obtain ⟨hnot, hnodup'⟩ := List.nodup_cons.mp hnodup
        obtain ⟨htable, dispatched, hdestructs, hsub, hturn⟩ :=
          visits hleft hnodup' (hgone'.trans hopen) hrun hgone
        rcases heffect with ⟨howed, hmore⟩ | ⟨howed, hmore⟩
        · refine ⟨htable, k₀ :: dispatched, by rw [hdestructs, hmore, List.append_assoc]; rfl,
            hsub.cons_cons k₀, fun k hk => ?_⟩
          rcases List.mem_cons.mp hk with rfl | hk
          · exact ⟨[], as, s, rest', rfl, rfl, hphase, iff_of_true (List.mem_cons_self ..) howed⟩
          · have hne : k ≠ k₀ := fun heq => hnot (heq ▸ hk)
            exact (hturn k hk).later hstep (by simp [hne])
        · refine ⟨htable, dispatched, by rw [hdestructs, hmore], hsub.cons k₀, fun k hk => ?_⟩
          rcases List.mem_cons.mp hk with rfl | hk
          · exact ⟨[], as, s, rest', rfl, rfl, hphase,
              iff_of_false (fun hin => hnot (hsub.subset hin)) howed⟩
          · exact (hturn k hk).later hstep Iff.rfl

/-- Whoever starts to leave has all objects visited. -/
theorem starts_leaving {a : Action} (hstay : ¬ s.Leaves) (h : step s a = some s')
    (hleaves : s'.Leaves) : s'.phase = .leaving s'.table.reverse := by
  have habort : ∀ (s : Server) errorMsg,
      (s.abort errorMsg).phase = .leaving (s.abort errorMsg).table.reverse := fun _ _ => rfl
  -- the phase is one of a dispatch, and the client is still there
  have hnone : ∀ {p : Prop}, s'.phase.unvisited = none → s'.gone = s.gone → p := by
    intro p hphase hgone
    rcases hleaves with hsome | hgone'
    · rw [hphase] at hsome
      cases hsome
    · exact absurd (.inr (hgone ▸ hgone')) hstay
  have haside : Aside s s' → s'.phase = .leaving s'.table.reverse := by
    intro haside
    rcases hleaves with hsome | hgone
    · exact absurd (.inl (haside.phase ▸ hsome)) hstay
    · exact absurd (.inr (haside.gone ▸ hgone)) hstay
  cases a with
  | emit k method args =>
    simp only [Server.step, Option.ite_none_right_eq_some, Option.some.injEq] at h
    exact haside (h.2 ▸ .call ..)
  | error k errorId errorMsg =>
    simp only [Server.step, Option.ite_none_right_eq_some, Option.some.injEq] at h
    exact haside (h.2 ▸ .objectError ..)
  | read batch =>
    simp only [Server.step, Option.ite_none_right_eq_some, Option.some.injEq] at h
    obtain ⟨-, rfl⟩ := h
    exact hnone rfl rfl
  | handle =>
    obtain ⟨msg, rest, hphase, rfl⟩ := step_handle h
    have hwrite : ∀ msg', Aside (s.heard msg rest) ((s.heard msg rest).write msg') := Aside.write _
    cases msg with
    | sup => exact hnone (congrArg _ (hwrite _).phase) (hwrite _).gone
    | handshakeAck version => exact hnone (congrArg _ (hwrite _).phase) (hwrite _).gone
    | bindProtocol seq version protocol =>
      by_cases hversion : version = 0
      · subst hversion
        exact habort ..
      · obtain ⟨phase, hphase', heq⟩ := handle_bind s seq protocol rest hversion
        rw [createObject_eq] at heq
        refine hnone ?_ (by rw [heq]; rfl)
        rw [heq]
        rcases hphase' with rfl | rfl <;> rfl
    | generic g =>
      exact hnone (unvisited_of_dispatching (onGeneric_phase ..).1) (onGeneric_gone ..)
    | roundtripRequest seq queue => exact hnone rfl rfl
  | return_ =>
    simp only [Server.step] at h
    split at h
    · next rest k method hphase =>
      cases h
      unfold returned at hnone ⊢
      cases method with
      | none => exact hnone rfl rfl
      | some method =>
        simp only [afterDispatch_eq] at hnone ⊢
        split at hnone <;> exact hnone rfl rfl
    · next rest k hphase => exact absurd (.inl (by rw [hphase]; rfl)) hstay
    · cases h
  | malformed =>
    simp only [Server.step] at h
    split at h
    · cases h
      exact habort ..
    · cases h
  | finish =>
    simp only [Server.step] at h
    split at h
    · cases h
      have hgone : s.acknowledge.gone = s.gone := by
        unfold acknowledge
        split
        · exact (Aside.write ..).gone
        · rfl
      unfold finish at hnone ⊢
      simp only at hnone ⊢
      split at hnone
      · next herror =>
        rw [if_pos herror]
        rfl
      · exact hnone rfl hgone
    · cases h
  | unreadable =>
    simp only [Server.step, Option.ite_none_right_eq_some, Option.some.injEq] at h
    obtain ⟨-, rfl⟩ := h
    exact habort ..
  | hangup =>
    simp only [Server.step, Option.ite_none_right_eq_some, Option.some.injEq] at h
    obtain ⟨-, rfl⟩ := h
    rfl
  | remove =>
    simp only [Server.step, Option.ite_none_right_eq_some, Option.some.injEq] at h
    obtain ⟨-, rfl⟩ := h
    rfl
  | visit =>
    simp only [Server.step] at h
    split at h
    · next k rest hphase => exact absurd (.inl (by rw [hphase]; rfl)) hstay
    · next hphase => exact absurd (.inl (by rw [hphase]; rfl)) hstay
    · cases h

/-- Whoever has left started to at some time. -/
theorem left_from {impls : List ProtocolSpec} : ∀ {as : List Action} {s : Server},
    Run.run step { impls } as = some s → s.Leaves →
      ∃ before after t, as = before ++ after ∧ Run.run step { impls } before = some t ∧
        t.phase = .leaving t.table.reverse := by
  intro as
  induction as using List.reverseRecOn with
  | nil =>
    intro s hrun hleaves
    cases hrun
    rcases hleaves with hsome | hgone
    · cases hsome
    · cases hgone
  | append_singleton as a ih =>
    intro s' hrun hleaves
    obtain ⟨s, hs, hstep⟩ := Run.run_append.mp hrun
    obtain ⟨t, ht, hnil⟩ := Run.run_cons.mp hstep
    cases hnil
    by_cases hstay : s.Leaves
    · obtain ⟨before, after, t, rfl, hbefore, hphase⟩ := ih hs hstay
      exact ⟨before, after ++ [a], t, List.append_assoc .., hbefore, hphase⟩
    · exact ⟨as ++ [a], [], s', (List.append_nil _).symm, hrun, starts_leaving hstay ht hleaves⟩

/-- **What has become of the objects of a client** that started to leave in `s` and is gone: the
destructors that were dispatched went from the last object to the first, and every object got its
own if it was owed one when its turn came. -/
structure Departed (s : Server) (as : List Action) (s' : Server) : Prop where
  table : s'.table = []
  dispatched : ∃ dispatched, s'.destructs = s.destructs ++ dispatched ∧
    dispatched.Pairwise (· > ·) ∧ (∀ k ∈ dispatched, k ∈ s.table) ∧
      ∀ k ∈ s.table, Turn s as dispatched k

/-- What is known of destructors after a run: none was dispatched twice, and a client that is gone
had all objects it still had visited. -/
def Lifecycle (impls : List ProtocolSpec) (as : List Action) (s : Server) : Prop :=
  s.destructs.Nodup ∧ (s.gone = true → ∃ before after t, as = before ++ after ∧
    Run.run step { impls } before = some t ∧ t.phase = .leaving t.table.reverse ∧
      Departed t after s)

/-- **The lifecycle of destructors.** -/
theorem destructor_lifecycle {impls : List ProtocolSpec} {as : List Action}
    (hmeets : Run.Meets step Addressed { impls } as) (hrun : Run.run step { impls } as = some s) :
    Lifecycle impls as s := by
  have hinv : ∀ {bs : List Action} {t : Server}, Run.Meets step Addressed { impls } bs →
      Run.run step { impls } bs = some t → Once t := by
    intro bs t hmeets hrun
    exact @Run.run_meeting _ _ step Once Addressed (fun s a s' hs haddr h => hs.step haddr h) bs _ t
      (.init impls) hmeets hrun
  refine ⟨(hinv hmeets hrun).once, fun hgone => ?_⟩
  obtain ⟨before, after, t, rfl, hbefore, hphase⟩ := left_from hrun (.inr hgone)
  refine ⟨before, after, t, rfl, hbefore, hphase, ?_⟩
  have ht := hinv (Run.meets_append hmeets) hbefore
  have hopen : t.gone = false := by
    cases hg : t.gone with
    | false => rfl
    | true =>
      have := (ht.gone hg).1
      rw [hphase] at this
      cases this
  obtain ⟨u, hu, hafter⟩ := Run.run_append.mp hrun
  rw [hbefore] at hu
  cases hu
  have hsorted : t.table.reverse.Pairwise (· > ·) := List.pairwise_reverse.mpr ht.sorted
  have hnodup : t.table.reverse.Nodup := hsorted.imp fun hgt => (Nat.ne_of_lt hgt).symm
  obtain ⟨htable, dispatched, hdestructs, hsub, hturn⟩ :=
    visits (congrArg Phase.unvisited hphase) hnodup hopen hafter hgone
  refine ⟨htable, dispatched, hdestructs, hsorted.sublist hsub, fun k hk => ?_, fun k hk => ?_⟩
  · exact List.mem_reverse.mp (hsub.subset hk)
  · exact hturn k (List.mem_reverse.mpr hk)

/-- A client makes an item and hangs up. -/
def hangingUp : List Action :=
  [.read [.bindProtocol 1 1 "shop", .generic ⟨1, 0, 2, [], 0, 0, false, none⟩], .handle, .return_,
    .handle, .return_, .finish, .hangup, .visit, .return_, .visit, .visit]

theorem destructor_lifecycle_hangingUp :
    ∃ s, Run.run step { impls := [shopProtocol] } hangingUp = some s ∧ s.gone = true ∧
      s.destructs = [1] ∧ Lifecycle [shopProtocol] hangingUp s := by
  refine ⟨_, rfl, rfl, rfl, destructor_lifecycle ?_ rfl⟩
  refine Run.meets_cons trivial rfl (Run.meets_cons nofun rfl (Run.meets_cons trivial rfl ?_))
  refine Run.meets_cons (fun msg rest k hphase hfind _ => .inl ?_) rfl ?_
  · cases hphase
    cases hfind
    exact Nat.one_ne_zero
  refine Run.meets_cons trivial rfl (Run.meets_cons trivial rfl (Run.meets_cons trivial rfl ?_))
  refine Run.meets_cons trivial rfl (Run.meets_cons trivial rfl (Run.meets_cons trivial rfl ?_))
  exact Run.meets_cons trivial rfl trivial

/-! ### The counter wraps -/

/-- A protocol whose root object has a destructor. -/
def toolProtocol : ProtocolSpec where
  specName := "tool"
  specVer := 1
  objects := [itemSpec]

/-- Between two dispatches, with no error and no roundtrip scheduled. -/
structure Rests (s : Server) : Prop where
  phase : s.phase = .idle
  gone : s.gone = false
  error : s.error = false
  scheduledRoundtripSeq : s.scheduledRoundtripSeq = 0

/-- The client has bound a protocol nobody knows `n` times. -/
structure Crowded (n : Nat) (s : Server) : Prop where
  rests : s.Rests
  impls : s.impls = [toolProtocol]
  size : s.size = n
  maxId : s.maxId = (n + 1) % wordSize
  destructs : s.destructs = []
  table : ∀ k ∈ s.table, k < n ∧ (s.objects k).id = (k + 1) % wordSize

theorem Rests.read (hs : s.Rests) (msg : C2S) : step s (.read [msg]) = some { s with phase := .batch [msg] } :=
  if_pos ⟨hs.phase, hs.gone, nofun⟩

theorem finish_step (hphase : s.phase = .batch []) (herror : s.error = false)
    (hscheduled : s.scheduledRoundtripSeq = 0) : step s .finish = some { s with phase := .idle } := by
  simp [Server.step, hphase, finish, acknowledge, hscheduled, herror]

theorem Crowded.next {n : Nat} (hs : Crowded n s) :
    ∃ s', Run.run step s [.read [.bindProtocol 1 1 "none"], .handle, .finish] = some s' ∧
      Crowded (n + 1) s' := by
  let t : Server := { s with phase := .batch [.bindProtocol 1 1 "none"] }
  have hhandle := handle_bind_eq t 1 "none" [] Nat.one_ne_zero
  have hdata : (t.created "none" "" 1 1).objectData = false := by
    have himpls : t.impls = [toolProtocol] := hs.impls
    simp only [created, findSpec, bindsHandler, rootSpec, himpls]
    rfl
  rw [hdata, createObject_eq] at hhandle
  refine ⟨{ t.handle (.bindProtocol 1 1 "none") [] with phase := .idle },
    Run.run_cons.mpr ⟨t, hs.rests.read _, Run.run_cons.mpr
      ⟨t.handle (.bindProtocol 1 1 "none") [], rfl, Run.run_cons.mpr ⟨_, finish_step ?_ ?_ ?_, rfl⟩⟩⟩, ?_⟩
  · rw [hhandle]
    rfl
  · rw [hhandle]
    exact hs.rests.error
  · rw [hhandle]
    exact hs.rests.scheduledRoundtripSeq
  · rw [hhandle]
    refine ⟨⟨rfl, hs.rests.gone, hs.rests.error, hs.rests.scheduledRoundtripSeq⟩, hs.impls,
      congrArg (· + 1) hs.size, ?_, hs.destructs, fun k hk => ?_⟩
    · show (s.maxId + 1) % wordSize = _
      rw [hs.maxId, Nat.mod_add_mod]
    · have hmem : k ∈ s.table ++ [s.size] := hk
      rcases List.mem_append.mp hmem with hk | hk
      · obtain ⟨hlt, hid⟩ := hs.table k hk
        have hne : k ≠ s.size := fun heq => absurd hlt (by rw [heq, hs.size]; exact Nat.lt_irrefl _)
        exact ⟨Nat.lt_succ_of_lt hlt, (congrArg ServerObject.id (if_neg hne)).trans hid⟩
      · have heq : k = s.size := List.mem_singleton.mp hk
        refine ⟨by rw [heq, hs.size]; exact Nat.lt_succ_self n, ?_⟩
        refine (congrArg ServerObject.id (if_pos heq)).trans ?_
        show s.maxId = _
        rw [hs.maxId, heq, hs.size]

/-- `n` binds of a protocol nobody knows. -/
def crowding : Nat → List Action
  | 0 => []
  | n + 1 => crowding n ++ [.read [.bindProtocol 1 1 "none"], .handle, .finish]

theorem crowded : ∀ n, ∃ s, Run.run step { impls := [toolProtocol] } (crowding n) = some s ∧
    Crowded n s
  | 0 => ⟨_, rfl, ⟨⟨rfl, rfl, rfl, rfl⟩, rfl, rfl, rfl, rfl, nofun⟩⟩
  | n + 1 => by
    obtain ⟨s, hrun, hs⟩ := crowded n
    obtain ⟨s', hrun', hs'⟩ := hs.next
    exact ⟨s', Run.run_append.mpr ⟨s, hrun, hrun'⟩, hs'⟩

/-- Object `n` is an item, and its id is 0. -/
structure Stuck (n : Nat) (s : Server) : Prop where
  rests : s.Rests
  find : s.objectForId 0 = some n
  spec : (s.objects n).spec = some itemSpec
  objectData : (s.objects n).objectData = true
  id : (s.objects n).id = 0

/-- The object that is bound when the counter has come to 0 is stuck. -/
theorem Crowded.stuck {n : Nat} (hs : Crowded n s) (hn : n + 1 = wordSize) :
    ∃ s', Run.run step s [.read [.bindProtocol 1 1 "tool"], .handle, .return_, .finish] = some s' ∧
      Stuck n s' ∧ s'.destructs = [] := by
  let t : Server := { s with phase := .batch [.bindProtocol 1 1 "tool"] }
  have hhandle := handle_bind_eq t 1 "tool" [] Nat.one_ne_zero
  have himpls : t.impls = [toolProtocol] := hs.impls
  have hcreated : (t.created "tool" "" 1 1).objectData = true ∧
      (t.created "tool" "" 1 1).spec = some itemSpec := by
    simp only [created, findSpec, bindsHandler, rootSpec, himpls]
    exact ⟨rfl, rfl⟩
  have hzero : s.maxId = 0 := by
    rw [hs.maxId, hn, Nat.mod_self]
  rw [hcreated.1, createObject_eq] at hhandle
  let u : Server := t.handle (.bindProtocol 1 1 "tool") []
  have hnew : u.objects n = t.created "tool" "" 1 1 := by
    show (t.handle (.bindProtocol 1 1 "tool") []).objects n = _
    rw [hhandle]
    exact if_pos hs.size.symm
  have hreturn : step u .return_ = some { u with phase := .batch [] } := by
    have hphase : u.phase = .callback [] s.size none := by
      show (t.handle (.bindProtocol 1 1 "tool") []).phase = _
      rw [hhandle]
      rfl
    simp only [Server.step, hphase]
    rfl
  refine ⟨{ u with phase := .idle }, Run.run_cons.mpr ⟨t, hs.rests.read _, Run.run_cons.mpr
    ⟨u, rfl, Run.run_cons.mpr ⟨_, hreturn, Run.run_cons.mpr ⟨_, finish_step rfl ?_ ?_, rfl⟩⟩⟩⟩, ?_, ?_⟩
  · show (t.handle (.bindProtocol 1 1 "tool") []).error = false
    rw [hhandle]
    exact hs.rests.error
  · show (t.handle (.bindProtocol 1 1 "tool") []).scheduledRoundtripSeq = 0
    rw [hhandle]
    exact hs.rests.scheduledRoundtripSeq
  · refine ⟨⟨rfl, ?_, ?_, ?_⟩, ?_, ?_, ?_, ?_⟩
    · show (t.handle (.bindProtocol 1 1 "tool") []).gone = false
      rw [hhandle]
      exact hs.rests.gone
    · show (t.handle (.bindProtocol 1 1 "tool") []).error = false
      rw [hhandle]
      exact hs.rests.error
    · show (t.handle (.bindProtocol 1 1 "tool") []).scheduledRoundtripSeq = 0
      rw [hhandle]
      exact hs.rests.scheduledRoundtripSeq
    · -- nobody else has the id, and so the search comes to the last object
      have htable : u.table = s.table ++ [n] := by
        show (t.handle (.bindProtocol 1 1 "tool") []).table = _
        rw [hhandle, ← hs.size]
        rfl
      have hnone : (s.table.find? fun k => (u.objects k).id = 0) = none := by
        refine List.find?_eq_none.mpr fun k hk => ?_
        obtain ⟨hlt, hid⟩ := hs.table k hk
        have hold : u.objects k = s.objects k := by
          show (t.handle (.bindProtocol 1 1 "tool") []).objects k = _
          rw [hhandle]
          exact if_neg fun heq => Nat.ne_of_lt hlt (heq.trans hs.size)
        rw [hold, hid, Nat.mod_eq_of_lt (by rw [← hn]; exact Nat.succ_lt_succ hlt)]
        simp
      show u.table.find? (fun k => (u.objects k).id = 0) = some n
      rw [htable, List.find?_append, hnone, Option.none_or, List.find?_cons_of_pos]
      rw [hnew]
      exact decide_eq_true hzero
    · exact (congrArg ServerObject.spec hnew).trans hcreated.2
    · exact (congrArg ServerObject.objectData hnew).trans hcreated.1
    · exact (congrArg ServerObject.id hnew).trans hzero
  · show (t.handle (.bindProtocol 1 1 "tool") []).destructs = []
    rw [hhandle]
    exact hs.destructs

/-- The client calls the destructor of the object with id 0. -/
def destroying : List Action :=
  [.read [.generic ⟨0, 1, 0, [], 0, 0, true, none⟩], .handle, .return_, .finish]

/-- A destructor does not get a stuck object off the table. -/
theorem Stuck.again {n : Nat} (hs : Stuck n s) :
    ∃ s', Run.run step s destroying = some s' ∧ Stuck n s' ∧ s'.destructs = s.destructs ++ [n] := by
  let g : Generic := ⟨0, 1, 0, [], 0, 0, true, none⟩
  let t : Server := { s with phase := .batch [.generic g] }
  let u : Server := t.handle (.generic g) []
  have hmethods : (s.objects n).methodsIn = itemSpec.c2s := by
    rw [ServerObject.methodsIn, hs.spec]
  have hdes : isDestructor (s.objects n) 1 = true := by
    rw [isDestructor, hmethods]
    rfl
  have hcalls : callsBack (s.objects n) 1 = true := by
    rw [callsBack, hmethods, hs.objectData]
    rfl
  have hu : u = { s with
      phase := .callback [] n (some 1), handled := s.handled ++ [.generic g]
      destructs := s.destructs ++ [n] } := by
    have hdelivered := delivered (t.heard (.generic g) []) g []
    show (t.heard (.generic g) []).onGeneric g [] = _
    generalize (t.heard (.generic g) []).onGeneric g [] = v at hdelivered
    have hfind : (t.heard (.generic g) []).objectForId g.object = some n := hs.find
    cases hdelivered with
    | unknown hnone =>
      rw [hfind] at hnone
      cases hnone
    | silent k hk hquiet =>
      rw [hfind] at hk
      cases hk
      rw [show callsBack ((t.heard (.generic g) []).objects n) g.method = true from hcalls] at hquiet
      cases hquiet
    | called k hk _ =>
      rw [hfind] at hk
      cases hk
      rw [note_eq]
      simp only [show isDestructor ((t.heard (.generic g) []).objects n) g.method = true from hdes,
        if_true]
      rfl
    | made k m hk _ hm hret =>
      rw [hfind] at hk
      cases hk
      rw [show ((t.heard (.generic g) []).objects n).methodsIn = itemSpec.c2s from hmethods] at hm
      cases hm
      exact absurd rfl hret
  let v : Server := { s.setObject n (fun obj => { obj with destroyed := true }) with
    phase := .batch [], handled := s.handled ++ [.generic g], destructs := s.destructs ++ [n] }
  have hreturn : step u .return_ = some v := by
    rw [hu]
    simp only [Server.step, returned, afterDispatch_eq, hdes, if_true, hs.id]
    rfl
  have hobjects := (Aside.markDestroyed s n).objects
  have hnew : ∀ k, (v.objects k).id = (s.objects k).id := fun k => (hobjects k).id
  refine ⟨{ v with phase := .idle }, Run.run_cons.mpr ⟨t, hs.rests.read _, Run.run_cons.mpr
    ⟨u, rfl, Run.run_cons.mpr ⟨v, hreturn, Run.run_cons.mpr
      ⟨_, finish_step rfl hs.rests.error hs.rests.scheduledRoundtripSeq, rfl⟩⟩⟩⟩, ?_, rfl⟩
  refine ⟨⟨rfl, hs.rests.gone, hs.rests.error, hs.rests.scheduledRoundtripSeq⟩, ?_,
    (hobjects n).spec.trans hs.spec, (hobjects n).objectData hs.objectData, (hnew n).trans hs.id⟩
  have hfind := hs.find
  unfold objectForId at hfind ⊢
  rw [← hfind]
  show (s.table.find? fun k => (v.objects k).id = 0) = _
  simp only [hnew]

/-- 2^32 - 1 binds of a protocol nobody knows, one of a tool, and its destructor twice. -/
def wrapping : List Action :=
  crowding (wordSize - 1) ++ ([.read [.bindProtocol 1 1 "tool"], .handle, .return_, .finish] ++
    (destroying ++ destroying))

/-- Both destructors are dispatched. -/
theorem not_always_lifecycle : ¬ ∀ (impls : List ProtocolSpec) (as : List Action) (s : Server),
    Run.run step { impls } as = some s → Lifecycle impls as s := by
  intro h
  have hpos : wordSize - 1 + 1 = wordSize := Nat.sub_add_cancel (Nat.two_pow_pos 32)
  obtain ⟨s₁, hrun₁, hs₁⟩ := crowded (wordSize - 1)
  obtain ⟨s₂, hrun₂, hs₂, hdestructs₂⟩ := hs₁.stuck hpos
  obtain ⟨s₃, hrun₃, hs₃, hdestructs₃⟩ := hs₂.again
  obtain ⟨s₄, hrun₄, -, hdestructs₄⟩ := hs₃.again
  have hrun : Run.run step { impls := [toolProtocol] } wrapping = some s₄ :=
    Run.run_append.mpr ⟨s₁, hrun₁, Run.run_append.mpr ⟨s₂, hrun₂,
      Run.run_append.mpr ⟨s₃, hrun₃, hrun₄⟩⟩⟩
  have honce := (h _ _ _ hrun).1
  rw [hdestructs₄, hdestructs₃, hdestructs₂] at honce
  simp at honce

end Hyprwire.Server
