import Mathlib.Data.List.Pairwise
import Hyprwire.System.Order
import Hyprwire.System.Phases

/-!
# `System/Deferral.lean` — no deferred call is lost

A flush drops a call when nothing is found by the seq it waits for. With one event queue that
happens to no call whose object is still in the table: an object without an id never leaves it,
and one whose id has come is not collected before the flush of the same dispatch. What is left is
the object that the server destroys in the batch that names it.

`Whole` is what holds at every moment, in the middle of a dispatch too; `Unresolved` is what a
flush brings about, and what holds until the next dispatch. The order of the queue is kept by
each flush, and object by object by all of them together.
-/

namespace Hyprwire.Client

open History

variable {c c' : Client} {R : Rely} {q : Nat}

/-! ## The deferred messages on the wire -/

/-- The message is that of a call that was deferred. -/
def wasDeferred (c : Client) (g : Generic) : Bool :=
  match c.calls[g.call]? with
  | some call => call.deferred
  | none => false

/-- The messages of deferred calls on the wire. -/
def deferredOut (c : Client) : List Generic :=
  (c.out.filterMap C2S.generic?).filter c.wasDeferred

/-- The messages of a call on the wire. -/
def sentOf (c : Client) (k : Nat) : List Generic :=
  (c.out.filterMap C2S.generic?).filter fun g => g.call = k

/-- The messages of a call in a queue. -/
def queuedOf (c : Client) (q k : Nat) : List Deferred :=
  (c.queues q).queue.filter fun entry => entry.msg.call = k

theorem mem_generics {msgs : List C2S} {g : Generic} :
    g ∈ msgs.filterMap C2S.generic? ↔ .generic g ∈ msgs := by
  rw [List.mem_filterMap]
  constructor
  · intro h
    obtain ⟨msg, hmsg, hgeneric⟩ := h
    cases msg <;> cases hgeneric
    exact hmsg
  · intro h
    exact ⟨_, h, rfl⟩

/-- What is on record of a message that was sent does not change. -/
theorem Sent.wasDeferred (hs : c.Sent g) (h : Later c c') : c'.wasDeferred g = c.wasDeferred g := by
  obtain ⟨deferred, hcall⟩ := hs.call
  rw [Client.wasDeferred, Client.wasDeferred, hcall, getElem?_grown h.calls hcall]

/-- The deferred messages on the wire are there to stay, and a flush alone adds to them. -/
theorem Move.deferredOut (hc : Ledger c) (h : Move R c c') :
    c'.deferredOut = c.deferredOut ∨
      ∃ q, R.flushes c q ∧ c' = c.flush q ∧
        c'.deferredOut = c.deferredOut ++ (c.queues q).queue.filterMap c.resolve := by
  have hlater := h.later
  have hsame : (c.out.filterMap C2S.generic?).filter c'.wasDeferred = c.deferredOut := by
    refine List.filter_congr fun g hg => ?_
    exact (hc.sent g (mem_generics.mp hg)).wasDeferred hlater
  have hgrown : ∀ more : List C2S, c'.out = c.out ++ more →
      c'.deferredOut = c.deferredOut ++ (more.filterMap C2S.generic?).filter c'.wasDeferred := by
    intro more hout
    rw [Client.deferredOut, hout, List.filterMap_append, List.filter_append, hsame]
  cases h.traffic with
  | quiet hout _ => exact .inl (by rw [Client.deferredOut, hout, hsame])
  | tells msg hgeneric _ hout _ =>
    refine .inl ?_
    rw [hgrown _ hout]
    simp [hgeneric]
  | binds q proto specVer version _ _ hout _ =>
    refine .inl ?_
    rw [hgrown _ hout]
    simp [C2S.generic?]
  | sends obj method m args made _ _ hcalls hout _ =>
    refine .inl ?_
    have hcall : c'.wasDeferred (c.message obj method m args) = false := by
      have hlast : c'.calls[(c.message obj method m args).call]? = some ⟨obj, method, false⟩ := by
        rw [hcalls]
        exact List.getElem?_concat_length
      rw [wasDeferred, hlast]
    rw [hgrown _ hout]
    simp [C2S.generic?, hcall]
  | defers obj method m args made _ _ _ hout _ =>
    exact .inl (by rw [Client.deferredOut, hout, hsame])
  | flushes q hflush heq hout _ =>
    refine .inr ⟨q, hflush, heq, ?_⟩
    have hgeneric : (c.flushed q).filterMap C2S.generic? =
        (c.queues q).queue.filterMap c.resolve := by
      rw [flushed, List.filterMap_map]
      exact List.filterMap_some
    rw [hgrown _ hout, hgeneric, List.filter_eq_self.mpr]
    intro g hg
    obtain ⟨entry, hentry, hresolve⟩ := List.mem_filterMap.mp hg
    have hcall := (hc.queued q entry hentry).call
    obtain ⟨h, -, -, rfl⟩ := resolve_some hresolve
    rw [wasDeferred, getElem?_grown hlater.calls hcall]

/-! ## The order of the queue -/

/-- The queues are in the order of the calls, and so is, object by object, what they have sent. -/
structure Orderly (c : Client) : Prop where
  queue : ∀ q, (c.queues q).queue.Pairwise fun entry entry' => entry.msg.call < entry'.msg.call
  out : c.deferredOut.Pairwise fun g g' => g.origin = g'.origin → g.call < g'.call
  cross : ∀ q, ∀ entry ∈ (c.queues q).queue, ∀ g ∈ c.deferredOut,
    g.origin = entry.msg.origin → g.call < entry.msg.call

theorem Orderly.init (impls : List ProtocolSpec) : Orderly { impls } where
  queue _ := .nil
  out := .nil
  cross _ _ h := by cases h

theorem mem_deferredOut {g : Generic} (hg : g ∈ c.deferredOut) : .generic g ∈ c.out :=
  mem_generics.mp (List.mem_filter.mp hg).1

theorem Orderly.queue_move (ho : Orderly c) (hc : Ledger c) (h : Move R c c') (q : Nat) :
    (c'.queues q).queue.Pairwise fun entry entry' => entry.msg.call < entry'.msg.call := by
  cases h.traffic with
  | quiet _ hqueues => exact (ho.queue q).sublist (hqueues q)
  | tells _ _ _ _ hqueues => exact hqueues q ▸ ho.queue q
  | binds _ _ _ _ _ _ _ hqueues => exact hqueues q ▸ ho.queue q
  | sends _ _ _ _ _ _ _ _ _ hqueues => exact hqueues q ▸ ho.queue q
  | defers obj method m args made _ _ _ _ hqueues =>
    rw [hqueues]
    split
    · exact pairwise_append_one (ho.queue q) fun entry hentry => (hc.queued q entry hentry).call_lt
    · rw [List.append_nil]
      exact ho.queue q
  | flushes q' _ _ _ hqueues =>
    rw [hqueues]
    split
    · exact (ho.queue q).sublist List.filter_sublist
    · exact ho.queue q

theorem Orderly.move (ho : Orderly c) (hc : Ledger c) (h : Move R c c') : Orderly c' := by
  rcases h.deferredOut hc with hout | ⟨q₀, -, rfl, hout⟩
  · refine ⟨ho.queue_move hc h, hout ▸ ho.out, fun q entry hentry g hg horigin => ?_⟩
    rw [hout] at hg
    rcases h.queued hentry with hold | ⟨obj, method, m, args, made, -, -, -, -, rfl⟩
    · exact ho.cross q entry hold g hg horigin
    · exact (hc.sent g (mem_deferredOut hg)).call_lt
  · -- What is sent was in the queue, and of its object nothing stays there.
    have hwas : ∀ g ∈ (c.queues q₀).queue.filterMap c.resolve, ∃ entry ∈ (c.queues q₀).queue,
        (c.resolve entry).isSome ∧ g.origin = entry.msg.origin ∧ g.call = entry.msg.call := by
      intro g hg
      obtain ⟨entry, hentry, hresolve⟩ := List.mem_filterMap.mp hg
      refine ⟨entry, hentry, by rw [hresolve]; rfl, ?_⟩
      obtain ⟨i, -, -, rfl⟩ := resolve_some hresolve
      exact ⟨rfl, rfl⟩
    refine ⟨ho.queue_move hc h, ?_, ?_⟩
    · rw [hout]
      refine List.pairwise_append.mpr ⟨ho.out, ?_, fun g hg g' hg' horigin => ?_⟩
      · refine (ho.queue q₀).filterMap _ fun entry entry' hlt g hg g' hg' _ => ?_
        obtain ⟨i, -, -, rfl⟩ := resolve_some hg
        obtain ⟨i', -, -, rfl⟩ := resolve_some hg'
        exact hlt
      · obtain ⟨entry, hentry, -, horigin', hcall⟩ := hwas g' hg'
        rw [hcall]
        exact ho.cross q₀ entry hentry g hg (horigin.trans horigin')
    · intro q entry hentry g hg horigin
      rw [queues_flush] at hentry
      rw [hout] at hg
      rcases List.mem_append.mp hg with hg | hg
      · refine ho.cross q entry ?_ g hg horigin
        split at hentry
        · exact (List.mem_filter.mp hentry).1
        · exact hentry
      · obtain ⟨entry', hentry', hresolve, horigin', -⟩ := hwas g hg
        have hsame : entry'.msg.origin = entry.msg.origin := horigin'.symm.trans horigin
        split at hentry
        · obtain ⟨hin, hwaits⟩ := List.mem_filter.mp hentry
          exact (hc.same_fate hentry' hin hsame hresolve hwaits).elim
        · next hne => exact absurd (hc.same_queue hentry hentry' hsame.symm) hne

/-! ## No call twice -/

/-- The messages are those of different calls. -/
def Distinct (msg msg' : C2S) : Prop :=
  ∀ g g', msg = .generic g → msg' = .generic g' → g.call ≠ g'.call

theorem blind_distinct : Blind Distinct where
  left := by
    intro g msg id h g₁ g' heq hmsg
    cases heq
    exact h g g' rfl hmsg
  right := by
    intro g msg id h g' g₁ hmsg heq
    cases heq
    exact h g' g hmsg rfl

theorem distinct_of_not_generic {msg msg' : C2S} (h : msg.generic? = none) :
    Distinct msg msg' ∧ Distinct msg' msg := by
  constructor
  · intro g g' heq _
    rw [heq] at h
    cases h
  · intro g g' _ heq
    rw [heq] at h
    cases h

theorem distinct_move (hc : Ledger c) (ho : Orderly c) (hd : Ordered Distinct Everywhere c)
    (h : Move R c c') : Ordered Distinct Everywhere c' := by
  have hA : Aging Everywhere c c' := fun _ _ _ _ => trivial
  cases h.traffic with
  | quiet hout hqueues => exact hd.quiet hA hout hqueues
  | tells msg hgeneric _ hout hqueues =>
    exact hd.written hA hout hqueues (fun _ _ => (distinct_of_not_generic hgeneric).2)
      fun _ _ _ _ => (distinct_of_not_generic hgeneric).1
  | binds q proto specVer version _ _ hout hqueues =>
    exact hd.written hA hout hqueues (fun _ _ => (distinct_of_not_generic rfl).2)
      fun _ _ _ _ => (distinct_of_not_generic rfl).1
  | sends obj method m args made _ _ _ hout hqueues =>
    refine hd.written hA hout hqueues ?_ fun q entry hentry _ => ?_
    · intro msg hmsg g g' hg hg'
      subst hg
      cases hg'
      exact Nat.ne_of_lt (hc.sent g hmsg).call_lt
    · intro g g' hg hg'
      cases hg
      cases hg'
      exact Nat.ne_of_gt (hc.queued q entry hentry).call_lt
  | defers obj method m args made _ _ _ hout hqueues =>
    refine hd.deferred hA hout hqueues ?_ (fun q entry hentry => ?_) fun q _ entry hentry => ?_
    · intro msg hmsg g g' hg hg'
      subst hg
      cases hg'
      exact Nat.ne_of_lt (hc.sent g hmsg).call_lt
    · intro g g' hg hg'
      cases hg
      cases hg'
      exact Nat.ne_of_lt (hc.queued q entry hentry).call_lt
    · intro g g' hg hg'
      cases hg
      cases hg'
      exact Nat.ne_of_gt (hc.queued q entry hentry).call_lt
  | flushes q _ _ hout hqueues =>
    refine hd.flushed blind_distinct hA hout hqueues (fun _ _ _ => trivial) ?_
    intro entry hentry entry' hentry' hresolve hwaits _ g g' hg hg'
    cases hg
    cases hg'
    have hne : entry ≠ entry' := by
      intro heq
      subst heq
      exact hc.same_fate hentry hentry rfl hresolve hwaits
    have hcalls : (c.queues q).queue.Pairwise fun entry entry' => entry.msg.call ≠ entry'.msg.call :=
      (ho.queue q).imp fun hlt => Nat.ne_of_lt hlt
    have hsymm : Std.Symm fun entry entry' : Deferred => entry.msg.call ≠ entry'.msg.call :=
      ⟨fun _ _ hne => hne.symm⟩
    exact hcalls.forall hentry hentry' hne

/-! ## With one queue -/

/-- What waits in the queue waits for an object without an id, or one that the server destroyed. -/
def Unresolved (q : Nat) (c : Client) : Prop :=
  ∀ entry ∈ (c.queues q).queue, (c.objects entry.msg.origin).id = 0 ∨
    entry.msg.origin ∈ c.destructed

/-- **No deferred call is lost**: it waits, it was sent, or its object was destroyed by the server;
and what waits can be found. -/
structure Whole (q : Nat) (c : Client) : Prop where
  ledger : Ledger c
  orderly : Orderly c
  distinct : Ordered Distinct Everywhere c
  live : (c.queues q).live = true
  alone : ∀ i < c.size, (c.objects i).eventQueue = q
  recorded : ∀ k h method, c.calls[k]? = some ⟨h, method, true⟩ →
    (∃ entry ∈ (c.queues q).queue, entry.msg.call = k) ∨
      (∃ g, .generic g ∈ c.out ∧ g.call = k) ∨ h ∈ c.destructed
  standing : ∀ entry ∈ (c.queues q).queue, entry.msg.origin ∈ c.table ∨
    entry.msg.origin ∈ c.destructed

/-- What the primitive changes rely on; whether ids arrive and objects are bound depends on the
step. -/
def patient (q : Nat) (naming binding : Prop) : Rely where
  heard msg := (∃ seq id, msg = .newObject seq id) → naming
  asks _ := True
  binds _ := binding
  calls _ _ _ := True
  ended _ _ := True
  flushes c _ := c.shut = false
  collects c := Unresolved q c
  drops _ := False

variable {naming binding : Prop}

theorem Whole.init (q : Nat) (impls : List ProtocolSpec) : Whole q { impls } where
  ledger := .init impls
  orderly := .init impls
  distinct := ordered_init impls
  live := rfl
  alone _ h := absurd h (Nat.not_lt_zero _)
  recorded _ _ _ h := by cases h
  standing _ h := by cases h

/-- A flush sends an entry, or leaves it where it is with its object unnamed, or the server had
destroyed its object. -/
theorem Whole.found (hw : Whole q c) {entry : Deferred} (hentry : entry ∈ (c.queues q).queue) :
    (∃ g, c.resolve entry = some g) ∨
      (c.waits entry = true ∧ (c.objects entry.msg.origin).id = 0) ∨
        entry.msg.origin ∈ c.destructed := by
  have hseq := (hw.ledger.queued q entry hentry).dependsOnSeq
  rcases hw.standing entry hentry with hin | hgone
  · have hsome : (c.objectForSeq entry.dependsOnSeq).isSome := by
      rw [objectForSeq, List.find?_isSome]
      exact ⟨_, hin, by simp [hseq]⟩
    obtain ⟨i, hfind⟩ := Option.isSome_iff_exists.mp hsome
    by_cases hid : (c.objects i).id = 0
    · refine .inr (.inl ⟨by simp [waits, hfind, hid], ?_⟩)
      -- With an id of its own the object would be the one that is found.
      by_contra hne
      have hfirst := hw.ledger.first _ hin hne
      rw [← hseq, hfind] at hfirst
      exact hne (Option.some.inj hfirst ▸ hid)
    · exact .inl ⟨{ entry.msg with object := (c.objects i).id }, by simp [resolve, hfind, hid]⟩
  · exact .inr (.inr hgone)

/-- After a flush nothing that waits has an id. -/
theorem Whole.flushed (hw : Whole q c) : Unresolved q (c.flush q) := by
  intro entry hentry
  rw [queues_flush, if_pos rfl] at hentry
  obtain ⟨hold, hwaits⟩ := List.mem_filter.mp hentry
  rw [flush_eq]
  rcases hw.found hold with ⟨g, hresolve⟩ | ⟨-, hid⟩ | hgone
  · exact (hw.ledger.same_fate hold hold rfl (by rw [hresolve]; rfl) hwaits).elim
  · exact .inl hid
  · exact .inr hgone

theorem Whole.recorded_move (hw : Whole q c) (hc' : Ledger c')
    (halone : ∀ i < c'.size, (c'.objects i).eventQueue = q)
    (h : Move (patient q naming binding) c c') (k obj method : Nat)
    (hk : c'.calls[k]? = some ⟨obj, method, true⟩) :
    (∃ entry ∈ (c'.queues q).queue, entry.msg.call = k) ∨
      (∃ g, .generic g ∈ c'.out ∧ g.call = k) ∨ obj ∈ c'.destructed := by
  have hlater := h.later
  have hold : c.calls[k]? = some ⟨obj, method, true⟩ →
      (∃ entry ∈ (c'.queues q).queue, entry.msg.call = k) ∨
        (∃ g, .generic g ∈ c'.out ∧ g.call = k) ∨ obj ∈ c'.destructed := by
    intro hrecorded
    rcases hw.recorded k obj method hrecorded with ⟨entry, hentry, hcall⟩ | ⟨g, hg, hcall⟩ | hgone
    · rcases h.stays hentry with hstays | ⟨hopen, rfl, hwaits⟩ | hdrop
      · exact .inl ⟨entry, hstays, hcall⟩
      · rcases hw.found hentry with ⟨g, hresolve⟩ | ⟨hwaits', -⟩ | hgone
        · refine .inr (.inl ⟨g, ?_, ?_⟩)
          · have hshut : c.shut = false := hopen
            rw [flush_out, if_neg (by simp [hshut])]
            exact List.mem_append.mpr (.inr (List.mem_map.mpr
              ⟨g, List.mem_filterMap.mpr ⟨entry, hentry, hresolve⟩, rfl⟩))
          · obtain ⟨i, -, -, rfl⟩ := resolve_some hresolve
            exact hcall
        · rw [hwaits] at hwaits'
          cases hwaits'
        · have hobj : entry.msg.origin = obj := by
            have hrecord := (hw.ledger.queued q entry hentry).call
            rw [hcall, hrecorded] at hrecord
            cases hrecord
            rfl
          exact .inr (.inr (hlater.destructed.subset (hobj ▸ hgone)))
      · exact hdrop.elim
    · exact .inr (.inl ⟨g, hlater.out.subset hg, hcall⟩)
    · exact .inr (.inr (hlater.destructed.subset hgone))
  cases h.recorded with
  | nothing hcalls => exact hold (hcalls ▸ hk)
  | direct i g hcalls _ _ =>
    rcases getElem?_concat (hcalls ▸ hk) with hk | ⟨-, heq⟩
    · exact hold hk
    · cases heq
  | deferred i entry hcalls hcall horigin hentry =>
    rcases getElem?_concat (hcalls ▸ hk) with hk | ⟨rfl, -⟩
    · exact hold hk
    · have hqueue := (hc'.queued _ entry hentry).eventQueue
      rw [halone _ (hc'.queued _ entry hentry).origin_lt] at hqueue
      exact .inl ⟨entry, hqueue ▸ hentry, hcall⟩

theorem Whole.standing_move (hw : Whole q c) (hc' : Ledger c')
    (h : Move (patient q naming binding) c c') {entry : Deferred}
    (hentry : entry ∈ (c'.queues q).queue) :
    entry.msg.origin ∈ c'.table ∨ entry.msg.origin ∈ c'.destructed := by
  have hlater := h.later
  rcases h.queued hentry with hold | ⟨obj, method, m, args, made, hcall, hid, -, -, rfl⟩
  · rcases hw.standing entry hold with hin | hgone
    · rcases h.unlinks hin with hin' | ⟨hne, ⟨-, hcollect⟩ | ⟨hgone, -⟩⟩
      · exact .inl hin'
      · -- An orphan with an id: nothing in the queue has one where orphans are collected.
        rcases hcollect entry hold with hid | hgone
        · exact absurd hid hne
        · exact .inr (hlater.destructed.subset hgone)
      · exact .inr hgone
    · exact .inr (hlater.destructed.subset hgone)
  · have hlt := hw.ledger.lt_of_method hcall.hasMethod
    refine .inl (hc'.unnamed obj (Nat.lt_of_lt_of_le hlt hlater.size) ?_)
    exact ((hcall.eq ▸ grows_called ..).objects obj hlt).id.trans hid

theorem Whole.move (hw : Whole q c) (halone : ∀ i < c'.size, (c'.objects i).eventQueue = q)
    (h : Move (patient q naming binding) c c') : Whole q c' where
  ledger := hw.ledger.move h
  orderly := hw.orderly.move hw.ledger h
  distinct := distinct_move hw.ledger hw.orderly hw.distinct h
  live := ((h.live q).resolve_right id).trans hw.live
  alone := halone
  recorded := hw.recorded_move (hw.ledger.move h) halone h
  standing _ hentry := hw.standing_move (hw.ledger.move h) h hentry

/-- An object belongs to the queue of the object it was made by. -/
theorem alone_move (hc : Ledger c) (halone : ∀ i < c.size, (c.objects i).eventQueue = q)
    (h : Move (patient q naming False) c c') : ∀ i < c'.size, (c'.objects i).eventQueue = q := by
  intro i hi
  rcases Nat.lt_or_ge i c.size with hlt | hge
  · exact (h.later.objects i hlt).eventQueue.trans (halone i hlt)
  · have hsame : c'.size = c.size → (c'.objects i).eventQueue = q := by
      intro hsize
      exact absurd (hsize ▸ hi) (Nat.not_lt_of_le hge)
    have hwrite : ∀ {c : Client} {msg : C2S}, (c.write msg).size = c.size := by
      intro c msg
      obtain ⟨out, heq⟩ := write_eq c msg
      rw [heq]
    cases h with
    | tweak h => exact hsame h.size
    | acknowledge version => exact hsame hwrite
    | ask q' _ => exact hsame (by unfold Client.ask; exact hwrite)
    | bind _ _ _ hbinds _ => exact hbinds.elim
    | call hcall =>
      rename_i obj method m args made
      have hlt := hc.lt_of_method hcall.hasMethod
      rw [hcall.eq] at hi ⊢
      cases made with
      | none =>
        refine absurd hi (Nat.not_lt_of_le ?_)
        obtain ⟨f, queues, out, calls, -, -, heq⟩ := called_eq c obj method m args none
        rw [heq]
        exact hge
      | some spec =>
        obtain ⟨hsize, hnew⟩ := called_new c obj method m args spec
        rw [hsize] at hi
        rw [Nat.le_antisymm (Nat.le_of_lt_succ hi) hge, hnew]
        exact halone obj hlt
    | named _ _ =>
      obtain ⟨f, -, h, heq⟩ := onSeq_eq c _ _
      exact hsame (by rw [heq]; rfl)
    | flush q' _ => exact hsame (by rw [flush_eq]; rfl)
    | hear _ | acked _ _ | collect _ | destroy _ _ _ _ | dropQueue _ _ => exact hsame rfl

/-- Where nothing is bound, any number of changes keep it. -/
theorem Whole.moves (hw : Whole q c) (h : Moves (patient q naming False) c c') : Whole q c' :=
  h.invariant (P := Whole q) (fun _ _ hw h => hw.move (alone_move hw.ledger hw.alone h) h) hw

/-- What waits goes on waiting while no ids arrive. -/
theorem Unresolved.move (hc : Ledger c) (hu : Unresolved q c)
    (h : Move (patient q False binding) c c') : Unresolved q c' := by
  intro entry hentry
  have hunheard : ∀ seq id, ¬ (patient q False binding).heard (.newObject seq id) :=
    fun seq id hheard => hheard ⟨seq, id, rfl⟩
  rcases h.queued hentry with hold | ⟨obj, method, m, args, made, hcall, hid, -, -, rfl⟩
  · rcases hu entry hold with hid | hgone
    · refine .inl ?_
      rcases hc.id_move hunheard h entry.msg.origin with ⟨-, hsame⟩ | ⟨hnew, -⟩
      · exact hsame.trans hid
      · exact hnew
    · exact .inr (h.later.destructed.subset hgone)
  · refine .inl ?_
    rcases hc.id_move hunheard h obj with ⟨-, hsame⟩ | ⟨hnew, -⟩
    · exact hsame.trans hid
    · exact hnew

/-! ## Steps -/

/-- The action is on queue `q`, if it is on one, and does not drop it. -/
def Only (q : Nat) : Action → Prop
  | .bind q' _ _ | .roundtrip q' | .roundtripReturn q' | .roundtripFail q' | .poll q'
  | .unreadable q' | .read q' _ | .handle q' | .return_ q' | .malformed q' | .finish q' => q' = q
  | .dropQueue _ => False
  | .send _ _ _ | .clone _ | .drop _ => True

/-- What holds of a client while nothing has gone wrong. -/
structure Sound (q : Nat) (c : Client) : Prop where
  whole : Whole q c
  shut : c.shut = false
  idle : (c.queues q).phase = .idle → Unresolved q c

theorem granted_patient {a : Action} (hs : Sound q c) (honly : Only q a)
    (hbind : ∀ q proto version, a ≠ .bind q proto version) (hhandle : ∀ q, a ≠ .handle q)
    (hfinish : ∀ q, a ≠ .finish q) (h : step c a = some c') :
    Granted (patient q False False) c a := by
  cases a with
  | bind q' proto version => exact absurd rfl (hbind q' proto version)
  | handle q' => exact absurd rfl (hhandle q')
  | finish q' => exact absurd rfl (hfinish q')
  | dropQueue q' => exact honly
  | roundtripFail q' =>
    cases honly
    simp only [step, Option.ite_none_right_eq_some] at h
    exact hs.idle h.1.2.1
  | poll q' =>
    cases honly
    simp only [step, Option.ite_none_right_eq_some] at h
    exact hs.idle (dispatches_spec h.1).2
  | unreadable q' =>
    cases honly
    simp only [step, Option.ite_none_right_eq_some] at h
    exact hs.idle (dispatches_spec h.1).2
  | read q' batch =>
    cases honly
    simp only [step, Option.ite_none_right_eq_some] at h
    exact hs.idle (dispatches_spec h.1.1).2
  | return_ q' => exact fun _ _ _ _ => trivial
  | send obj method args => exact fun _ _ => trivial
  | clone _ | drop _ | roundtrip _ | roundtripReturn _ | malformed _ => trivial

/-- An object is bound to the queue. -/
theorem Whole.bind (hw : Whole q c) (proto : ProtocolSpec) (version : Nat) :
    Whole q (c.bind q proto version) ∧ (Unresolved q c → Unresolved q (c.bind q proto version)) := by
  unfold Client.bind
  split
  · exact ⟨hw, id⟩
  · split
    · exact ⟨hw, id⟩
    · next c₁ hbind =>
      have hmove : Move (patient q False True) c c₁ := .bind q _ version trivial hbind
      have hadopt : Move (patient q False False) c₁ (c₁.adopt c.size) := .tweak (.adopt ..)
      have hw₁ : Whole q c₁ := by
        refine hw.move ?_ hmove
        obtain ⟨spec, -, rfl⟩ := bindProtocol_eq hbind
        obtain ⟨out, heq⟩ := write_eq (c.fetchAdd.push (c.bound q version proto spec))
          (.bindProtocol c.nextSeq version proto.specName)
        rw [heq]
        intro i hi
        by_cases hi' : i = c.size
        · simp [push, fetchAdd, bound, hi']
        · have hlt : i < c.size := Nat.lt_of_le_of_ne (Nat.le_of_lt_succ hi) hi'
          simpa [push, fetchAdd, hi'] using hw.alone i hlt
      exact ⟨hw₁.moves (Moves.one hadopt), fun hu =>
        (hu.move hw.ledger hmove).move hw₁.ledger hadopt⟩

/-- A flush, and what is collected behind it. -/
theorem Whole.finish (hw : Whole q c) (hshut : c.shut = false) :
    Whole q (c.finish q) ∧ Unresolved q (c.finish q) := by
  have hflush : Move (patient q False False) c (c.flush q) := .flush c q hshut
  have hw₁ : Whole q (c.flush q) := hw.move (alone_move hw.ledger hw.alone hflush) hflush
  have hcollect : Moves (patient q False False) (c.flush q) (c.flush q).collectOrphanedObjects :=
    moves_collect hw₁.ledger.table_lt hw.flushed
  have hboth : Whole q (c.flush q).collectOrphanedObjects ∧
      Unresolved q (c.flush q).collectOrphanedObjects := by
    refine hcollect.invariant (P := fun c => Whole q c ∧ Unresolved q c) (fun t t' ht hmove => ?_)
      ⟨hw₁, hw.flushed⟩
    exact ⟨ht.1.move (alone_move ht.1.ledger ht.1.alone hmove) hmove, ht.2.move ht.1.ledger hmove⟩
  have hend : Move (patient q False False) (c.flush q).collectOrphanedObjects (c.finish q) := by
    unfold Client.finish
    refine .tweak (.setQueue _ q fun queue => ⟨rfl, rfl, rfl, rfl, fun h => ?_, rfl, rfl⟩)
    exact (Bool.and_eq_true_iff.mp h).1
  exact ⟨hboth.1.moves (Moves.one hend), hboth.2.move hboth.1.ledger hend⟩

theorem Sound.step {a : Action} (hs : Sound q c) (honly : Only q a) (herror : c'.error = false)
    (h : Client.step c a = some c') : Sound q c' := by
  have hshut : c'.shut = false := by
    cases hclosed : c'.shut with
    | false => rfl
    | true =>
      rcases (faults h).shut hclosed with hold | hnew
      · rw [hs.shut] at hold
        cases hold
      · rw [herror] at hnew
        cases hnew
  have hbusy : (c'.queues q).phase ≠ .idle → (c'.queues q).phase = .idle → Unresolved q c' :=
    fun hne heq => absurd heq hne
  by_cases hbind : ∃ q' proto version, a = .bind q' proto version
  · obtain ⟨q', proto, version, rfl⟩ := hbind
    cases honly
    simp only [Client.step, Option.ite_none_right_eq_some, Option.some.injEq] at h
    obtain ⟨-, rfl⟩ := h
    obtain ⟨hw, hu⟩ := hs.whole.bind proto version
    exact ⟨hw, hshut, fun hidle => hu (hs.idle (((Frame.bind ..).phase q).symm.trans hidle))⟩
  · by_cases hhandle : ∃ q', a = .handle q'
    · obtain ⟨q', rfl⟩ := hhandle
      cases honly
      have hgrant : Granted (patient q True False) c (.handle q) :=
        fun _ _ _ => ⟨fun _ => trivial, fun _ _ _ _ => trivial⟩
      refine ⟨hs.whole.moves (moves_step hs.whole.ledger.table_lt hgrant h), hshut, hbusy ?_⟩
      intro hidle
      cases progress h with
      | handled _ msg rest _ hphase _ _ =>
        rw [hidle, herror] at hphase
        rcases hphase with heq | ⟨obj, method, heq⟩ | ⟨-, heq⟩
        · cases heq
        · cases heq
        · cases heq
      | gaveUp _ _ _ hfailed _ _ _ =>
        rw [herror] at hfailed
        cases hfailed
      | still _ _ _ _ hne => exact hne q rfl
    · by_cases hfinish : ∃ q', a = .finish q'
      · obtain ⟨q', rfl⟩ := hfinish
        cases honly
        simp only [Client.step] at h
        split at h
        · cases h
          obtain ⟨hw, hu⟩ := hs.whole.finish hs.shut
          exact ⟨hw, hshut, fun _ => hu⟩
        · cases h
      · -- No id arrives, and orphans are collected between two dispatches only.
        have hgrant := granted_patient hs honly (fun q' proto version heq => hbind ⟨_, _, _, heq⟩)
          (fun q' heq => hhandle ⟨_, heq⟩) (fun q' heq => hfinish ⟨_, heq⟩) h
        have hmoves := moves_step hs.whole.ledger.table_lt hgrant h
        refine ⟨hs.whole.moves hmoves, hshut, fun hidle => ?_⟩
        have hwas : (c.queues q).phase = .idle := by
          cases progress h with
          | read q' batch _ _ hphase _ _ =>
            cases honly
            rw [hidle] at hphase
            cases hphase
          | handled q' _ _ _ _ _ _ => exact absurd ⟨q', rfl⟩ hhandle
          | returned q' rest obj method _ hphase _ _ =>
            cases honly
            rw [hidle] at hphase
            cases hphase
          | gaveUp _ _ _ hfailed _ _ _ =>
            rw [herror] at hfailed
            cases hfailed
          | finished q' _ _ _ _ => exact absurd ⟨q', rfl⟩ hfinish
          | still _ hphase _ _ _ => exact (hphase q).symm.trans hidle
        have hboth : Whole q c' ∧ Unresolved q c' := by
          refine hmoves.invariant (P := fun c => Whole q c ∧ Unresolved q c) (fun t t' ht hmove => ?_)
            ⟨hs.whole, hs.idle hwas⟩
          exact ⟨ht.1.move (alone_move ht.1.ledger ht.1.alone hmove) hmove, ht.2.move ht.1.ledger hmove⟩
        exact hboth.2

/-! ## Runs -/

/-- **What has become of a deferred call** on `obj`, the `k`th call of the client. The id it was
sent with is one the server assigned to the seq of its object. -/
inductive Fate (q : Nat) (c : Client) (k obj : Nat) : Prop
  | waits (entry : Deferred) (hqueued : c.queuedOf q k = [entry]) (hunsent : c.sentOf k = [])
      (horigin : entry.msg.origin = obj) (hin : obj ∈ c.table) (hid : (c.objects obj).id = 0)
  | sent (g : Generic) (hsent : c.sentOf k = [g]) (hqueued : c.queuedOf q k = [])
      (horigin : g.origin = obj) (hid : g.object ≠ 0)
      (hassigned : .newObject (c.objects obj).seq g.object ∈ c.handled)
  | destructed (hgone : obj ∈ c.destructed)

/-- **The deferred calls are settled**: none is lost, none was sent twice, and object by object they
were sent in their order. -/
structure Settled (q : Nat) (c : Client) : Prop where
  live : (c.queues q).live = true
  fate : ∀ k obj method, c.calls[k]? = some ⟨obj, method, true⟩ → Fate q c k obj
  once : ∀ k, (c.sentOf k).length ≤ 1
  order : ∀ obj, (c.deferredOut.filter fun g => g.origin = obj).Pairwise fun g g' => g.call < g'.call

/-- The deferred calls a step sends are sent in their order. -/
def InQueueOrder (c : Client) (a : Action) : Prop :=
  ∀ c', step c a = some c' → ∃ more, c'.deferredOut = c.deferredOut ++ more ∧
    more.Pairwise fun g g' => g.call < g'.call

theorem mem_sentOf {k : Nat} {g : Generic} : g ∈ c.sentOf k ↔ .generic g ∈ c.out ∧ g.call = k := by
  rw [sentOf, List.mem_filter, mem_generics, decide_eq_true_eq]

theorem mem_queuedOf {k : Nat} {entry : Deferred} :
    entry ∈ c.queuedOf q k ↔ entry ∈ (c.queues q).queue ∧ entry.msg.call = k := by
  rw [queuedOf, List.mem_filter, decide_eq_true_eq]

/-- Where any two entries differ in something they have in common there is one at most. -/
theorem length_le_one_of {α : Type} {l : List α} (h : l.Pairwise fun _ _ => False) :
    l.length ≤ 1 := by
  match l, h with
  | [], _ => exact Nat.zero_le _
  | [_], _ => exact Nat.le_refl _
  | _ :: y :: _, h => exact ((List.pairwise_cons.mp h).1 y (List.mem_cons_self ..)).elim

theorem Whole.once (hw : Whole q c) (k : Nat) : (c.sentOf k).length ≤ 1 := by
  have hcalls : (c.out.filterMap C2S.generic?).Pairwise fun g g' => g.call ≠ g'.call := by
    refine hw.distinct.out.filterMap _ fun msg msg' hne g hg g' hg' => ?_
    cases msg <;> cases hg
    cases msg' <;> cases hg'
    exact hne g g' rfl rfl
  refine length_le_one_of ((hcalls.sublist List.filter_sublist).imp_of_mem fun hg hg' hne => ?_)
  exact hne ((mem_sentOf.mp hg).2.trans (mem_sentOf.mp hg').2.symm)

theorem Whole.queued_once (hw : Whole q c) (k : Nat) : (c.queuedOf q k).length ≤ 1 := by
  refine length_le_one_of (((hw.orderly.queue q).sublist List.filter_sublist).imp_of_mem
    fun hg hg' hlt => ?_)
  exact absurd ((mem_queuedOf.mp hg).2.trans (mem_queuedOf.mp hg').2.symm) (Nat.ne_of_lt hlt)

/-- What was sent does not wait. -/
theorem Whole.apart (hw : Whole q c) {k : Nat} {g : Generic} {entry : Deferred}
    (hg : g ∈ c.sentOf k) (hentry : entry ∈ c.queuedOf q k) : False := by
  obtain ⟨hout, hcall⟩ := mem_sentOf.mp hg
  obtain ⟨hqueue, hcall'⟩ := mem_queuedOf.mp hentry
  exact hw.distinct.cross q entry hqueue trivial _ hout g entry.msg rfl rfl (hcall.trans hcall'.symm)

theorem eq_singleton {α : Type} {l : List α} {x : α} (hx : x ∈ l) (h : l.length ≤ 1) : l = [x] := by
  match l, hx, h with
  | [y], hx, _ => rw [List.mem_singleton.mp hx]

theorem Sound.fate (hs : Sound q c) (hidle : (c.queues q).phase = .idle) {k obj method : Nat}
    (hk : c.calls[k]? = some ⟨obj, method, true⟩) : Fate q c k obj := by
  have hw := hs.whole
  rcases hw.recorded k obj method hk with ⟨entry, hentry, hcall⟩ | ⟨g, hg, hcall⟩ | hgone
  · have hqueued : entry ∈ c.queuedOf q k := mem_queuedOf.mpr ⟨hentry, hcall⟩
    have horigin : entry.msg.origin = obj := by
      have hrecord := (hw.ledger.queued q entry hentry).call
      rw [hcall, hk] at hrecord
      cases hrecord
      rfl
    rcases hs.idle hidle entry hentry with hid | hgone
    · have hlt := (hw.ledger.queued q entry hentry).origin_lt
      refine .waits entry (eq_singleton hqueued (hw.queued_once k)) ?_ horigin
        (horigin ▸ hw.ledger.unnamed _ hlt hid) (horigin ▸ hid)
      exact List.eq_nil_iff_forall_not_mem.mpr fun g hg => hw.apart hg hqueued
    · exact .destructed (horigin ▸ hgone)
  · have hsent : g ∈ c.sentOf k := mem_sentOf.mpr ⟨hg, hcall⟩
    have hrecord := hw.ledger.sent g hg
    have horigin : g.origin = obj := by
      obtain ⟨deferred, hrecorded⟩ := hrecord.call
      rw [hcall, hk] at hrecorded
      cases hrecorded
      rfl
    refine .sent g (eq_singleton hsent (hw.once k)) ?_ horigin hrecord.object_ne
      (horigin ▸ hrecord.named)
    exact List.eq_nil_iff_forall_not_mem.mpr fun entry hentry => hw.apart hsent hentry
  · exact .destructed hgone

theorem Sound.settled (hs : Sound q c) (hidle : (c.queues q).phase = .idle) : Settled q c where
  live := hs.whole.live
  fate _ _ _ hk := hs.fate hidle hk
  once := hs.whole.once
  order obj := by
    refine (hs.whole.orderly.out.sublist List.filter_sublist).imp_of_mem fun hg hg' hlt => ?_
    have horigin := (List.mem_filter.mp hg).2
    have horigin' := (List.mem_filter.mp hg').2
    rw [decide_eq_true_eq] at horigin horigin'
    exact hlt (horigin.trans horigin'.symm)

/-- What the primitive changes of a step that flushes no queue rely on. -/
def unflushed : Rely where
  heard _ := True
  asks _ := True
  binds _ := True
  calls _ _ _ := True
  ended _ _ := True
  flushes _ _ := False
  collects _ := True
  drops _ := True

theorem deferredOut_moves (hc : Ledger c) (h : Moves unflushed c c') :
    c'.deferredOut = c.deferredOut := by
  have hinv : Ledger c' ∧ c'.deferredOut = c.deferredOut := by
    refine h.invariant (P := fun t => Ledger t ∧ t.deferredOut = c.deferredOut) (fun t t' ht hmove => ?_)
      ⟨hc, rfl⟩
    refine ⟨ht.1.move hmove, ?_⟩
    rcases hmove.deferredOut ht.1 with hsame | ⟨q, hflush, -⟩
    · exact hsame.trans ht.2
    · exact hflush.elim
  exact hinv.2

/-- **A step sends deferred calls in the order of the queue.** -/
theorem inQueueOrder (hc : Ledger c) (ho : Orderly c) (a : Action) : InQueueOrder c a := by
  intro c' h
  have hnone : Moves unflushed c c' → ∃ more, c'.deferredOut = c.deferredOut ++ more ∧
      more.Pairwise fun g g' => g.call < g'.call := fun hmoves =>
    ⟨[], (deferredOut_moves hc hmoves).trans (List.append_nil _).symm, .nil⟩
  by_cases hfinish : ∃ q, a = .finish q
  · obtain ⟨q, rfl⟩ := hfinish
    simp only [step] at h
    split at h
    · cases h
      have hflush : Move anything c (c.flush q) := .flush c q trivial
      have hrest : (c.finish q).deferredOut = (c.flush q).deferredOut := by
        have hcollect : Moves unflushed (c.flush q) (c.flush q).collectOrphanedObjects :=
          moves_collect (hc.move hflush).table_lt trivial
        refine deferredOut_moves (hc.move hflush) (hcollect.trans (Moves.tweak ?_))
        unfold Client.finish
        refine .setQueue _ q fun queue => ⟨rfl, rfl, rfl, rfl, fun h => ?_, rfl, rfl⟩
        exact (Bool.and_eq_true_iff.mp h).1
      rw [hrest]
      rcases hflush.deferredOut hc with hsame | ⟨q', -, heq, hout⟩
      · exact ⟨[], hsame.trans (List.append_nil _).symm, .nil⟩
      · refine ⟨_, hout, (ho.queue q').filterMap _ fun entry entry' hlt g hg g' hg' => ?_⟩
        obtain ⟨i, -, -, rfl⟩ := resolve_some hg
        obtain ⟨i', -, -, rfl⟩ := resolve_some hg'
        exact hlt
    · cases h
  · refine hnone (moves_step hc.table_lt ?_ h)
    cases a with
    | finish q => exact absurd ⟨q, rfl⟩ hfinish
    | _ => simp [Granted, unflushed]

/-- **Deferred calls are neither lost nor sent twice**, in every run of a client with one queue in
which nothing has gone wrong. Each dispatch sends what it can in the order of the queue. -/
theorem deferred_settled {impls : List ProtocolSpec} {as : List Action}
    (honly : ∀ a ∈ as, Only q a) (hrun : Run.run step { impls } as = some c)
    (herror : c.error = false) (hidle : (c.queues q).phase = .idle) :
    Settled q c ∧ Run.Meets step InQueueOrder { impls } as := by
  constructor
  · have hsound : c.error = false → Sound q c := by
      refine @Run.run_meeting _ _ step (fun c => c.error = false → Sound q c) (fun _ a => Only q a)
        (fun t a t' ht honly h herror => ?_) _ _ _
        (fun _ => ⟨.init q impls, rfl, fun _ _ h => by cases h⟩) (Run.meets_of_forall honly) hrun
      have hwas : t.error = false := by
        cases hfailed : t.error with
        | false => rfl
        | true =>
          rw [(faults h).error hfailed] at herror
          cases herror
      exact (ht hwas).step honly herror h
    exact (hsound herror).settled hidle
  · have htrue : Run.Meets step (fun _ _ => True) { impls } as :=
      Run.meets_of_forall (p := fun _ => True) fun _ _ => trivial
    refine @Run.meets_meeting _ _ step (fun c => Ledger c ∧ Orderly c) (fun _ _ => True) InQueueOrder
      (fun t a t' ht _ h => ?_) (fun t a ht _ => inQueueOrder ht.1 ht.2 a) as _
      ⟨.init impls, .init impls⟩ htrue
    exact (moves_anyhow ht.1 h).invariant (P := fun c => Ledger c ∧ Orderly c)
      (fun _ _ ht h => ⟨ht.1.move h, ht.2.move ht.1 h⟩) ht

/-- Two items are made, and drawn before they have their ids, the later one first; the earlier one
is named first. -/
def swapped : List Action :=
  bound₀ ++
    [.read 0 [.newObject 1 1], .handle 0, .finish 0, .send 0 0 [], .send 0 0 [], .send 2 0 [],
      .send 1 0 [], .read 0 [.newObject 2 5], .handle 0, .finish 0, .read 0 [.newObject 3 6],
      .handle 0, .finish 0]

theorem only_swapped : ∀ a ∈ swapped, Only 0 a := by
  simp [swapped, bound₀, Only]

theorem deferred_settled_swapped :
    ∃ c, Run.run step { impls := [shopProtocol] } swapped = some c ∧ Settled 0 c ∧
      Run.Meets step InQueueOrder { impls := [shopProtocol] } swapped :=
  ⟨_, rfl, deferred_settled only_swapped rfl rfl rfl⟩

/-- The ids a client was told, with the seqs they are for. -/
def assigned (c : Client) : List (Nat × Nat) :=
  c.handled.filterMap fun
    | .newObject seq id => some (seq, id)
    | _ => none

/-- The server assigned no seq two ids, and no id, which is not 0, to two seqs. -/
def Assigns (c : Client) : Prop :=
  ∀ p ∈ c.assigned, p.2 ≠ 0 ∧ ∀ p' ∈ c.assigned, p.1 = p'.1 ↔ p.2 = p'.2

/-- The two are sent in the order in which their objects are named, not in that of the queue. -/
theorem not_always_in_queue_order : ¬ ∀ (impls : List ProtocolSpec) (as : List Action) (c : Client),
    (∀ a ∈ as, Only 0 a) → Run.run step { impls } as = some c → Assigns c → c.error = false →
      (c.queues 0).phase = .idle →
        Settled 0 c ∧ c.deferredOut.Pairwise fun g g' => g.call < g'.call := by
  intro h
  have hassigned : ((Run.run step { impls := [shopProtocol] } swapped).map assigned) =
      some [(1, 1), (2, 5), (3, 6)] := by decide
  have hcalls : ((Run.run step { impls := [shopProtocol] } swapped).map fun c =>
      c.deferredOut.map Generic.call) = some [3, 2] := by decide
  obtain ⟨c, hrun, heq⟩ := Option.map_eq_some_iff.mp hcalls
  rw [hrun] at hassigned
  have hassigns : Assigns c := by
    rw [Assigns, Option.some.inj hassigned]
    decide
  have hcalm : ((Run.run step { impls := [shopProtocol] } swapped).map fun c =>
      (c.error, (c.queues 0).phase)) = some (false, .idle) := by decide
  rw [hrun] at hcalm
  obtain ⟨herror, hidle⟩ := Prod.mk.inj (Option.some.inj hcalm)
  obtain ⟨-, horder⟩ := h [shopProtocol] swapped c only_swapped hrun hassigns herror hidle
  have hpair := List.pairwise_map.mpr horder
  rw [heq] at hpair
  exact absurd hpair (by decide)

end Hyprwire.Client
