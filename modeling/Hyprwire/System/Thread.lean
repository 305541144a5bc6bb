import Hyprwire.System.Phases

/-!
# `System/Thread.lean` — one thread and the mutexes of its queues

`dispatch_events` and `roundtrip` lock their queue's mutex and hold it until they return, over all
the callbacks in between. `WireObject::call` locks the mutex of its object's queue when the object
has no id yet. A mutex is not reentrant: a thread that locks one it holds never goes on.

A `Thread` runs a client alone. User code runs where nothing is dispatched or in the callback of the
innermost dispatch, and may dispatch other queues from there. The mutexes it holds are those of the
queues that are being dispatched (`Locks.held_iff`); it hangs itself up in exactly the runs in
which a callback makes a deferred call on an object of one of them (`hung_iff`).
-/

namespace Hyprwire

namespace Client

variable {c c' c'' : Client}

/-- A dispatch of the queue is on its way, or a roundtrip. -/
def busy (c : Client) (q : Nat) : Bool := (c.queues q).inRoundtrip || (c.queues q).phase ≠ .idle

/-- The mutex that `call` locks: it finds the method, and the object has no id. -/
def locks (c : Client) (h method : Nat) : Option Nat :=
  let obj := c.objects h
  match obj.methodsOut[method]? with
  | none => none
  | some m =>
    if obj.version < m.since.toNat then none
    else if obj.id = 0 ∧ (c.queues obj.eventQueue).live then some obj.eventQueue
    else none

/-! ## A step of one queue and the others -/

/-- What happened concerned no queue but `q`, and none was given up. -/
structure Apart (q : Nat) (c c' : Client) : Prop where
  phase : ∀ i, i ≠ q → (c'.queues i).phase = (c.queues i).phase
  inRoundtrip : ∀ i, i ≠ q → (c'.queues i).inRoundtrip = (c.queues i).inRoundtrip
  live : ∀ i, (c'.queues i).live = (c.queues i).live

theorem Frame.apart (h : Frame c c') (q : Nat) : Apart q c c' :=
  ⟨fun i _ => h.phase i, fun i _ => h.inRoundtrip i, h.live⟩

theorem Frame.busy (h : Frame c c') (q : Nat) : c'.busy q = c.busy q := by
  rw [Client.busy, Client.busy, h.phase, h.inRoundtrip]

theorem Apart.busy {q : Nat} (h : Apart q c c') {i : Nat} (hi : i ≠ q) : c'.busy i = c.busy i := by
  rw [Client.busy, Client.busy, h.phase i hi, h.inRoundtrip i hi]

theorem Apart.trans {q : Nat} (h : Apart q c c') (h' : Apart q c' c'') : Apart q c c'' :=
  ⟨fun i hi => (h'.phase i hi).trans (h.phase i hi),
    fun i hi => (h'.inRoundtrip i hi).trans (h.inRoundtrip i hi),
    fun i => (h'.live i).trans (h.live i)⟩

/-- Only the queue `q` was changed. -/
theorem apart_of_eq {q : Nat} (f : EventQueue → EventQueue) (hf : ∀ queue, (f queue).live = queue.live)
    (h : c'.queues = (c.setQueue q f).queues) : Apart q c c' := by
  refine ⟨fun i hi => ?_, fun i hi => ?_, fun i => ?_⟩
  · simp [h, setQueue, hi]
  · simp [h, setQueue, hi]
  · simp only [h, setQueue]
    split
    · exact hf _
    · rfl

theorem Frame.apart_setQueue (h : Frame c c') (q : Nat) {f : EventQueue → EventQueue}
    (hf : ∀ queue, (f queue).live = queue.live) : Apart q c (c'.setQueue q f) :=
  (h.apart q).trans (apart_of_eq f hf rfl)

theorem Frame.apart_setPhase (h : Frame c c') (q : Nat) (phase : Phase) :
    Apart q c (c'.setPhase q phase) :=
  h.apart_setQueue q (f := fun queue => { queue with phase }) fun _ => rfl

theorem apart_abort (h : Frame c c') (q : Nat) : Apart q c (c'.abort q) :=
  (h.apart q).trans
    (apart_of_eq (fun queue => { queue with phase := .idle, inRoundtrip := false }) (fun _ => rfl) rfl)

theorem apart_handle (c : Client) (q : Nat) (msg : S2C) (rest : List S2C) :
    Apart q c (c.handle q msg rest) := by
  let c₁ : Client := { c with handled := c.handled ++ [msg] }
  have hheard : Apart q c c₁ := ⟨fun _ _ => rfl, fun _ _ => rfl, fun _ => rfl⟩
  have hrest : ∀ {c₂ : Client}, c₂.queues = c₁.queues → Apart q c₁ (c₂.setPhase q (.batch rest)) :=
    fun hqueues => apart_of_eq (fun queue => { queue with phase := .batch rest }) (fun _ => rfl)
      (by rw [setPhase, setQueue, setQueue, hqueues])
  unfold handle
  refine hheard.trans ?_
  cases msg with
  | handshakeBegin versions =>
    simp only
    split
    · exact (Frame.write c₁ _).apart_setPhase q _
    · exact apart_abort (.refl c₁) q
  | handshakeProtocols protocols => exact hrest rfl
  | newObject seq id => exact (Frame.onSeq c₁ seq id).apart_setPhase q _
  | generic g =>
    simp only [onGeneric]
    split
    · exact hrest rfl
    · next h hfind =>
      split
      · exact (Frame.setObject c₁ h _).apart_setPhase q _
      · exact (Frame.afterDispatch c₁ h g.method).apart_setPhase q _
  | fatalProtocolError objectId errorId errorMsg => exact hrest rfl
  | roundtripDone seq request =>
    exact apart_of_eq (fun queue => { queue with
      lastAckd := seq, phase := .batch rest, credited := queue.credited ++ [request] })
      (fun _ => rfl) rfl

/-- The queue that an action of a dispatch belongs to. -/
def Action.queue : Action → Option Nat
  | .roundtrip q | .roundtripReturn q | .roundtripFail q | .poll q | .unreadable q | .read q _
  | .handle q | .return_ q | .malformed q | .finish q => some q
  | _ => none

/-- **An action of a dispatch concerns its own queue.** -/
theorem apart_step {a : Action} {q : Nat} (ha : a.queue = some q) (h : step c a = some c') :
    Apart q c c' := by
  cases a with
  | roundtrip i =>
    cases ha
    simp only [step, Option.ite_none_right_eq_some, Option.some.injEq] at h
    obtain ⟨-, rfl⟩ := h
    exact (apart_of_eq (fun queue => { queue with
      lastSent := ((c.queues q).lastSent + 1) % wordSize
      inRoundtrip := true, marked := c.out.length }) (fun _ => rfl) rfl).trans ((Frame.write ..).apart q)
  | roundtripReturn i =>
    cases ha
    simp only [step, Option.ite_none_right_eq_some, Option.some.injEq] at h
    obtain ⟨-, rfl⟩ := h
    exact apart_of_eq (fun queue => { queue with inRoundtrip := false }) (fun _ => rfl) rfl
  | roundtripFail i =>
    cases ha
    simp only [step, Option.ite_none_right_eq_some, Option.some.injEq] at h
    obtain ⟨-, rfl⟩ := h
    have hframe : Frame c (if c.error then c else c.collectOrphanedObjects) := by
      split
      · exact .refl c
      · exact .collect c
    refine hframe.apart_setQueue q ?_
    exact fun _ => rfl
  | poll i =>
    cases ha
    simp only [step, Option.ite_none_right_eq_some, Option.some.injEq] at h
    exact h.2 ▸ (Frame.collect c).apart q
  | unreadable i =>
    cases ha
    simp only [step, Option.ite_none_right_eq_some, Option.some.injEq] at h
    exact h.2 ▸ apart_abort (.collect c) q
  | read i batch =>
    cases ha
    simp only [step, Option.ite_none_right_eq_some, Option.some.injEq] at h
    exact h.2 ▸ (Frame.collect c).apart_setPhase q _
  | handle i =>
    cases ha
    simp only [step] at h
    split at h
    · cases h
      exact apart_handle ..
    · cases h
  | return_ i =>
    cases ha
    simp only [step] at h
    split at h
    · next rest obj method hphase =>
      cases h
      have hset := (Frame.afterDispatch c obj method).trans (.setObject _ obj fun o =>
        { o with borrows := o.borrows - 1 })
      unfold Client.returned
      refine Frame.apart_setPhase ?_ q _
      split
      · exact hset
      · exact hset.trans (.dropUnlessHeld ..)
    · cases h
  | malformed i =>
    cases ha
    simp only [step] at h
    split at h
    · cases h
      exact apart_abort (.refl c) q
    · cases h
  | finish i =>
    cases ha
    simp only [step] at h
    split at h
    · cases h
      unfold Client.finish
      refine ((Frame.flush c q).trans (.collect _)).apart_setQueue q ?_
      exact fun _ => rfl
    · cases h
  | bind | send | clone | drop | dropQueue => cases ha

end Client

/-- **A thread**: the client it runs, the queues whose mutexes it holds, innermost first, and
whether it waits for one of them. -/
structure Thread where
  client : Client
  held : List Nat := []
  hung : Bool := false

namespace Thread

open Client (Action Phase)

/-- User code runs: no queue is dispatched, or the innermost dispatch is in a callback. -/
def userTurn (t : Thread) : Bool :=
  match t.held with
  | [] => true
  | q :: _ => match (t.client.queues q).phase with
    | .callback .. => true
    | _ => false

/-- The innermost dispatch is that of `q`. -/
def within (t : Thread) (q : Nat) : Bool := t.held.head? = some q

/-- What user code does, without a mutex of its own. -/
def user (t : Thread) (a : Action) : Option Thread :=
  if t.userTurn then (t.client.step a).map fun client => { t with client } else none

/-- What user code begins with the mutex of `q` locked. -/
def enter (t : Thread) (q : Nat) (a : Action) : Option Thread :=
  if t.userTurn then (t.client.step a).map fun client => { t with client, held := q :: t.held }
  else none

/-- What goes on in the innermost dispatch; its mutex is unlocked where it returns. -/
def inner (t : Thread) (q : Nat) (a : Action) : Option Thread :=
  if t.within q then
    (t.client.step a).map fun client =>
      { t with client, held := if client.busy q then t.held else t.held.tail }
  else none

/-- **A step of the thread.** A dispatch of a roundtrip finds the mutex locked by the roundtrip; one
that has nothing to read or fails at once locks and unlocks it. -/
def step (t : Thread) (a : Action) : Option Thread :=
  if t.hung then none
  else match a with
    | .send h method args =>
      if t.userTurn ∧ t.client.offers h method then
        match t.client.locks h method with
        | some q =>
          if q ∈ t.held then some { t with hung := true }
          else some { t with client := t.client.send h method args }
        | none => some { t with client := t.client.send h method args }
      else none
    | .bind .. | .clone _ | .drop _ | .dropQueue _ => t.user a
    | .roundtrip q => t.enter q a
    | .read q _ => if t.within q then t.inner q a else t.enter q a
    | .poll q | .unreadable q => if t.within q then t.inner q a else t.user a
    | .roundtripReturn q | .roundtripFail q | .handle q | .return_ q | .malformed q | .finish q =>
      t.inner q a

/-- **The condition** on a call: the object has an id, or its queue is not being dispatched (or the
object is too old for the method, and the call does nothing). -/
def Free (t : Thread) : Action → Prop
  | .send h method _ => ∀ m, (t.client.objects h).methodsOut[method]? = some m →
      m.since.toNat ≤ (t.client.objects h).version → (t.client.objects h).id = 0 →
        t.client.busy (t.client.objects h).eventQueue = false
  | _ => True

instance (t : Thread) (a : Action) : Decidable (Free t a) :=
  match a with
  | .send h method _ => inferInstanceAs (Decidable (∀ m ∈ (t.client.objects h).methodsOut[method]?, _))
  | .bind .. | .clone _ | .drop _ | .dropQueue _ | .roundtrip _ | .roundtripReturn _ | .roundtripFail _
  | .poll _ | .unreadable _ | .read .. | .handle _ | .return_ _ | .malformed _ | .finish _ =>
    .isTrue trivial

/-! ## Which mutexes are held -/

/-- **The invariant**: the thread holds the mutexes of the queues that are dispatched, each once; all
but the innermost of the dispatches are in a callback; and a queue that is dispatched is alive. -/
structure Locks (t : Thread) : Prop where
  held_iff : ∀ q, q ∈ t.held ↔ t.client.busy q = true
  nodup : t.held.Nodup
  nested : ∀ q ∈ t.held.tail, ∃ rest h method, (t.client.queues q).phase = .callback rest h method
  live : ∀ q, t.client.busy q = true → (t.client.queues q).live = true

variable {t t' : Thread} {c c' : Client}

/-- Where user code runs, every dispatch is in a callback. -/
theorem Locks.in_callback (hl : t.Locks) (hturn : t.userTurn = true) {q : Nat} (hq : q ∈ t.held) :
    ∃ rest h method, (t.client.queues q).phase = .callback rest h method := by
  have hnested := hl.nested
  unfold userTurn at hturn
  cases hheld : t.held with
  | nil =>
    rw [hheld] at hq
    cases hq
  | cons i is =>
    rw [hheld] at hq hturn hnested
    rcases List.mem_cons.mp hq with rfl | hq
    · simp only at hturn
      cases hphase : (t.client.queues q).phase with
      | callback rest h method => exact ⟨rest, h, method, rfl⟩
      | idle =>
        rw [hphase] at hturn
        cases hturn
      | batch rest =>
        rw [hphase] at hturn
        cases hturn
    · exact hnested q hq

/-- … so a queue that stands idle is not being dispatched. -/
theorem Locks.not_busy (hl : t.Locks) (hturn : t.userTurn = true) {q : Nat}
    (hidle : (t.client.queues q).phase = .idle) : t.client.busy q = false := by
  rw [← Bool.not_eq_true, ← hl.held_iff]
  intro hq
  obtain ⟨rest, h, method, hphase⟩ := hl.in_callback hturn hq
  rw [hidle] at hphase
  cases hphase

/-- User code that leaves the queues alone. -/
theorem Locks.of_frame (hl : t.Locks) (h : t.client.Frame c') : ({ t with client := c' } : Thread).Locks where
  held_iff q := by
    rw [hl.held_iff q]
    simp only [h.busy]
  nodup := hl.nodup
  nested q hq := by
    simp only [h.phase]
    exact hl.nested q hq
  live q hq := by
    simp only [h.live]
    simp only [h.busy] at hq
    exact hl.live q hq

/-- A dispatch or a roundtrip begins. -/
theorem Locks.enter (hl : t.Locks) (hturn : t.userTurn = true) {q : Nat} (hapart : Client.Apart q t.client c')
    (hfree : t.client.busy q = false) (hbusy : c'.busy q = true)
    (hlive : (t.client.queues q).live = true) :
    ({ t with client := c', held := q :: t.held } : Thread).Locks := by
  have hq : q ∉ t.held := by
    rw [hl.held_iff, hfree]
    exact Bool.false_ne_true
  have hne : ∀ i ∈ t.held, i ≠ q := by
    rintro i hi rfl
    exact hq hi
  refine ⟨fun i => ?_, List.nodup_cons.mpr ⟨hq, hl.nodup⟩, fun i hi => ?_, fun i hi => ?_⟩
  · by_cases hi : i = q
    · subst hi
      exact iff_of_true (List.mem_cons_self ..) hbusy
    · rw [List.mem_cons, hl.held_iff i, ← hapart.busy hi]
      exact or_iff_right hi
  · rw [List.tail_cons] at hi
    simp only [hapart.phase i (hne i hi)]
    exact hl.in_callback hturn hi
  · simp only [hapart.live]
    by_cases hiq : i = q
    · rw [hiq]
      exact hlive
    · simp only [hapart.busy hiq] at hi
      exact hl.live i hi

/-- The innermost dispatch goes on or returns. -/
theorem Locks.inner (hl : t.Locks) {q : Nat} (hwithin : t.within q = true)
    (hapart : Client.Apart q t.client c') :
    ({ t with client := c', held := if c'.busy q then t.held else t.held.tail } : Thread).Locks := by
  obtain ⟨is, hheld⟩ : ∃ is, t.held = q :: is := by
    cases h : t.held with
    | nil => simp [within, h] at hwithin
    | cons i is => exact ⟨is, by simpa [within, h] using hwithin⟩
  have hnodup := hl.nodup
  have hnested := hl.nested
  rw [hheld] at hnodup hnested
  rw [List.tail_cons] at hnested
  obtain ⟨hq, his⟩ := List.nodup_cons.mp hnodup
  have hne : ∀ i ∈ is, i ≠ q := by
    rintro i hi rfl
    exact hq hi
  have hothers : ∀ i, i ≠ q → (i ∈ is ↔ c'.busy i = true) := by
    intro i hi
    rw [hapart.busy hi, ← hl.held_iff i, hheld, List.mem_cons]
    exact (or_iff_right hi).symm
  have hphases : ∀ i ∈ is, ∃ rest h method, (c'.queues i).phase = .callback rest h method := by
    intro i hi
    rw [hapart.phase i (hne i hi)]
    exact hnested i hi
  have hlive : ∀ i, c'.busy i = true → (c'.queues i).live = true := by
    intro i hi
    rw [hapart.live]
    by_cases hiq : i = q
    · rw [hiq]
      exact hl.live q ((hl.held_iff q).mp (hheld ▸ List.mem_cons_self ..))
    · rw [hapart.busy hiq] at hi
      exact hl.live i hi
  cases hbusy : c'.busy q with
  | true =>
    rw [if_pos rfl, hheld]
    refine ⟨fun i => ?_, hnodup, hphases, hlive⟩
    by_cases hi : i = q
    · rw [hi]
      exact iff_of_true (List.mem_cons_self ..) hbusy
    · rw [List.mem_cons, or_iff_right hi]
      exact hothers i hi
  | false =>
    rw [if_neg Bool.false_ne_true, hheld]
    refine ⟨fun i => ?_, his, fun i hi => hphases i (List.mem_of_mem_tail hi), hlive⟩
    by_cases hi : i = q
    · rw [hi]
      refine iff_of_false hq ?_
      rw [hbusy]
      exact Bool.false_ne_true
    · exact hothers i hi

/-- A dispatch that returns at once. -/
theorem Locks.passed (hl : t.Locks) (hturn : t.userTurn = true) {q : Nat}
    (hapart : Client.Apart q t.client c') (hidle : (t.client.queues q).phase = .idle)
    (hdone : c'.busy q = false) : ({ t with client := c' } : Thread).Locks := by
  have hfree := hl.not_busy hturn hidle
  have hbusy : ∀ i, c'.busy i = t.client.busy i := by
    intro i
    by_cases hi : i = q
    · rw [hi, hfree, hdone]
    · exact hapart.busy hi
  refine ⟨fun i => ?_, hl.nodup, fun i hi => ?_, fun i hi => ?_⟩
  · simp only [hbusy]
    exact hl.held_iff i
  · have hne : i ≠ q := by
      rintro rfl
      rw [← Bool.not_eq_true, ← hl.held_iff] at hfree
      exact hfree (List.mem_of_mem_tail hi)
    simp only [hapart.phase i hne]
    exact hl.nested i hi
  · simp only [hapart.live]
    simp only [hbusy] at hi
    exact hl.live i hi

/-- An event queue that nobody dispatches is given up. -/
theorem Locks.dropQueue (hl : t.Locks) {q : Nat} (h : t.client.step (.dropQueue q) = some c') :
    ({ t with client := c' } : Thread).Locks := by
  simp only [Client.step, Option.ite_none_right_eq_some, Option.some.injEq] at h
  obtain ⟨⟨-, hidle, htrip⟩, rfl⟩ := h
  have hphase : ∀ i, ((t.client.setQueue q fun queue =>
      { queue with live := false, queue := [] }).queues i).phase = (t.client.queues i).phase := by
    intro i
    simp only [Client.setQueue]
    split <;> rfl
  have hbusy : ∀ i, (t.client.setQueue q fun queue =>
      { queue with live := false, queue := [] }).busy i = t.client.busy i := by
    intro i
    simp only [Client.busy, Client.setQueue]
    split <;> rfl
  refine ⟨fun i => ?_, hl.nodup, fun i hi => ?_, fun i hi => ?_⟩
  · simp only [hbusy]
    exact hl.held_iff i
  · simp only [hphase]
    exact hl.nested i hi
  · simp only [hbusy] at hi
    have hne : i ≠ q := by
      rintro rfl
      simp [Client.busy, hidle, htrip] at hi
    have hlive := hl.live i hi
    simpa [Client.setQueue, hne] using hlive

/-- What lets a dispatch begin. -/
theorem Locks.user {a : Action} (hl : t.Locks) (ha : a.queue = none)
    (hsend : ∀ h method args, a ≠ .send h method args) (h : t.user a = some t') : t'.Locks := by
  unfold Thread.user at h
  split at h
  · obtain ⟨c', hstep, rfl⟩ := Option.map_eq_some_iff.mp h
    cases a with
    | bind q proto version =>
      simp only [Client.step, Option.ite_none_right_eq_some, Option.some.injEq] at hstep
      exact hstep.2 ▸ hl.of_frame (.bind ..)
    | clone obj =>
      simp only [Client.step, Option.ite_none_right_eq_some, Option.some.injEq] at hstep
      exact hstep.2 ▸ hl.of_frame (.setObject ..)
    | drop obj =>
      simp only [Client.step, Option.ite_none_right_eq_some, Option.some.injEq] at hstep
      exact hstep.2 ▸ hl.of_frame (.release ..)
    | dropQueue q => exact hl.dropQueue hstep
    | send obj method args => exact (hsend _ _ _ rfl).elim
    | roundtrip | roundtripReturn | roundtripFail | poll | unreadable | read | handle | return_
    | malformed | finish => cases ha
  · cases h

/-- **Every step keeps the invariant.** -/
theorem Locks.step {a : Action} (hl : t.Locks) (h : Thread.step t a = some t') : t'.Locks := by
  have hinner : ∀ {q : Nat}, a.queue = some q → t.inner q a = some t' → t'.Locks := by
    intro q ha h
    unfold Thread.inner at h
    split at h
    · next hwithin =>
      obtain ⟨c', hstep, rfl⟩ := Option.map_eq_some_iff.mp h
      exact hl.inner hwithin (Client.apart_step ha hstep)
    · cases h
  have henter : ∀ {q : Nat}, a.queue = some q → (∀ c', t.client.step a = some c' →
      (t.client.queues q).phase = .idle ∧ (t.client.queues q).live = true ∧ c'.busy q = true) →
      t.enter q a = some t' → t'.Locks := by
    intro q ha hbegins h
    unfold Thread.enter at h
    split at h
    · next hturn =>
      obtain ⟨c', hstep, rfl⟩ := Option.map_eq_some_iff.mp h
      obtain ⟨hidle, hlive, hbusy⟩ := hbegins c' hstep
      exact hl.enter hturn (Client.apart_step ha hstep) (hl.not_busy hturn hidle) hbusy hlive
    · cases h
  have hpassed : ∀ {q : Nat}, a.queue = some q → (∀ c', t.client.step a = some c' →
      (t.client.queues q).phase = .idle ∧ (t.userTurn = true → c'.busy q = false)) →
      t.user a = some t' → t'.Locks := by
    intro q ha hends h
    unfold Thread.user at h
    split at h
    · next hturn =>
      obtain ⟨c', hstep, rfl⟩ := Option.map_eq_some_iff.mp h
      obtain ⟨hidle, hdone⟩ := hends c' hstep
      exact hl.passed hturn (Client.apart_step ha hstep) hidle (hdone hturn)
    · cases h
  unfold Thread.step at h
  split at h
  · cases h
  · cases a with
    | bind | clone | drop | dropQueue => 
      exact hl.user rfl (fun _ _ _ h => by cases h) h
    | send obj method args =>
      simp only at h
      split at h
      · have hsent : ({ t with client := t.client.send obj method args } : Thread).Locks :=
          hl.of_frame (.send ..)
        split at h
        · split at h
          · cases h
            exact { hl with }
          · cases h
            exact hsent
        · cases h
          exact hsent
      · cases h
    | roundtrip q =>
      refine henter rfl (fun c' hstep => ?_) h
      simp only [Client.step, Option.ite_none_right_eq_some, Option.some.injEq] at hstep
      obtain ⟨⟨hlive, hidle, -⟩, rfl⟩ := hstep
      refine ⟨hidle, hlive, ?_⟩
      rw [(Client.Frame.write ..).busy]
      simp [Client.busy, Client.setQueue]
    | read q batch =>
      simp only at h
      split at h
      · exact hinner rfl h
      · refine henter rfl (fun c' hstep => ?_) h
        simp only [Client.step, Option.ite_none_right_eq_some, Option.some.injEq] at hstep
        obtain ⟨⟨hdispatches, -⟩, rfl⟩ := hstep
        obtain ⟨hlive, hidle⟩ := Client.dispatches_spec hdispatches
        refine ⟨hidle, hlive, ?_⟩
        simp [Client.busy, Client.setPhase_phase]
    | poll q =>
      simp only at h
      split at h
      · exact hinner rfl h
      · refine hpassed rfl (fun c' hstep => ?_) h
        simp only [Client.step, Option.ite_none_right_eq_some, Option.some.injEq] at hstep
        obtain ⟨hdispatches, rfl⟩ := hstep
        obtain ⟨-, hidle⟩ := Client.dispatches_spec hdispatches
        refine ⟨hidle, fun hturn => ?_⟩
        rw [(Client.Frame.collect _).busy]
        exact hl.not_busy hturn hidle
    | unreadable q =>
      simp only at h
      split at h
      · exact hinner rfl h
      · refine hpassed rfl (fun c' hstep => ?_) h
        simp only [Client.step, Option.ite_none_right_eq_some, Option.some.injEq] at hstep
        obtain ⟨hdispatches, rfl⟩ := hstep
        refine ⟨(Client.dispatches_spec hdispatches).2, fun _ => ?_⟩
        simp [Client.busy, Client.abort, Client.setQueue]
    | roundtripReturn | roundtripFail | handle | return_ | malformed | finish => exact hinner rfl h

theorem Locks.init (impls : List ProtocolSpec) : ({ client := { impls } } : Thread).Locks where
  held_iff q := iff_of_false (List.not_mem_nil) (by simp [Client.busy])
  nodup := .nil
  nested _ h := by cases h
  live q h := by simp [Client.busy] at h

/-! ## Hanging -/

/-- What `locks` says, in full. -/
theorem locks_eq_some {h method q : Nat} : c.locks h method = some q ↔
    ∃ m, (c.objects h).methodsOut[method]? = some m ∧ m.since.toNat ≤ (c.objects h).version ∧
      (c.objects h).id = 0 ∧ (c.queues (c.objects h).eventQueue).live = true ∧
        (c.objects h).eventQueue = q := by
  simp only [Client.locks]
  cases hm : (c.objects h).methodsOut[method]? with
  | none =>
    simp only
    constructor
    · nofun
    · rintro ⟨m, hm, -⟩
      cases hm
  | some m =>
    simp only
    by_cases hold : (c.objects h).version < m.since.toNat
    · rw [if_pos hold]
      simp [Nat.not_le_of_lt hold]
    · rw [if_neg hold]
      by_cases hdefer : (c.objects h).id = 0 ∧ (c.queues (c.objects h).eventQueue).live = true
      · rw [if_pos hdefer]
        simp [hdefer, Nat.le_of_not_lt hold]
      · rw [if_neg hdefer]
        constructor
        · nofun
        · rintro ⟨m', -, -, hid, hlive, -⟩
          exact absurd ⟨hid, hlive⟩ hdefer

/-- **A step hangs the thread in exactly the cases that the condition excludes.** -/
theorem hung_step {a : Action} (hl : t.Locks) (h : Thread.step t a = some t') :
    t.hung = false ∧ (t'.hung = false ↔ t.Free a) := by
  unfold Thread.step at h
  split at h
  · cases h
  · next hung =>
    have hhung : t.hung = false := by simpa using hung
    have huser : ∀ {a : Action}, t.user a = some t' → t'.hung = false := by
      intro a h
      unfold Thread.user at h
      split at h
      · obtain ⟨c', -, rfl⟩ := Option.map_eq_some_iff.mp h
        exact hhung
      · cases h
    have henter : ∀ {q : Nat} {a : Action}, t.enter q a = some t' → t'.hung = false := by
      intro q a h
      unfold Thread.enter at h
      split at h
      · obtain ⟨c', -, rfl⟩ := Option.map_eq_some_iff.mp h
        exact hhung
      · cases h
    have hinner : ∀ {q : Nat} {a : Action}, t.inner q a = some t' → t'.hung = false := by
      intro q a h
      unfold Thread.inner at h
      split at h
      · obtain ⟨c', -, rfl⟩ := Option.map_eq_some_iff.mp h
        exact hhung
      · cases h
    refine ⟨hhung, ?_⟩
    cases a with
    | bind | clone | drop | dropQueue => exact iff_of_true (huser h) trivial
    | roundtrip q => exact iff_of_true (henter h) trivial
    | read q batch =>
      simp only at h
      split at h
      · exact iff_of_true (hinner h) trivial
      · exact iff_of_true (henter h) trivial
    | poll q | unreadable q =>
      simp only at h
      split at h
      · exact iff_of_true (hinner h) trivial
      · exact iff_of_true (huser h) trivial
    | roundtripReturn | roundtripFail | handle | return_ | malformed | finish =>
      exact iff_of_true (hinner h) trivial
    | send obj method args =>
      simp only at h
      split at h
      · cases hlock : t.client.locks obj method with
        | none =>
          rw [hlock] at h
          cases h
          refine iff_of_true hhung fun m hm hsince hid => ?_
          -- Nothing is locked, so the queue is gone, and nobody dispatches it.
          rw [← Bool.not_eq_true]
          intro hbusy
          have hsome := locks_eq_some.mpr ⟨m, hm, hsince, hid, hl.live _ hbusy, rfl⟩
          rw [hlock] at hsome
          cases hsome
        | some q =>
          rw [hlock] at h
          obtain ⟨m, hm, hsince, hid, -, rfl⟩ := locks_eq_some.mp hlock
          simp only at h
          split at h
          · next hheld =>
            cases h
            refine iff_of_false (by simp) fun hfree => ?_
            rw [hl.held_iff, hfree m hm hsince hid] at hheld
            cases hheld
          · next hheld =>
            cases h
            refine iff_of_true hhung fun _ _ _ _ => ?_
            rw [hl.held_iff, Bool.not_eq_true] at hheld
            exact hheld
      · cases h

/-- **When a client hangs itself up**: in exactly the runs in which a call is made on an object that
has no id and belongs to a queue that is being dispatched. -/
theorem hung_iff {impls : List ProtocolSpec} {as : List Action}
    (hrun : Run.run step { client := { impls } } as = some t) :
    t.hung = false ↔ Run.Meets step Free { client := { impls } } as := by
  constructor
  · intro hung
    exact (@Run.meets_of_run _ _ step Locks (fun t => t.hung = false) Free
      (fun _ _ _ hl h => hl.step h)
      (fun t a t' h _ => by
        unfold Thread.step at h
        split at h
        · cases h
        · next hung => simpa using hung)
      (fun _ _ _ hl h hung => (hung_step hl h).2.mp hung) _ _ _ (.init impls) hrun hung).2
  · intro hmeets
    exact (@Run.run_meeting _ _ step (fun t => t.Locks ∧ t.hung = false) Free
      (fun _ _ _ ht hfree h => ⟨ht.1.step h, (hung_step ht.1 h).2.mpr hfree⟩) _ _ _
      ⟨.init impls, rfl⟩ hmeets hrun).2

/-- The manager is bound and has its id; then the server ticks. -/
def ticked : List Action :=
  [.read 0 [.handshakeProtocols [("shop", 1)]], .handle 0, .finish 0, .bind 0 shopProtocol 1,
    .read 0 [.newObject 1 1, .generic ⟨1, 0, 0, [], 0, 0, false, none⟩], .handle 0, .handle 0]

/-- In the callback the manager is pinged. -/
theorem hung_iff_pinged : ∃ t,
    Run.run step { client := { impls := [shopProtocol] } } (ticked ++ [.send 0 1 []]) = some t ∧
      t.hung = false :=
  ⟨_, rfl, (@hung_iff _ [shopProtocol] (ticked ++ [.send 0 1 []]) rfl).mpr (by decide)⟩

/-- In the callback the manager makes an item, and the item is drawn. -/
def drawnAtOnce : List Action := ticked ++ [.send 0 0 [], .send 1 0 []]

/-- **The callback never returns.** -/
theorem not_always_goes_on : ¬ ∀ (impls : List ProtocolSpec) (as : List Action) (t : Thread),
    Run.run step { client := { impls } } as = some t → t.hung = false := by
  intro h
  have hhung : (Run.run step { client := { impls := [shopProtocol] } } drawnAtOnce).map Thread.hung =
      some true := by decide
  obtain ⟨t, hrun, hung⟩ := Option.map_eq_some_iff.mp hhung
  rw [h _ _ t hrun] at hung
  cases hung

end Thread

end Hyprwire
