import Hyprwire.System.Ledger

/-!
# `System/Order.lean` — two ways to the wire

A call goes straight to the wire or waits in the queue of its object, and what waits is sent
later. A relation between earlier and later messages (`Ordered`) therefore has to hold on the
wire, in each queue, and from the wire to the queues; what each kind of traffic has to show for
it is said once, for every relation that does not look at the object id, which is all a flush
changes.

The order of the calls on one object is such a relation. It is kept as long as no call goes
straight to the wire while earlier ones on the same object still wait, which is what a callback
does when the `NewObject` of its object stands earlier in the same batch.
-/

namespace Hyprwire.Client

open History

variable {c c' : Client} {R : Rely} {r : C2S → C2S → Prop} {A : Client → Deferred → Prop}

/-! ## Relations along the traffic -/

/-- The relation does not look at the object id of a generic message. -/
structure Blind (r : C2S → C2S → Prop) : Prop where
  left : ∀ {g msg} (id : Nat), r (.generic g) msg → r (.generic { g with object := id }) msg
  right : ∀ {g msg} (id : Nat), r msg (.generic g) → r msg (.generic { g with object := id })

/-- **Earlier and later messages are related by `r`**: on the wire, in a queue, between queues,
and from the wire to the entries that are `A`live. -/
structure Ordered (r : C2S → C2S → Prop) (A : Client → Deferred → Prop) (c : Client) : Prop where
  out : c.out.Pairwise r
  queue : ∀ q, (c.queues q).queue.Pairwise fun entry entry' =>
    r (.generic entry.msg) (.generic entry'.msg)
  cross : ∀ q, ∀ entry ∈ (c.queues q).queue, A c entry → ∀ msg ∈ c.out, r msg (.generic entry.msg)
  queues : ∀ q q', q ≠ q' → ∀ entry ∈ (c.queues q).queue, ∀ entry' ∈ (c.queues q').queue,
    r (.generic entry.msg) (.generic entry'.msg)

/-- An entry that is alive was alive. -/
def Aging (A : Client → Deferred → Prop) (c c' : Client) : Prop :=
  ∀ q, ∀ entry ∈ (c.queues q).queue, A c' entry → A c entry

theorem Ordered.quiet (ho : Ordered r A c) (hA : Aging A c c') (hout : c'.out = c.out)
    (hqueues : ∀ q, (c'.queues q).queue.Sublist (c.queues q).queue) : Ordered r A c' where
  out := hout ▸ ho.out
  queue q := (ho.queue q).sublist (hqueues q)
  cross q entry hentry halive msg hmsg :=
    ho.cross q entry ((hqueues q).subset hentry) (hA q entry ((hqueues q).subset hentry) halive) msg
      (hout ▸ hmsg)
  queues q q' hne entry hentry entry' hentry' :=
    ho.queues q q' hne entry ((hqueues q).subset hentry) entry' ((hqueues q').subset hentry')

/-- A message is written. It comes behind what is on the wire, and before what waits. -/
theorem Ordered.written (ho : Ordered r A c) (hA : Aging A c c') {msg : C2S}
    (hout : c'.out = c.out ++ [msg]) (hqueues : ∀ q, (c'.queues q).queue = (c.queues q).queue)
    (hlast : ∀ msg' ∈ c.out, r msg' msg)
    (hwaiting : ∀ q, ∀ entry ∈ (c.queues q).queue, A c' entry → r msg (.generic entry.msg)) :
    Ordered r A c' where
  out := hout ▸ pairwise_append_one ho.out hlast
  queue q := hqueues q ▸ ho.queue q
  cross q entry hentry halive msg' hmsg' := by
    rw [hqueues] at hentry
    rw [hout] at hmsg'
    rcases List.mem_append.mp hmsg' with hmsg' | hmsg'
    · exact ho.cross q entry hentry (hA q entry hentry halive) msg' hmsg'
    · rw [List.mem_singleton.mp hmsg']
      exact hwaiting q entry hentry halive
  queues q q' hne entry hentry entry' hentry' :=
    ho.queues q q' hne entry (hqueues q ▸ hentry) entry' (hqueues q' ▸ hentry')

/-- A message is queued. It comes behind everything. -/
theorem Ordered.deferred (ho : Ordered r A c) (hA : Aging A c c') {q₀ : Nat} {entry₀ : Deferred}
    (hout : c'.out = c.out)
    (hqueues : ∀ q, (c'.queues q).queue = (c.queues q).queue ++ if q = q₀ then [entry₀] else [])
    (hlast : ∀ msg ∈ c.out, r msg (.generic entry₀.msg))
    (hqueue : ∀ q, ∀ entry ∈ (c.queues q).queue, r (.generic entry.msg) (.generic entry₀.msg))
    (hother : ∀ q, q ≠ q₀ → ∀ entry ∈ (c.queues q).queue,
      r (.generic entry₀.msg) (.generic entry.msg)) : Ordered r A c' := by
  have hmem : ∀ {q entry}, entry ∈ (c'.queues q).queue →
      entry ∈ (c.queues q).queue ∨ (q = q₀ ∧ entry = entry₀) := by
    intro q entry hentry
    rw [hqueues] at hentry
    rcases List.mem_append.mp hentry with hentry | hentry
    · exact .inl hentry
    · split at hentry
      · next hq => exact .inr ⟨hq, List.mem_singleton.mp hentry⟩
      · cases hentry
  refine ⟨hout ▸ ho.out, fun q => ?_, fun q entry hentry halive msg hmsg => ?_, ?_⟩
  · rw [hqueues]
    split
    · exact pairwise_append_one (ho.queue q) (hqueue q)
    · exact (List.append_nil _).symm ▸ ho.queue q
  · rw [hout] at hmsg
    rcases hmem hentry with hold | ⟨-, rfl⟩
    · exact ho.cross q entry hold (hA q entry hold halive) msg hmsg
    · exact hlast msg hmsg
  · intro q q' hne entry hentry entry' hentry'
    rcases hmem hentry with hold | ⟨rfl, rfl⟩
    · rcases hmem hentry' with hold' | ⟨rfl, rfl⟩
      · exact ho.queues q q' hne entry hold entry' hold'
      · exact hqueue q entry hold
    · rcases hmem hentry' with hold' | ⟨rfl, -⟩
      · exact hother q' hne.symm entry' hold'
      · exact absurd rfl hne

/-- A queue is flushed: what is sent was alive, and comes before what of the queue still waits. -/
theorem Ordered.flushed (ho : Ordered r A c) (hblind : Blind r) (hA : Aging A c c') {q₀ : Nat}
    (hout : c'.out = c.out ++ c.flushed q₀)
    (hqueues : ∀ q, (c'.queues q).queue =
      if q = q₀ then (c.queues q).queue.filter c.waits else (c.queues q).queue)
    (hsent : ∀ entry ∈ (c.queues q₀).queue, (c.resolve entry).isSome → A c entry)
    (hkept : ∀ entry ∈ (c.queues q₀).queue, ∀ entry' ∈ (c.queues q₀).queue,
      (c.resolve entry).isSome → c.waits entry' = true → A c' entry' →
      r (.generic entry.msg) (.generic entry'.msg)) : Ordered r A c' := by
  have hsub : ∀ q, (c'.queues q).queue.Sublist (c.queues q).queue := by
    intro q
    rw [hqueues]
    split
    · exact List.filter_sublist
    · exact List.Sublist.refl _
  have hflushed : ∀ {msg}, msg ∈ c.flushed q₀ → ∃ entry ∈ (c.queues q₀).queue, ∃ id,
      (c.resolve entry).isSome ∧ msg = .generic { entry.msg with object := id } := by
    intro msg hmsg
    obtain ⟨g, hg, rfl⟩ := List.mem_map.mp hmsg
    obtain ⟨entry, hentry, hresolve⟩ := List.mem_filterMap.mp hg
    obtain ⟨h, -, -, rfl⟩ := resolve_some hresolve
    exact ⟨entry, hentry, _, by rw [hresolve]; rfl, rfl⟩
  refine ⟨?_, fun q => (ho.queue q).sublist (hsub q), ?_, ?_⟩
  · rw [hout]
    refine List.pairwise_append.mpr ⟨ho.out, ?_, fun msg hmsg msg' hmsg' => ?_⟩
    · refine List.pairwise_map.mpr ((ho.queue q₀).filterMap _ fun entry entry' hr g hg g' hg' => ?_)
      obtain ⟨h, -, -, rfl⟩ := resolve_some hg
      obtain ⟨h', -, -, rfl⟩ := resolve_some hg'
      exact hblind.left _ (hblind.right _ hr)
    · obtain ⟨entry, hentry, id, hresolve, rfl⟩ := hflushed hmsg'
      exact hblind.right id (ho.cross q₀ entry hentry (hsent entry hentry hresolve) msg hmsg)
  · intro q entry hentry halive msg hmsg
    have hold := (hsub q).subset hentry
    rw [hout] at hmsg
    rcases List.mem_append.mp hmsg with hmsg | hmsg
    · exact ho.cross q entry hold (hA q entry hold halive) msg hmsg
    · obtain ⟨entry', hentry', id, hresolve, rfl⟩ := hflushed hmsg
      refine hblind.left id ?_
      by_cases hq : q = q₀
      · subst hq
        rw [hqueues, if_pos rfl] at hentry
        exact hkept entry' hentry' entry hold hresolve (List.mem_filter.mp hentry).2 halive
      · exact ho.queues q₀ q (Ne.symm hq) entry' hentry' entry hold
  · intro q q' hne entry hentry entry' hentry'
    exact ho.queues q q' hne entry ((hsub q).subset hentry) entry' ((hsub q').subset hentry')

/-- Every entry counts. -/
def Everywhere (_ : Client) (_ : Deferred) : Prop := True

/-- The entry's object is in the table. -/
def InTable (c : Client) (entry : Deferred) : Prop := entry.msg.origin ∈ c.table

theorem Ledger.aging (hc : Ledger c) (hlater : Later c c') : Aging InTable c c' := by
  intro q entry hentry halive
  refine (hlater.table _ halive).resolve_right (Nat.not_le_of_lt ?_)
  exact (hc.queued q entry hentry).origin_lt

/-- Entries of one object have one fate. -/
theorem Ledger.same_fate (hc : Ledger c) {q q' : Nat} {entry entry' : Deferred}
    (hentry : entry ∈ (c.queues q).queue) (hentry' : entry' ∈ (c.queues q').queue)
    (horigin : entry.msg.origin = entry'.msg.origin) (hresolve : (c.resolve entry).isSome)
    (hwaits : c.waits entry' = true) : False := by
  have hseq : entry.dependsOnSeq = entry'.dependsOnSeq := by
    rw [(hc.queued q entry hentry).dependsOnSeq, (hc.queued q' entry' hentry').dependsOnSeq, horigin]
  obtain ⟨g, hg⟩ := Option.isSome_iff_exists.mp hresolve
  obtain ⟨h, hfind, hid, -⟩ := resolve_some hg
  rw [waits, ← hseq, hfind] at hwaits
  exact hid (by simpa using hwaits)

/-- Entries of one object are in one queue. -/
theorem Ledger.same_queue (hc : Ledger c) {q q' : Nat} {entry entry' : Deferred}
    (hentry : entry ∈ (c.queues q).queue) (hentry' : entry' ∈ (c.queues q').queue)
    (horigin : entry.msg.origin = entry'.msg.origin) : q = q' := by
  rw [← (hc.queued q entry hentry).eventQueue, ← (hc.queued q' entry' hentry').eventQueue, horigin]

/-- A call on record has a number below the next one. -/
theorem Waiting.call_lt {q : Nat} {entry : Deferred} (hw : c.Waiting q entry) :
    entry.msg.call < c.calls.length :=
  (List.getElem?_eq_some_iff.mp hw.call).1

theorem Sent.call_lt {g : Generic} (hs : c.Sent g) : g.call < c.calls.length := by
  obtain ⟨deferred, hcall⟩ := hs.call
  exact (List.getElem?_eq_some_iff.mp hcall).1

/-! ## The order of the calls -/

/-- Of two messages of one object, the first is the earlier call. -/
def Before (msg msg' : C2S) : Prop :=
  ∀ g g', msg = .generic g → msg' = .generic g' → g.origin = g'.origin → g.call < g'.call

theorem blind_before : Blind Before where
  left := by
    rintro g msg id h _ g' ⟨⟩ rfl horigin
    exact h g g' rfl rfl horigin
  right := by
    rintro g msg id h g' _ rfl ⟨⟩ horigin
    exact h g' g rfl rfl horigin

theorem before_of_not_generic {msg msg' : C2S} (h : msg.generic? = none) :
    Before msg msg' ∧ Before msg' msg := by
  constructor
  · rintro g g' rfl - -
    cases h
  · rintro g g' - rfl -
    cases h

/-- **Nobody overtakes**: no call goes straight to the wire while deferred calls on its object
wait, and no call that waits for an object off the table finds another object with its seq. -/
def InTurn (c : Client) : Action → Prop
  | .send h _ _ =>
    (c.objects h).id ≠ 0 → h ∈ c.table → ∀ q, ∀ entry ∈ (c.queues q).queue, entry.msg.origin ≠ h
  | .finish q =>
    ∀ entry ∈ (c.queues q).queue,
      entry.msg.origin ∈ c.table ∨ c.objectForSeq entry.dependsOnSeq = none
  | _ => True

/-- What the primitive changes of such a step rely on. -/
def turns : Rely where
  heard _ := True
  asks _ := True
  binds _ := True
  calls c h _ :=
    (c.objects h).id ≠ 0 → h ∈ c.table → ∀ q, ∀ entry ∈ (c.queues q).queue, entry.msg.origin ≠ h
  ended _ _ := True
  flushes c q :=
    ∀ entry ∈ (c.queues q).queue,
      entry.msg.origin ∈ c.table ∨ c.objectForSeq entry.dependsOnSeq = none
  collects _ := True
  drops _ := True

theorem granted_turns {a : Action} (h : InTurn c a) : Granted turns c a := by
  cases a with
  | send obj method args => exact fun _ _ => h
  | finish q => exact ⟨h, trivial⟩
  | handle q => exact fun _ _ _ => ⟨trivial, fun _ _ _ _ => trivial⟩
  | return_ q => exact fun _ _ _ _ => trivial
  | _ => trivial

theorem Ordered.before_move (hc : Ledger c) (ho : Ordered Before InTable c)
    (h : Move turns c c') : Ordered Before InTable c' := by
  have hA := hc.aging h.later
  cases h.traffic with
  | quiet hout hqueues => exact ho.quiet hA hout hqueues
  | tells msg hgeneric _ hout hqueues =>
    exact ho.written hA hout hqueues (fun _ _ => (before_of_not_generic hgeneric).2)
      fun _ _ _ _ => (before_of_not_generic hgeneric).1
  | binds q proto specVer version _ _ hout hqueues =>
    exact ho.written hA hout hqueues (fun _ _ => (before_of_not_generic rfl).2)
      fun _ _ _ _ => (before_of_not_generic rfl).1
  | sends obj method m args made hcall hid hcalls hout hqueues =>
    refine ho.written hA hout hqueues ?_ fun q entry hentry halive => ?_
    · rintro _ hmsg g _ rfl ⟨⟩ -
      exact (hc.sent g hmsg).call_lt
    · rintro _ g ⟨⟩ ⟨⟩ horigin
      have hin : obj ∈ c.table := by
        have hold := hA q entry hentry halive
        rwa [InTable, ← horigin] at hold
      rcases hcall.allowed with ⟨hout, -⟩ | hallowed
      · exact absurd hin hout
      · exact absurd horigin.symm (hallowed hid hin q entry hentry)
  | defers obj method m args made hcall hid hcalls hout hqueues =>
    refine ho.deferred hA hout hqueues ?_ (fun q entry hentry => ?_) fun q hne entry hentry => ?_
    · rintro _ hmsg g _ rfl ⟨⟩ -
      exact (hc.sent g hmsg).call_lt
    · rintro _ _ ⟨⟩ ⟨⟩ -
      exact (hc.queued q entry hentry).call_lt
    · rintro _ _ ⟨⟩ ⟨⟩ horigin
      have horigin' : obj = entry.msg.origin := horigin
      refine absurd ?_ hne
      rw [horigin', (hc.queued q entry hentry).eventQueue]
  | flushes q hflush heq hout hqueues =>
    refine ho.flushed blind_before hA hout hqueues (fun entry hentry hresolve => ?_) ?_
    · obtain ⟨g, hg⟩ := Option.isSome_iff_exists.mp hresolve
      obtain ⟨h, hfind, -⟩ := resolve_some hg
      rcases hflush entry hentry with hin | hnone
      · exact hin
      · rw [hfind] at hnone
        cases hnone
    · rintro entry hentry entry' hentry' hresolve hwaits - _ _ ⟨⟩ ⟨⟩ horigin
      exact (hc.same_fate hentry hentry' horigin hresolve hwaits).elim

theorem ordered_init (impls : List ProtocolSpec) : Ordered r A { impls } where
  out := List.pairwise_singleton _ _
  queue _ := .nil
  cross _ _ h := by cases h
  queues _ _ _ _ h := by cases h

/-- The generic messages on the wire are, object by object, in the order of the calls. -/
def InCallOrder (c : Client) : Prop :=
  ∀ h, ((c.out.filterMap C2S.generic?).filter fun g => g.origin = h).Pairwise
    fun g g' => g.call < g'.call

theorem Ordered.inCallOrder (ho : Ordered Before A c) : InCallOrder c := by
  intro h
  have hpair : (c.out.filterMap C2S.generic?).Pairwise
      fun g g' => g.origin = g'.origin → g.call < g'.call := by
    refine ho.out.filterMap _ fun msg msg' hbefore g hg g' hg' => ?_
    cases msg <;> cases hg
    cases msg' <;> cases hg'
    exact hbefore g g' rfl rfl
  refine (hpair.sublist List.filter_sublist).imp_of_mem fun {g g'} hg hg' hbefore => ?_
  have horigin : g.origin = h := by simpa using (List.mem_filter.mp hg).2
  have horigin' : g'.origin = h := by simpa using (List.mem_filter.mp hg').2
  exact hbefore (horigin.trans horigin'.symm)

/-- **Calls on one object reach the wire in their order**, in every run in which nobody
overtakes. -/
theorem call_order {impls : List ProtocolSpec} {as : List Action}
    (hmeets : Run.Meets step InTurn { impls } as) (hrun : Run.run step { impls } as = some c) :
    InCallOrder c := by
  have hinv : Ledger c ∧ Ordered Before InTable c := by
    refine @Run.run_meeting _ _ step (fun c => Ledger c ∧ Ordered Before InTable c) InTurn
      (fun c a c' hc hturn hstep => ?_) _ _ _ ⟨.init impls, ordered_init impls⟩ hmeets hrun
    refine (moves_step hc.1.table_lt (granted_turns hturn) hstep).invariant
      (P := fun c => Ledger c ∧ Ordered Before InTable c) (fun c c' hc h => ?_) hc
    exact ⟨hc.1.move h, hc.2.before_move hc.1 h⟩
  exact hinv.2.inCallOrder

/-- The handshake, and the manager bound. -/
def bound₀ : List Action :=
  [.read 0 [.handshakeProtocols [("shop", 1)]], .handle 0, .finish 0, .bind 0 shopProtocol 1]

/-- Two calls wait for the manager, and are sent when it has its id. -/
def waiting : List Action :=
  bound₀ ++ [.send 0 1 [], .send 0 1 [], .read 0 [.newObject 1 1], .handle 0, .finish 0]

theorem call_order_waiting : ∃ c, Run.run step { impls := [shopProtocol] } waiting = some c ∧
    (c.out.filterMap C2S.generic?).length = 2 ∧ InCallOrder c := by
  refine ⟨_, rfl, rfl, @call_order _ [shopProtocol] waiting ?_ rfl⟩
  refine Run.meets_cons trivial rfl (Run.meets_cons trivial rfl (Run.meets_cons nofun rfl ?_))
  refine Run.meets_cons trivial rfl (Run.meets_cons (fun h => absurd rfl h) rfl ?_)
  refine Run.meets_cons (fun h => absurd rfl h) rfl (Run.meets_cons trivial rfl ?_)
  refine Run.meets_cons trivial rfl (Run.meets_cons ?_ rfl trivial)
  intro entry hentry
  left
  revert entry hentry
  decide

/-- An item is drawn before it has its id, and drawn again by the callback of an event that
stands behind its `NewObject` in one batch. -/
def overtaking : List Action :=
  bound₀ ++
    [.read 0 [.newObject 1 1], .handle 0, .finish 0, .send 0 0 [], .send 1 0 [],
      .read 0 [.newObject 2 2, .generic ⟨1, 0, 0, [], 0, 0, false, none⟩], .handle 0, .handle 0,
      .send 1 0 [], .return_ 0, .finish 0]

/-- The second drawing is on the wire before the first. -/
theorem not_always_in_call_order : ¬ ∀ (impls : List ProtocolSpec) (as : List Action) (c : Client),
    Run.run step { impls } as = some c → InCallOrder c := by
  intro h
  have hcalls : ((Run.run step { impls := [shopProtocol] } overtaking).map fun c =>
      ((c.out.filterMap C2S.generic?).filter fun g => g.origin = 1).map Generic.call) =
        some [2, 1] := by decide
  obtain ⟨c, hrun, heq⟩ := Option.map_eq_some_iff.mp hcalls
  have hpair := List.pairwise_map.mpr (h _ _ c hrun 1)
  rw [heq] at hpair
  exact absurd hpair (by decide)

end Hyprwire.Client
