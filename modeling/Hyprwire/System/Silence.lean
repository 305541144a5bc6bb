import Hyprwire.System.Handshake
import Hyprwire.System.Held
import Hyprwire.System.Order

/-!
# `System/Silence.lean` — nothing is said to an object that was destroyed

Neither `call` of a client nor the flush of its queue looks at the destroyed flag: only `Drop`
does. A server looks at it in `call`, but a destructor that was received sets it behind its
callback. What keeps a side silent is therefore what its user does (`Heeds`), and that ids are
not given twice.

On a client the order of the queue matters too: the destructor has to come behind all that waits,
and what waits must not find another object. `Ordered` has that for the relation `Last`, and
`Closing` follows one object from the moment its destructor is received.
-/

namespace Hyprwire.Client

open History

variable {c c' : Client} {S : Nat → Prop}

/-! ## What a client owes -/

/-- The callback of an event that destroys the object runs. -/
def Ending (c : Client) (h : Nat) : Prop :=
  ∃ q rest method m, (c.queues q).phase = .callback rest h method ∧
    (c.objects h).methodsIn[method]? = some m ∧ m.destructor = true

/-- The step handles an event that destroys the object. -/
def Hears (c : Client) (a : Action) (h : Nat) : Prop :=
  ∃ q g rest m, a = .handle q ∧ (c.queues q).phase = .batch (.generic g :: rest) ∧
    c.objectForId g.object = some h ∧ (c.objects h).methodsIn[g.method]? = some m ∧
    m.destructor = true

/-- **Silence**: behind a destructor on the wire there is no message with its object's id, and
once a destructor was received none with that object's id is written. -/
structure Silent (impls : List ProtocolSpec) (as : List Action) (c : Client) : Prop where
  sent : (c.out.filterMap C2S.generic?).Pairwise fun g g' =>
    g.destructor = true → g'.object ≠ g.object
  received : ∀ pre a post c₀ h, as = pre ++ a :: post → Run.run step { impls } pre = some c₀ →
    Hears c₀ a h → ∀ g, .generic g ∈ c.out.drop c₀.out.length → g.object ≠ (c₀.objects h).id

/-- **The condition**: nothing is called on an object whose destructor was called, or is being
handled, and no destructor while calls on its object wait; what waits is sent for its own object
only; an object is given an id once, and one that no other object was given.

The first two are the program's to keep: a handle outlives the destructor that was called on it, and
`WireObject::call` has no look at `destroyed` on a client. What waits is sent for the object that is
found under its number when it is flushed, which is another one when numbers come round, and ids are
the server's to give. It asks nothing of the other side's destructors, of handles that are dropped, or
of errors: those are seen to by the library. -/
def Heeds (c : Client) : Action → Prop
  | .send h method _ => ∀ m, (c.objects h).methodsOut[method]? = some m →
    (c.objects h).destroyed = false ∧ ¬ Ending c h ∧
      (m.destructor = true → (c.objects h).id ≠ 0 →
        ∀ q, ∀ entry ∈ (c.queues q).queue, entry.msg.origin ≠ h)
  | .finish q => ∀ entry ∈ (c.queues q).queue, ∀ h, c.objectForSeq entry.dependsOnSeq = some h →
    h = entry.msg.origin ∧ ¬ Ending c h
  | .handle q => ∀ seq id rest, (c.queues q).phase = .batch (.newObject seq id :: rest) →
    ∀ h, c.objectForSeq seq = some h →
      (c.objects h).id = 0 ∧ ∀ i, (c.objects i).id = id → id = 0
  | _ => True

/-! ## What is kept -/

/-- A destructor is the last message of its object. -/
def Last (msg msg' : C2S) : Prop :=
  ∀ g g', msg = .generic g → msg' = .generic g' → g.origin = g'.origin → g.destructor = false

theorem blind_last : Blind Last where
  left := by
    intro g msg id h g₁ g' heq hmsg horigin
    cases heq
    exact h g g' rfl hmsg horigin
  right := by
    intro g msg id h g' g₁ hmsg heq horigin
    cases heq
    exact h g' g hmsg rfl horigin

theorem last_of_not_generic {msg msg' : C2S} (h : msg.generic? = none) :
    Last msg msg' ∧ Last msg' msg := by
  constructor
  · intro g g' heq _ _
    rw [heq] at h
    cases h
  · intro g g' _ heq _
    rw [heq] at h
    cases h

/-- A destructor that was called has left its mark. -/
structure Marked (c : Client) : Prop where
  sent : ∀ g, .generic g ∈ c.out → g.destructor = true → (c.objects g.origin).destroyed = true
  queued : ∀ q, ∀ entry ∈ (c.queues q).queue, entry.msg.destructor = true →
    (c.objects entry.msg.origin).destroyed = true

theorem Marked.move {R : Rely} (hm : Marked c) (hc : Ledger c) (h : Move R c c') : Marked c' := by
  have hlater := h.later
  have hmark : ∀ i, i < c.size → (c.objects i).destroyed = true → (c'.objects i).destroyed = true :=
    fun i hi => (hlater.objects i hi).destroyed
  refine ⟨fun g hg hdes => ?_, fun q entry hentry hdes => ?_⟩
  · rcases h.sent hg with hold | ⟨obj, method, m, args, made, hcall, -, -, rfl⟩ |
      ⟨q, entry, hflush, -, hentry, hresolve⟩
    · exact hmark _ (hc.sent g hold).origin_lt (hm.sent g hold hdes)
    · exact hcall.eq ▸ called_destroyed c method args made (hc.lt_of_method hcall.hasMethod) hdes
    · obtain ⟨i, -, -, rfl⟩ := resolve_some hresolve
      exact hmark _ (hc.queued q entry hentry).origin_lt (hm.queued q entry hentry hdes)
  · rcases h.queued hentry with hold | ⟨obj, method, m, args, made, hcall, -, -, -, rfl⟩
    · exact hmark _ (hc.queued q entry hold).origin_lt (hm.queued q entry hold hdes)
    · exact hcall.eq ▸ called_destroyed c method args made (hc.lt_of_method hcall.hasMethod) hdes

/-- **The object may be called**: no destructor of it was sent, none waits where the call would
wait behind it, and a destructor overtakes nothing. -/
structure MayCall (c : Client) (h : Nat) (m : MethodSpec) : Prop where
  sent : ∀ g, .generic g ∈ c.out → g.origin = h → g.destructor = false
  queued : (c.objects h).id = 0 → ∀ q, ∀ entry ∈ (c.queues q).queue, entry.msg.origin = h →
    entry.msg.destructor = false
  last : m.destructor = true → (c.objects h).id ≠ 0 → h ∈ c.table →
    ∀ q, ∀ entry ∈ (c.queues q).queue, entry.msg.origin ≠ h

/-- What was not destroyed may be called, but for what waits. -/
theorem Marked.mayCall (hm : Marked c) {h : Nat} {m : MethodSpec}
    (halive : (c.objects h).destroyed = false)
    (hlast : m.destructor = true → (c.objects h).id ≠ 0 → h ∈ c.table →
      ∀ q, ∀ entry ∈ (c.queues q).queue, entry.msg.origin ≠ h) : MayCall c h m where
  sent g hg horigin := by
    cases hdes : g.destructor with
    | false => rfl
    | true =>
      have hmark := hm.sent g hg hdes
      rw [horigin, halive] at hmark
      cases hmark
  queued _ q entry hentry horigin := by
    cases hdes : entry.msg.destructor with
    | false => rfl
    | true =>
      have hmark := hm.queued q entry hentry hdes
      rw [horigin, halive] at hmark
      cases hmark
  last := hlast

/-- The relation along the traffic, when what is called may be called. -/
theorem Ordered.last_move {R : Rely} (ho : Ordered Last InTable c) (hc : Ledger c)
    (hcalls : ∀ obj method m args made, IsCall R c c' obj method m args made → MayCall c obj m)
    (hflush : ∀ q, R.flushes c q → ∀ entry ∈ (c.queues q).queue, ∀ h,
      c.objectForSeq entry.dependsOnSeq = some h → h = entry.msg.origin)
    (h : Move R c c') : Ordered Last InTable c' := by
  have hA := hc.aging h.later
  cases h.traffic with
  | quiet hout hqueues => exact ho.quiet hA hout hqueues
  | tells msg hgeneric _ hout hqueues =>
    exact ho.written hA hout hqueues (fun _ _ => (last_of_not_generic hgeneric).2)
      fun _ _ _ _ => (last_of_not_generic hgeneric).1
  | binds q proto specVer version _ _ hout hqueues =>
    exact ho.written hA hout hqueues (fun _ _ => (last_of_not_generic rfl).2)
      fun _ _ _ _ => (last_of_not_generic rfl).1
  | sends obj method m args made hcall hid _ hout hqueues =>
    have hmay := hcalls obj method m args made hcall
    refine ho.written hA hout hqueues ?_ fun q entry hentry hin => ?_
    · intro msg hmsg g g' hg hg' horigin
      subst hg
      cases hg'
      exact hmay.sent g hmsg horigin
    · intro g g' hg hg' horigin
      cases hg
      cases hg'
      have horigin' : obj = entry.msg.origin := horigin
      cases hdes : m.destructor with
      | false => exact hdes
      | true =>
        have hold := hA q entry hentry hin
        rw [InTable, ← horigin'] at hold
        exact absurd horigin'.symm (hmay.last hdes hid hold q entry hentry)
  | defers obj method m args made hcall hid _ hout hqueues =>
    have hmay := hcalls obj method m args made hcall
    refine ho.deferred hA hout hqueues ?_ (fun q entry hentry => ?_) fun q hne entry hentry => ?_
    · intro msg hmsg g g' hg hg' horigin
      subst hg
      cases hg'
      exact hmay.sent g hmsg horigin
    · intro g g' hg hg' horigin
      cases hg
      cases hg'
      exact hmay.queued hid q entry hentry horigin
    · intro g g' hg hg' horigin
      cases hg
      cases hg'
      have horigin' : obj = entry.msg.origin := horigin
      refine absurd ?_ hne
      rw [horigin', (hc.queued q entry hentry).eventQueue]
  | flushes q hflushes _ hout hqueues =>
    refine ho.flushed blind_last hA hout hqueues (fun entry hentry hresolve => ?_) ?_
    · obtain ⟨g, hg⟩ := Option.isSome_iff_exists.mp hresolve
      obtain ⟨h, hfind, -⟩ := resolve_some hg
      rw [InTable, ← hflush q hflushes entry hentry h hfind]
      exact (objectForSeq_some hfind).1
    · intro entry hentry entry' hentry' hresolve hwaits _ g g' hg hg' horigin
      cases hg
      cases hg'
      exact (hc.same_fate hentry hentry' horigin hresolve hwaits).elim

/-- **What a client keeps that heeds**: destructors come last and leave their mark, no two objects
share an id, and a message has the id of its object. -/
structure Kept (c : Client) : Prop where
  ledger : Ledger c
  ordered : Ordered Last InTable c
  sentMark : ∀ g, .generic g ∈ c.out → g.destructor = true → (c.objects g.origin).destroyed = true
  queuedMark : ∀ q, ∀ entry ∈ (c.queues q).queue, entry.msg.destructor = true →
    (c.objects entry.msg.origin).destroyed = true
  distinct : ∀ i j, (c.objects i).id ≠ 0 → (c.objects i).id = (c.objects j).id → i = j
  addressed : ∀ g, .generic g ∈ c.out → (c.objects g.origin).id = g.object

/-- What the primitive changes of a step that heeds rely on; `S` are the objects that are over. -/
def heeding (S : Nat → Prop) : Rely where
  heard msg := ∀ seq id, msg ≠ .newObject seq id
  asks _ := True
  binds _ := True
  calls c h m := (c.objects h).destroyed = false ∧ ¬ S h ∧
    (m.destructor = true → (c.objects h).id ≠ 0 →
      ∀ q, ∀ entry ∈ (c.queues q).queue, entry.msg.origin ≠ h)
  ended _ _ := True
  flushes c q := ∀ entry ∈ (c.queues q).queue, ∀ h, c.objectForSeq entry.dependsOnSeq = some h →
    h = entry.msg.origin ∧ ¬ S h
  collects c := ∀ h, S h → h ∈ c.table → c.orphaned h = false
  drops _ := True

theorem unnaming (seq id : Nat) : ¬ (heeding S).heard (.newObject seq id) :=
  fun h => h seq id rfl

theorem Kept.init (impls : List ProtocolSpec) : Kept { impls } where
  ledger := .init impls
  ordered := ordered_init impls
  sentMark g hg := by simp at hg
  queuedMark _ _ h := by cases h
  distinct _ _ h := absurd rfl h
  addressed g hg := by simp at hg

theorem Kept.marked (hk : Kept c) : Marked c := ⟨hk.sentMark, hk.queuedMark⟩

/-- The relation along the traffic. -/
theorem Kept.ordered_move (hk : Kept c) (h : Move (heeding S) c c') : Ordered Last InTable c' := by
  refine hk.ordered.last_move hk.ledger (fun obj method m args made hcall => ?_)
    (fun q hflush entry hentry h hfind => (hflush entry hentry h hfind).1) h
  rcases hcall.allowed with ⟨hout, halive, -⟩ | ⟨halive, -, hlast⟩
  · exact hk.marked.mayCall halive fun _ _ hin => absurd hin hout
  · exact hk.marked.mayCall halive fun hdes hid _ => hlast hdes hid

theorem Kept.move (hk : Kept c) (h : Move (heeding S) c c') : Kept c' := by
  have hmarked := hk.marked.move hk.ledger h
  refine ⟨hk.ledger.move h, hk.ordered_move h, hmarked.sent, hmarked.queued,
    hk.ledger.distinct_move unnaming hk.distinct h,
    fun g hg => ?_⟩
  have hsame : ∀ i, i < c.size → (c'.objects i).id = (c.objects i).id := by
    intro i hi
    exact ((hk.ledger.id_move unnaming h i).resolve_right fun hnew =>
      absurd hi (Nat.not_lt_of_le hnew.2)).2
  rcases h.sent hg with hold | ⟨obj, method, m, args, made, hcall, -, -, rfl⟩ |
    ⟨q, entry, hflush, -, hentry, hresolve⟩
  · rw [hsame _ (hk.ledger.sent g hold).origin_lt]
    exact hk.addressed g hold
  · exact hsame obj (hk.ledger.lt_of_method hcall.hasMethod)
  · obtain ⟨i, hfind, -, rfl⟩ := resolve_some hresolve
    rw [hsame _ (hk.ledger.queued q entry hentry).origin_lt]
    exact congrArg (fun i => (c.objects i).id) (hflush entry hentry i hfind).1.symm

/-! ## One object that is over -/

/-- The messages of an object on the wire. -/
def told (c : Client) (h : Nat) : List Generic :=
  (c.out.filterMap C2S.generic?).filter fun g => g.origin = h

theorem told_append {more : List C2S} (hout : c'.out = c.out ++ more) {h : Nat}
    (hmore : ∀ g, .generic g ∈ more → g.origin ≠ h) : c'.told h = c.told h := by
  have hnone : (more.filterMap C2S.generic?).filter (fun g => g.origin = h) = [] := by
    rw [List.filter_eq_nil_iff]
    intro g hg
    obtain ⟨msg, hmsg, hgeneric⟩ := List.mem_filterMap.mp hg
    cases msg <;> cases hgeneric
    simpa using hmore g hmsg
  rw [told, told, hout, List.filterMap_append, List.filter_append, hnone, List.append_nil]

theorem told_same (hout : c'.out = c.out) {h : Nat} : c'.told h = c.told h := by
  rw [told, told, hout]

/-- Nothing is said on behalf of an object that is over. -/
theorem told_move {h : Nat} (hS : S h) (hover : (c.objects h).destroyed = true ∨ h ∈ c.table)
    (hmove : Move (heeding S) c c') : c'.told h = c.told h := by
  cases hmove.traffic with
  | quiet hout _ => exact told_same hout
  | tells msg hgeneric _ hout _ =>
    refine told_append hout fun g hg => ?_
    rw [← List.mem_singleton.mp hg] at hgeneric
    cases hgeneric
  | binds q proto specVer version _ _ hout _ =>
    refine told_append hout fun g hg => ?_
    cases List.mem_singleton.mp hg
  | sends obj method m args made hcall hid hcalls hout _ =>
    refine told_append hout fun g hg => ?_
    cases List.mem_singleton.mp hg
    have hne : obj ≠ h := by
      intro heq
      subst heq
      rcases hcall.allowed with ⟨hgone, halive, -⟩ | ⟨-, hnot, -⟩
      · rcases hover with hdead | hin
        · rw [hdead] at halive
          cases halive
        · exact hgone hin
      · exact hnot hS
    exact hne
  | defers obj method m args made _ _ _ hout _ =>
    exact told_same hout
  | flushes q hflush heq hout _ =>
    refine told_append hout fun g hg => ?_
    obtain ⟨g', hg', hgen⟩ := List.mem_map.mp hg
    cases hgen
    obtain ⟨entry, hentry, hresolve⟩ := List.mem_filterMap.mp hg'
    obtain ⟨i, hfind, -, rfl⟩ := resolve_some hresolve
    obtain ⟨horigin, hnot⟩ := hflush entry hentry i hfind
    intro hsame
    have hsame' : entry.msg.origin = h := hsame
    exact hnot (horigin.trans hsame' ▸ hS)

/-- An object that is over stays in the table until it is destroyed. -/
theorem over_move (hk : Kept c) {h : Nat} (hS : S h) (hlt : h < c.size)
    (hover : (c.objects h).destroyed = true ∨ h ∈ c.table) (hmove : Move (heeding S) c c') :
    (c'.objects h).destroyed = true ∨ h ∈ c'.table := by
  rcases hover with hdead | hin
  · exact .inl ((hmove.later.objects h hlt).destroyed hdead)
  · rcases hmove.unlinks hin with hin' |
      ⟨hid, ⟨horphan, hcollect⟩ | ⟨-, i, -, -, -, -, -, heq, hdead⟩⟩
    · exact .inr hin'
    · rw [hcollect h hS hin] at horphan
      cases horphan
    · -- It left for its id, which no other object has.
      rw [hk.distinct i h (heq ▸ hid) heq] at hdead
      exact .inl ((hmove.later.objects h hlt).destroyed hdead)

/-- What is kept of the objects that are over, over any number of changes. -/
theorem over_moves (hk : Kept c) (hlt : ∀ h, S h → h < c.size)
    (hover : ∀ h, S h → (c.objects h).destroyed = true ∨ h ∈ c.table)
    (hmoves : Moves (heeding S) c c') :
    Kept c' ∧ ∀ h, S h → c'.told h = c.told h ∧ (c'.objects h).id = (c.objects h).id ∧
      ((c'.objects h).destroyed = true ∨ h ∈ c'.table) := by
  have hinv : Kept c' ∧ ∀ h, S h → h < c'.size ∧ c'.told h = c.told h ∧
      (c'.objects h).id = (c.objects h).id ∧
      ((c'.objects h).destroyed = true ∨ h ∈ c'.table) := by
    refine hmoves.invariant (P := fun t => Kept t ∧ ∀ h, S h → h < t.size ∧ t.told h = c.told h ∧
      (t.objects h).id = (c.objects h).id ∧ ((t.objects h).destroyed = true ∨ h ∈ t.table))
      (fun t t' ht hmove => ?_) ⟨hk, fun h hS => ⟨hlt h hS, rfl, rfl, hover h hS⟩⟩
    refine ⟨ht.1.move hmove, fun h hS => ?_⟩
    obtain ⟨hlt', htold, hid, hover'⟩ := ht.2 h hS
    have hsame := ((ht.1.ledger.id_move unnaming hmove h).resolve_right fun hnew =>
      absurd hlt' (Nat.not_lt_of_le hnew.2)).2
    exact ⟨Nat.lt_of_lt_of_le hlt' hmove.later.size, (told_move hS hover' hmove).trans htold,
      hsame.trans hid, over_move ht.1 hS hlt' hover' hmove⟩
  exact ⟨hinv.1, fun h hS => (hinv.2 h hS).2⟩

/-! ## Steps -/

/-- **The object is over**: its destructor was received and handled, or is being handled. -/
structure Over (c : Client) (h : Nat) : Prop where
  id_ne : (c.objects h).id ≠ 0
  ended : ((c.objects h).destroyed = true ∧ h ∉ c.table) ∨
    (Ending c h ∧ ((c.objects h).destroyed = true ∨ h ∈ c.table))

/-- … or its destructor is handled by this step. -/
def Closing (c : Client) (a : Action) (h : Nat) : Prop :=
  Over c h ∨ ((c.objects h).id ≠ 0 ∧ Hears c a h)

theorem Over.standing {h : Nat} (ho : Over c h) :
    (c.objects h).destroyed = true ∨ h ∈ c.table :=
  ho.ended.elim (fun hdone => .inl hdone.1) fun hrunning => hrunning.2

theorem Closing.standing {a : Action} {h : Nat} (hc : Closing c a h) :
    (c.objects h).id ≠ 0 ∧ ((c.objects h).destroyed = true ∨ h ∈ c.table) := by
  rcases hc with ho | ⟨hid, q, g, rest, m, -, -, hfind, -⟩
  · exact ⟨ho.id_ne, ho.standing⟩
  · exact ⟨hid, .inr (objectForId_some hfind).1⟩

theorem Kept.lt_of_id (hk : Kept c) {h : Nat} (hid : (c.objects h).id ≠ 0) : h < c.size := by
  rcases Nat.lt_or_ge h c.size with hlt | hge
  · exact hlt
  · exact absurd (hk.ledger.blank h hge).2 hid

/-- Who is being called back is no orphan. -/
theorem not_orphaned (hheld : Held c) {h : Nat} (hend : Ending c h) : c.orphaned h = false := by
  obtain ⟨q, rest, method, m, hphase, -⟩ := hend
  have hh := hheld.held ⟨rest, method, hphase⟩
  rw [orphaned, hh, Bool.not_true, Bool.and_false]

theorem Over.not_orphaned (hheld : Held c) {h : Nat} (ho : Over c h) (hin : h ∈ c.table) :
    c.orphaned h = false := by
  rcases ho.ended with ⟨-, hout⟩ | ⟨hend, -⟩
  · exact absurd hin hout
  · exact Client.not_orphaned hheld hend

/-- A step that heeds is made of changes that spare what is over. -/
theorem granted_heeding {a : Action} (hheld : Held c) (hheeds : Heeds c a)
    (hnew : ∀ q seq id rest, a = .handle q →
      (c.queues q).phase ≠ .batch (.newObject seq id :: rest)) :
    Granted (heeding (Closing c a)) c a := by
  have hcalm : (∀ q, a ≠ .handle q) → ∀ h, Closing c a h → Over c h := by
    intro ha h hc
    refine hc.resolve_right fun hhears => ?_
    obtain ⟨-, q, g, rest, m, heq, -⟩ := hhears
    exact ha q heq
  have hcollects : (∀ q, a ≠ .handle q) → (heeding (Closing c a)).collects c :=
    fun ha h hc hin => (hcalm ha h hc).not_orphaned hheld hin
  cases a with
  | bind q proto version => trivial
  | send obj method args =>
    intro m hm
    obtain ⟨halive, hnot, hlast⟩ := hheeds m hm
    refine ⟨halive, fun hc => ?_, hlast⟩
    rcases (hcalm nofun obj hc).ended with ⟨hdead, -⟩ | ⟨hend, -⟩
    · rw [halive] at hdead
      cases hdead
    · exact hnot hend
  | clone obj => trivial
  | drop obj => trivial
  | dropQueue q => trivial
  | roundtrip q => trivial
  | roundtripReturn q => trivial
  | roundtripFail q => exact hcollects nofun
  | poll q => exact hcollects nofun
  | unreadable q => exact hcollects nofun
  | read q batch => exact hcollects nofun
  | handle q =>
    intro msg rest hphase
    refine ⟨fun seq id heq => ?_, fun _ _ _ _ => trivial⟩
    subst heq
    exact hnew q seq id rest rfl hphase
  | return_ q => exact fun _ _ _ _ => trivial
  | malformed q => trivial
  | finish q =>
    refine ⟨fun entry hentry h hfind => ?_, ?_⟩
    · obtain ⟨horigin, hnot⟩ := hheeds entry hentry h hfind
      refine ⟨horigin, fun hc => ?_⟩
      rcases (hcalm nofun h hc).ended with ⟨-, hout⟩ | ⟨hend, -⟩
      · exact hout (objectForSeq_some hfind).1
      · exact hnot hend
    · intro h hc hin
      have hflushed := hcollects nofun h hc
      rw [flush_eq] at hin ⊢
      exact hflushed hin

/-- What a `NewObject` does: the object that is found, if one is, gets its id. -/
theorem handle_newObject (c : Client) (q seq id : Nat) (rest : List S2C) :
    ∃ objects queues, c.handle q (.newObject seq id) rest =
        { c with objects, queues, handled := c.handled ++ [.newObject seq id] } ∧
      (∀ i, objects i =
        if c.objectForSeq seq = some i then { c.objects i with id } else c.objects i) ∧
      (∀ i, (queues i).queue = (c.queues i).queue) ∧ (queues q).phase = .batch rest ∧
      ∀ i, i ≠ q → (queues i).phase = (c.queues i).phase := by
  have hqueue : ∀ i, (if i = q then { c.queues i with phase := .batch rest } else c.queues i).queue =
      (c.queues i).queue := by
    intro i
    split <;> rfl
  have hphase : ∀ i, i ≠ q → (if i = q then { c.queues i with phase := .batch rest }
      else c.queues i).phase = (c.queues i).phase := fun i hi => by rw [if_neg hi]
  have hfind : ({ c with handled := c.handled ++ [S2C.newObject seq id] } : Client).objectForSeq seq =
      c.objectForSeq seq := rfl
  cases hseq : c.objectForSeq seq with
  | none =>
    refine ⟨c.objects, _, ?_, fun i => by rw [if_neg nofun], hqueue, by rw [if_pos rfl], hphase⟩
    simp only [handle, onSeq, hfind, hseq]
    rfl
  | some h =>
    refine ⟨fun i => if i = h then { c.objects i with id } else c.objects i, _, ?_, fun i => ?_, hqueue,
      by rw [if_pos rfl], hphase⟩
    · simp only [handle, onSeq, hfind, hseq]
      rfl
    · by_cases hi : i = h
      · subst hi
        rw [if_pos rfl]
        exact if_pos rfl
      · rw [if_neg fun heq => hi (Option.some.inj heq).symm]
        exact if_neg hi

/-- An id arrives, at an object that had none. -/
theorem Kept.named (hk : Kept c) {q seq id : Nat} {rest : List S2C}
    (hphase : (c.queues q).phase = .batch (.newObject seq id :: rest))
    (hheeds : Heeds c (.handle q)) : Kept (c.handle q (.newObject seq id) rest) := by
  have hledger : Ledger (c.handle q (.newObject seq id) rest) :=
    Moves.invariant (R := anything) (fun _ _ hc h => hc.move h)
      (moves_handle hk.ledger.table_lt trivial fun _ _ _ _ => trivial) hk.ledger
  have hgiven := hheeds seq id rest hphase
  obtain ⟨objects, queues, heq, hobjects, hqueues, -, -⟩ := handle_newObject c q seq id rest
  rw [heq] at hledger ⊢
  have hdead : ∀ i, (objects i).destroyed = (c.objects i).destroyed := by
    intro i
    rw [hobjects]
    split <;> rfl
  -- Whoever has the id now is the object it was given to, or had it before.
  have hid : ∀ i, (objects i).id = (c.objects i).id ∨
      (c.objectForSeq seq = some i ∧ (objects i).id = id) := by
    intro i
    rw [hobjects]
    split
    · next hfind => exact .inr ⟨hfind, rfl⟩
    · exact .inl rfl
  refine ⟨hledger, ?_, ?_, ?_, ?_, ?_⟩
  · exact hk.ordered.quiet (fun _ _ _ halive => halive) rfl fun i => by rw [hqueues]
  · intro g hg hdes
    exact (hdead _).trans (hk.sentMark g hg hdes)
  · intro i entry hentry hdes
    rw [hqueues] at hentry
    exact (hdead _).trans (hk.queuedMark i entry hentry hdes)
  · intro i j hne hsame
    simp only at hne hsame
    rcases hid i with hi | ⟨hfind, hi⟩
    · rcases hid j with hj | ⟨hfind', hj⟩
      · exact hk.distinct i j (hi ▸ hne) (hi.symm.trans (hsame.trans hj))
      · have hzero := (hgiven j hfind').2 i (hi.symm.trans (hsame.trans hj))
        rw [hsame, hj] at hne
        exact absurd hzero hne
    · rcases hid j with hj | ⟨hfind', -⟩
      · have hzero := (hgiven i hfind).2 j (hj.symm.trans (hsame.symm.trans hi))
        rw [hi] at hne
        exact absurd hzero hne
      · rw [hfind] at hfind'
        exact Option.some.inj hfind'
  · intro g hg
    have hne : (c.objects g.origin).id ≠ 0 := by
      rw [hk.addressed g hg]
      exact (hk.ledger.sent g hg).object_ne
    rcases hid g.origin with hi | ⟨hfind, -⟩
    · exact hi.trans (hk.addressed g hg)
    · exact absurd (hgiven _ hfind).1 hne

/-- What leaves the table with an id stays away, and keeps its mark. -/
theorem destroyObject_over (htable : ∀ i ∈ c.table, i < c.size) {h : Nat} (hlt : h < c.size)
    (hdead : (c.objects h).destroyed = true) :
    ((c.destroyObject (c.objects h).id).objects h).destroyed = true ∧
      h ∉ (c.destroyObject (c.objects h).id).table := by
  unfold destroyObject unlink
  simp only
  refine ⟨?_, fun hin => ?_⟩
  · have hlater : ∀ (gone : Nat → Bool) (t : Client), t.size = c.size →
        (t.table = c.table.filter fun i => !gone i) →
        Later t ((c.table.filter gone).foldl dropUnlessHeld t) :=
      fun gone t hsize hrest => (moves_unlinked (R := anything) htable hrest hsize).later
    refine LaterObject.destroyed ((hlater _ _ ?_ ?_).objects h hlt) hdead
    · rfl
    · rfl
  · rcases (Frame.drops _ _).table h hin with hold | hnew
    · simp at hold
    · exact absurd hlt (Nat.not_lt_of_le hnew)

/-- The end of a destructor event: its object is marked and off the table. -/
theorem afterDispatch_over (htable : ∀ i ∈ c.table, i < c.size) {h method : Nat} {m : MethodSpec}
    (hid : (c.objects h).id ≠ 0) (hm : (c.objects h).methodsIn[method]? = some m)
    (hdes : m.destructor = true) (hlt : h < c.size) :
    ((c.afterDispatch h method).objects h).destroyed = true ∧ h ∉ (c.afterDispatch h method).table := by
  have hsame : ((c.setObject h fun obj => { obj with destroyed := true }).objects h).id =
      (c.objects h).id := by simp [setObject]
  have hafter : c.afterDispatch h method = (c.setObject h fun obj =>
      { obj with destroyed := true }).destroyObject
        ((c.setObject h fun obj => { obj with destroyed := true }).objects h).id := by
    simp only [afterDispatch, hm, hdes, if_true, hsame]
    exact if_pos hid
  have hmarked : ((c.setObject h fun obj => { obj with destroyed := true }).objects h).destroyed =
      true := by simp [setObject]
  rw [hafter]
  exact destroyObject_over (c := c.setObject h fun obj => { obj with destroyed := true })
    htable hlt hmarked

/-- What was destroyed and is off the table stays so. -/
theorem gone_later {h : Nat} (hlater : Later c c') (hlt : h < c.size)
    (hgone : (c.objects h).destroyed = true ∧ h ∉ c.table) :
    (c'.objects h).destroyed = true ∧ h ∉ c'.table := by
  refine ⟨(hlater.objects h hlt).destroyed hgone.1, fun hin => ?_⟩
  rcases hlater.table h hin with hold | hnew
  · exact hgone.2 hold
  · exact absurd hlt (Nat.not_lt_of_le hnew)

theorem later_returned (c : Client) (q : Nat) (rest : List S2C) (h method : Nat) :
    Later (c.afterDispatch h method) (c.returned q rest h method) := by
  unfold returned
  simp only
  generalize c.afterDispatch h method = c₁
  have htweak : Tweak c₁ (c₁.setObject h fun obj => { obj with borrows := obj.borrows - 1 }) :=
    .setObject c₁ h fun _ => ⟨rfl, rfl, rfl, rfl, rfl, rfl, fun h => h⟩
  split
  · exact htweak.later.trans (Tweak.setPhase ..).later
  · next hout =>
    have hdrop := (moves_dropUnlessHeld (R := anything) hout).later
    exact (htweak.later.trans hdrop).trans (Tweak.setPhase ..).later

/-- The end of the callback of a destructor event. -/
theorem returned_over (htable : ∀ i ∈ c.table, i < c.size) {q h method : Nat} {rest : List S2C}
    {m : MethodSpec} (hid : (c.objects h).id ≠ 0) (hm : (c.objects h).methodsIn[method]? = some m)
    (hdes : m.destructor = true) (hlt : h < c.size) :
    ((c.returned q rest h method).objects h).destroyed = true ∧
      h ∉ (c.returned q rest h method).table :=
  gone_later (later_returned c q rest h method)
    (Nat.lt_of_lt_of_le hlt (Frame.afterDispatch c h method).size)
    (afterDispatch_over htable hid hm hdes hlt)

/-- A callback that runs goes on running or has returned. -/
theorem Ending.step {a : Action} {h : Nat} (hend : Ending c h) (hlt : h < c.size)
    (hlater : Later c c') (hstep : Client.step c a = some c') :
    Ending c' h ∨ ∃ q rest method m, a = .return_ q ∧
      (c.queues q).phase = .callback rest h method ∧ (c.objects h).methodsIn[method]? = some m ∧
      m.destructor = true := by
  obtain ⟨q, rest, method, m, hphase, hm, hdes⟩ := hend
  have hstays : (c'.queues q).phase = (c.queues q).phase → Ending c' h := fun hsame =>
    ⟨q, rest, method, m, hsame.trans hphase, (hlater.objects h hlt).methodsIn ▸ hm, hdes⟩
  cases progress hstep with
  | read q' batch hidle _ _ hothers _ =>
    refine .inl (hstays (hothers q fun heq => ?_))
    rw [heq, hidle] at hphase
    cases hphase
  | handled q' msg rest' hbatch _ hothers _ =>
    refine .inl (hstays (hothers q fun heq => ?_))
    rw [heq, hbatch] at hphase
    cases hphase
  | returned q' rest' h' method' hcallback _ hothers _ =>
    by_cases hq : q = q'
    · exact .inr ⟨q, rest, method, m, hq ▸ rfl, hphase, hm, hdes⟩
    · exact .inl (hstays (hothers q hq))
  | gaveUp _ q' _ _ hothers _ hquiet =>
    refine .inl (hstays (hothers q fun heq => ?_))
    rw [heq] at hphase
    rcases hquiet with hidle | ⟨rest', hbatch⟩
    · rw [hidle] at hphase
      cases hphase
    · rw [hbatch] at hphase
      cases hphase
  | finished q' hbatch _ hothers _ =>
    refine .inl (hstays (hothers q fun heq => ?_))
    rw [heq, hbatch] at hphase
    cases hphase
  | still _ hsame _ _ _ => exact .inl (hstays (hsame q))

/-- A destructor event is handled, or its callback begins. -/
theorem Hears.step {a : Action} {h : Nat} (hhears : Hears c a h) (hid : (c.objects h).id ≠ 0)
    (htable : ∀ i ∈ c.table, i < c.size) (hstep : Client.step c a = some c') :
    ((c'.objects h).destroyed = true ∧ h ∉ c'.table) ∨ (Ending c' h ∧ h ∈ c'.table) := by
  obtain ⟨q, g, rest, m, rfl, hphase, hfind, hm, hdes⟩ := hhears
  have hin := (objectForId_some hfind).1
  simp only [Client.step, hphase, Option.some.injEq] at hstep
  subst hstep
  have hfind' : ({ c with handled := c.handled ++ [S2C.generic g] } : Client).objectForId g.object =
      some h := hfind
  unfold handle onGeneric
  simp only [hfind']
  split
  · refine .inr ⟨⟨q, rest, g.method, m, ?_, ?_, hdes⟩, hin⟩
    · rw [setPhase_phase]
    · simpa [setPhase, setQueue, setObject, ClientObject.methodsIn] using hm
  · exact .inl (afterDispatch_over (c := { c with handled := c.handled ++ [S2C.generic g] }) htable
      hid hm hdes (htable h hin))

/-- **One step that heeds**: what is kept is kept, and of an object whose destructor is received
by this step, or was before, nothing is said. -/
theorem closing_step {a : Action} (hk : Kept c) (hheld : Held c) (hheeds : Heeds c a)
    (hstep : Client.step c a = some c') :
    Kept c' ∧ ∀ h, Closing c a h →
      Over c' h ∧ c'.told h = c.told h ∧ (c'.objects h).id = (c.objects h).id := by
  by_cases hnew : ∃ q seq id rest, a = .handle q ∧
      (c.queues q).phase = .batch (.newObject seq id :: rest)
  · obtain ⟨q, seq, id, rest, rfl, hphase⟩ := hnew
    have hkept := hk.named hphase hheeds
    have hhandle := hstep
    simp only [Client.step, hphase, Option.some.injEq] at hstep
    subst hstep
    refine ⟨hkept, fun h hclosing => ?_⟩
    -- The id is not for this object, which has one.
    have ho : Over c h := by
      refine hclosing.resolve_right fun hhears => ?_
      obtain ⟨-, q', g, rest', m, heq, hphase', -⟩ := hhears
      cases heq
      rw [hphase] at hphase'
      cases hphase'
    have hlt := hk.lt_of_id ho.id_ne
    have hlater := hk.ledger.later hhandle
    have hsame : ((c.handle q (.newObject seq id) rest).objects h).id = (c.objects h).id := by
      obtain ⟨objects, queues, heq, hobjects, -⟩ := handle_newObject c q seq id rest
      rw [heq]
      simp only [hobjects]
      rw [if_neg fun hfind => ho.id_ne (hheeds seq id rest hphase h hfind).1]
    have htable : (c.handle q (.newObject seq id) rest).table = c.table := by
      obtain ⟨objects, queues, heq, -⟩ := handle_newObject c q seq id rest
      rw [heq]
    have hout : (c.handle q (.newObject seq id) rest).out = c.out := by
      obtain ⟨objects, queues, heq, -⟩ := handle_newObject c q seq id rest
      rw [heq]
    refine ⟨⟨hsame ▸ ho.id_ne, ?_⟩, told_same hout, hsame⟩
    rcases ho.ended with hgone | ⟨hend, hstanding⟩
    · exact .inl (gone_later hlater hlt hgone)
    · rcases hend.step hlt hlater hhandle with hend' | ⟨q', -, -, -, heq, -⟩
      · refine .inr ⟨hend', hstanding.imp (hlater.objects h hlt).destroyed fun hin => ?_⟩
        rw [htable]
        exact hin
      · cases heq
  · have hgrant : Granted (heeding (Closing c a)) c a :=
      granted_heeding hheld hheeds fun q seq id rest ha hphase => hnew ⟨q, seq, id, rest, ha, hphase⟩
    have hmoves := moves_step hk.ledger.table_lt hgrant hstep
    have hlater := hmoves.later
    obtain ⟨hkept, hover⟩ := over_moves hk (fun h hc => hk.lt_of_id hc.standing.1)
      (fun h hc => hc.standing.2) hmoves
    refine ⟨hkept, fun h hclosing => ?_⟩
    obtain ⟨htold, hid, hstanding⟩ := hover h hclosing
    have hlt := hk.lt_of_id hclosing.standing.1
    refine ⟨⟨hid ▸ hclosing.standing.1, ?_⟩, htold, hid⟩
    rcases hclosing with ho | ⟨hne, hhears⟩
    · rcases ho.ended with hgone | ⟨hend, -⟩
      · exact .inl (gone_later hlater hlt hgone)
      · rcases hend.step hlt hlater hstep with hend' | ⟨q, rest, method, m, rfl, hphase, hm, hdes⟩
        · exact .inr ⟨hend', hstanding⟩
        · simp only [Client.step, hphase, Option.some.injEq] at hstep
          subst hstep
          exact .inl (returned_over hk.ledger.table_lt ho.id_ne hm hdes hlt)
    · rcases hhears.step hne hk.ledger.table_lt hstep with hgone | ⟨hend, hin⟩
      · exact .inl hgone
      · exact .inr ⟨hend, .inr hin⟩

/-! ## Runs -/

/-- What a client keeps that heeds, with its callbacks. -/
def Heeding (c : Client) : Prop := Kept c ∧ Held c

theorem Heeding.step {a : Action} (hq : Heeding c) (hheeds : Heeds c a)
    (hstep : Client.step c a = some c') : Heeding c' :=
  ⟨(closing_step hq.1 hq.2 hheeds hstep).1, hq.2.step hq.1.ledger.table_lt hstep⟩

theorem Heeding.init (impls : List ProtocolSpec) : Heeding { impls } := ⟨.init impls, .init impls⟩

/-- From where an object is over, nothing is said of it along the run. -/
theorem over_run {h : Nat} {as : List Action} (hq : Heeding c) (ho : Over c h)
    (hmeets : Run.Meets Client.step Heeds c as) (hrun : Run.run Client.step c as = some c') :
    c'.told h = c.told h ∧ (c'.objects h).id = (c.objects h).id ∧ Later c c' := by
  have hinv : Heeding c' ∧ Over c' h ∧ c'.told h = c.told h ∧
      (c'.objects h).id = (c.objects h).id ∧ Later c c' := by
    refine @Run.run_meeting _ _ Client.step (fun t => Heeding t ∧ Over t h ∧ t.told h = c.told h ∧
      (t.objects h).id = (c.objects h).id ∧ Later c t) Heeds (fun t a t' ht hheeds hstep => ?_)
      _ _ _ ⟨hq, ho, rfl, rfl, .refl c⟩ hmeets hrun
    obtain ⟨hquiet, hover, htold, hid, hlater⟩ := ht
    obtain ⟨-, hclosing⟩ := closing_step hquiet.1 hquiet.2 hheeds hstep
    obtain ⟨hover', htold', hid'⟩ := hclosing h (.inl hover)
    exact ⟨hquiet.step hheeds hstep, hover', htold'.trans htold, hid'.trans hid,
      hlater.trans (hquiet.1.ledger.later hstep)⟩
  exact ⟨hinv.2.2.1, hinv.2.2.2⟩

theorem Kept.sent_silent (hk : Kept c) :
    (c.out.filterMap C2S.generic?).Pairwise fun g g' =>
      g.destructor = true → g'.object ≠ g.object := by
  have hlast : (c.out.filterMap C2S.generic?).Pairwise fun g g' =>
      g.origin = g'.origin → g.destructor = false := by
    refine hk.ordered.out.filterMap _ fun msg msg' hlast g hg g' hg' => ?_
    cases msg <;> cases hg
    cases msg' <;> cases hg'
    exact hlast g g' rfl rfl
  refine hlast.imp_of_mem fun {g g'} hg hg' hlast hdes hsame => ?_
  have hwritten : ∀ {g}, g ∈ c.out.filterMap C2S.generic? → .generic g ∈ c.out := by
    intro g hg
    obtain ⟨msg, hmsg, hgeneric⟩ := List.mem_filterMap.mp hg
    cases msg <;> cases hgeneric
    exact hmsg
  -- The two have one id, and so one object.
  have hid := hk.addressed g (hwritten hg)
  have hid' := hk.addressed g' (hwritten hg')
  have horigin : g.origin = g'.origin :=
    hk.distinct _ _ (hid ▸ (hk.ledger.sent g (hwritten hg)).object_ne)
      (hid.trans (hsame.symm.trans hid'.symm))
  rw [hlast horigin] at hdes
  cases hdes

/-- **A client that heeds is silent.** -/
theorem silent_of_heeds {impls : List ProtocolSpec} {as : List Action}
    (hmeets : Run.Meets Client.step Heeds { impls } as)
    (hrun : Run.run Client.step { impls } as = some c) : Silent impls as c := by
  have hquiet : Heeding c := Run.run_meeting (fun t a t' ht hheeds hstep => ht.step hheeds hstep)
    (.init impls) hmeets hrun
  refine ⟨hquiet.1.sent_silent, fun pre a post c₀ h has hpre hhears g hg heq => ?_⟩
  subst has
  obtain ⟨c₀', hpre', hrest⟩ := Run.run_append.mp hrun
  rw [hpre] at hpre'
  cases hpre'
  have hquiet₀ : Heeding c₀ := Run.run_meeting (fun t a t' ht hheeds hstep => ht.step hheeds hstep)
    (.init impls) (Run.meets_append hmeets) hpre
  have hmeets₀ := Run.meets_drop hpre hmeets
  obtain ⟨c₁, hstep, hpost⟩ := Run.run_cons.mp hrest
  have hg' : .generic g ∈ c.out := List.mem_of_mem_drop hg
  have hne : (c₀.objects h).id ≠ 0 := heq ▸ (hquiet.1.ledger.sent g hg').object_ne
  obtain ⟨-, hclosing⟩ := closing_step hquiet₀.1 hquiet₀.2 hmeets₀.1 hstep
  obtain ⟨hover, htold, hid⟩ := hclosing h (.inr ⟨hne, hhears⟩)
  obtain ⟨htold', hid', hlater⟩ := over_run (hquiet₀.step hmeets₀.1 hstep) hover
    (hmeets₀.2 c₁ hstep) hpost
  -- The message would be one of this object, of which no more is said.
  have horigin : g.origin = h := by
    have haddressed := hquiet.1.addressed g hg'
    have hsame : (c.objects g.origin).id = (c.objects h).id :=
      haddressed.trans (heq.trans (hid'.trans hid).symm)
    exact hquiet.1.distinct _ _ (by rw [haddressed, heq]; exact hne) hsame
  obtain ⟨more, hout⟩ := (hquiet₀.1.ledger.later hstep).out.trans hlater.out
  have hmore : .generic g ∈ more := by
    rw [← hout, List.drop_left] at hg
    exact hg
  have hall : c.told h = c₀.told h ++ (more.filterMap C2S.generic?).filter fun g => g.origin = h := by
    rw [told, told, ← hout, List.filterMap_append, List.filter_append]
  have hnone := List.append_right_eq_self.mp (hall.symm.trans (htold'.trans htold))
  have hin : g ∈ (more.filterMap C2S.generic?).filter fun g => g.origin = h :=
    List.mem_filter.mpr ⟨List.mem_filterMap.mpr ⟨_, hmore, rfl⟩, by simpa using horigin⟩
  rw [hnone] at hin
  cases hin

end Hyprwire.Client

namespace Hyprwire.Server

open History

variable {s s' : Server}

/-! ## What a server owes -/

/-- The callback of a request that destroys the object runs. -/
def Ending (s : Server) (k : Nat) : Prop :=
  ∃ rest method, s.phase = .callback rest k (some method) ∧ isDestructor (s.objects k) method = true

/-- The step handles a request that destroys the object. -/
def Hears (s : Server) (a : Action) (k : Nat) : Prop :=
  ∃ g rest, a = .handle ∧ s.phase = .batch (.generic g :: rest) ∧ s.objectForId g.object = some k ∧
    isDestructor (s.objects k) g.method = true

/-- **Silence**, of a server. -/
structure Silent (impls : List ProtocolSpec) (as : List Action) (s : Server) : Prop where
  sent : (s.out.filterMap S2C.generic?).Pairwise fun g g' =>
    g.destructor = true → g'.object ≠ g.object
  received : ∀ pre a post s₀ k, as = pre ++ a :: post → Run.run step { impls } pre = some s₀ →
    Hears s₀ a k → ∀ g, S2C.generic g ∈ s.out.drop s₀.out.length → g.object ≠ (s₀.objects k).id

/-- The message has an object made for it. -/
def Makes (s : Server) (msg : C2S) : Prop :=
  match msg with
  | .bindProtocol _ version _ => version ≠ 0
  | .generic g => ∃ k m, s.objectForId g.object = some k ∧ callsBack (s.objects k) g.method = true ∧
      (s.objects k).methodsIn[g.method]? = some m ∧ m.returnsType ≠ ""
  | _ => False

/-- **The condition**: the handler of a destructor emits nothing on its object, and an id is not
given again.

An object is marked as destroyed when the handler has returned, so up to then its events are written
behind the destructor that the client sent; and `max_id` comes round after 2^32 objects. Everything
else a handler does is free, also on objects that are gone. -/
def Heeds (s : Server) : Action → Prop
  | .emit k _ _ => ¬ Ending s k
  | .handle => ∀ msg rest, s.phase = .batch (msg :: rest) → Makes s msg →
      ∀ k < s.size, (s.objects k).id ≠ s.maxId
  | _ => True

/-! ## What is kept -/

/-- What a step does to the objects. -/
theorem grown_of_step {a : Action} (h : step s a = some s') :
    (∀ k < s.size, SameObject (s.objects k) (s'.objects k)) ∧
      (s'.size = s.size ∨ (s'.size = s.size + 1 ∧ (s'.objects s.size).id = s.maxId ∧ a = .handle ∧
        ∃ msg rest, s.phase = .batch (msg :: rest) ∧ Makes s msg)) := by
  obtain ⟨hobjects, -, hbirth⟩ := birth h
  refine ⟨hobjects, ?_⟩
  cases hbirth with
  | none _ hsize _ _ _ => exact .inl hsize
  | made msg rest protocol name version seq hphase hasks hsize _ hnew _ _ _ =>
    refine .inr ⟨hsize, hnew.id, rfl, msg, rest, hphase, ?_⟩
    cases msg with
    | bindProtocol _ _ _ => exact hasks.1
    | generic g =>
      obtain ⟨k, m, hfind, hcalls, hm, hret, -⟩ := hasks
      exact ⟨k, m, hfind, hcalls, hm, hret⟩
    | sup => exact hasks
    | handshakeAck _ => exact hasks
    | roundtripRequest _ _ => exact hasks

/-- Whatever an error says, it is no event. -/
theorem objectError_generic (s : Server) (k errorId : Nat) (errorMsg : String) :
    (s.objectError k errorId errorMsg).out.filterMap S2C.generic? =
      s.out.filterMap S2C.generic? := by
  unfold objectError
  split
  · rfl
  · simp only [write_out]
    split
    · rfl
    · simp [S2C.generic?]

/-- A destructor that is emitted leaves its mark. -/
theorem call_mark {k method : Nat} {m : MethodSpec} {args : List CallArg} {g : Generic}
    (hm : (s.objects k).methodsOut[method]? = some m) (hdes : m.destructor = true)
    (hout : (s.call k method args).out.filterMap S2C.generic? =
      s.out.filterMap S2C.generic? ++ [g]) :
    ((s.call k method args).objects k).destroyed = true := by
  have hsilent : ∀ t : Server, t.out.filterMap S2C.generic? = s.out.filterMap S2C.generic? →
      t.out.filterMap S2C.generic? ≠ s.out.filterMap S2C.generic? ++ [g] := by
    intro t ht ht'
    have hlen := congrArg List.length (ht.symm.trans ht')
    simp at hlen
  unfold call at hout ⊢
  simp only [hm] at hout ⊢
  split
  · assumption
  · next halive =>
    rw [if_neg halive] at hout
    split
    · next hsince =>
      rw [if_pos hsince] at hout
      exact absurd hout (hsilent _ (objectError_generic ..))
    · next hsince =>
      rw [if_neg hsince] at hout
      split
      · next hret =>
        rw [if_pos hret] at hout
        exact absurd hout (hsilent _ (objectError_generic ..))
      · unfold emitMethod
        simp only [hdes, if_true]
        refine ((Aside.write _ _).objects k).destroyed ?_
        simp [setObject]

/-- What a step says is said by a handler, of an object that was not destroyed, or is no event. -/
theorem says_of_step {a : Action} (h : step s a = some s') :
    s'.out.filterMap S2C.generic? = s.out.filterMap S2C.generic? ∨
      ∃ k method args g, a = .emit k method args ∧ k < s.size ∧ (s.objects k).destroyed = false ∧
        g.origin = k ∧ g.object = (s.objects k).id ∧
        (g.destructor = true → (s'.objects k).destroyed = true) ∧
        s'.out.filterMap S2C.generic? = s.out.filterMap S2C.generic? ++ [g] := by
  have hquiet : ∀ msg : S2C, msg.generic? = none → s'.out = s.out ++ [msg] →
      s'.out.filterMap S2C.generic? = s.out.filterMap S2C.generic? := by
    intro msg hmsg hout
    simp [hout, hmsg]
  rcases speaks h with hout | ⟨msg, hspeaks, hout⟩
  · exact .inl (by rw [hout])
  · cases hspeaks with
    | fatal _ objectId errorId errorMsg => exact .inl (hquiet _ rfl hout)
    | event k method m args hk hm hlive =>
      have hsaid := congrArg (List.filterMap S2C.generic?) hout
      rw [List.filterMap_append] at hsaid
      refine .inr ⟨k, method, args, _, rfl, hk, hlive, rfl, rfl, fun hdes => ?_, hsaid⟩
      simp only [step, Option.ite_none_right_eq_some, Option.some.injEq] at h
      obtain ⟨-, rfl⟩ := h
      exact call_mark hm hdes hsaid
    | greets _ hgeneric _ _ => exact .inl (hquiet _ hgeneric hout)
    | announces seq => exact .inl (hquiet _ rfl hout)
    | acknowledges _ _ => exact .inl (hquiet _ rfl hout)

/-- **What a server keeps that heeds.** -/
structure Kept (s : Server) : Prop where
  table_lt : ∀ k ∈ s.table, k < s.size
  distinct : ∀ i < s.size, ∀ j < s.size, (s.objects i).id = (s.objects j).id → i = j
  addressed : ∀ g ∈ s.out.filterMap S2C.generic?,
    g.origin < s.size ∧ (s.objects g.origin).id = g.object
  mark : ∀ g ∈ s.out.filterMap S2C.generic?, g.destructor = true →
    (s.objects g.origin).destroyed = true
  last : (s.out.filterMap S2C.generic?).Pairwise fun g g' =>
    g.origin = g'.origin → g.destructor = false

theorem Kept.init (impls : List ProtocolSpec) : Kept { impls } where
  table_lt _ h := by cases h
  distinct i hi := absurd hi (Nat.not_lt_zero i)
  addressed _ hg := by cases hg
  mark _ hg := by cases hg
  last := .nil

theorem table_lt_of_step {a : Action} (hlt : ∀ k ∈ s.table, k < s.size) (h : step s a = some s') :
    ∀ k ∈ s'.table, k < s'.size := by
  intro k hk
  by_cases ha : a = .handle
  · subst ha
    obtain ⟨msg, rest, -, rfl⟩ := step_handle h
    rcases (effect s msg rest).table k hk with hold | ⟨rfl, hsize⟩
    · exact Nat.lt_of_lt_of_le (hlt k hold) (effect s msg rest).size
    · rw [hsize]
      exact Nat.lt_succ_self _
  · have hstill := still_of_step h ha
    obtain ⟨p, hp⟩ := hstill.table
    rw [hp] at hk
    rw [hstill.size]
    exact hlt k (List.mem_filter.mp hk).1

theorem Kept.step {a : Action} (hk : Kept s) (hheeds : Heeds s a) (h : Server.step s a = some s') :
    Kept s' := by
  obtain ⟨hobjects, hgrown⟩ := grown_of_step h
  have hsize : s.size ≤ s'.size := by
    rcases hgrown with hsize | ⟨hsize, -⟩
    · exact Nat.le_of_eq hsize.symm
    · exact hsize ▸ Nat.le_succ _
  have hwritten : ∀ g ∈ s.out.filterMap S2C.generic?,
      (g.origin < s'.size ∧ (s'.objects g.origin).id = g.object) ∧
        (g.destructor = true → (s'.objects g.origin).destroyed = true) := by
    intro g hg
    obtain ⟨hlt, hid⟩ := hk.addressed g hg
    have hsame := hobjects g.origin hlt
    exact ⟨⟨Nat.lt_of_lt_of_le hlt hsize, hsame.id.trans hid⟩, fun hdes =>
      hsame.destroyed (hk.mark g hg hdes)⟩
  refine ⟨table_lt_of_step hk.table_lt h, ?_, ?_, ?_, ?_⟩
  · rcases hgrown with hsame | ⟨hnew, hid, rfl, msg, rest, hphase, hmakes⟩
    · intro i hi j hj heq
      rw [hsame] at hi hj
      rw [(hobjects i hi).id, (hobjects j hj).id] at heq
      exact hk.distinct i hi j hj heq
    · -- The object that is new has an id that nobody had.
      have hfresh := hheeds msg rest hphase hmakes
      intro i hi j hj heq
      rw [hnew] at hi hj
      rcases Nat.lt_succ_iff_lt_or_eq.mp hi with hi | rfl
      · rcases Nat.lt_succ_iff_lt_or_eq.mp hj with hj | rfl
        · rw [(hobjects i hi).id, (hobjects j hj).id] at heq
          exact hk.distinct i hi j hj heq
        · rw [(hobjects i hi).id, hid] at heq
          exact absurd heq (hfresh i hi)
      · rcases Nat.lt_succ_iff_lt_or_eq.mp hj with hj | rfl
        · rw [(hobjects j hj).id, hid] at heq
          exact absurd heq.symm (hfresh j hj)
        · rfl
  · intro g hg
    rcases says_of_step h with hout | ⟨k, method, args, g', rfl, hlt, -, horigin, hid, -, hout⟩
    · exact (hwritten g (hout ▸ hg)).1
    · rw [hout] at hg
      rcases List.mem_append.mp hg with hg | hg
      · exact (hwritten g hg).1
      · cases List.mem_singleton.mp hg
        rw [horigin, hid]
        exact ⟨Nat.lt_of_lt_of_le hlt hsize, (hobjects k hlt).id⟩
  · intro g hg
    rcases says_of_step h with hout | ⟨k, method, args, g', rfl, -, -, horigin, -, hdead, hout⟩
    · exact (hwritten g (hout ▸ hg)).2
    · rw [hout] at hg
      rcases List.mem_append.mp hg with hg | hg
      · exact (hwritten g hg).2
      · cases List.mem_singleton.mp hg
        rw [horigin]
        exact hdead
  · rcases says_of_step h with hout | ⟨k, method, args, g', rfl, -, halive, horigin, -, -, hout⟩
    · exact hout ▸ hk.last
    · rw [hout]
      refine pairwise_append_one hk.last fun g hg hsame => ?_
      cases hdes : g.destructor with
      | false => rfl
      | true =>
        have hdead := hk.mark g hg hdes
        rw [hsame, horigin, halive] at hdead
        cases hdead

/-! ## One object that is over -/

/-- The events of an object on the wire. -/
def told (s : Server) (k : Nat) : List Generic :=
  (s.out.filterMap S2C.generic?).filter fun g => g.origin = k

/-- **The object is over**: its destructor was received and handled, or is being handled. -/
def Over (s : Server) (k : Nat) : Prop :=
  k < s.size ∧ ((s.objects k).destroyed = true ∨ Ending s k)

theorem afterDispatch_destroyed {k method : Nat} (hdes : isDestructor (s.objects k) method = true) :
    ((s.afterDispatch k method).objects k).destroyed = true := by
  rw [afterDispatch_eq, if_pos hdes]
  simp [setObject]

theorem Ending.step {a : Action} {k : Nat} (hend : Ending s k) (h : Server.step s a = some s') :
    (s'.objects k).destroyed = true ∨ Ending s' k := by
  obtain ⟨rest, method, hphase, hdes⟩ := hend
  have haside : Aside s s' → (s'.objects k).destroyed = true ∨ Ending s' k := fun haside =>
    .inr ⟨rest, method, haside.phase.trans hphase,
      ((haside.objects k).isDestructor method).trans hdes⟩
  cases a with
  | emit k' method' args =>
    simp only [Server.step, Option.ite_none_right_eq_some, Option.some.injEq] at h
    exact haside (h.2 ▸ .call ..)
  | error k' errorId errorMsg =>
    simp only [Server.step, Option.ite_none_right_eq_some, Option.some.injEq] at h
    exact haside (h.2 ▸ .objectError ..)
  | return_ =>
    simp only [Server.step, hphase, Option.some.injEq] at h
    subst h
    exact .inl (afterDispatch_destroyed hdes)
  | read batch => simp [Server.step, hphase] at h
  | handle => simp [Server.step, hphase] at h
  | malformed => simp [Server.step, hphase] at h
  | finish => simp [Server.step, hphase] at h
  | unreadable => simp [Server.step, hphase] at h
  | hangup => simp [Server.step, hphase] at h
  | remove => simp [Server.step, hphase] at h
  | visit => simp [Server.step, hphase] at h

/-- A destructor request is handled, or its callback begins. -/
theorem Hears.step {a : Action} {k : Nat} (hhears : Hears s a k) (hlt : k < s.size)
    (h : Server.step s a = some s') : (s'.objects k).destroyed = true ∨ Ending s' k := by
  obtain ⟨g, rest, rfl, hphase, hfind, hdes⟩ := hhears
  simp only [Server.step, hphase, Option.some.injEq] at h
  subst h
  rw [handle_generic]
  have hfind' : (s.heard (.generic g) rest).objectForId g.object = some k := hfind
  have hdelivered := delivered (s.heard (.generic g) rest) g rest
  generalize (s.heard (.generic g) rest).onGeneric g rest = t at hdelivered ⊢
  cases hdelivered with
  | unknown hnone =>
    rw [hfind'] at hnone
    cases hnone
  | silent i hi _ =>
    rw [hfind'] at hi
    cases hi
    refine .inl (afterDispatch_destroyed ?_)
    rw [note_eq]
    exact hdes
  | called i hi _ =>
    rw [hfind'] at hi
    cases hi
    refine .inr ⟨rest, g.method, rfl, ?_⟩
    rw [note_eq]
    exact hdes
  | made i m hi _ _ _ =>
    rw [hfind'] at hi
    cases hi
    refine .inr ⟨rest, g.method, rfl, ?_⟩
    rw [createObject_eq, note_eq]
    have hne : k ≠ s.size := Nat.ne_of_lt hlt
    simpa [setObject, heard, hne] using hdes

/-- **One step that heeds** says nothing of an object whose destructor is received by it, or was
before. -/
theorem closing_step {a : Action} {k : Nat} (hheeds : Heeds s a) (hlt : k < s.size)
    (hclosing : Over s k ∨ Hears s a k) (h : Server.step s a = some s') :
    Over s' k ∧ s'.told k = s.told k ∧ (s'.objects k).id = (s.objects k).id := by
  obtain ⟨hobjects, hgrown⟩ := grown_of_step h
  have hsize : k < s'.size := by
    rcases hgrown with hsize | ⟨hsize, -⟩
    · exact hsize ▸ hlt
    · exact hsize ▸ Nat.lt_succ_of_lt hlt
  refine ⟨⟨hsize, ?_⟩, ?_, (hobjects k hlt).id⟩
  · rcases hclosing with ⟨-, hdead | hend⟩ | hhears
    · exact .inl ((hobjects k hlt).destroyed hdead)
    · exact hend.step h
    · exact hhears.step hlt h
  · rcases says_of_step h with hout | ⟨k', method, args, g, rfl, -, halive, horigin, -, -, hout⟩
    · rw [told, told, hout]
    · have hne : k' ≠ k := by
        intro heq
        subst heq
        rcases hclosing with ⟨-, hdead | hend⟩ | ⟨g, rest, heq, -⟩
        · rw [hdead] at halive
          cases halive
        · exact hheeds hend
        · cases heq
      rw [told, told, hout, List.filter_append]
      simp [horigin, hne]

/-! ## Runs -/

theorem over_run {k : Nat} {as : List Action} (ho : Over s k)
    (hmeets : Run.Meets Server.step Heeds s as) (hrun : Run.run Server.step s as = some s') :
    Over s' k ∧ s'.told k = s.told k ∧ (s'.objects k).id = (s.objects k).id ∧ s.out <+: s'.out := by
  have hinv : Over s' k ∧ s'.told k = s.told k ∧ (s'.objects k).id = (s.objects k).id ∧
      s.out <+: s'.out := by
    refine @Run.run_meeting _ _ Server.step (fun t => Over t k ∧ t.told k = s.told k ∧
      (t.objects k).id = (s.objects k).id ∧ s.out <+: t.out) Heeds (fun t a t' ht hheeds hstep => ?_)
      _ _ _ ⟨ho, rfl, rfl, List.prefix_refl _⟩ hmeets hrun
    obtain ⟨hover, htold, hid, hout⟩ := ht
    obtain ⟨hover', htold', hid'⟩ := closing_step hheeds hover.1 (.inl hover) hstep
    exact ⟨hover', htold'.trans htold, hid'.trans hid, hout.trans (out_of_step hstep)⟩
  exact hinv

/-- **A server that heeds is silent.** -/
theorem silent_of_heeds {impls : List ProtocolSpec} {as : List Action}
    (hmeets : Run.Meets Server.step Heeds { impls } as)
    (hrun : Run.run Server.step { impls } as = some s) : Silent impls as s := by
  have hkept : Kept s := Run.run_meeting (fun t a t' ht hheeds hstep => ht.step hheeds hstep)
    (.init impls) hmeets hrun
  refine ⟨?_, fun pre a post s₀ k has hpre hhears g hg heq => ?_⟩
  · refine hkept.last.imp_of_mem fun {g g'} hg hg' hlast hdes hsame => ?_
    obtain ⟨hlt, hid⟩ := hkept.addressed g hg
    obtain ⟨hlt', hid'⟩ := hkept.addressed g' hg'
    have horigin := hkept.distinct _ hlt _ hlt' (hid.trans (hsame.symm.trans hid'.symm))
    rw [hlast horigin] at hdes
    cases hdes
  · subst has
    obtain ⟨s₀', hpre', hrest⟩ := Run.run_append.mp hrun
    rw [hpre] at hpre'
    cases hpre'
    have hkept₀ : Kept s₀ := Run.run_meeting (fun t a t' ht hheeds hstep => ht.step hheeds hstep)
      (.init impls) (Run.meets_append hmeets) hpre
    have hmeets₀ := Run.meets_drop hpre hmeets
    obtain ⟨s₁, hstep, hpost⟩ := Run.run_cons.mp hrest
    have hlt : k < s₀.size := by
      obtain ⟨g', rest, -, -, hfind, -⟩ := hhears
      exact hkept₀.table_lt k (List.mem_of_find?_eq_some hfind)
    obtain ⟨hover, htold, hid⟩ := closing_step hmeets₀.1 hlt (.inr hhears) hstep
    obtain ⟨hover', htold', hid', hlater⟩ := over_run hover (hmeets₀.2 s₁ hstep) hpost
    obtain ⟨more, hout⟩ := (out_of_step hstep).trans hlater
    have hmore : g ∈ more.filterMap S2C.generic? := by
      rw [← hout, List.drop_left] at hg
      exact List.mem_filterMap.mpr ⟨_, hg, rfl⟩
    have hall : s.out.filterMap S2C.generic? =
        s₀.out.filterMap S2C.generic? ++ more.filterMap S2C.generic? := by
      rw [← hout, List.filterMap_append]
    -- The message would be one of this object, of which no more is said.
    obtain ⟨hlt', haddressed⟩ := hkept.addressed g (hall ▸ List.mem_append.mpr (.inr hmore))
    have horigin : g.origin = k :=
      hkept.distinct _ hlt' _ hover'.1
        (haddressed.trans (heq.trans (hid'.trans hid).symm))
    have hsplit : s.told k = s₀.told k ++
        (more.filterMap S2C.generic?).filter fun g => g.origin = k := by
      rw [told, told, hall, List.filter_append]
    have hnone := List.append_right_eq_self.mp (hsplit.symm.trans (htold'.trans htold))
    have hin : g ∈ (more.filterMap S2C.generic?).filter fun g => g.origin = k :=
      List.mem_filter.mpr ⟨hmore, by simpa using horigin⟩
    rw [hnone] at hin
    cases hin

end Hyprwire.Server

/-! ## Both sides -/

namespace Hyprwire

/-- **Silence after destruction**, on both sides, in every run in which the side heeds. -/
theorem silent_after_destruction (impls : List ProtocolSpec) :
    (∀ as c, Run.run Client.step { impls } as = some c →
      Run.Meets Client.step Client.Heeds { impls } as → Client.Silent impls as c) ∧
    ∀ as s, Run.run Server.step { impls } as = some s →
      Run.Meets Server.step Server.Heeds { impls } as → Server.Silent impls as s :=
  ⟨fun _ _ hrun hmeets => Client.silent_of_heeds hmeets hrun,
    fun _ _ hrun hmeets => Server.silent_of_heeds hmeets hrun⟩

/-- An item is made, named and dropped, which sends its destructor. -/
def Client.dropped : List Client.Action :=
  bound₀ ++
    [.read 0 [.newObject 1 1], .handle 0, .finish 0, .send 0 0 [], .read 0 [.newObject 2 2],
      .handle 0, .finish 0, .drop 1]

/-- An item is made and destroyed by the client, and reports nothing afterwards. -/
def Server.dropped : List Server.Action :=
  [.read [.bindProtocol 1 1 "shop", .generic ⟨1, 0, 2, [], 0, 0, false, none⟩], .handle, .return_,
    .handle, .emit 1 0 [], .return_, .finish, .read [.generic ⟨2, 1, 0, [], 0, 0, true, none⟩],
    .handle, .return_, .emit 1 0 [], .finish]

theorem silent_after_destruction_dropped :
    (∃ c, Run.run Client.step { impls := [shopProtocol] } Client.dropped = some c ∧
      Client.Silent [shopProtocol] Client.dropped c) ∧
    ∃ s, Run.run Server.step { impls := [shopProtocol] } Server.dropped = some s ∧
      Server.Silent [shopProtocol] Server.dropped s := by
  constructor
  · refine ⟨_, rfl, (silent_after_destruction [shopProtocol]).1 _ _ rfl ?_⟩
    refine Run.meets_cons trivial rfl (Run.meets_cons ?_ rfl (Run.meets_cons ?_ rfl ?_))
    · intro seq id rest hphase
      cases hphase
    · intro entry hentry
      cases hentry
    refine Run.meets_cons trivial rfl (Run.meets_cons trivial rfl (Run.meets_cons ?_ rfl ?_))
    · intro seq id rest hphase h hfind
      cases hphase
      cases hfind
      refine ⟨rfl, fun i hi => ?_⟩
      rcases i with _ | i
      · cases hi
      · cases hi
    refine Run.meets_cons ?_ rfl (Run.meets_cons ?_ rfl (Run.meets_cons trivial rfl ?_))
    · intro entry hentry
      cases hentry
    · intro m hm
      cases hm
      refine ⟨rfl, ?_, nofun⟩
      rintro ⟨q, rest, method, m, hphase, -⟩
      rcases q with _ | q
      · cases hphase
      · cases hphase
    refine Run.meets_cons ?_ rfl (Run.meets_cons ?_ rfl (Run.meets_cons trivial rfl trivial))
    · intro seq id rest hphase h hfind
      cases hphase
      cases hfind
      refine ⟨rfl, fun i hi => ?_⟩
      rcases i with _ | _ | i
      · cases hi
      · cases hi
      · cases hi
    · intro entry hentry
      cases hentry
  · refine ⟨_, rfl, (silent_after_destruction [shopProtocol]).2 _ _ rfl ?_⟩
    refine Run.meets_cons trivial rfl (Run.meets_cons ?_ rfl (Run.meets_cons trivial rfl ?_))
    · intro msg rest hphase hmakes
      decide
    refine Run.meets_cons ?_ rfl (Run.meets_cons ?_ rfl (Run.meets_cons trivial rfl ?_))
    · intro msg rest hphase hmakes
      decide
    · rintro ⟨rest, method, hphase, -⟩
      cases hphase
    refine Run.meets_cons trivial rfl (Run.meets_cons trivial rfl (Run.meets_cons ?_ rfl ?_))
    · intro msg rest hphase hmakes
      decide
    refine Run.meets_cons trivial rfl (Run.meets_cons ?_ rfl (Run.meets_cons trivial rfl trivial))
    rintro ⟨rest, method, hphase, -⟩
    cases hphase

/-- The server destroys an item that the user still holds, and draws. -/
def Client.drawing : List Client.Action :=
  bound₀ ++
    [.read 0 [.newObject 1 1], .handle 0, .finish 0, .send 0 0 [],
      .read 0 [.newObject 2 2, .generic ⟨2, 1, 0, [], 0, 0, true, none⟩], .handle 0, .handle 0,
      .return_ 0, .finish 0, .send 1 0 []]

/-- The drawing is on the wire, behind the destructor. -/
theorem not_always_silent : ¬
    ((∀ (impls : List ProtocolSpec) as c, Run.run Client.step { impls } as = some c →
      Client.Silent impls as c) ∧
    ∀ (impls : List ProtocolSpec) as s, Run.run Server.step { impls } as = some s →
      Server.Silent impls as s) := by
  rintro ⟨h, -⟩
  have hsilent := (h [shopProtocol] Client.drawing _ rfl).received
    (Client.drawing.take 10) (.handle 0) (Client.drawing.drop 11) _ 1 rfl rfl
    ⟨0, _, _, _, rfl, rfl, rfl, rfl, rfl⟩
  exact hsilent ⟨2, 0, 0, [], 1, 1, false, none⟩ (by decide) rfl

end Hyprwire
