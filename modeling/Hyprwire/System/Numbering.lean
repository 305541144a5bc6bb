import Mathlib.Data.List.Pairwise
import Hyprwire.System.Order

/-!
# `System/Numbering.lean` — the numbers a client gives to what it creates

A client counts what it asks for. As long as the counter has not wrapped, each of its objects has a
number of its own, no two of its messages ask for one number, and what a message asks for is the
object with its number: the root of the protocol it binds, or what the method it calls returns.
-/

namespace Hyprwire.Client

open History

variable {c c' : Client} {R : Rely}

/-! ## What is asked for -/

/-- The object is what the message asks for. -/
def Describes (c : Client) (msg : C2S) (h : Nat) : Prop :=
  match msg with
  | .bindProtocol _ _ name =>
    (c.objects h).protocolName = name ∧ (c.objects h).spec = rootSpec c.impls name
  | .generic g =>
    ∃ m, (c.objects g.origin).methodsOut[g.method]? = some m ∧ m.returnsType ≠ "" ∧
      (c.objects h).protocolName = (c.objects g.origin).protocolName ∧
      (c.objects h).spec = specFor c.impls (c.objects g.origin).protocolName m.returnsType
  | _ => True

/-- **A message is worded well**: the number it carries was given out, to the object it asks for, and
it carries one when its method returns an object. -/
structure Worded (c : Client) (msg : C2S) : Prop where
  origin : ∀ g, msg = .generic g → g.origin < c.size
  range : ∀ seq, msg.carries = some seq → seq ≠ 0 ∧ seq ≤ c.issued
  describes : ∀ h < c.size, msg.carries = some (c.objects h).seq → c.Describes msg h
  asks : ∀ g m, msg = .generic g → (c.objects g.origin).methodsOut[g.method]? = some m →
    m.returnsType ≠ "" → g.seq ≠ 0

/-- Two messages do not ask for one number. -/
def Fresh (msg msg' : C2S) : Prop := ∀ seq, msg.carries = some seq → msg'.carries ≠ some seq

/-- **What a client keeps true of its numbers.** -/
structure Numbered (c : Client) : Prop where
  ledger : Ledger c
  seq : c.seq = c.issued
  seqs : ∀ h < c.size, (c.objects h).seq ≠ 0 ∧ (c.objects h).seq ≤ c.issued
  inj : ∀ h < c.size, ∀ h' < c.size, (c.objects h).seq = (c.objects h').seq → h = h'
  out : ∀ msg ∈ c.out, c.Worded msg
  queue : ∀ q, ∀ entry ∈ (c.queues q).queue, c.Worded (.generic entry.msg)
  fresh : Ordered Fresh Everywhere c

theorem blind_fresh : Blind Fresh where
  left _ h := h
  right _ h := h

theorem fresh_of_none {msg msg' : C2S} (h : msg.carries = none) : Fresh msg msg' ∧ Fresh msg' msg := by
  constructor
  · intro seq hseq
    rw [h] at hseq
    cases hseq
  · intro seq _
    rw [h]
    exact nofun

theorem Numbered.init (impls : List ProtocolSpec) : Numbered { impls } where
  ledger := .init impls
  seq := rfl
  seqs _ h := absurd h (Nat.not_lt_zero _)
  inj _ h := absurd h (Nat.not_lt_zero _)
  out msg hmsg := by
    cases List.mem_singleton.mp hmsg
    exact ⟨nofun, nofun, nofun, nofun⟩
  queue _ _ h := by cases h
  fresh := ordered_init impls

/-! ## The counter -/

/-- What a primitive change is, for the counters. -/
inductive Counted (R : Rely) (c c' : Client) : Prop
  | same (hseq : c'.seq = c.seq) (hissued : c'.issued = c.issued) (hsize : c'.size = c.size)
  | bind (q : Nat) (proto : ProtocolSpec) (specVer version : Nat) (hproto : R.binds proto)
      (hbind : c.bindProtocol q proto specVer version = some c')
  | call (obj method : Nat) (m : MethodSpec) (args : List CallArg) (made : Option ObjectSpec)
      (hcall : IsCall R c c' obj method m args made)

theorem Move.counted (h : Move R c c') : Counted R c c' := by
  cases h with
  | tweak h => exact .same h.seq h.issued h.size
  | acknowledge version =>
    obtain ⟨out, heq⟩ := write_eq c (.handshakeAck version)
    rw [heq]
    exact .same rfl rfl rfl
  | ask q _ =>
    unfold Client.ask
    obtain ⟨out, heq⟩ := write_eq (c.setQueue q _) _
    rw [heq]
    exact .same rfl rfl rfl
  | bind q specVer version hproto hbind => exact .bind q _ specVer version hproto hbind
  | call hcall => exact .call _ _ _ _ _ hcall
  | named _ _ =>
    obtain ⟨f, -, h, heq⟩ := onSeq_eq c _ _
    rw [heq]
    exact .same rfl rfl rfl
  | flush q _ =>
    rw [flush_eq]
    exact .same rfl rfl rfl
  | hear _ | acked _ _ | collect _ | destroy _ _ _ _ | dropQueue _ _ => exact .same rfl rfl rfl

/-- The number that is given out next, while there are numbers left. -/
theorem nextSeq_of_issued (hseq : c.seq = c.issued) (hbound : c.issued + 1 < wordSize) :
    c.nextSeq = c.issued + 1 := by
  rw [nextSeq, hseq, Nat.mod_eq_of_lt hbound]

/-- What a primitive change gives a number to. -/
inductive Growth (c c' : Client) : Prop
  | none (hissued : c'.issued = c.issued) (hsize : c'.size = c.size)
  | number (hissued : c'.issued = c.issued + 1) (hsize : c'.size = c.size)
  | object (hissued : c'.issued = c.issued + 1) (hsize : c'.size = c.size + 1)
      (hseq : (c'.objects c.size).seq = c'.issued)

theorem Move.growth (h : Move R c c') (hseq : c.seq = c.issued) (hbound : c'.issued < wordSize) :
    c'.seq = c'.issued ∧ Growth c c' := by
  cases h.counted with
  | same hseq' hissued hsize => exact ⟨hseq'.trans (hseq.trans hissued.symm), .none hissued hsize⟩
  | bind q proto specVer version _ hbind =>
    obtain ⟨spec, -, rfl⟩ := bindProtocol_eq hbind
    obtain ⟨out, heq⟩ := write_eq (c.fetchAdd.push (c.bound q version proto spec))
      (.bindProtocol c.nextSeq version proto.specName)
    rw [heq] at hbound ⊢
    have hnext : c.nextSeq = c.issued + 1 := nextSeq_of_issued hseq hbound
    refine ⟨hnext, .object rfl rfl ?_⟩
    simp only [push, fetchAdd, if_true, bound]
    exact hnext
  | call obj method m args made hcall =>
    rw [hcall.eq] at hbound ⊢
    rw [called_issued] at hbound
    rw [called_seq, called_issued]
    by_cases hret : m.returnsType = ""
    · -- A method without a result makes no object.
      have hmade : made = none := by
        cases made with
        | none => rfl
        | some spec => exact absurd hret (hcall.makes spec rfl).1
      subst hmade
      rw [if_neg (by simp [hret]), if_neg (by simp [hret])]
      refine ⟨hseq, .none ?_ ?_⟩
      · rw [called_issued, if_neg (by simp [hret])]
      · obtain ⟨f, queues, out, calls, -, -, heq⟩ := called_eq c obj method m args none
        rw [heq]
        rfl
    · rw [if_pos hret] at hbound
      have hnext := nextSeq_of_issued hseq hbound
      rw [if_pos hret, if_pos hret]
      refine ⟨hnext, ?_⟩
      cases made with
      | none =>
        refine .number ?_ ?_
        · rw [called_issued, if_pos hret]
        · obtain ⟨f, queues, out, calls, -, -, heq⟩ := called_eq c obj method m args none
          rw [heq]
          rfl
      | some spec =>
        obtain ⟨hsize, hnew⟩ := called_new c obj method m args spec
        refine .object ?_ hsize ?_
        · rw [called_issued, if_pos hret]
        · rw [hnew, called_issued, if_pos hret]
          exact hnext

/-! ## It is kept -/

theorem Later.describes (h : Later c c') {msg : C2S} {i : Nat} (hi : i < c.size)
    (horigin : ∀ g, msg = .generic g → g.origin < c.size) (hd : c.Describes msg i) :
    c'.Describes msg i := by
  have hobj := h.objects i hi
  cases msg with
  | bindProtocol seq version name =>
    exact ⟨hobj.protocolName.trans hd.1, by rw [hobj.spec, h.impls]; exact hd.2⟩
  | generic g =>
    obtain ⟨m, hm, hret, hname, hspec⟩ := hd
    have hparent := h.objects g.origin (horigin g rfl)
    refine ⟨m, hparent.methodsOut ▸ hm, hret, ?_, ?_⟩
    · rw [hobj.protocolName, hparent.protocolName]
      exact hname
    · rw [hobj.spec, hparent.protocolName, h.impls]
      exact hspec
  | sup => trivial
  | handshakeAck version => trivial
  | roundtripRequest seq queue => trivial

theorem Growth.issued_le (h : Growth c c') : c.issued ≤ c'.issued := by
  cases h with
  | none hissued _ => exact Nat.le_of_eq hissued.symm
  | number hissued _ => exact hissued ▸ Nat.le_succ _
  | object hissued _ _ => exact hissued ▸ Nat.le_succ _

/-- An object is an old one, or it is new and has the newest number. -/
theorem Growth.cases (h : Growth c c') {i : Nat} (hi : i < c'.size) :
    i < c.size ∨ (i = c.size ∧ (c'.objects i).seq = c'.issued ∧ c'.issued = c.issued + 1) := by
  cases h with
  | none _ hsize => exact .inl (hsize ▸ hi)
  | number _ hsize => exact .inl (hsize ▸ hi)
  | object hissued hsize hseq =>
    rw [hsize] at hi
    rcases Nat.lt_succ_iff_lt_or_eq.mp hi with hlt | rfl
    · exact .inl hlt
    · exact .inr ⟨rfl, hseq, hissued⟩

/-- A message that is there stays worded well. -/
theorem Worded.later {msg : C2S} (hw : Worded c msg) (h : Later c c') (hgrowth : Growth c c') :
    Worded c' msg where
  origin g hg := Nat.lt_of_lt_of_le (hw.origin g hg) h.size
  range seq hseq := ⟨(hw.range seq hseq).1, Nat.le_trans (hw.range seq hseq).2 hgrowth.issued_le⟩
  describes i hi hseq := by
    rcases hgrowth.cases hi with hlt | ⟨-, hnew, hissued⟩
    · rw [(h.objects i hlt).seq] at hseq
      exact h.describes hlt hw.origin (hw.describes i hlt hseq)
    · have hle := (hw.range _ hseq).2
      rw [hnew, hissued] at hle
      exact absurd hle (Nat.not_succ_le_self _)
  asks g m hg hm := by
    rw [(h.objects _ (hw.origin g hg)).methodsOut] at hm
    exact hw.asks g m hg hm

/-- The id a message is sent with has no part in it. -/
theorem Worded.resolved {g : Generic} (hw : Worded c (.generic g)) (id : Nat) :
    Worded c (.generic { g with object := id }) where
  origin g' hg' := by
    cases hg'
    exact hw.origin g rfl
  range seq hseq := hw.range seq hseq
  describes i hi hseq := hw.describes i hi hseq
  asks g' m hg' hm := by
    cases hg'
    exact hw.asks g m rfl hm

/-- The object a bind makes. -/
theorem bound_new {q specVer version : Nat} {proto : ProtocolSpec}
    (hbind : c.bindProtocol q proto specVer version = some c') :
    ∃ spec, proto.objects.head? = some spec ∧ c'.issued = c.issued + 1 ∧ c'.size = c.size + 1 ∧
      c'.impls = c.impls ∧ c'.objects c.size = c.bound q version proto spec := by
  obtain ⟨spec, hspec, rfl⟩ := bindProtocol_eq hbind
  obtain ⟨out, heq⟩ := write_eq (c.fetchAdd.push (c.bound q version proto spec))
    (.bindProtocol c.nextSeq version proto.specName)
  rw [heq]
  exact ⟨spec, hspec, rfl, rfl, rfl, if_pos rfl⟩

/-- The message of a bind asks for the root of its protocol. -/
theorem Numbered.bind_worded (hn : Numbered c) (hbound : c'.issued < wordSize) {q specVer version : Nat}
    {proto : ProtocolSpec} (hproto : c.impls.find? (fun imp => imp.specName = proto.specName) = some proto)
    (hbind : c.bindProtocol q proto specVer version = some c') :
    Worded c' (.bindProtocol c.nextSeq version proto.specName) := by
  obtain ⟨spec, hspec, hissued, hsize, himpls, hnew⟩ := bound_new hbind
  have hnext : c.nextSeq = c.issued + 1 := nextSeq_of_issued hn.seq (hissued ▸ hbound)
  refine ⟨nofun, fun seq hseq => ?_, fun i hi hseq => ?_, nofun⟩
  · cases hseq
    rw [hnext, hissued]
    exact ⟨Nat.succ_ne_zero _, Nat.le_refl _⟩
  · have hcarried : c.issued + 1 = (c'.objects i).seq := hnext.symm.trans (Option.some.inj hseq)
    rw [hsize] at hi
    rcases Nat.lt_succ_iff_lt_or_eq.mp hi with hlt | rfl
    · -- The older objects have smaller numbers.
      have hle := (hn.seqs i hlt).2
      rw [← ((grows_bind hbind).objects i hlt).seq, ← hcarried] at hle
      exact absurd hle (Nat.not_succ_le_self _)
    · rw [Describes, hnew, himpls]
      refine ⟨rfl, ?_⟩
      rw [rootSpec, hproto, Option.bind_some, hspec]
      rfl

/-- The message of a call asks for what its method returns. -/
theorem Numbered.call_worded (hn : Numbered c) (hbound : c'.issued < wordSize) {obj method : Nat}
    {m : MethodSpec} {args : List CallArg} {made : Option ObjectSpec}
    (hcall : IsCall R c c' obj method m args made) :
    Worded c' (.generic (c.message obj method m args)) := by
  have hlt := hn.ledger.lt_of_method hcall.hasMethod
  have hlater : Later c c' := hcall.eq ▸ later_called c obj method m args made
  have hobj := hlater.objects obj hlt
  have hmethod : (c'.objects obj).methodsOut[method]? = some m := hobj.methodsOut ▸ hcall.hasMethod
  have hissued : c'.issued = if m.returnsType ≠ "" then c.issued + 1 else c.issued := by
    rw [hcall.eq, called_issued]
  have hseq : m.returnsType ≠ "" → (c.message obj method m args).seq = c.issued + 1 := by
    intro hret
    rw [hissued, if_pos hret] at hbound
    simp only [message, if_pos hret]
    exact nextSeq_of_issued hn.seq hbound
  refine ⟨fun g hg => ?_, fun seq hcarries => ?_, fun i hi hcarries => ?_, fun g m' hg hm' hret => ?_⟩
  · cases hg
    exact Nat.lt_of_lt_of_le hlt hlater.size
  · by_cases hret : m.returnsType = ""
    · simp [C2S.carries, message, hret] at hcarries
    · simp only [C2S.carries, hseq hret, Nat.succ_ne_zero, if_false, Option.some.injEq] at hcarries
      rw [← hcarries, hissued, if_pos hret]
      exact ⟨Nat.succ_ne_zero _, Nat.le_refl _⟩
  · by_cases hret : m.returnsType = ""
    · simp [C2S.carries, message, hret] at hcarries
    · simp only [C2S.carries, hseq hret, Nat.succ_ne_zero, if_false, Option.some.injEq] at hcarries
      rcases Nat.lt_or_ge i c.size with hold | hge
      · -- The older objects have smaller numbers.
        have hle := (hn.seqs i hold).2
        rw [← (hlater.objects i hold).seq, ← hcarries] at hle
        exact absurd hle (Nat.not_succ_le_self _)
      · cases made with
        | none =>
          refine absurd hi (Nat.not_lt_of_le ?_)
          obtain ⟨f, queues, out, calls, -, -, heq⟩ := called_eq c obj method m args none
          rw [hcall.eq, heq]
          exact hge
        | some spec =>
          obtain ⟨hsize, hnew⟩ := called_new c obj method m args spec
          have hi' : i = c.size := by
            rw [hcall.eq, hsize] at hi
            exact Nat.le_antisymm (Nat.le_of_lt_succ hi) hge
          have hnew' : c'.objects i = { seq := c.nextSeq, protocolName := (c.objects obj).protocolName
                                        spec := some spec, eventQueue := (c.objects obj).eventQueue } := by
            rw [hcall.eq, hi', hnew]
          refine ⟨m, hmethod, hret, ?_, ?_⟩
          · rw [hnew']
            exact hobj.protocolName.symm
          · rw [hnew']
            show some spec = specFor c'.impls (c'.objects obj).protocolName m.returnsType
            rw [hobj.protocolName, hlater.impls]
            exact (hcall.makes spec rfl).2.symm
  · cases hg
    have hm'' : some m' = some m := hm'.symm.trans hmethod
    cases hm''
    rw [hseq hret]
    exact Nat.succ_ne_zero _

/-- A new number is on no message that is there. -/
theorem Worded.fresh {msg msg' : C2S} (hw : Worded c msg)
    (hnew : ∀ seq, msg'.carries = some seq → seq = c.issued + 1) : Fresh msg msg' ∧ Fresh msg' msg := by
  have hne : ∀ seq, msg.carries = some seq → msg'.carries ≠ some seq := by
    intro seq hseq hseq'
    have hle := (hw.range seq hseq).2
    rw [hnew seq hseq'] at hle
    exact Nat.not_succ_le_self _ hle
  exact ⟨hne, fun seq hseq' hseq => hne seq hseq hseq'⟩

/-- The number of a call is the newest one. -/
theorem Numbered.call_carries (hn : Numbered c) (hbound : c'.issued < wordSize) {obj method : Nat}
    {m : MethodSpec} {args : List CallArg} {made : Option ObjectSpec}
    (hcall : IsCall R c c' obj method m args made) (seq : Nat)
    (hcarries : (C2S.generic (c.message obj method m args)).carries = some seq) :
    seq = c.issued + 1 := by
  by_cases hret : m.returnsType = ""
  · simp [C2S.carries, message, hret] at hcarries
  · rw [hcall.eq, called_issued, if_pos hret] at hbound
    simp only [C2S.carries, message, if_pos hret, nextSeq_of_issued hn.seq hbound, Nat.succ_ne_zero,
      if_false, Option.some.injEq] at hcarries
    exact hcarries.symm

/-- What the primitive changes rely on: the protocols that are bound are registered. -/
def registered (impls : List ProtocolSpec) : Rely where
  heard _ := True
  asks _ := True
  binds proto := impls.find? (fun imp => imp.specName = proto.specName) = some proto
  calls _ _ _ := True
  ended _ _ := True
  flushes _ _ := True
  collects _ := True
  drops _ := True

theorem Numbered.fresh_move (hn : Numbered c) (hbound : c'.issued < wordSize)
    (h : Move R c c') : Ordered Fresh Everywhere c' := by
  have hA : Aging Everywhere c c' := fun _ _ _ _ => trivial
  cases h.traffic with
  | quiet hout hqueues => exact hn.fresh.quiet hA hout hqueues
  | tells msg _ hcarries hout hqueues =>
    exact hn.fresh.written hA hout hqueues (fun _ _ => (fresh_of_none hcarries).2)
      fun _ _ _ _ => (fresh_of_none hcarries).1
  | binds q proto specVer version hproto hbind hout hqueues =>
    obtain ⟨spec, -, hissued, -⟩ := bound_new hbind
    have hnext : ∀ seq, (C2S.bindProtocol c.nextSeq version proto.specName).carries = some seq →
        seq = c.issued + 1 := by
      intro seq hseq
      rw [← nextSeq_of_issued hn.seq (hissued ▸ hbound)]
      exact (Option.some.inj hseq).symm
    exact hn.fresh.written hA hout hqueues (fun msg hmsg => ((hn.out msg hmsg).fresh hnext).1)
      fun q entry hentry _ => ((hn.queue q entry hentry).fresh hnext).2
  | sends obj method m args made hcall _ _ hout hqueues =>
    have hnext := hn.call_carries hbound hcall
    exact hn.fresh.written hA hout hqueues (fun msg hmsg => ((hn.out msg hmsg).fresh hnext).1)
      fun q entry hentry _ => ((hn.queue q entry hentry).fresh hnext).2
  | defers obj method m args made hcall _ _ hout hqueues =>
    have hnext := hn.call_carries hbound hcall
    exact hn.fresh.deferred hA hout hqueues (fun msg hmsg => ((hn.out msg hmsg).fresh hnext).1)
      (fun q entry hentry => ((hn.queue q entry hentry).fresh hnext).1)
      fun q _ entry hentry => ((hn.queue q entry hentry).fresh hnext).2
  | flushes q _ _ hout hqueues =>
    refine hn.fresh.flushed blind_fresh hA hout hqueues (fun _ _ _ => trivial) ?_
    intro entry hentry entry' hentry' hresolve hwaits _
    have hne : entry ≠ entry' := by
      intro heq
      subst heq
      exact hn.ledger.same_fate hentry hentry rfl hresolve hwaits
    have hsymm : Std.Symm fun entry entry' : Deferred =>
        Fresh (.generic entry.msg) (.generic entry'.msg) :=
      ⟨fun _ _ hfresh seq hseq hseq' => hfresh seq hseq' hseq⟩
    exact (hn.fresh.queue q).forall hentry hentry' hne

theorem Numbered.out_move (hn : Numbered c) (hbound : c'.issued < wordSize)
    (hbinds : ∀ proto, R.binds proto →
      c.impls.find? (fun imp => imp.specName = proto.specName) = some proto)
    (h : Move R c c') (hgrowth : Growth c c') {msg : C2S} (hmsg : msg ∈ c'.out) : Worded c' msg := by
  have hold : msg ∈ c.out → Worded c' msg := fun hmsg => (hn.out msg hmsg).later h.later hgrowth
  cases h.traffic with
  | quiet hout _ => exact hold (hout ▸ hmsg)
  | tells msg' hgeneric hcarries hout _ =>
    rw [hout] at hmsg
    rcases List.mem_append.mp hmsg with hmsg | hmsg
    · exact hold hmsg
    · rw [List.mem_singleton.mp hmsg]
      refine ⟨fun g hg => ?_, fun seq hseq => ?_, fun i _ hseq => ?_, fun g _ hg => ?_⟩
      · rw [hg] at hgeneric
        cases hgeneric
      · rw [hcarries] at hseq
        cases hseq
      · rw [hcarries] at hseq
        cases hseq
      · rw [hg] at hgeneric
        cases hgeneric
  | binds q proto specVer version hproto hbind hout _ =>
    rw [hout] at hmsg
    rcases List.mem_append.mp hmsg with hmsg | hmsg
    · exact hold hmsg
    · rw [List.mem_singleton.mp hmsg]
      exact hn.bind_worded hbound (hbinds proto hproto) hbind
  | sends obj method m args made hcall _ _ hout _ =>
    rw [hout] at hmsg
    rcases List.mem_append.mp hmsg with hmsg | hmsg
    · exact hold hmsg
    · rw [List.mem_singleton.mp hmsg]
      exact hn.call_worded hbound hcall
  | defers _ _ _ _ _ _ _ _ hout _ => exact hold (hout ▸ hmsg)
  | flushes q _ _ hout _ =>
    rw [hout] at hmsg
    rcases List.mem_append.mp hmsg with hmsg | hmsg
    · exact hold hmsg
    · obtain ⟨g, hg, rfl⟩ := List.mem_map.mp hmsg
      obtain ⟨entry, hentry, hresolve⟩ := List.mem_filterMap.mp hg
      obtain ⟨i, -, -, rfl⟩ := resolve_some hresolve
      exact ((hn.queue q entry hentry).later h.later hgrowth).resolved _

/-- **A primitive change keeps the numbers**, when what is bound is registered. -/
theorem Numbered.move (hn : Numbered c) (hbound : c'.issued < wordSize)
    (hbinds : ∀ proto, R.binds proto →
      c.impls.find? (fun imp => imp.specName = proto.specName) = some proto)
    (h : Move R c c') : Numbered c' := by
  obtain ⟨hseq, hgrowth⟩ := h.growth hn.seq hbound
  have hlater := h.later
  refine ⟨hn.ledger.move h, hseq, fun i hi => ?_, fun i hi j hj heq => ?_,
    fun _ hmsg => hn.out_move hbound hbinds h hgrowth hmsg, fun q entry hentry => ?_,
    hn.fresh_move hbound h⟩
  · rcases hgrowth.cases hi with hlt | ⟨-, hnew, hissued⟩
    · rw [(hlater.objects i hlt).seq]
      exact ⟨(hn.seqs i hlt).1, Nat.le_trans (hn.seqs i hlt).2 hgrowth.issued_le⟩
    · rw [hnew]
      exact ⟨by rw [hissued]; exact Nat.succ_ne_zero _, Nat.le_refl _⟩
  · -- The newest number is that of the newest object.
    have hsmall : ∀ i, i < c.size → (c'.objects i).seq ≤ c.issued := by
      intro i hlt
      rw [(hlater.objects i hlt).seq]
      exact (hn.seqs i hlt).2
    rcases hgrowth.cases hi with hlt | ⟨rfl, hnew, hissued⟩
    · rcases hgrowth.cases hj with hlt' | ⟨rfl, hnew, hissued⟩
      · rw [(hlater.objects i hlt).seq, (hlater.objects j hlt').seq] at heq
        exact hn.inj i hlt j hlt' heq
      · have hle := hsmall i hlt
        rw [heq, hnew, hissued] at hle
        exact absurd hle (Nat.not_succ_le_self _)
    · rcases hgrowth.cases hj with hlt' | ⟨rfl, -, -⟩
      · have hle := hsmall j hlt'
        rw [← heq, hnew, hissued] at hle
        exact absurd hle (Nat.not_succ_le_self _)
      · rfl
  · rcases h.queued hentry with hold | ⟨obj, method, m, args, made, hcall, -, -, -, rfl⟩
    · exact (hn.queue q entry hold).later hlater hgrowth
    · exact hn.call_worded hbound hcall

/-- What a client keeps true of its numbers while it has some left. -/
def Counts (impls : List ProtocolSpec) (c : Client) : Prop :=
  c.impls = impls ∧ (c.issued < wordSize → Numbered c)

theorem granted_registered {impls : List ProtocolSpec} {a : Action}
    (hbind : ∀ q proto version, a = .bind q proto version →
      impls.find? (fun imp => imp.specName = proto.specName) = some proto) :
    Granted (registered impls) c a := by
  cases a with
  | bind q proto version => exact hbind q proto version rfl
  | send obj method args => exact fun _ _ => trivial
  | handle q => exact fun _ _ _ => ⟨trivial, fun _ _ _ _ => trivial⟩
  | return_ q => exact fun _ _ _ _ => trivial
  | finish q => exact ⟨trivial, trivial⟩
  | _ => trivial

/-- **Every step keeps the numbers**, when what is bound is registered. -/
theorem Counts.step {impls : List ProtocolSpec} {a : Action} (hc : Counts impls c) (hledger : Ledger c)
    (hbind : ∀ q proto version, a = .bind q proto version →
      impls.find? (fun imp => imp.specName = proto.specName) = some proto)
    (h : Client.step c a = some c') : Counts impls c' := by
  refine (moves_step hledger.table_lt (granted_registered hbind) h).invariant
    (P := Counts impls) (fun t t' ht hmove => ?_) hc
  refine ⟨hmove.later.impls.trans ht.1, fun hbound => ?_⟩
  have hwas : t.issued < wordSize := Nat.lt_of_le_of_lt hmove.later.issued hbound
  exact (ht.2 hwas).move hbound (fun proto hproto => ht.1.symm ▸ hproto) hmove

/-- What a step makes has a number that was not given out before. -/
theorem Counts.newer {impls : List ProtocolSpec} {a : Action} (hc : Counts impls c)
    (hledger : Ledger c)
    (hbind : ∀ q proto version, a = .bind q proto version →
      impls.find? (fun imp => imp.specName = proto.specName) = some proto)
    (h : Client.step c a = some c') (hbound : c'.issued < wordSize) {i : Nat} (hge : c.size ≤ i)
    (hi : i < c'.size) : c.issued < (c'.objects i).seq := by
  have hinv : Counts impls c' ∧ c.issued ≤ c'.issued ∧
      (c'.issued < wordSize → ∀ i, c.size ≤ i → i < c'.size → c.issued < (c'.objects i).seq) := by
    refine (moves_step hledger.table_lt (granted_registered hbind) h).invariant
      (P := fun t => Counts impls t ∧ c.issued ≤ t.issued ∧
        (t.issued < wordSize → ∀ i, c.size ≤ i → i < t.size → c.issued < (t.objects i).seq))
      (fun t t' ht hmove => ?_)
      ⟨hc, Nat.le_refl _, fun _ i hge hi => absurd hi (Nat.not_lt_of_le hge)⟩
    obtain ⟨hcounts, hle, hnew⟩ := ht
    have hlater := hmove.later
    have hwas : t'.issued < wordSize → t.issued < wordSize := Nat.lt_of_le_of_lt hlater.issued
    refine ⟨⟨hlater.impls.trans hcounts.1, fun hbound => ?_⟩, Nat.le_trans hle hlater.issued,
      fun hbound i hge hi => ?_⟩
    · exact (hcounts.2 (hwas hbound)).move hbound (fun proto hproto => hcounts.1.symm ▸ hproto) hmove
    · obtain ⟨-, hgrowth⟩ := hmove.growth (hcounts.2 (hwas hbound)).seq hbound
      rcases hgrowth.cases hi with hlt | ⟨-, hseq, hissued⟩
      · rw [(hlater.objects i hlt).seq]
        exact hnew (hwas hbound) i hge hlt
      · rw [hseq, hissued]
        exact Nat.lt_succ_of_le hle
  exact hinv.2.2 hbound i hge hi

end Hyprwire.Client
