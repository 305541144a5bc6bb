import Mathlib.Logic.Relation
import Hyprwire.System.Client

/-!
# `System/Move.lean` — what a step of a client is made of

Fifteen actions, most of them several functions deep, come down to a few primitive changes of
the client's state (`Move`): an object is bound or called on, an id arrives, objects leave the
table, a queue is flushed, a message of another kind is written, and a good deal happens to
fields that decide nothing on the wire (`Tweak`). `moves_step` says so once, with what the
primitive changes can rely on; an invariant is then proved change by change.
-/

namespace Hyprwire.Client

variable {c c' c'' : Client}

/-! ## Changes that decide nothing on the wire -/

/-- The same object, but for who holds it, its object data and whether it was destroyed. -/
structure SameObject (obj obj' : ClientObject) : Prop where
  seq : obj'.seq = obj.seq
  id : obj'.id = obj.id
  version : obj'.version = obj.version
  protocolName : obj'.protocolName = obj.protocolName
  spec : obj'.spec = obj.spec
  eventQueue : obj'.eventQueue = obj.eventQueue
  destroyed : obj.destroyed = true → obj'.destroyed = true

/-- The same queue, but for its phase and that a roundtrip can end. -/
structure SameQueue (old new : EventQueue) : Prop where
  live : new.live = old.live
  queue : new.queue = old.queue
  lastSent : new.lastSent = old.lastSent
  lastAckd : new.lastAckd = old.lastAckd
  inRoundtrip : new.inRoundtrip = true → old.inRoundtrip = true
  marked : new.marked = old.marked
  credited : new.credited = old.credited

/-- **A change to nothing but flags**, phases and counts. -/
structure Tweak (c c' : Client) : Prop where
  impls : c'.impls = c.impls
  objects : ∀ h, SameObject (c.objects h) (c'.objects h)
  size : c'.size = c.size
  table : c'.table = c.table
  seq : c'.seq = c.seq
  queues : ∀ q, SameQueue (c.queues q) (c'.queues q)
  shut : c.shut = true → c'.shut = true
  out : c'.out = c.out
  issued : c'.issued = c.issued
  calls : c'.calls = c.calls
  handled : c'.handled = c.handled
  destructed : c'.destructed = c.destructed

theorem SameObject.refl (obj : ClientObject) : SameObject obj obj :=
  ⟨rfl, rfl, rfl, rfl, rfl, rfl, fun h => h⟩

theorem SameQueue.refl (queue : EventQueue) : SameQueue queue queue :=
  ⟨rfl, rfl, rfl, rfl, fun h => h, rfl, rfl⟩

theorem Tweak.refl (c : Client) : Tweak c c where
  impls := rfl
  objects _ := .refl _
  size := rfl
  table := rfl
  seq := rfl
  queues _ := .refl _
  shut h := h
  out := rfl
  issued := rfl
  calls := rfl
  handled := rfl
  destructed := rfl

/-- An object is touched in what does not matter. -/
theorem Tweak.setObject (c : Client) (h : Nat) {f : ClientObject → ClientObject}
    (hf : ∀ obj, SameObject obj (f obj)) : Tweak c (c.setObject h f) where
  __ := Tweak.refl c
  objects i := by
    simp only [Client.setObject]
    split
    · exact hf _
    · exact .refl _

/-- A queue is touched in what does not matter. -/
theorem Tweak.setQueue (c : Client) (q : Nat) {f : EventQueue → EventQueue}
    (hf : ∀ queue, SameQueue queue (f queue)) : Tweak c (c.setQueue q f) where
  __ := Tweak.refl c
  queues i := by
    simp only [Client.setQueue]
    split
    · exact hf _
    · exact .refl _

theorem Tweak.setPhase (c : Client) (q : Nat) (phase : Phase) : Tweak c (c.setPhase q phase) :=
  .setQueue c q fun _ => ⟨rfl, rfl, rfl, rfl, fun h => h, rfl, rfl⟩

theorem Tweak.adopt (c : Client) (h : Nat) : Tweak c (c.adopt h) :=
  .setObject c h fun _ => ⟨rfl, rfl, rfl, rfl, rfl, rfl, fun h => h⟩

theorem Tweak.disconnectOnError (c : Client) : Tweak c c.disconnectOnError where
  __ := Tweak.refl c
  shut _ := rfl

/-- A roundtrip is over, one way or the other. -/
theorem Tweak.endRoundtrip (c : Client) (q : Nat) :
    Tweak c (c.setQueue q fun queue => { queue with inRoundtrip := false }) :=
  .setQueue c q fun _ => ⟨rfl, rfl, rfl, rfl, (fun h => by cases h), rfl, rfl⟩

theorem Tweak.abort (c : Client) (q : Nat) : Tweak c (c.abort q) where
  __ := Tweak.setQueue c q
    (f := fun queue => { queue with phase := .idle, inRoundtrip := false })
    fun _ => ⟨rfl, rfl, rfl, rfl, (fun h => by cases h), rfl, rfl⟩
  shut _ := rfl

/-! ## A call, in one piece -/

/-- The message of a call. -/
def message (c : Client) (h method : Nat) (m : MethodSpec) (args : List CallArg) : Generic :=
  { object := (c.objects h).id, method, args
    seq := if m.returnsType ≠ "" then c.nextSeq else 0
    origin := h, call := c.calls.length, destructor := m.destructor }

/-- What a call does before its message goes anywhere. -/
def readied (c : Client) (h : Nat) (m : MethodSpec) : Client :=
  if m.returnsType ≠ "" then (c.markDestroyed h m).fetchAdd else c.markDestroyed h m

/-- The state a call leaves, with the object it makes when `made` is its interface. -/
def called (c : Client) (h method : Nat) (m : MethodSpec) (args : List CallArg)
    (made : Option ObjectSpec) : Client :=
  let c' := (c.readied h m).route h (c.message h method m args)
  match made with
  | none => c'
  | some spec =>
    c'.push { seq := c.nextSeq, protocolName := (c.objects h).protocolName, spec := some spec
              eventQueue := (c.objects h).eventQueue }

/-- When a call makes an object, and of which interface. -/
def Makes (c : Client) (h : Nat) (m : MethodSpec) (made : Option ObjectSpec) : Prop :=
  ∀ spec, made = some spec → m.returnsType ≠ "" ∧
    specFor c.impls (c.objects h).protocolName m.returnsType = some spec

/-- Writing touches nothing but what is on the wire. -/
theorem write_eq (c : Client) (msg : C2S) : ∃ out, c.write msg = { c with out } := by
  unfold write
  split
  · exact ⟨_, rfl⟩
  · exact ⟨_, rfl⟩

/-- Routing a message touches the wire, a queue and the record of it. -/
theorem route_eq (c : Client) (h : Nat) (msg : Generic) :
    ∃ queues out calls, c.route h msg = { c with queues, out, calls } := by
  unfold route
  simp only
  split
  · split
    · exact ⟨_, _, _, rfl⟩
    · exact ⟨_, _, _, rfl⟩
  · obtain ⟨out, heq⟩ := write_eq (c.record ⟨h, msg.method, false⟩) (.generic msg)
    exact ⟨_, out, _, heq⟩

theorem markDestroyed_eq (c : Client) (h : Nat) (m : MethodSpec) :
    ∃ f, (∀ obj, SameObject obj (f obj)) ∧ c.markDestroyed h m = c.setObject h f := by
  unfold markDestroyed
  split
  · exact ⟨fun obj => { obj with destroyed := true },
      fun _ => ⟨rfl, rfl, rfl, rfl, rfl, rfl, fun _ => rfl⟩, rfl⟩
  · refine ⟨fun obj => obj, fun _ => .refl _, ?_⟩
    simp [setObject]

/-- Readying a call touches flags and the counter. -/
theorem readied_eq (c : Client) (h : Nat) (m : MethodSpec) :
    ∃ f, (∀ obj, SameObject obj (f obj)) ∧ c.readied h m =
      { c.setObject h f with
        seq := if m.returnsType ≠ "" then c.nextSeq else c.seq
        issued := if m.returnsType ≠ "" then c.issued + 1 else c.issued } := by
  obtain ⟨f, hf, heq⟩ := markDestroyed_eq c h m
  refine ⟨f, hf, ?_⟩
  unfold readied
  rw [heq]
  split <;> rfl

/-- `callMethod` is one of these. -/
theorem callMethod_eq (c : Client) (h method : Nat) (m : MethodSpec) (args : List CallArg) :
    ∃ made, Makes c h m made ∧ (c.callMethod h method m args).1 = c.called h method m args made := by
  have hnone : Makes c h m none := nofun
  obtain ⟨f, -, heq⟩ := markDestroyed_eq c h m
  by_cases hret : m.returnsType = ""
  · exact ⟨none, hnone, by simp [callMethod, called, message, readied, hret, heq, setObject]⟩
  · have hnext : (c.markDestroyed h m).nextSeq = c.nextSeq := by rw [heq]; rfl
    unfold callMethod
    simp only [ne_eq, hret, not_false_eq_true, if_true, hnext]
    split
    · refine ⟨none, hnone, ?_⟩
      simp [called, message, readied, hret, fetchAdd, heq, setObject]
    · have himpls : ∀ (c : Client) msg, (c.route h msg).impls = c.impls := by
        intro c msg
        obtain ⟨queues, out, calls, hroute⟩ := route_eq c h msg
        rw [hroute]
      split
      · cases hspec : specFor c.impls (c.objects h).protocolName m.returnsType with
        | none =>
          refine ⟨none, hnone, ?_⟩
          simp [makeObject, himpls, fetchAdd, heq, setObject, hspec, called, message, readied, hret]
        | some spec =>
          refine ⟨some spec, fun spec' h' => ⟨hret, by rw [hspec, h']⟩, ?_⟩
          simp [makeObject, himpls, fetchAdd, heq, setObject, hspec, called, message, readied, hret]
      · refine ⟨none, hnone, ?_⟩
        simp [called, message, readied, hret, fetchAdd, heq, setObject]

/-! ### What it leaves -/

theorem write_out (c : Client) (msg : C2S) :
    (c.write msg).out = if c.shut then c.out else c.out ++ [msg] := by
  unfold write
  split <;> rfl

/-- Where the message of a call on `h` has gone. -/
inductive Goes (c c' : Client) (h : Nat) (msg : Generic) : Prop
  | lost (hid : (c.objects h).id = 0) (hlive : (c.queues (c.objects h).eventQueue).live = false)
      (hqueues : c'.queues = c.queues) (hout : c'.out = c.out) (hcalls : c'.calls = c.calls)
  | queued (hid : (c.objects h).id = 0)
      (hqueues : c'.queues =
        (c.defer (c.objects h).eventQueue ⟨msg, (c.objects h).seq⟩).queues)
      (hout : c'.out = c.out) (hcalls : c'.calls = c.calls ++ [⟨h, msg.method, true⟩])
  | written (hid : (c.objects h).id ≠ 0) (hqueues : c'.queues = c.queues)
      (hout : c'.out = (c.write (.generic msg)).out)
      (hcalls : c'.calls = c.calls ++ [⟨h, msg.method, false⟩])

/-- Objects are added at most, and at the end. -/
structure Grows (c c' : Client) : Prop where
  impls : c'.impls = c.impls
  objects : ∀ i, i < c.size → SameObject (c.objects i) (c'.objects i)
  grown : (c'.size = c.size ∧ c'.table = c.table) ∨
    (c'.size = c.size + 1 ∧ c'.table = c.table ++ [c.size] ∧ (c'.objects c.size).id = 0)
  beyond : ∀ i, c'.size ≤ i → SameObject (c.objects i) (c'.objects i)
  shut : c'.shut = c.shut
  handled : c'.handled = c.handled
  destructed : c'.destructed = c.destructed

theorem readied_sameObject (c : Client) (h : Nat) (m : MethodSpec) (i : Nat) :
    SameObject (c.objects i) ((c.readied h m).objects i) := by
  obtain ⟨f, hf, heq⟩ := readied_eq c h m
  rw [heq]
  exact (Tweak.setObject c h hf).objects i

theorem readied_destroyed (c : Client) {h : Nat} {m : MethodSpec} (hdes : m.destructor = true) :
    ((c.readied h m).objects h).destroyed = true := by
  simp only [readied, markDestroyed, hdes, if_true]
  split <;> simp [fetchAdd, setObject]

theorem goes_route {c c₁ : Client} {h : Nat} (msg : Generic)
    (hobj : SameObject (c.objects h) (c₁.objects h)) (hqueues : c₁.queues = c.queues)
    (hout : c₁.out = c.out) (hcalls : c₁.calls = c.calls) (hshut : c₁.shut = c.shut) :
    Goes c (c₁.route h msg) h msg := by
  unfold route
  simp only [hobj.id, hobj.eventQueue, hobj.seq, hqueues]
  split
  · next hid =>
    split
    · exact .queued hid (by simp [defer, setQueue, record, hqueues]) hout
        (by simp [defer, setQueue, record, hcalls])
    · next hlive => exact .lost hid (by simpa using hlive) hqueues hout hcalls
  · next hid =>
    obtain ⟨out, heq⟩ := write_eq (c₁.record ⟨h, msg.method, false⟩) (.generic msg)
    refine .written hid (by rw [heq]; exact hqueues) ?_ (by rw [heq]; simp [record, hcalls])
    rw [write_out, write_out]
    simp [record, hshut, hout]

theorem goes_called (c : Client) (h method : Nat) (m : MethodSpec) (args : List CallArg)
    (made : Option ObjectSpec) :
    Goes c (c.called h method m args made) h (c.message h method m args) := by
  obtain ⟨f, hf, heq⟩ := readied_eq c h m
  have hgoes : Goes c ((c.readied h m).route h (c.message h method m args)) h
      (c.message h method m args) :=
    goes_route _ (readied_sameObject c h m h) (by rw [heq]; rfl) (by rw [heq]; rfl)
      (by rw [heq]; rfl) (by rw [heq]; rfl)
  unfold called
  cases made with
  | none => exact hgoes
  | some spec =>
    cases hgoes with
    | lost hid hlive hqueues hout hcalls => exact .lost hid hlive hqueues hout hcalls
    | queued hid hqueues hout hcalls => exact .queued hid hqueues hout hcalls
    | written hid hqueues hout hcalls => exact .written hid hqueues hout hcalls

/-- What a call does besides sending its message. -/
theorem called_eq (c : Client) (h method : Nat) (m : MethodSpec) (args : List CallArg)
    (made : Option ObjectSpec) :
    ∃ f queues out calls, (∀ obj, SameObject obj (f obj)) ∧
      (m.destructor = true → (f (c.objects h)).destroyed = true) ∧
      c.called h method m args made =
        let c' : Client :=
          { c.setObject h f with
            seq := if m.returnsType ≠ "" then c.nextSeq else c.seq
            issued := if m.returnsType ≠ "" then c.issued + 1 else c.issued
            queues, out, calls }
        match made with
        | none => c'
        | some spec =>
          c'.push { seq := c.nextSeq, protocolName := (c.objects h).protocolName
                    spec := some spec, eventQueue := (c.objects h).eventQueue } := by
  obtain ⟨f, hf, heq⟩ := readied_eq c h m
  obtain ⟨queues, out, calls, hroute⟩ := route_eq (c.readied h m) h (c.message h method m args)
  refine ⟨f, queues, out, calls, hf, fun hdes => ?_, ?_⟩
  · have := readied_destroyed c (h := h) hdes
    rw [heq] at this
    simpa [setObject] using this
  · unfold called
    rw [hroute, heq]

theorem called_issued (c : Client) (h method : Nat) (m : MethodSpec) (args : List CallArg)
    (made : Option ObjectSpec) :
    (c.called h method m args made).issued =
      if m.returnsType ≠ "" then c.issued + 1 else c.issued := by
  obtain ⟨f, queues, out, calls, -, -, heq⟩ := called_eq c h method m args made
  rw [heq]
  cases made <;> rfl

theorem called_seq (c : Client) (h method : Nat) (m : MethodSpec) (args : List CallArg)
    (made : Option ObjectSpec) :
    (c.called h method m args made).seq = if m.returnsType ≠ "" then c.nextSeq else c.seq := by
  obtain ⟨f, queues, out, calls, -, -, heq⟩ := called_eq c h method m args made
  rw [heq]
  cases made <;> rfl

/-- The object a call makes. -/
theorem called_new (c : Client) (h method : Nat) (m : MethodSpec) (args : List CallArg)
    (spec : ObjectSpec) :
    (c.called h method m args (some spec)).size = c.size + 1 ∧
      (c.called h method m args (some spec)).objects c.size =
        { seq := c.nextSeq, protocolName := (c.objects h).protocolName, spec := some spec
          eventQueue := (c.objects h).eventQueue } := by
  obtain ⟨f, queues, out, calls, -, -, heq⟩ := called_eq c h method m args (some spec)
  rw [heq]
  exact ⟨rfl, if_pos rfl⟩

theorem called_destroyed (c : Client) {h : Nat} (method : Nat) {m : MethodSpec}
    (args : List CallArg) (made : Option ObjectSpec) (hh : h < c.size)
    (hdes : m.destructor = true) :
    ((c.called h method m args made).objects h).destroyed = true := by
  obtain ⟨f, queues, out, calls, -, hdestroyed, heq⟩ := called_eq c h method m args made
  rw [heq]
  cases made with
  | none => simpa [setObject] using hdestroyed hdes
  | some spec => simpa [push, setObject, Nat.ne_of_lt hh] using hdestroyed hdes

theorem grows_called (c : Client) (h method : Nat) (m : MethodSpec) (args : List CallArg)
    (made : Option ObjectSpec) : Grows c (c.called h method m args made) := by
  obtain ⟨f, queues, out, calls, hf, -, heq⟩ := called_eq c h method m args made
  have hsame := (Tweak.setObject c h hf).objects
  rw [heq]
  cases made with
  | none => exact ⟨rfl, fun i _ => hsame i, .inl ⟨rfl, rfl⟩, fun i _ => hsame i, rfl, rfl, rfl⟩
  | some spec =>
    refine ⟨rfl, fun i hi => ?_, .inr ⟨rfl, rfl, ?_⟩, fun i hi => ?_, rfl, rfl, rfl⟩
    · simpa [push, setObject, Nat.ne_of_lt hi] using hsame i
    · simp [push, setObject]
    · have hi' : i ≠ c.size := fun h' => absurd hi (by simp [push, setObject, h'])
      simpa [push, setObject, hi'] using hsame i

/-! ## The flush, in one piece -/

/-- The message a deferred entry is sent as, when it is. -/
def resolve (c : Client) (entry : Deferred) : Option Generic :=
  match c.objectForSeq entry.dependsOnSeq with
  | none => none
  | some h =>
    if (c.objects h).id = 0 then none
    else some { entry.msg with object := (c.objects h).id }

/-- The entry stays in the queue. -/
def waits (c : Client) (entry : Deferred) : Bool :=
  match c.objectForSeq entry.dependsOnSeq with
  | none => false
  | some h => (c.objects h).id = 0

/-- The messages a flush of `q` sends. -/
def flushed (c : Client) (q : Nat) : List C2S :=
  ((c.queues q).queue.filterMap c.resolve).map .generic

/-- The state after some entries of a flush. -/
def afterEntries (c : Client) (q : Nat) (entries : List Deferred) : Client :=
  { c.setQueue q fun queue => { queue with queue := queue.queue ++ entries.filter c.waits } with
    out := if c.shut then c.out else c.out ++ (entries.filterMap c.resolve).map .generic }

theorem setQueue_setQueue (c : Client) (q : Nat) (f g : EventQueue → EventQueue) :
    (c.setQueue q f).setQueue q g = c.setQueue q fun queue => g (f queue) := by
  unfold setQueue
  congr 1
  funext i
  by_cases hi : i = q <;> simp [hi]

theorem setQueue_same (c : Client) (q : Nat) : (c.setQueue q fun queue => queue) = c := by
  simp [setQueue]

theorem foldl_flushEntry (q : Nat) : ∀ (entries : List Deferred) (c : Client),
    entries.foldl (flushEntry q) c = c.afterEntries q entries
  | [], c => by simp [afterEntries, setQueue_same]
  | entry :: entries, c => by
    rw [List.foldl_cons, foldl_flushEntry q entries]
    cases hseq : c.objectForSeq entry.dependsOnSeq with
    | none =>
      have hwaits : c.waits entry = false := by simp [waits, hseq]
      have hresolve : c.resolve entry = none := by simp [resolve, hseq]
      simp [flushEntry, hseq, afterEntries, hwaits, hresolve]
    | some h =>
      by_cases hid : (c.objects h).id = 0
      · have hwaits : c.waits entry = true := by simp [waits, hseq, hid]
        have hresolve : c.resolve entry = none := by simp [resolve, hseq, hid]
        have hsame : (c.defer q entry).waits = c.waits ∧ (c.defer q entry).resolve = c.resolve :=
          ⟨rfl, rfl⟩
        simp only [flushEntry, hseq, hid, if_true, afterEntries, hsame, List.filterMap_cons, hresolve,
          List.filter_cons, hwaits]
        unfold defer
        rw [setQueue_setQueue]
        simp [setQueue]
      · have hwaits : c.waits entry = false := by simp [waits, hseq, hid]
        have hresolve :
            c.resolve entry = some { entry.msg with object := (c.objects h).id } := by
          simp [resolve, hseq, hid]
        simp only [flushEntry, hseq, hid, if_false]
        by_cases hshut : c.shut = true
        · simp [write, hshut, afterEntries, hwaits]
        · simp [write, hshut, afterEntries, hwaits, hresolve, setQueue]
          exact ⟨rfl, rfl⟩

/-- **A flush** sends what it can resolve and keeps what waits, in the order of the queue. -/
theorem flush_eq (c : Client) (q : Nat) :
    c.flush q = { c.setQueue q fun queue => { queue with queue := queue.queue.filter c.waits } with
      out := if c.shut then c.out else c.out ++ c.flushed q } := by
  unfold flush
  rw [foldl_flushEntry, afterEntries, setQueue_setQueue]
  have hsame : ∀ f, (c.setQueue q f).waits = c.waits ∧ (c.setQueue q f).resolve = c.resolve :=
    fun _ => ⟨rfl, rfl⟩
  simp only [hsame, flushed, List.nil_append]
  unfold setQueue
  congr 1
  funext i
  by_cases hi : i = q <;> simp [hi]

theorem flush_out (c : Client) (q : Nat) :
    (c.flush q).out = if c.shut then c.out else c.out ++ c.flushed q := by
  rw [flush_eq]

theorem flush_queues (c : Client) (q : Nat) :
    (c.flush q).queues =
      (c.setQueue q fun queue => { queue with queue := queue.queue.filter c.waits }).queues := by
  rw [flush_eq]

/-! ## Primitive changes -/

/-- The request of a roundtrip. -/
def ask (c : Client) (q : Nat) : Client :=
  let lastSent := ((c.queues q).lastSent + 1) % wordSize
  (c.setQueue q fun queue =>
    { queue with lastSent, inRoundtrip := true, marked := c.out.length }).write
      (.roundtripRequest lastSent q)

/-- What the primitive changes of a step can rely on: the messages of the other side it hears,
the queues that start a roundtrip, the protocols it binds, the calls that are made, the events
whose handling ends (object and method), what holds where a queue is flushed and where orphans
are collected, and the queues that are dropped. -/
structure Rely where
  heard : S2C → Prop
  asks : Nat → Prop
  binds : ProtocolSpec → Prop
  calls : Client → Nat → MethodSpec → Prop
  ended : Nat → Nat → Prop
  flushes : Client → Nat → Prop
  collects : Client → Prop
  drops : Nat → Prop

/-- Nothing is asked for. -/
def anything : Rely where
  heard _ := True
  asks _ := True
  binds _ := True
  calls _ _ _ := True
  ended _ _ := True
  flushes _ _ := True
  collects _ := True
  drops _ := True

variable {R : Rely}

/-- A call. The destructor that `Drop` calls is on an object off the table, which nobody had
destroyed. -/
structure IsCall (R : Rely) (c c' : Client) (h method : Nat) (m : MethodSpec)
    (args : List CallArg) (made : Option ObjectSpec) : Prop where
  eq : c' = c.called h method m args made
  hasMethod : (c.objects h).methodsOut[method]? = some m
  makes : Makes c h m made
  allowed : (h ∉ c.table ∧ (c.objects h).destroyed = false ∧ (c.objects h).id ≠ 0) ∨
    R.calls c h m

/-- **One primitive change.** -/
inductive Move (R : Rely) : Client → Client → Prop
  | tweak {c c' : Client} (h : Tweak c c') : Move R c c'
  | hear (c : Client) {msg : S2C} (h : R.heard msg) :
      Move R c { c with handled := c.handled ++ [msg] }
  | acknowledge (c : Client) (version : Nat) : Move R c (c.write (.handshakeAck version))
  | ask (c : Client) (q : Nat) (h : R.asks q) : Move R c (c.ask q)
  | acked (c : Client) (q : Nat) {seq request : Nat} (h : R.heard (.roundtripDone seq request)) :
      Move R c (c.setQueue q fun queue =>
        { queue with lastAckd := seq, credited := queue.credited ++ [request] })
  | bind {c c' : Client} (q : Nat) {proto : ProtocolSpec} (specVer version : Nat)
      (h : R.binds proto) (h' : c.bindProtocol q proto specVer version = some c') : Move R c c'
  | call {c c' : Client} {h method : Nat} {m : MethodSpec} {args : List CallArg}
      {made : Option ObjectSpec} (h : IsCall R c c' h method m args made) : Move R c c'
  | named (c : Client) {seq id : Nat} (h : R.heard (.newObject seq id))
      (h' : .newObject seq id ∈ c.handled) : Move R c (c.onSeq seq id)
  | collect (c : Client) (h : R.collects c) :
      Move R c { c with table := c.table.filter fun h => !c.orphaned h }
  | destroy (c : Client) {h method : Nat} {m : MethodSpec} (hend : R.ended h method)
      (hm : (c.objects h).methodsIn[method]? = some m) (hdes : m.destructor = true)
      (hid : (c.objects h).id ≠ 0) (hgone : (c.objects h).destroyed = true) :
      Move R c
        { c with
          destructed := c.destructed
            ++ c.table.filter fun i => decide ((c.objects i).id = (c.objects h).id)
          table := c.table.filter fun i => !decide ((c.objects i).id = (c.objects h).id) }
  | flush (c : Client) (q : Nat) (h : R.flushes c q) : Move R c (c.flush q)
  | dropQueue (c : Client) (q : Nat) (h : R.drops q) :
      Move R c (c.setQueue q fun queue => { queue with live := false, queue := [] })

/-- Any number of them. -/
abbrev Moves (R : Rely) : Client → Client → Prop := Relation.ReflTransGen (Move R)

theorem Moves.one (h : Move R c c') : Moves R c c' := .single h

theorem Moves.tweak (h : Tweak c c') : Moves R c c' := .single (.tweak h)

/-- **What every primitive change preserves is preserved by a step.** -/
theorem Moves.invariant {P : Client → Prop} (hmove : ∀ c c', P c → Move R c c' → P c')
    (h : Moves R c c') (hc : P c) : P c' := by
  induction h with
  | refl => exact hc
  | tail _ hm ih => exact hmove _ _ ih hm

/-! ## What calls and drops leave alone -/

/-- The table only shrinks, or grows at the end of the arena; nothing is heard, no dispatch goes
on, begins or ends, and no error comes up. -/
structure Frame (c c' : Client) : Prop where
  size : c.size ≤ c'.size
  table : ∀ i ∈ c'.table, i ∈ c.table ∨ c.size ≤ i
  phase : ∀ q, (c'.queues q).phase = (c.queues q).phase
  inRoundtrip : ∀ q, (c'.queues q).inRoundtrip = (c.queues q).inRoundtrip
  live : ∀ q, (c'.queues q).live = (c.queues q).live
  error : c'.error = c.error
  shut : c'.shut = c.shut
  handled : c'.handled = c.handled
  unknownObject : c'.unknownObject = c.unknownObject

theorem Frame.refl (c : Client) : Frame c c where
  size := Nat.le_refl _
  table _ h := .inl h
  phase _ := rfl
  inRoundtrip _ := rfl
  live _ := rfl
  error := rfl
  shut := rfl
  handled := rfl
  unknownObject := rfl

theorem Frame.trans (h : Frame c c') (h' : Frame c' c'') : Frame c c'' where
  size := Nat.le_trans h.size h'.size
  table i hi := by
    rcases h'.table i hi with hi | hi
    · exact h.table i hi
    · exact .inr (Nat.le_trans h.size hi)
  phase q := (h'.phase q).trans (h.phase q)
  inRoundtrip q := (h'.inRoundtrip q).trans (h.inRoundtrip q)
  live q := (h'.live q).trans (h.live q)
  error := h'.error.trans h.error
  shut := h'.shut.trans h.shut
  handled := h'.handled.trans h.handled
  unknownObject := h'.unknownObject.trans h.unknownObject

theorem Frame.setObject (c : Client) (h : Nat) (f : ClientObject → ClientObject) :
    Frame c (c.setObject h f) :=
  { Frame.refl c with }

theorem Frame.write (c : Client) (msg : C2S) : Frame c (c.write msg) := by
  obtain ⟨out, heq⟩ := write_eq c msg
  rw [heq]
  exact { Frame.refl c with }

/-- A change of a queue that leaves its dispatch alone. -/
theorem Frame.setQueue (c : Client) (q : Nat) {f : EventQueue → EventQueue}
    (hf : ∀ queue, (f queue).phase = queue.phase ∧ (f queue).inRoundtrip = queue.inRoundtrip ∧
      (f queue).live = queue.live) : Frame c (c.setQueue q f) where
  __ := Frame.refl c
  phase i := by
    simp only [Client.setQueue]
    split
    · exact (hf _).1
    · rfl
  inRoundtrip i := by
    simp only [Client.setQueue]
    split
    · exact (hf _).2.1
    · rfl
  live i := by
    simp only [Client.setQueue]
    split
    · exact (hf _).2.2
    · rfl

theorem Frame.defer (c : Client) (q : Nat) (entry : Deferred) : Frame c (c.defer q entry) :=
  .setQueue c q fun _ => ⟨rfl, rfl, rfl⟩

theorem Frame.push (c : Client) (obj : ClientObject) : Frame c (c.push obj) where
  __ := Frame.refl c
  size := Nat.le_succ _
  table i hi := by
    rcases List.mem_append.mp hi with hi | hi
    · exact .inl hi
    · exact .inr (Nat.le_of_eq (List.mem_singleton.mp hi).symm)

theorem Frame.route (c : Client) (h : Nat) (msg : Generic) : Frame c (c.route h msg) := by
  have hrecord : ∀ call, Frame c (c.record call) := fun _ => { Frame.refl c with }
  unfold Client.route
  simp only
  split
  · split
    · exact (hrecord _).trans (Frame.defer ..)
    · exact .refl c
  · exact (hrecord _).trans (Frame.write ..)

theorem Frame.readied (c : Client) (h : Nat) (m : MethodSpec) : Frame c (c.readied h m) := by
  obtain ⟨f, -, heq⟩ := readied_eq c h m
  rw [heq]
  exact { Frame.refl c with }

theorem Frame.called (c : Client) (h method : Nat) (m : MethodSpec) (args : List CallArg)
    (made : Option ObjectSpec) : Frame c (c.called h method m args made) := by
  have hroute := (Frame.readied c h m).trans (Frame.route _ h (c.message h method m args))
  unfold Client.called
  cases made with
  | none => exact hroute
  | some spec => exact hroute.trans (Frame.push ..)

theorem Frame.call (c : Client) (h method : Nat) (args : List CallArg) :
    Frame c (c.call h method args).1 := by
  unfold Client.call
  split
  · exact .refl c
  · next m hm =>
    split
    · exact .refl c
    · obtain ⟨made, -, heq⟩ := callMethod_eq c h method m args
      rw [heq]
      exact Frame.called ..

theorem Frame.dropUnlessHeld (c : Client) (h : Nat) : Frame c (c.dropUnlessHeld h) := by
  unfold Client.dropUnlessHeld dropObject
  split
  · exact .refl c
  · split
    · exact Frame.call ..
    · exact .refl c

theorem Frame.drops : ∀ (gone : List Nat) (c : Client), Frame c (gone.foldl Client.dropUnlessHeld c)
  | [], c => .refl c
  | h :: gone, c => (Frame.dropUnlessHeld c h).trans (Frame.drops gone _)

theorem Frame.unlink (c : Client) (gone : Nat → Bool) : Frame c (c.unlink gone) := by
  have htable : Frame c { c with table := c.table.filter fun h => !gone h } :=
    { Frame.refl c with table := fun i hi => .inl (List.mem_filter.mp hi).1 }
  exact htable.trans (Frame.drops _ _)

/-! ## Every step is made of primitive changes -/

theorem moves_call {h method : Nat} {args : List CallArg}
    (hcall : ∀ m, (c.objects h).methodsOut[method]? = some m →
      (h ∉ c.table ∧ (c.objects h).destroyed = false ∧ (c.objects h).id ≠ 0) ∨ R.calls c h m) :
    Moves R c (c.call h method args).1 := by
  unfold call
  cases hm : (c.objects h).methodsOut[method]? with
  | none => exact .refl
  | some m =>
    simp only
    split
    · exact .refl
    · obtain ⟨made, hmade, heq⟩ := callMethod_eq c h method m args
      rw [heq]
      exact Moves.one (.call ⟨rfl, hm, hmade, hcall m hm⟩)

theorem moves_dropObject {h : Nat} (hout : h ∉ c.table) : Moves R c (c.dropObject h) := by
  unfold dropObject
  split
  · next m hauto =>
    refine moves_call fun _ _ => .inl ⟨hout, ?_⟩
    unfold autoDestructor at hauto
    split at hauto
    · assumption
    · cases hauto
  · exact .refl

theorem moves_dropUnlessHeld {h : Nat} (hout : h ∉ c.table) :
    Moves R c (c.dropUnlessHeld h) := by
  unfold dropUnlessHeld
  split
  · exact .refl
  · exact moves_dropObject hout

/-- What was held by the table alone is dropped, one object after the other. -/
theorem moves_drops : ∀ {gone : List Nat} {c : Client}, (∀ h ∈ gone, h ∉ c.table ∧ h < c.size) →
    Moves R c (gone.foldl dropUnlessHeld c)
  | [], _, _ => .refl
  | h :: gone, c, hgone => by
    have hframe := Frame.dropUnlessHeld c h
    refine (moves_dropUnlessHeld (hgone h (List.mem_cons_self ..)).1).trans (moves_drops ?_)
    intro i hi
    obtain ⟨hout, hlt⟩ := hgone i (List.mem_cons_of_mem h hi)
    refine ⟨fun hin => ?_, Nat.lt_of_lt_of_le hlt hframe.size⟩
    rcases hframe.table i hin with h' | h'
    · exact hout h'
    · exact absurd hlt (Nat.not_lt_of_le h')

theorem moves_unlinked {gone : Nat → Bool} (hlt : ∀ i ∈ c.table, i < c.size)
    (htable : c'.table = c.table.filter fun h => !gone h) (hsize : c'.size = c.size) :
    Moves R c' ((c.table.filter gone).foldl dropUnlessHeld c') := by
  refine moves_drops fun h hh => ?_
  obtain ⟨hin, hgone⟩ := List.mem_filter.mp hh
  rw [htable, hsize]
  refine ⟨fun hmem => ?_, hlt h hin⟩
  have hkept := (List.mem_filter.mp hmem).2
  simp [hgone] at hkept

theorem moves_collect (hlt : ∀ i ∈ c.table, i < c.size) (h : R.collects c) :
    Moves R c c.collectOrphanedObjects :=
  .head (.collect c h) (moves_unlinked hlt rfl rfl)

theorem moves_release (h : Nat) : Moves R c (c.release h) := by
  unfold release
  refine .head (.tweak (.setObject c h
    (f := fun obj => { obj with handles := obj.handles - 1 })
    fun _ => ⟨rfl, rfl, rfl, rfl, rfl, rfl, fun h => h⟩)) ?_
  simp only
  split
  · exact .refl
  · next hout => exact moves_dropUnlessHeld hout

theorem moves_send {h method : Nat} {args : List CallArg}
    (hcall : ∀ m, (c.objects h).methodsOut[method]? = some m → R.calls c h m) :
    Moves R c (c.send h method args) := by
  have hmoves : Moves R c (c.call h method args).1 := moves_call fun m hm => .inr (hcall m hm)
  unfold send
  simp only
  split
  · exact hmoves
  · split
    · split
      · exact hmoves.trans (Moves.tweak (.adopt ..))
      · exact hmoves
    · split
      · exact hmoves.trans (moves_release h)
      · exact hmoves

/-- What a handled event does when its method is a destructor. -/
theorem moves_afterDispatch {h method : Nat} (hlt : ∀ i ∈ c.table, i < c.size)
    (hend : R.ended h method) : Moves R c (c.afterDispatch h method) := by
  unfold afterDispatch
  split
  · exact .refl
  · next m hm =>
    split
    · next hdes =>
      have htweak : Tweak c (c.setObject h fun obj => { obj with destroyed := true }) :=
        .setObject c h fun _ => ⟨rfl, rfl, rfl, rfl, rfl, rfl, fun _ => rfl⟩
      refine .head (.tweak htweak) ?_
      simp only
      split
      · next hid =>
        refine .head (.destroy _ hend (m := m) ?_ hdes hid ?_) (moves_unlinked ?_ rfl rfl)
        · rw [← hm, ClientObject.methodsIn, ClientObject.methodsIn, (htweak.objects h).spec]
        · simp [setObject]
        · exact hlt
      · exact .refl
    · exact .refl

theorem moves_onGeneric {q : Nat} {msg : Generic} {rest : List S2C}
    (hlt : ∀ i ∈ c.table, i < c.size)
    (hend : ∀ h, c.objectForId msg.object = some h → R.ended h msg.method) :
    Moves R c (c.onGeneric q msg rest) := by
  unfold onGeneric
  split
  · refine .head (.tweak ?_) (Moves.tweak (.setPhase ..))
    exact { Tweak.disconnectOnError c with }
  · next h hfind =>
    split
    · refine .head (.tweak (.setObject c h
        (f := fun obj => { obj with borrows := obj.borrows + 1 })
        fun _ => ⟨rfl, rfl, rfl, rfl, rfl, rfl, fun h => h⟩)) (Moves.tweak (.setPhase ..))
    · exact (moves_afterDispatch hlt (hend h hfind)).trans (Moves.tweak (.setPhase ..))

theorem moves_returned {q h method : Nat} {rest : List S2C} (hlt : ∀ i ∈ c.table, i < c.size)
    (hend : R.ended h method) : Moves R c (c.returned q rest h method) := by
  unfold returned
  refine (moves_afterDispatch hlt hend).trans (.head (.tweak (.setObject _ h
    (f := fun obj => { obj with borrows := obj.borrows - 1 })
    fun _ => ⟨rfl, rfl, rfl, rfl, rfl, rfl, fun h => h⟩)) ?_)
  simp only
  split
  · exact Moves.tweak (.setPhase ..)
  · next hout => exact (moves_dropUnlessHeld hout).trans (Moves.tweak (.setPhase ..))

theorem moves_handle {q : Nat} {msg : S2C} {rest : List S2C} (hlt : ∀ i ∈ c.table, i < c.size)
    (hheard : R.heard msg)
    (hend : ∀ g h, msg = .generic g → c.objectForId g.object = some h → R.ended h g.method) :
    Moves R c (c.handle q msg rest) := by
  have hmem : msg ∈ c.handled ++ [msg] := List.mem_append.mpr (.inr (List.mem_singleton_self _))
  unfold handle
  refine .head (.hear c hheard) ?_
  cases msg with
  | handshakeBegin versions =>
    simp only
    split
    · exact .head (.acknowledge ..) (Moves.tweak (.setPhase ..))
    · exact Moves.tweak (.abort ..)
  | handshakeProtocols protocols =>
    refine .head (.tweak ?_) (Moves.tweak (.setPhase ..))
    exact { Tweak.refl _ with }
  | newObject seq id => exact .head (.named _ hheard hmem) (Moves.tweak (.setPhase ..))
  | generic g => exact moves_onGeneric hlt fun h hfind => hend g h rfl hfind
  | fatalProtocolError objectId errorId errorMsg =>
    refine .head (.tweak ?_) (Moves.tweak (.setPhase ..))
    exact { Tweak.refl _ with }
  | roundtripDone seq request =>
    refine .head (.acked _ q hheard) ?_
    simp only
    rw [← setQueue_setQueue _ q
      (fun queue => { queue with lastAckd := seq, credited := queue.credited ++ [request] })
      (fun queue => { queue with phase := .batch rest })]
    exact Moves.tweak (.setPhase ..)

theorem moves_finish {q : Nat} (hlt : ∀ i ∈ c.table, i < c.size) (hflush : R.flushes c q)
    (hcollect : R.collects (c.flush q)) : Moves R c (c.finish q) := by
  unfold finish
  refine .head (.flush c q hflush) ((moves_collect ?_ hcollect).trans (Moves.tweak ?_))
  · rw [flush_eq]
    exact hlt
  · refine .setQueue _ q fun queue => ⟨rfl, rfl, rfl, rfl, fun h => ?_, rfl, rfl⟩
    exact (Bool.and_eq_true_iff.mp h).1

/-- What must hold of an action for `R` to be relied on. -/
def Granted (R : Rely) (c : Client) : Action → Prop
  | .bind _ proto _ => R.binds proto
  | .send h method _ => ∀ m, (c.objects h).methodsOut[method]? = some m → R.calls c h m
  | .dropQueue q => R.drops q
  | .roundtrip q => R.asks q
  | .roundtripFail _ => R.collects c
  | .poll _ => R.collects c
  | .unreadable _ => R.collects c
  | .read _ _ => R.collects c
  | .handle q =>
    ∀ msg rest, (c.queues q).phase = .batch (msg :: rest) →
      R.heard msg ∧
        ∀ g h, msg = .generic g → c.objectForId g.object = some h → R.ended h g.method
  | .return_ q => ∀ rest h method, (c.queues q).phase = .callback rest h method → R.ended h method
  | .finish q => R.flushes c q ∧ R.collects (c.flush q)
  | _ => True

theorem granted_anything (c : Client) (a : Action) : Granted anything c a := by
  cases a <;> simp [Granted, anything]

/-- A message is taken off a batch. -/
theorem step_handles {q : Nat} (h : step c (.handle q) = some c') :
    ∃ msg rest, (c.queues q).phase = .batch (msg :: rest) ∧ c' = c.handle q msg rest := by
  simp only [step] at h
  split at h
  · next msg rest hphase => exact ⟨msg, rest, hphase, (Option.some.inj h).symm⟩
  · cases h

/-- A callback comes back. -/
theorem step_returns {q : Nat} (h : step c (.return_ q) = some c') :
    ∃ rest obj method, (c.queues q).phase = .callback rest obj method ∧
      c' = c.returned q rest obj method := by
  simp only [step] at h
  split at h
  · next rest obj method hphase => exact ⟨rest, obj, method, hphase, (Option.some.inj h).symm⟩
  · cases h

/-- **A step of a client is a number of primitive changes**, and they rely on what the action
grants. -/
theorem moves_step {a : Action} (hlt : ∀ i ∈ c.table, i < c.size) (hgrant : Granted R c a)
    (h : step c a = some c') : Moves R c c' := by
  cases a with
  | bind q proto version =>
    simp only [step, Option.ite_none_right_eq_some, Option.some.injEq] at h
    obtain ⟨-, rfl⟩ := h
    unfold Client.bind
    split
    · exact .refl
    · split
      · exact .refl
      · next c₁ hbind => exact .head (.bind q _ version hgrant hbind) (Moves.tweak (.adopt ..))
  | send obj method args =>
    simp only [step, Option.ite_none_right_eq_some, Option.some.injEq] at h
    obtain ⟨-, rfl⟩ := h
    exact moves_send hgrant
  | clone obj =>
    simp only [step, Option.ite_none_right_eq_some, Option.some.injEq] at h
    obtain ⟨-, rfl⟩ := h
    exact Moves.tweak (.setObject c obj fun _ => ⟨rfl, rfl, rfl, rfl, rfl, rfl, fun h => h⟩)
  | drop obj =>
    simp only [step, Option.ite_none_right_eq_some, Option.some.injEq] at h
    obtain ⟨-, rfl⟩ := h
    exact moves_release obj
  | dropQueue q =>
    simp only [step, Option.ite_none_right_eq_some, Option.some.injEq] at h
    obtain ⟨-, rfl⟩ := h
    exact Moves.one (.dropQueue c q hgrant)
  | roundtrip q =>
    simp only [step, Option.ite_none_right_eq_some, Option.some.injEq] at h
    obtain ⟨-, rfl⟩ := h
    exact Moves.one (.ask c q hgrant)
  | roundtripReturn q =>
    simp only [step, Option.ite_none_right_eq_some, Option.some.injEq] at h
    obtain ⟨-, rfl⟩ := h
    exact Moves.tweak (.endRoundtrip c q)
  | roundtripFail q =>
    simp only [step, Option.ite_none_right_eq_some, Option.some.injEq] at h
    obtain ⟨-, rfl⟩ := h
    split
    · exact Moves.tweak (.endRoundtrip c q)
    · exact (moves_collect hlt hgrant).trans (Moves.tweak (.endRoundtrip _ q))
  | poll q =>
    simp only [step, Option.ite_none_right_eq_some, Option.some.injEq] at h
    obtain ⟨-, rfl⟩ := h
    exact moves_collect hlt hgrant
  | unreadable q =>
    simp only [step, Option.ite_none_right_eq_some, Option.some.injEq] at h
    obtain ⟨-, rfl⟩ := h
    exact (moves_collect hlt hgrant).trans (Moves.tweak (.abort _ q))
  | read q batch =>
    simp only [step, Option.ite_none_right_eq_some, Option.some.injEq] at h
    obtain ⟨-, rfl⟩ := h
    exact (moves_collect hlt hgrant).trans (Moves.tweak (.setPhase ..))
  | handle q =>
    obtain ⟨msg, rest, hphase, rfl⟩ := step_handles h
    obtain ⟨hheard, hend⟩ := hgrant msg rest hphase
    exact moves_handle hlt hheard hend
  | return_ q =>
    obtain ⟨rest, obj, method, hphase, rfl⟩ := step_returns h
    exact moves_returned hlt (hgrant rest obj method hphase)
  | malformed q =>
    simp only [step] at h
    split at h
    · cases h
      exact Moves.tweak (.abort c q)
    · cases h
  | finish q =>
    simp only [step] at h
    split at h
    · cases h
      exact moves_finish hlt hgrant.1 hgrant.2
    · cases h

end Hyprwire.Client
