import Hyprwire.System.Receiving

/-!
# `System/Dispatching.lean` — the calls of a client

What a program calls, with what it is answered: a dispatch, a wait for the handshake, a roundtrip, and
a bind, which waits for its object. They are one function, `dispatch_events_inner`, and loops around
it; every turn of a loop waits for the socket, reads what there is, and runs the callbacks
(`System/Receiving.lean`), which call methods and give up handles and queues, and dispatch nothing
themselves. A call may never come back, where the server keeps it waiting.

**A program sees a client of messages** (`api_refines`), and **an answer can be relied on**
(`api_answers`): what a call that succeeds has brought about, after which errors the connection is
done for, and that no call leaves a mutex locked.
-/

namespace Hyprwire.Client

open Rust

section
variable (m : Overflow) (up : Char → String) (protocols : List Scanner.Protocol)

/-! ## A dispatch -/

/-- What `poller.wait` comes to: it fails, nothing happened, or the socket can be read from, and then
`poller.modify` may fail. -/
inductive Wait
  | failed
  | nothing
  | ready (modified : Bool)
  deriving DecidableEq, Repr

/-- What a dispatch meets with. -/
structure Round where
  wait : Wait
  answers : List Recv
  handlers : Handlers

/-- `dispatch_events_inner`. It looks at the handshake twice, but nothing changes it in between, so
it waits once. -/
def dispatchEventsInner (q : Nat) (block : Bool) (r : Round) (c : Client) : Option (Client × Reply) :=
  if c.error then some (c, .error .connectionClosed)
  else
    let c := c.collectOrphanedObjects
    match r.wait with
    | .failed => some (c, .error .io)
    | .nothing =>
      if c.handshakeDone then
        some (c.collectOrphanedObjects, if block then .error .connectionClosed else .ok ())
      else if block then some (c.abort q, .error .handshakeTimeout)
      else some (c, .ok ())
    | .ready false => some (c, .error .io)
    | .ready true => c.dispatchRead m up protocols r.handlers q (readFromSocket r.answers)

/-- `while waits { dispatch_events_inner(…, true, …)?; }` -/
def dispatchWhile (waits : Client → Bool) (q : Nat) : List Round → Client → Option (Client × Reply)
  | [], c => if waits c then none else some (c, .ok ())
  | r :: rounds, c =>
    if waits c then
      match c.dispatchEventsInner m up protocols q true r with
      | some (c, .ok ()) => dispatchWhile waits q rounds c
      | some (c, .error e) => some (c, .error e)
      | none => none
    else some (c, .ok ())

/-! ## The calls of a program -/

/-- A roundtrip is on its way. -/
def unacknowledged (q : Nat) (c : Client) : Bool := (c.queues q).lastAckd < (c.queues q).lastSent

/-- The mutex of a queue is given back. -/
def endRoundtrip (c : Client) (q : Nat) : Client :=
  c.setQueue q fun queue => { queue with inRoundtrip := false }

/-- `EventQueue::roundtrip`. The number of a roundtrip is a `u32`. -/
def roundtripCall (q : Nat) (rounds : List Round) (c : Client) : Option (Client × Reply) :=
  if c.error then some (c, .error .connectionClosed)
  else if m = .checked ∧ (c.queues q).lastSent + 1 = wordSize then none
  else
    (dispatchWhile m up protocols (unacknowledged q) q rounds (c.ask q)).map fun r =>
      (r.1.endRoundtrip q, r.2)

/-- The end of `wait_for_handshake` and of `wait_for_object`. -/
def unlessFailed (r : Client × Reply) : Client × Reply :=
  match r.2 with
  | .ok () => (r.1, if r.1.error then .error .connectionClosed else .ok ())
  | .error e => (r.1, .error e)

/-- `EventQueue::wait_for_handshake`. -/
def waitForHandshake (q : Nat) (rounds : List Round) (c : Client) : Option (Client × Reply) :=
  (dispatchWhile m up protocols (fun c => !c.error && !c.handshakeDone) q rounds c).map unlessFailed

/-- `wait_for_object`. -/
def waitForObject (q h : Nat) (rounds : List Round) (c : Client) : Option (Client × Reply) :=
  (dispatchWhile m up protocols (fun c => (c.objects h).id = 0 && !c.error) q rounds c).map
    unlessFailed

/-- A handle goes out of scope. -/
def letGo (c : Client) (h : Nat) : Client := (c.attempts (.drop h)).getD c

/-- `ClientSocket::get_spec`: the first that was advertised under the name. -/
def getSpec (c : Client) (name : String) : Option (String × Nat) :=
  c.serverSpecs.find? fun spec => spec.1 = name

/-- `Client::bind`. Its object is the next one of the arena, and it lets go of that when it fails (the
handle is still there: nobody else has been given it). -/
def bindCall (q : Nat) (proto : ProtocolSpec) (version : Nat) (rounds : List Round) (c : Client) :
    Option (Client × Reply) :=
  match c.getSpec proto.specName with
  | none => some (c, .error .protocolNotFound)
  | some spec =>
    match c.bindProtocol q proto spec.2 version with
    | none =>
      some (c, .error (if spec.2 < version then .versionOutOfRange version spec.2
        else .protocolViolation .noSpec))
    | some c' =>
      (waitForObject m up protocols q c.size rounds (c'.adopt c.size)).map fun r =>
        match r.2 with
        | .ok () => (r.1, .ok ())
        | .error e => (r.1.letGo c.size, .error e)

/-- The queue is there, and its mutex is free. -/
def free (c : Client) (q : Nat) : Bool :=
  (c.queues q).live && (c.queues q).phase = .idle && !(c.queues q).inRoundtrip

/-- What a program calls. It binds a protocol that was generated for it, by its name. -/
inductive Api
  | user (a : Action)
  | dispatchEvents (q : Nat) (block : Bool) (round : Round)
  | waitForHandshake (q : Nat) (rounds : List Round)
  | roundtrip (q : Nat) (rounds : List Round)
  | bind (q : Nat) (name : String) (version : UInt32) (rounds : List Round)

/-- **A call**, and its answer. -/
def api (c : Client) : Api → Option (Client × Reply)
  | .user a => (c.attempts a).map fun c => (c, .ok ())
  | .dispatchEvents q block round =>
    if c.free q then c.dispatchEventsInner m up protocols q block round else none
  | .waitForHandshake q rounds => if c.free q then c.waitForHandshake m up protocols q rounds else none
  | .roundtrip q rounds => if c.free q then c.roundtripCall m up protocols q rounds else none
  | .bind q name version rounds =>
    match protocols.find? fun p => p.name = name with
    | none => none
    | some p => if c.free q then c.bindCall m up protocols q p.spec version.toNat rounds else none

/-- The state a call leaves. -/
def act (c : Client) (call : Api) : Option Client := (c.api m up protocols call).map Prod.fst

end

/-! ## A program sees a client of messages -/

section
variable {m : Overflow} {up : Char → String} {protocols : List Scanner.Protocol}
  {registered : String → Bool} {q : Nat} {c t : Client} {reply : Reply}

/-- **A dispatch refines a batch**, or less than one. -/
theorem dispatchEventsInner_refines (hc : Implemented protocols registered c)
    (hopen : c.dispatches q = true) {block : Bool} {r : Round}
    (ht : c.dispatchEventsInner m up protocols q block r = some (t, reply)) :
    Dispatched protocols q c t reply := by
  have herror : c.error = false := by
    simp only [dispatches, Bool.and_eq_true, Bool.not_eq_true'] at hopen
    exact hopen.1.2
  have hcollect := collect_sameDispatch q c
  have hpoll : step c (.poll q) = some c.collectOrphanedObjects := if_pos hopen
  have hopen' := dispatches_collect hc.ledger hopen
  have hone : ∀ a ∈ [Action.poll q], a.Bound protocols := by simp [Action.Bound]
  unfold dispatchEventsInner at ht
  rw [herror, if_neg (by simp)] at ht
  dsimp only at ht
  cases hwait : r.wait with
  | failed =>
    simp only [hwait, Option.some.injEq, Prod.mk.injEq] at ht
    obtain ⟨rfl, rfl⟩ := ht
    exact .stopped _ [] (by simp) c (Run.run_nil c) (.refl q c) hopen rfl (.inr rfl)
  | nothing =>
    simp only [hwait] at ht
    split at ht
    · cases block with
      | true =>
        simp only [if_true, Option.some.injEq, Prod.mk.injEq] at ht
        obtain ⟨rfl, rfl⟩ := ht
        exact .stopped _ [.poll q] hone _ (Run.run_cons.mpr ⟨_, hpoll, Run.run_nil _⟩) hcollect hopen'
          rfl (.inl rfl)
      | false =>
        simp only [Bool.false_eq_true, if_false, Option.some.injEq, Prod.mk.injEq] at ht
        obtain ⟨rfl, rfl⟩ := ht
        refine .done [.poll q, .poll q] (by simp [Action.Bound]) ?_ (hcollect.trans
          (collect_sameDispatch q _)) ((Frame.collect _).error.trans ((Frame.collect c).error.trans herror))
        exact Run.run_cons.mpr ⟨_, hpoll, Run.run_cons.mpr ⟨_, if_pos hopen', Run.run_nil _⟩⟩
    · cases block with
      | true =>
        simp only [if_true, Option.some.injEq, Prod.mk.injEq] at ht
        obtain ⟨rfl, rfl⟩ := ht
        refine .broken _ [.unreadable q] (by simp [Action.Bound])
          (Run.run_cons.mpr ⟨_, if_pos hopen, Run.run_nil _⟩)
          (.abort hcollect.live fun i _ => ⟨hcollect.phase i, hcollect.inRoundtrip i⟩) rfl ?_
        exact .inr ⟨by simp, rfl⟩
      | false =>
        simp only [Bool.false_eq_true, if_false, Option.some.injEq, Prod.mk.injEq] at ht
        obtain ⟨rfl, rfl⟩ := ht
        exact .done [.poll q] hone (Run.run_cons.mpr ⟨_, hpoll, Run.run_nil _⟩) hcollect
          ((Frame.collect c).error.trans herror)
  | ready modified =>
    cases modified with
    | false =>
      simp only [hwait, Option.some.injEq, Prod.mk.injEq] at ht
      obtain ⟨rfl, rfl⟩ := ht
      exact .stopped _ [] (by simp) c (Run.run_nil c) (.refl q c) hopen rfl (.inr rfl)
    | true =>
      simp only [hwait] at ht
      exact dispatchRead_refines hc hopen ht

theorem append_bound {as bs : List Action} (has : ∀ a ∈ as, a.Bound protocols)
    (hbs : ∀ a ∈ bs, a.Bound protocols) : ∀ a ∈ as ++ bs, a.Bound protocols := by
  intro a ha
  rcases List.mem_append.mp ha with ha | ha
  · exact has a ha
  · exact hbs a ha

/-- What follows a dispatch that is through. -/
theorem Dispatched.after {d : Client} {as : List Action} (has : ∀ a ∈ as, a.Bound protocols)
    (hrun : Run.run step c as = some d) (hsame : SameDispatch q c d)
    (h : Dispatched protocols q d t reply) : Dispatched protocols q c t reply := by
  cases h with
  | done bs hbs hrun' hsame' hopen =>
    exact .done (as ++ bs) (append_bound has hbs) (Run.run_append.mpr ⟨d, hrun, hrun'⟩)
      (hsame.trans hsame') hopen
  | broken e bs hbs hrun' hbroken he hclosed =>
    refine .broken e (as ++ bs) (append_bound has hbs) (Run.run_append.mpr ⟨d, hrun, hrun'⟩) ?_ he hclosed
    refine { hbroken with live := hbroken.live.trans hsame.live, others := fun i hi => ?_ }
    have hothers := hbroken.others i hi
    exact ⟨hothers.1.trans (hsame.phase i), hothers.2.trans (hsame.inRoundtrip i)⟩
  | stopped e bs hbs u hrun' hsame' hopen ht he =>
    exact .stopped e (as ++ bs) (append_bound has hbs) u (Run.run_append.mpr ⟨d, hrun, hrun'⟩)
      (hsame.trans hsame') hopen ht he

/-- **A loop of dispatches is one of them**: it is through when there is nothing more to wait for. The
induction is on what it meets with. -/
theorem dispatchWhile_refines {waits : Client → Bool} (rounds : List Round)
    (hc : Implemented protocols registered c) (hlive : (c.queues q).live = true)
    (hidle : (c.queues q).phase = .idle) (herror : c.error = false)
    (hround : (c.queues q).inRoundtrip = true → ∀ d, waits d = true → unacknowledged q d = true)
    (ht : c.dispatchWhile m up protocols waits q rounds = some (t, reply)) :
    Dispatched protocols q c t reply ∧ (reply = .ok () → waits t = false) := by
  induction rounds generalizing c with
  | nil =>
    unfold dispatchWhile at ht
    split at ht
    · cases ht
    · next hwaits =>
      cases ht
      exact ⟨.done [] (by simp) (Run.run_nil t) (.refl q t) herror, fun _ => Bool.eq_false_iff.mpr hwaits⟩
  | cons r rounds ih =>
    unfold dispatchWhile at ht
    split at ht
    · next hwaits =>
      have hopen : c.dispatches q = true := by
        simp only [dispatches, hlive, hidle, herror, decide_true, Bool.not_false, Bool.and_self,
          Bool.true_and]
        cases hin : (c.queues q).inRoundtrip with
        | false => rfl
        | true => exact hround hin c hwaits
      split at ht
      · next d hdispatch =>
        have hfirst := dispatchEventsInner_refines hc hopen hdispatch
        cases hfirst with
        | done as has hrun hsame hopen =>
          obtain ⟨hmore, hwaits⟩ := ih (hc.run has hrun) (hsame.live.trans hlive)
            ((hsame.phase q).trans hidle) hopen (fun hin => hround ((hsame.inRoundtrip q).symm.trans hin))
            ht
          exact ⟨hmore.after has hrun hsame, hwaits⟩
      · next d e hdispatch =>
        cases ht
        exact ⟨dispatchEventsInner_refines hc hopen hdispatch, by simp⟩
      · cases ht
    · next hwaits =>
      cases ht
      exact ⟨.done [] (by simp) (Run.run_nil t) (.refl q t) herror, fun _ => Bool.eq_false_iff.mpr hwaits⟩

/-- Outside of a roundtrip a dispatch that returns early was an empty one. -/
theorem Dispatched.run (h : Dispatched protocols q c t reply) :
    ∃ as, (∀ a ∈ as, a.Bound protocols) ∧ Run.run step c as = some t := by
  cases h with
  | done as has hrun _ _ => exact ⟨as, has, hrun⟩
  | broken e as has hrun _ _ _ => exact ⟨as, has, hrun⟩
  | stopped e as has d hrun _ hopen ht _ =>
    subst ht
    have hpoll : step d (.poll q) = some d.collectOrphanedObjects := if_pos hopen
    exact ⟨as ++ [.poll q], append_bound has (by simp [Action.Bound]),
      Run.run_append.mpr ⟨d, hrun, Run.run_cons.mpr ⟨_, hpoll, Run.run_nil _⟩⟩⟩

theorem endRoundtrip_self (h : (c.queues q).inRoundtrip = false) : c.endRoundtrip q = c := by
  unfold endRoundtrip setQueue
  congr 1
  funext i
  split
  · next hi =>
    subst hi
    rw [← h]
  · rfl

/-- In a roundtrip it ends the roundtrip. -/
theorem Dispatched.run_roundtrip (h : Dispatched protocols q c t reply)
    (hidle : (c.queues q).phase = .idle) (hin : (c.queues q).inRoundtrip = true)
    (hwaits : reply = .ok () → unacknowledged q t = false) :
    ∃ as, (∀ a ∈ as, a.Bound protocols) ∧ Run.run step c as = some (t.endRoundtrip q) := by
  cases h with
  | done as has hrun hsame _ =>
    have hreturn : step t (.roundtripReturn q) = some (t.endRoundtrip q) := by
      refine if_pos ⟨(hsame.inRoundtrip q).trans hin, (hsame.phase q).trans hidle, ?_⟩
      simpa [unacknowledged] using hwaits rfl
    exact ⟨as ++ [.roundtripReturn q], append_bound has (by simp [Action.Bound]),
      Run.run_append.mpr ⟨t, hrun, Run.run_cons.mpr ⟨_, hreturn, Run.run_nil _⟩⟩⟩
  | broken e as has hrun hbroken _ _ =>
    rw [endRoundtrip_self hbroken.inRoundtrip]
    exact ⟨as, has, hrun⟩
  | stopped e as has d hrun hsame hopen ht _ =>
    subst ht
    have hin' := (hsame.inRoundtrip q).trans hin
    simp only [dispatches, Bool.and_eq_true, decide_eq_true_eq, Bool.not_eq_true', hin', Bool.not_true,
      Bool.false_or] at hopen
    obtain ⟨⟨⟨-, hidle'⟩, herror⟩, hless⟩ := hopen
    have hfail : step d (.roundtripFail q) = some (d.collectOrphanedObjects.endRoundtrip q) := by
      refine (if_pos ⟨hin', hidle', .inr hless⟩).trans ?_
      rw [herror, if_neg (by simp)]
      rfl
    exact ⟨as ++ [.roundtripFail q], append_bound has (by simp [Action.Bound]),
      Run.run_append.mpr ⟨d, hrun, Run.run_cons.mpr ⟨_, hfail, Run.run_nil _⟩⟩⟩

theorem free_spec (h : c.free q = true) : (c.queues q).live = true ∧ (c.queues q).phase = .idle ∧
    (c.queues q).inRoundtrip = false := by
  simpa [free, and_assoc] using h

/-- A dispatch of a connection that is in error is refused. -/
theorem dispatch_refines {block : Bool} {r : Round} (hc : Implemented protocols registered c)
    (hfree : c.free q = true) (ht : c.dispatchEventsInner m up protocols q block r = some (t, reply)) :
    (c.error = true ∧ t = c ∧ reply = .error .connectionClosed) ∨
      (c.error = false ∧ Dispatched protocols q c t reply) := by
  obtain ⟨hlive, hidle, hin⟩ := free_spec hfree
  cases herror : c.error with
  | true =>
    unfold dispatchEventsInner at ht
    rw [herror, if_pos rfl] at ht
    cases ht
    exact .inl ⟨rfl, rfl, rfl⟩
  | false =>
    exact .inr ⟨rfl,
      dispatchEventsInner_refines hc (by simp [dispatches, hlive, hidle, hin, herror]) ht⟩

/-- A wait for something, which an error ends. -/
theorem waiting_refines {waits : Client → Bool} {rounds : List Round}
    (hstops : ∀ d : Client, d.error = true → waits d = false)
    (hc : Implemented protocols registered c) (hfree : c.free q = true)
    (ht : (c.dispatchWhile m up protocols waits q rounds).map unlessFailed = some (t, reply)) :
    (c.error = true ∧ t = c ∧ reply = .error .connectionClosed) ∨
      (c.error = false ∧ Dispatched protocols q c t reply ∧ (reply = .ok () → waits t = false)) := by
  obtain ⟨hlive, hidle, hin⟩ := free_spec hfree
  obtain ⟨⟨d, answer⟩, hloop, hfailed⟩ := Option.map_eq_some_iff.mp ht
  cases herror : c.error with
  | true =>
    have hnone := hstops c herror
    have hstays : c.dispatchWhile m up protocols waits q rounds = some (c, .ok ()) := by
      cases rounds with
      | nil => rw [dispatchWhile, hnone, if_neg (by simp)]
      | cons r rounds => rw [dispatchWhile, hnone, if_neg (by simp)]
    rw [hstays] at hloop
    cases hloop
    simp only [unlessFailed, herror, if_true, Prod.mk.injEq] at hfailed
    exact .inl ⟨rfl, hfailed.1.symm, hfailed.2.symm⟩
  | false =>
    obtain ⟨hdispatched, hwaits⟩ := dispatchWhile_refines rounds hc hlive hidle herror
      (fun h => by rw [hin] at h; cases h) hloop
    refine .inr ⟨rfl, ?_⟩
    cases hdispatched with
    | done as has hrun hsame hopen =>
      simp only [unlessFailed, hopen, Bool.false_eq_true, if_false, Prod.mk.injEq] at hfailed
      obtain ⟨rfl, rfl⟩ := hfailed
      exact ⟨.done as has hrun hsame hopen, fun _ => hwaits rfl⟩
    | broken e as has hrun hbroken he hclosed =>
      simp only [unlessFailed, Prod.mk.injEq] at hfailed
      obtain ⟨rfl, rfl⟩ := hfailed
      exact ⟨.broken e as has hrun hbroken he hclosed, by simp⟩
    | stopped e as has u hrun hsame hopen hcollected he =>
      simp only [unlessFailed, Prod.mk.injEq] at hfailed
      obtain ⟨rfl, rfl⟩ := hfailed
      exact ⟨.stopped e as has u hrun hsame hopen hcollected he, by simp⟩

/-- A queue that asks is one that waits. -/
theorem ask_stands (c : Client) (q : Nat) : ((c.ask q).queues q).phase = (c.queues q).phase ∧
    ((c.ask q).queues q).inRoundtrip = true ∧ ((c.ask q).queues q).live = (c.queues q).live := by
  have hset : ∀ f, (c.setQueue q f).queues q = f (c.queues q) := fun _ => if_pos rfl
  have hframe := Frame.write (c.setQueue q fun queue => { queue with
    lastSent := ((c.queues q).lastSent + 1) % wordSize, inRoundtrip := true
    marked := c.out.length }) (.roundtripRequest (((c.queues q).lastSent + 1) % wordSize) q)
  exact ⟨(hframe.phase q).trans (by rw [hset]), (hframe.inRoundtrip q).trans (by rw [hset]),
    (hframe.live q).trans (by rw [hset])⟩

/-- A roundtrip asks, and dispatches until it is answered. -/
theorem roundtripCall_refines {rounds : List Round} (hc : Implemented protocols registered c)
    (hfree : c.free q = true) (ht : c.roundtripCall m up protocols q rounds = some (t, reply)) :
    (c.error = true ∧ t = c ∧ reply = .error .connectionClosed) ∨
      (c.error = false ∧ step c (.roundtrip q) = some (c.ask q) ∧
        ∃ d, Dispatched protocols q (c.ask q) d reply ∧ (reply = .ok () → unacknowledged q d = false) ∧
          t = d.endRoundtrip q) := by
  obtain ⟨hlive, hidle, hin⟩ := free_spec hfree
  unfold roundtripCall at ht
  cases herror : c.error with
  | true =>
    rw [herror, if_pos rfl] at ht
    cases ht
    exact .inl ⟨rfl, rfl, rfl⟩
  | false =>
    rw [herror, if_neg (by simp)] at ht
    split at ht
    · cases ht
    · have hask : step c (.roundtrip q) = some (c.ask q) := if_pos ⟨hlive, hidle, hin, herror⟩
      obtain ⟨⟨d, answer⟩, hloop, heq⟩ := Option.map_eq_some_iff.mp ht
      simp only [Prod.mk.injEq] at heq
      obtain ⟨rfl, rfl⟩ := heq
      obtain ⟨hidle', -, hlive'⟩ := ask_stands c q
      obtain ⟨hdispatched, hwaits⟩ := dispatchWhile_refines rounds (hc.step (a := .roundtrip q) trivial hask)
        (hlive'.trans hlive) (hidle'.trans hidle) ((ask_error c q).trans herror) (fun _ d hd => hd) hloop
      exact .inr ⟨rfl, hask, d, hdispatched, hwaits, rfl⟩

/-- A bind that is not refused makes its object, and asks for it. -/
structure Requests (c : Client) (q : Nat) (proto : ProtocolSpec) (version : Nat) (b : Client) : Prop where
  step : step c (.bind q proto version) = some b
  frame : Frame c b
  size : b.size = c.size + 1
  object : ∃ spec, proto.objects.head? = some spec ∧
    b.objects c.size = { c.bound q version proto spec with handles := 1, objectData := true }
  advertised : ∃ max, c.getSpec proto.specName = some (proto.specName, max) ∧ version ≤ max
  out : c.shut = false → b.out = c.out ++ [.bindProtocol c.nextSeq version proto.specName]

theorem getSpec_name {name : String} {advertised : String × Nat}
    (h : c.getSpec name = some advertised) : advertised = (name, advertised.2) := by
  have hname : advertised.1 = name := by simpa using List.find?_some h
  rw [← hname]

theorem requests_of_bindProtocol {proto : ProtocolSpec} {version : Nat} {advertised : String × Nat}
    {c' : Client} (hlive : (c.queues q).live = true)
    (hfind : c.getSpec proto.specName = some advertised)
    (hbind : c.bindProtocol q proto advertised.2 version = some c') :
    Requests c q proto version (c'.adopt c.size) := by
  obtain ⟨spec, hspec, hmade⟩ := bindProtocol_eq hbind
  have hbound : c.bind q proto version = c'.adopt c.size := by
    unfold Client.bind
    simp only [show (c.serverSpecs.find? fun spec => spec.1 = proto.specName) = some advertised from hfind,
      hbind]
  have hwithin : version ≤ advertised.2 := by
    unfold bindProtocol at hbind
    split at hbind
    · cases hbind
    · next hwithin => exact Nat.le_of_not_lt hwithin
  obtain ⟨out, hwrite⟩ := write_eq (c.fetchAdd.push (c.bound q version proto spec))
    (.bindProtocol c.nextSeq version proto.specName)
  refine ⟨hbound ▸ if_pos hlive, hbound ▸ Frame.bind c q proto version, ?_, ⟨spec, hspec, ?_⟩,
    ⟨advertised.2, getSpec_name hfind ▸ hfind, hwithin⟩, fun hshut => ?_⟩
  · rw [hmade, hwrite]
    rfl
  · rw [hmade, hwrite]
    simp [adopt, setObject, push, bound, fetchAdd]
  · rw [hmade]
    show (Client.write _ _).out = _
    unfold write
    exact congrArg Client.out (if_neg (by simpa [push, fetchAdd] using hshut))

/-- **What a bind comes to.** -/
inductive Binds (protocols : List Scanner.Protocol) (q : Nat) (proto : ProtocolSpec) (version : Nat)
    (c t : Client) : Reply → Prop
  | notFound (hnone : c.getSpec proto.specName = none) (ht : t = c) :
      Binds protocols q proto version c t (.error .protocolNotFound)
  | outOfRange (max : Nat) (hspec : c.getSpec proto.specName = some (proto.specName, max))
      (hmax : max < version) (ht : t = c) :
      Binds protocols q proto version c t (.error (.versionOutOfRange version max))
  | noObjects (max : Nat) (hspec : c.getSpec proto.specName = some (proto.specName, max))
      (hmax : version ≤ max) (hnone : proto.objects = []) (ht : t = c) :
      Binds protocols q proto version c t (.error (.protocolViolation .noSpec))
  | closed (b : Client) (hrequests : Requests c q proto version b) (herror : b.error = true)
      (ht : t = b.letGo c.size) : Binds protocols q proto version c t (.error .connectionClosed)
  | failed (b d : Client) (e : CrateError) (hrequests : Requests c q proto version b)
      (hdispatched : Dispatched protocols q b d (.error e)) (ht : t = d.letGo c.size) :
      Binds protocols q proto version c t (.error e)
  | bound (b : Client) (hrequests : Requests c q proto version b)
      (hdispatched : Dispatched protocols q b t (.ok ())) (hnamed : (t.objects c.size).id ≠ 0) :
      Binds protocols q proto version c t (.ok ())

/-- A bind is refused where there is a reason to. -/
theorem Binds.refuses {proto : ProtocolSpec} {version : Nat}
    (h : Binds protocols q proto version c t reply) :
    (c.getSpec proto.specName = none → t = c ∧ reply = .error .protocolNotFound) ∧
      ∀ max, c.getSpec proto.specName = some (proto.specName, max) → max < version →
        t = c ∧ reply = .error (.versionOutOfRange version max) := by
  have hwithin : (∃ max, c.getSpec proto.specName = some (proto.specName, max) ∧ version ≤ max) →
      (c.getSpec proto.specName = none → t = c ∧ reply = .error .protocolNotFound) ∧
        ∀ max, c.getSpec proto.specName = some (proto.specName, max) → max < version →
          t = c ∧ reply = .error (.versionOutOfRange version max) := by
    rintro ⟨max, hspec, hle⟩
    refine ⟨fun hnone => ?_, fun max' hspec' hlt => ?_⟩
    · rw [hnone] at hspec
      cases hspec
    · rw [hspec] at hspec'
      cases hspec'
      exact absurd hlt (Nat.not_lt_of_le hle)
  cases h with
  | notFound hnone heq =>
    refine ⟨fun _ => ⟨heq, rfl⟩, fun max hspec _ => ?_⟩
    rw [hnone] at hspec
    cases hspec
  | outOfRange max hspec hmax heq =>
    refine ⟨fun hnone => ?_, fun max' hspec' _ => ?_⟩
    · rw [hnone] at hspec
      cases hspec
    · rw [hspec] at hspec'
      cases hspec'
      exact ⟨heq, rfl⟩
  | noObjects max hspec hmax _ _ => exact hwithin ⟨max, hspec, hmax⟩
  | closed b hrequests _ _ => exact hwithin hrequests.advertised
  | failed b d e hrequests _ _ => exact hwithin hrequests.advertised
  | bound b hrequests _ _ => exact hwithin hrequests.advertised

theorem bindCall_refines {proto : ProtocolSpec} {version : Nat} {rounds : List Round}
    (hc : Implemented protocols registered c) (hproto : Generated protocols proto)
    (hfree : c.free q = true) (ht : c.bindCall m up protocols q proto version rounds = some (t, reply)) :
    Binds protocols q proto version c t reply := by
  unfold bindCall at ht
  cases hfind : c.getSpec proto.specName with
  | none =>
    simp only [hfind, Option.some.injEq, Prod.mk.injEq] at ht
    obtain ⟨rfl, rfl⟩ := ht
    exact .notFound hfind rfl
  | some advertised =>
    simp only [hfind] at ht
    have hspec : c.getSpec proto.specName = some (proto.specName, advertised.2) :=
      getSpec_name hfind ▸ hfind
    cases hbind : c.bindProtocol q proto advertised.2 version with
    | none =>
      simp only [hbind, Option.some.injEq, Prod.mk.injEq] at ht
      obtain ⟨rfl, rfl⟩ := ht
      unfold bindProtocol at hbind
      split
      · next hmax => exact .outOfRange _ hspec hmax rfl
      · next hmax =>
        rw [if_neg hmax] at hbind
        split at hbind
        · next hnone =>
          exact .noObjects _ hspec (Nat.le_of_not_lt hmax) (List.head?_eq_none_iff.mp hnone) rfl
        · cases hbind
    | some c' =>
      simp only [hbind] at ht
      have hrequests := requests_of_bindProtocol (free_spec hfree).1 hfind hbind
      generalize c'.adopt c.size = b at ht hrequests
      obtain ⟨⟨d, answer⟩, hwait, heq⟩ := Option.map_eq_some_iff.mp ht
      have hfree' : b.free q = true := by
        unfold free
        rw [hrequests.frame.live, hrequests.frame.phase, hrequests.frame.inRoundtrip]
        exact hfree
      have hwaited := waiting_refines (fun d hd => by simp [hd])
        (hc.step (a := .bind q proto version) hproto hrequests.step) hfree' hwait
      cases answer with
      | ok u =>
        simp only [Prod.mk.injEq] at heq
        obtain ⟨rfl, rfl⟩ := heq
        rcases hwaited with ⟨-, -, hno⟩ | ⟨-, hdispatched, hwaits⟩
        · cases hno
        · refine .bound b hrequests hdispatched ?_
          have hopen : d.error = false := by
            cases hdispatched with
            | done _ _ _ _ hopen => exact hopen
          simpa [hopen] using hwaits rfl
      | error e =>
        simp only [Prod.mk.injEq] at heq
        obtain ⟨rfl, rfl⟩ := heq
        rcases hwaited with ⟨herror, hd, he⟩ | ⟨-, hdispatched, -⟩
        · cases he
          exact .closed b hrequests herror (by rw [hd])
        · exact .failed b d e hrequests hdispatched rfl

theorem bind_refines {name : String} {version : UInt32} {rounds : List Round}
    (hc : Implemented protocols registered c)
    (ht : c.api m up protocols (.bind q name version rounds) = some (t, reply)) :
    ∃ p : Scanner.Protocol, p ∈ protocols ∧ p.name = name ∧ Generated protocols p.spec ∧
      Binds protocols q p.spec version.toNat c t reply := by
  unfold api at ht
  dsimp only at ht
  cases hfind : protocols.find? fun p => p.name = name with
  | none =>
    rw [hfind] at ht
    cases ht
  | some p =>
    simp only [hfind, Option.ite_none_right_eq_some] at ht
    have hname : p.name = name := by simpa using List.find?_some hfind
    have hproto : Generated protocols p.spec := by
      refine ⟨p, ?_, rfl⟩
      rw [← hfind, Scanner.Protocol.spec, hname]
    exact ⟨p, List.mem_of_find?_eq_some hfind, hname, hproto, bindCall_refines hc hproto ht.1 ht.2⟩

/-- **A call refines a run**: every call that comes back is what a client of messages does. -/
theorem api_step {call : Api} (hc : Implemented protocols registered c)
    (ht : c.api m up protocols call = some (t, reply)) :
    ∃ as, (∀ a ∈ as, a.Bound protocols) ∧ Run.run step c as = some t := by
  have hstays : ∃ as, (∀ a ∈ as, Action.Bound protocols a) ∧ Run.run step c as = some c :=
    ⟨[], by simp, Run.run_nil c⟩
  have hletGo : ∀ (d : Client) h, ∃ as, (∀ a ∈ as, Action.Bound protocols a) ∧
      Run.run step d as = some (d.letGo h) := by
    intro d h
    unfold letGo
    cases hdrop : d.attempts (.drop h) with
    | none => exact ⟨[], by simp, Run.run_nil d⟩
    | some d' =>
      exact ⟨[.drop h], by simp [Action.Bound],
        Run.run_cons.mpr ⟨d', (attempts_spec hdrop).2, Run.run_nil d'⟩⟩
  cases call with
  | user a =>
    obtain ⟨c', ha, heq⟩ := Option.map_eq_some_iff.mp ht
    cases heq
    obtain ⟨hcall, hstep⟩ := attempts_spec ha
    refine ⟨[a], ?_, Run.run_cons.mpr ⟨_, hstep, Run.run_nil _⟩⟩
    intro b hb
    exact List.mem_singleton.mp hb ▸ bound_of_isCall hcall
  | dispatchEvents q block round =>
    simp only [api, Option.ite_none_right_eq_some] at ht
    obtain ⟨hfree, ht⟩ := ht
    rcases dispatch_refines hc hfree ht with ⟨-, rfl, -⟩ | ⟨-, hdispatched⟩
    · exact hstays
    · exact hdispatched.run
  | waitForHandshake q rounds =>
    simp only [api, Option.ite_none_right_eq_some] at ht
    obtain ⟨hfree, ht⟩ := ht
    rcases waiting_refines (fun d hd => by simp [hd]) hc hfree ht with
      ⟨-, rfl, -⟩ | ⟨-, hdispatched, -⟩
    · exact hstays
    · exact hdispatched.run
  | roundtrip q rounds =>
    simp only [api, Option.ite_none_right_eq_some] at ht
    obtain ⟨hfree, ht⟩ := ht
    rcases roundtripCall_refines hc hfree ht with ⟨-, rfl, -⟩ | ⟨-, hask, d, hdispatched, hwaits, rfl⟩
    · exact hstays
    · obtain ⟨hidle, hin, -⟩ := ask_stands c q
      obtain ⟨as, has, hrun⟩ := hdispatched.run_roundtrip (hidle.trans (free_spec hfree).2.1) hin hwaits
      have hone : ∀ a ∈ [Action.roundtrip q], a.Bound protocols := by simp [Action.Bound]
      exact ⟨.roundtrip q :: as, append_bound hone has, Run.run_cons.mpr ⟨_, hask, hrun⟩⟩
  | bind q name version rounds =>
    obtain ⟨p, -, -, hproto, hbinds⟩ := bind_refines hc ht
    have hone : ∀ a ∈ [Action.bind q p.spec version.toNat], a.Bound protocols := by
      simpa [Action.Bound] using hproto
    cases hbinds with
    | notFound _ heq | outOfRange _ _ _ heq | noObjects _ _ _ _ heq => exact heq ▸ hstays
    | closed b hrequests _ heq =>
      obtain ⟨bs, hbs, hrun⟩ := hletGo b c.size
      exact ⟨.bind q p.spec version.toNat :: bs, append_bound hone hbs,
        Run.run_cons.mpr ⟨b, hrequests.step, heq ▸ hrun⟩⟩
    | failed b d e hrequests hdispatched heq =>
      obtain ⟨as, has, hrun⟩ := hdispatched.run
      obtain ⟨bs, hbs, hrun'⟩ := hletGo d c.size
      exact ⟨.bind q p.spec version.toNat :: (as ++ bs), append_bound hone (append_bound has hbs),
        Run.run_cons.mpr ⟨b, hrequests.step, Run.run_append.mpr ⟨d, hrun, heq ▸ hrun'⟩⟩⟩
    | bound b hrequests hdispatched _ =>
      obtain ⟨as, has, hrun⟩ := hdispatched.run
      exact ⟨.bind q p.spec version.toNat :: as, append_bound hone has,
        Run.run_cons.mpr ⟨b, hrequests.step, hrun⟩⟩

/-! ### Between two calls -/

/-- No call is under way: no queue dispatches, and no mutex is held. -/
def Rests (c : Client) : Prop := ∀ q, (c.queues q).phase = .idle ∧ (c.queues q).inRoundtrip = false

/-- A dispatch leaves its own queue at rest, and the others as they were. -/
theorem Dispatched.stands (h : Dispatched protocols q c t reply) (hidle : (c.queues q).phase = .idle)
    (i : Nat) : (t.queues i).phase = (c.queues i).phase ∧
      ((c.queues i).inRoundtrip = false → (t.queues i).inRoundtrip = false) := by
  cases h with
  | done as _ _ hsame _ => exact ⟨hsame.phase i, (hsame.inRoundtrip i).trans⟩
  | broken e as _ _ hbroken _ _ =>
    by_cases hi : i = q
    · subst hi
      exact ⟨hbroken.idle.trans hidle.symm, fun _ => hbroken.inRoundtrip⟩
    · exact ⟨(hbroken.others i hi).1, (hbroken.others i hi).2.trans⟩
  | stopped e as _ d _ hsame _ ht _ =>
    subst ht
    have hall := hsame.trans (collect_sameDispatch q d)
    exact ⟨hall.phase i, (hall.inRoundtrip i).trans⟩

theorem Dispatched.rests (h : Dispatched protocols q c t reply) (hc : Rests c) : Rests t :=
  fun i => ⟨((h.stands (hc q).1 i).1).trans (hc i).1, (h.stands (hc q).1 i).2 (hc i).2⟩

theorem Frame.rests (h : Frame c t) (hc : Rests c) : Rests t :=
  fun i => ⟨(h.phase i).trans (hc i).1, (h.inRoundtrip i).trans (hc i).2⟩

theorem rests_attempts {a : Action} (h : c.attempts a = some t) (hc : Rests c) : Rests t :=
  fun i => ⟨(attempts_phase h i).1.trans (hc i).1, (attempts_phase h i).2.trans (hc i).2⟩

theorem rests_letGo (hc : Rests c) (h : Nat) : Rests (c.letGo h) := by
  unfold letGo
  cases hdrop : c.attempts (.drop h) with
  | none => exact hc
  | some d => exact rests_attempts hdrop hc

theorem Binds.rests {proto : ProtocolSpec} {version : Nat}
    (h : Binds protocols q proto version c t reply) (hc : Rests c) : Rests t := by
  cases h with
  | notFound _ heq | outOfRange _ _ _ heq | noObjects _ _ _ _ heq => exact heq ▸ hc
  | closed b hrequests _ heq => exact heq ▸ rests_letGo (hrequests.frame.rests hc) _
  | failed b d e hrequests hdispatched heq =>
    exact heq ▸ rests_letGo (hdispatched.rests (hrequests.frame.rests hc)) _
  | bound b hrequests hdispatched _ => exact hdispatched.rests (hrequests.frame.rests hc)

/-- When a roundtrip returns, its queue is at rest again. -/
theorem Dispatched.rests_roundtrip (hc : Rests c) (h : Dispatched protocols q (c.ask q) t reply) :
    Rests (t.endRoundtrip q) := by
  obtain ⟨hphase, -, -⟩ := ask_stands c q
  have hothers : ∀ i, i ≠ q → ((c.ask q).queues i).phase = (c.queues i).phase ∧
      ((c.ask q).queues i).inRoundtrip = (c.queues i).inRoundtrip := by
    intro i hi
    have hset : ∀ f, (c.setQueue q f).queues i = c.queues i := fun _ => if_neg hi
    have hframe := Frame.write (c.setQueue q fun queue => { queue with
      lastSent := ((c.queues q).lastSent + 1) % wordSize, inRoundtrip := true
      marked := c.out.length }) (.roundtripRequest (((c.queues q).lastSent + 1) % wordSize) q)
    exact ⟨(hframe.phase i).trans (by rw [hset]), (hframe.inRoundtrip i).trans (by rw [hset])⟩
  intro i
  obtain ⟨hi, hround⟩ := h.stands (hphase.trans (hc q).1) i
  by_cases hq : i = q
  · subst hq
    rw [show (t.endRoundtrip i).queues i = { t.queues i with inRoundtrip := false } from if_pos rfl]
    exact ⟨hi.trans (hphase.trans (hc i).1), rfl⟩
  · rw [show (t.endRoundtrip q).queues i = t.queues i from if_neg hq]
    exact ⟨hi.trans ((hothers i hq).1.trans (hc i).1), hround ((hothers i hq).2.trans (hc i).2)⟩

/-- **No call leaves a mutex locked.** -/
theorem api_rests {call : Api} (hc : Implemented protocols registered c) (hrests : Rests c)
    (ht : c.api m up protocols call = some (t, reply)) : Rests t := by
  cases call with
  | user a =>
    obtain ⟨c', ha, heq⟩ := Option.map_eq_some_iff.mp ht
    cases heq
    exact rests_attempts ha hrests
  | dispatchEvents q block round =>
    simp only [api, Option.ite_none_right_eq_some] at ht
    obtain ⟨hfree, ht⟩ := ht
    rcases dispatch_refines hc hfree ht with ⟨-, rfl, -⟩ | ⟨-, hdispatched⟩
    · exact hrests
    · exact hdispatched.rests hrests
  | waitForHandshake q rounds =>
    simp only [api, Option.ite_none_right_eq_some] at ht
    obtain ⟨hfree, ht⟩ := ht
    rcases waiting_refines (fun d hd => by simp [hd]) hc hfree ht with ⟨-, rfl, -⟩ | ⟨-, hdispatched, -⟩
    · exact hrests
    · exact hdispatched.rests hrests
  | roundtrip q rounds =>
    simp only [api, Option.ite_none_right_eq_some] at ht
    rcases roundtripCall_refines hc ht.1 ht.2 with ⟨-, rfl, -⟩ | ⟨-, -, d, hdispatched, -, rfl⟩
    · exact hrests
    · exact hdispatched.rests_roundtrip hrests
  | bind q name version rounds =>
    obtain ⟨p, -, -, -, hbinds⟩ := bind_refines hc ht
    exact hbinds.rests hrests

/-- What holds between two calls of a program. -/
structure Between (protocols : List Scanner.Protocol) (registered : String → Bool) (c : Client) :
    Prop where
  run : ∃ as, (∀ a ∈ as, Action.Bound protocols a) ∧
    Run.run step { impls := registrations protocols registered } as = some c
  implemented : Implemented protocols registered c
  rests : Rests c

/-- **A program sees a client of messages**, whatever its callbacks call and give up and whatever the
other side sends, however it is cut; and between its calls every queue rests. -/
theorem api_refines {calls : List Api}
    (hrun : Run.run (act m up protocols) { impls := registrations protocols registered } calls =
      some c) : Between protocols registered c := by
  refine @Run.run_induction _ _ (act m up protocols) (Between protocols registered) ?_ calls _ _
    ⟨⟨[], by simp, Run.run_nil _⟩, .init protocols registered, fun _ => ⟨rfl, rfl⟩⟩ hrun
  intro c call t hc hact
  obtain ⟨⟨t', reply⟩, hapi, heq⟩ := Option.map_eq_some_iff.mp hact
  cases heq
  obtain ⟨as, has, hfrom⟩ := hc.run
  obtain ⟨bs, hbs, hmore⟩ := api_step hc.implemented hapi
  exact ⟨⟨as ++ bs, append_bound has hbs, Run.run_append.mpr ⟨c, hfrom, hmore⟩⟩,
    hc.implemented.run hbs hmore, api_rests hc.implemented hc.rests hapi⟩

/-! ## What an answer says -/

/-- The object of a bind that has succeeded is a new one, the first of its protocol, and it was asked
for and named. -/
structure Root (protocols : List Scanner.Protocol) (c t : Client) (q : Nat) (name : String)
    (version : Nat) : Prop where
  made : c.size < t.size
  spec : ∃ p : Scanner.Protocol, p ∈ protocols ∧ p.name = name ∧
    (t.objects c.size).spec = p.spec.objects.head?
  protocolName : (t.objects c.size).protocolName = name
  speaks : (t.objects c.size).version = version
  eventQueue : (t.objects c.size).eventQueue = q
  seq : (t.objects c.size).seq = c.nextSeq
  id_ne : (t.objects c.size).id ≠ 0
  named : .newObject c.nextSeq (t.objects c.size).id ∈ t.handled
  asked : .bindProtocol c.nextSeq version name ∈ t.out
  advertised : ∃ max, c.getSpec name = some (name, max) ∧ version ≤ max

/-- What a call that succeeds has brought about. -/
def Fulfilled (protocols : List Scanner.Protocol) (c t : Client) : Api → Prop
  | .user _ => True
  | .dispatchEvents .. => t.error = false
  | .waitForHandshake .. => t.error = false ∧ t.handshakeDone = true
  | .roundtrip q _ => t.error = false ∧ t.unacknowledged q = false
  | .bind q name version _ => t.error = false ∧ Root protocols c t q name version.toNat

/-- Why a call is refused. -/
def Refused (c : Client) : Api → CrateError → Prop
  | .bind _ name _ _, .protocolNotFound => c.getSpec name = none
  | .bind _ name version _, .versionOutOfRange requested max =>
    requested = version.toNat ∧ c.getSpec name = some (name, max) ∧ max < requested
  | _, _ => False

/-- The calls that a connection in error refuses. -/
def Api.dispatches : Api → Bool
  | .dispatchEvents .. | .waitForHandshake .. | .roundtrip .. => true
  | .user _ | .bind .. => false

/-- **What the answer of a call says** about the state it leaves. A call is refused with the reason
that there is, and with no other. -/
structure Answers (protocols : List Scanner.Protocol) (c : Client) (call : Api) (t : Client)
    (reply : Reply) : Prop where
  error : c.error = true → t.error = true
  fulfilled : reply = .ok () → Fulfilled protocols c t call
  final : ∀ e, reply = .error e → e.final = true → t.error = true ∧ t.shut = true
  refused : ∀ e, reply = .error e → e.fromDispatch = false → t = c ∧ c.Refused call e
  refuses : ∀ e, c.Refused call e → t = c ∧ reply = .error e
  closed : c.error = true → call.dispatches = true → t = c ∧ reply = .error .connectionClosed

/-- A run clears no error, and opens no stream again. -/
theorem run_faults {as : List Action} (hc : Implemented protocols registered c)
    (has : ∀ a ∈ as, a.Bound protocols) (hrun : Run.run step c as = some t) :
    (c.error = true → t.error = true) ∧ (c.shut = true → t.shut = true) ∧ Later c t := by
  refine (@Run.run_meeting _ _ step (fun d => Implemented protocols registered d ∧
    (c.error = true → d.error = true) ∧ (c.shut = true → d.shut = true) ∧ Later c d)
    (fun _ a => a.Bound protocols) ?_ as c t ⟨hc, id, id, .refl c⟩ (Run.meets_of_forall has) hrun).2
  intro d a d' hd ha hstep
  obtain ⟨hd, herror, hshut, hlater⟩ := hd
  have hmore := (moves_anyhow hd.ledger hstep).later
  exact ⟨hd.step ha hstep, fun h => (faults hstep).error (herror h), fun h => hmore.shut (hshut h),
    hlater.trans hmore⟩

/-- What a dispatch answers. -/
theorem Dispatched.answer (h : Dispatched protocols q c t reply) :
    (reply = .ok () → t.error = false) ∧ ∀ e, reply = .error e → e.fromDispatch = true ∧
      (e.final = true → t.error = true ∧ t.shut = true) := by
  cases h with
  | done _ _ _ _ hopen => exact ⟨fun _ => hopen, by simp⟩
  | broken e _ _ _ hbroken he hclosed =>
    refine ⟨by simp, ?_⟩
    rintro e' ⟨⟩
    refine ⟨he, fun hfinal => ⟨hbroken.error, ?_⟩⟩
    rcases hclosed with rfl | ⟨-, hshut⟩
    · cases hfinal
    · exact hshut
  | stopped e _ _ _ _ _ _ _ he =>
    refine ⟨by simp, ?_⟩
    rintro e' ⟨⟩
    rcases he with rfl | rfl
    · exact ⟨rfl, by simp [CrateError.final]⟩
    · exact ⟨rfl, by simp [CrateError.final]⟩

/-- A stream is not shut down before there is an error. -/
theorem Between.shut (hc : Between protocols registered c) (hshut : c.shut = true) : c.error = true := by
  obtain ⟨as, -, hrun⟩ := hc.run
  refine @Run.run_induction _ _ step (fun d => d.shut = true → d.error = true) ?_ as _ _ ?_ hrun hshut
  · intro d a d' hd hstep hshut
    rcases (faults hstep).shut hshut with hshut | herror
    · exact (faults hstep).error (hd hshut)
    · exact herror
  · intro h
    cases h

/-- Letting go of a handle repairs nothing. -/
theorem letGo_faults (hc : Implemented protocols registered c) (herror : c.error = true)
    (hshut : c.shut = true) (h : Nat) : (c.letGo h).error = true ∧ (c.letGo h).shut = true := by
  unfold letGo
  cases hdrop : c.attempts (.drop h) with
  | none => exact ⟨herror, hshut⟩
  | some d =>
    obtain ⟨-, hstep⟩ := attempts_spec hdrop
    exact ⟨(faults hstep).error herror, (moves_anyhow hc.ledger hstep).later.shut hshut⟩

/-- The object of a bind, once its wait is over. -/
theorem Requests.root {p : Scanner.Protocol} {version : Nat} {b : Client}
    (hbetween : Between protocols registered c) (hp : p ∈ protocols)
    (hrequests : Requests c q p.spec version b) (hopen : c.error = false) (hlater : Later b t)
    (ht : Implemented protocols registered t) (hid : (t.objects c.size).id ≠ 0) :
    Root protocols c t q p.name version := by
  obtain ⟨spec, hspec, hobject⟩ := hrequests.object
  have hlt : c.size < b.size := hrequests.size ▸ Nat.lt_succ_self _
  have hold := hlater.objects c.size hlt
  have hseq : (t.objects c.size).seq = c.nextSeq := hold.seq.trans (by rw [hobject]; rfl)
  have hshut : c.shut = false := by
    cases hshut : c.shut with
    | false => rfl
    | true => exact absurd (hbetween.shut hshut) (by simp [hopen])
  refine ⟨Nat.lt_of_lt_of_le hlt hlater.size, ⟨p, hp, rfl, ?_⟩, ?_, ?_, ?_, hseq, hid,
    hseq ▸ ht.ledger.named _ hid, ?_, hrequests.advertised⟩
  · rw [hold.spec, hobject, hspec]
    rfl
  · rw [hold.protocolName, hobject]
    rfl
  · rw [hold.version, hobject]
    rfl
  · rw [hold.eventQueue, hobject]
    rfl
  · refine hlater.out.subset ?_
    rw [hrequests.out hshut]
    exact List.mem_append.mpr (.inr (List.mem_singleton.mpr rfl))

/-- **An answer can be relied on**, after any calls before it: success says what it has brought about,
a refusal leaves the connection as it was, and an error that is final has shut it down. -/
theorem api_answers {calls : List Api} {call : Api}
    (hrun : Run.run (act m up protocols) { impls := registrations protocols registered } calls =
      some c) (ht : c.api m up protocols call = some (t, reply)) :
    Answers protocols c call t reply := by
  have hbetween := api_refines hrun
  have hc := hbetween.implemented
  have herror : c.error = true → t.error = true := by
    obtain ⟨as, has, hmore⟩ := api_step hc ht
    exact (run_faults hc has hmore).1
  cases call with
  | user a =>
    obtain ⟨c', ha, heq⟩ := Option.map_eq_some_iff.mp ht
    cases heq
    exact ⟨herror, fun _ => trivial, by simp, by simp, fun _ h => h.elim, fun _ h => by cases h⟩
  | dispatchEvents q block round =>
    simp only [api, Option.ite_none_right_eq_some] at ht
    rcases dispatch_refines hc ht.1 ht.2 with ⟨hfailed, rfl, rfl⟩ | ⟨hopen, hdispatched⟩
    · exact ⟨id, by simp, by simp [CrateError.final], by simp [CrateError.fromDispatch],
        fun _ h => h.elim, fun _ _ => ⟨rfl, rfl⟩⟩
    · obtain ⟨hok, herr⟩ := hdispatched.answer
      exact ⟨herror, hok, fun e he => (herr e he).2, fun e he hno => by simp [(herr e he).1] at hno,
        fun _ h => h.elim, fun h => by simp [hopen] at h⟩
  | waitForHandshake q rounds =>
    simp only [api, Option.ite_none_right_eq_some] at ht
    rcases waiting_refines (fun d hd => by simp [hd]) hc ht.1 ht.2 with
      ⟨hfailed, rfl, rfl⟩ | ⟨hopen, hdispatched, hwaits⟩
    · exact ⟨id, by simp, by simp [CrateError.final], by simp [CrateError.fromDispatch],
        fun _ h => h.elim, fun _ _ => ⟨rfl, rfl⟩⟩
    · obtain ⟨hok, herr⟩ := hdispatched.answer
      refine ⟨herror, fun h => ⟨hok h, ?_⟩, fun e he => (herr e he).2,
        fun e he hno => by simp [(herr e he).1] at hno, fun _ h => h.elim, fun h => by simp [hopen] at h⟩
      simpa [hok h] using hwaits h
  | roundtrip q rounds =>
    simp only [api, Option.ite_none_right_eq_some] at ht
    rcases roundtripCall_refines hc ht.1 ht.2 with
      ⟨hfailed, rfl, rfl⟩ | ⟨hopen, -, d, hdispatched, hwaits, rfl⟩
    · exact ⟨id, by simp, by simp [CrateError.final], by simp [CrateError.fromDispatch],
        fun _ h => h.elim, fun _ _ => ⟨rfl, rfl⟩⟩
    · obtain ⟨hok, herr⟩ := hdispatched.answer
      refine ⟨herror, fun h => ⟨hok h, ?_⟩, fun e he => (herr e he).2,
        fun e he hno => by simp [(herr e he).1] at hno, fun _ h => h.elim, fun h => by simp [hopen] at h⟩
      have hqueue : (d.endRoundtrip q).queues q = { d.queues q with inRoundtrip := false } := if_pos rfl
      simpa [unacknowledged, hqueue] using hwaits h
  | bind q name version rounds =>
    obtain ⟨p, hp, rfl, hproto, hbinds⟩ := bind_refines hc ht
    have hclosed : Api.dispatches (.bind q p.name version rounds) = true → False := by simp [Api.dispatches]
    have hrefuses : ∀ e, c.Refused (.bind q p.name version rounds) e → t = c ∧ reply = .error e := by
      intro e he
      cases e with
      | protocolNotFound => exact hbinds.refuses.1 he
      | versionOutOfRange requested max =>
        obtain ⟨rfl, hspec, hmax⟩ := he
        exact hbinds.refuses.2 max hspec hmax
      | _ => exact he.elim
    cases hbinds with
    | notFound hnone heq =>
      refine ⟨herror, by simp, by simp [CrateError.final], ?_, hrefuses, fun _ h => (hclosed h).elim⟩
      rintro e ⟨⟩ -
      exact ⟨heq, hnone⟩
    | outOfRange max hmem hmax heq =>
      refine ⟨herror, by simp, by simp [CrateError.final], ?_, hrefuses, fun _ h => (hclosed h).elim⟩
      rintro e ⟨⟩ -
      exact ⟨heq, rfl, hmem, hmax⟩
    | noObjects _ _ _ hnone heq =>
      exact ⟨herror, by simp, by simp [CrateError.final], by simp [CrateError.fromDispatch],
        hrefuses, fun _ h => (hclosed h).elim⟩
    | closed b hrequests hfailed heq =>
      exact ⟨herror, by simp, by simp [CrateError.final], by simp [CrateError.fromDispatch],
        hrefuses, fun _ h => (hclosed h).elim⟩
    | failed b d e hrequests hdispatched heq =>
      obtain ⟨-, herr⟩ := hdispatched.answer
      refine ⟨herror, by simp, ?_, fun e' he' hno => ?_, hrefuses, fun _ h => (hclosed h).elim⟩
      · intro e' he' hfinal
        obtain ⟨hbroken, hshut⟩ := (herr e' he').2 hfinal
        obtain ⟨as, has, hmore⟩ := hdispatched.run
        have hb := hc.step (a := .bind q p.spec version.toNat) hproto hrequests.step
        exact heq ▸ letGo_faults (hb.run has hmore) hbroken hshut _
      · simp [(herr e' he').1] at hno
    | bound b hrequests hdispatched hid =>
      obtain ⟨hok, -⟩ := hdispatched.answer
      obtain ⟨as, has, hmore⟩ := hdispatched.run
      have hb : Implemented protocols registered b :=
        hc.step (a := .bind q p.spec version.toNat) hproto hrequests.step
      -- An error would have stayed, and the wait would not have succeeded.
      have hopen : c.error = false := by
        cases hfailed : c.error with
        | false => rfl
        | true => exact (herror hfailed).symm.trans (hok rfl)
      refine ⟨herror, fun _ => ⟨hok rfl, ?_⟩, by simp, by simp, hrefuses, fun _ h => (hclosed h).elim⟩
      exact hrequests.root hbetween hp hopen (run_faults hb has hmore).2.2 (hb.run has hmore) hid

end

/-! ### A customer of the shop -/

/-- The socket can be read from, once. -/
def arrives (data : List UInt8) (handlers : Handlers) : Round where
  wait := .ready true
  answers := [.received data []]
  handlers

/-- A customer greets the server, and binds the shop. -/
def customer : List Api :=
  [.waitForHandshake 0
      [arrives (HandshakeBegin.new [1]).data fun _ => [],
        arrives (HandshakeProtocols.new ["shop@1"]).data fun _ => []],
    .bind 0 "shop" 1 [arrives (NewObject.new 1 7).data fun _ => []]]

theorem api_refines_customer : ∃ c,
    Run.run (act .checked Char.toString [Server.shop])
        { impls := registrations [Server.shop] fun _ => true } customer = some c ∧
      Between [Server.shop] (fun _ => true) c := by
  have hrun : (Run.run (act .checked Char.toString [Server.shop])
      { impls := registrations [Server.shop] fun _ => true } customer).isSome = true := by
    decide +kernel
  obtain ⟨c, hc⟩ := Option.isSome_iff_exists.mp hrun
  exact ⟨c, hc, api_refines hc⟩

/-- Then it waits for a roundtrip, and is ticked meanwhile. -/
def customerWaits : Api :=
  .roundtrip 0 [arrives (word 7 0 ([] : List (Field .checked)) ++ (RoundtripDone.new 1).data) fun _ =>
    [.send 0 1 []]]

theorem api_answers_customer : ∃ c t reply,
    Run.run (act .checked Char.toString [Server.shop])
        { impls := registrations [Server.shop] fun _ => true } customer = some c ∧
      c.api .checked Char.toString [Server.shop] customerWaits = some (t, reply) ∧
      Answers [Server.shop] c customerWaits t reply := by
  have hrun : ((Run.run (act .checked Char.toString [Server.shop])
      { impls := registrations [Server.shop] fun _ => true } customer).bind fun c =>
        c.api .checked Char.toString [Server.shop] customerWaits).isSome = true := by
    decide +kernel
  obtain ⟨⟨t, reply⟩, hall⟩ := Option.isSome_iff_exists.mp hrun
  obtain ⟨c, hc, ht⟩ := Option.bind_eq_some_iff.mp hall
  exact ⟨c, t, reply, hc, ht, api_answers hc ht⟩

end Hyprwire.Client
