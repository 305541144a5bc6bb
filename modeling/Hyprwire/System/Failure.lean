import Hyprwire.System.Order

/-!
# `System/Failure.lean` — a call that fails

`WireObject::call` fails where its object's event queue is gone, and where `make_object` finds no
spec for the object it asks for. Both come late: the object has been marked destroyed by then, and
the message is queued or sent before the new object is looked up.

`wireCall` is the call with its `Result` (`call_eq`: what `ClientObject::call` makes of it is the
call of the other modules). A failure leaves nothing behind exactly in the cases of `Clean`
(`failed_iff`).
-/

namespace Hyprwire.Client

variable {c : Client} {sock : Bool} {h method : Nat} {m : MethodSpec} {args : List CallArg}

/-! ## `WireObject::call` -/

/-- The call asks for an object: it takes a seq for it, as long as there is a socket to take it
from (`client_sock()`). -/
def asks (sock : Bool) (m : MethodSpec) : Bool := m.returnsType ≠ "" && sock

/-- `return_seq`. -/
def returnSeq (c : Client) (sock : Bool) (m : MethodSpec) : Nat :=
  if asks sock m then c.nextSeq else 0

/-- What a call does before it hands its message on. -/
def prepared (c : Client) (sock : Bool) (h : Nat) (m : MethodSpec) : Client :=
  if asks sock m then (c.markDestroyed h m).fetchAdd else c.markDestroyed h m

/-- The message of the call. -/
def encoded (c : Client) (sock : Bool) (h method : Nat) (m : MethodSpec) (args : List CallArg) :
    Generic where
  object := (c.objects h).id
  method
  seq := c.returnSeq sock m
  args
  origin := h
  call := c.calls.length
  destructor := m.destructor

/-- `make_object(…)?`, and the seq of the new object. -/
def made (c : Client) (obj : ClientObject) (m : MethodSpec) (seq : Nat) : Client × Except Error Nat :=
  match c.makeObject obj.protocolName m.returnsType seq obj.eventQueue with
  | some c => (c, .ok seq)
  | none => (c, .error .noSpec)

/-- `WireObject::call`, from the method that was found on: the deferred branch, and the direct one. -/
def wireCallMethod (c : Client) (sock : Bool) (h method : Nat) (m : MethodSpec)
    (args : List CallArg) : Client × Except Error Nat :=
  let obj := c.objects h
  let live := (c.queues obj.eventQueue).live
  let seq := c.returnSeq sock m
  let msg := c.encoded sock h method m args
  let c := c.prepared sock h m
  if obj.id = 0 then
    if live then
      let c := (c.record ⟨h, method, true⟩).defer obj.eventQueue ⟨msg, obj.seq⟩
      if seq = 0 then (c, .ok 0) else c.made obj m seq
    else (c, .error .malformedMessage)
  else
    let c := (c.record ⟨h, method, false⟩).write (.generic msg)
    if seq = 0 then (c, .ok 0)
    else if live then c.made obj m seq
    else (c, .error .malformedMessage)

/-- **`WireObject::call`** on an object of a client. A method that is out of range or too new is
reported to `Object::error`, which does nothing on a client. -/
def wireCall (c : Client) (sock : Bool) (h method : Nat) (args : List CallArg) :
    Client × Except Error Nat :=
  match (c.objects h).methodsOut[method]? with
  | none => (c, .ok 0)
  | some m =>
    if (c.objects h).version < m.since.toNat then (c, .ok 0)
    else c.wireCallMethod sock h method m args

/-- `ClientObject::call` answers 0 for an error. -/
def answered : Except Error Nat → Nat
  | .ok seq => seq
  | .error _ => 0

/-- **A failure leaves nothing behind**: nothing was sent or queued, no object was added, and the
object is not marked destroyed by it. -/
structure Untouched (c c' : Client) (h : Nat) : Prop where
  out : c'.out = c.out
  queue : ∀ q, (c'.queues q).queue = (c.queues q).queue
  table : c'.table = c.table
  destroyed : (c'.objects h).destroyed = (c.objects h).destroyed

/-- **The condition** on the state a call is made in. A call that asks for an object finds its spec,
and its event queue when it is sent directly (where it fails instead, the socket is shut down
already). A destructor finds its event queue, or its object is destroyed already. -/
structure Clean (c : Client) (sock : Bool) (h : Nat) (m : MethodSpec) : Prop where
  deferred : (c.objects h).id = 0 → (c.queues (c.objects h).eventQueue).live = false →
    m.destructor = true → (c.objects h).destroyed = true
  registered : (c.objects h).id = 0 → (c.queues (c.objects h).eventQueue).live = true →
    c.returnSeq sock m ≠ 0 →
      (specFor c.impls (c.objects h).protocolName m.returnsType).isSome = true
  direct : (c.objects h).id ≠ 0 → c.returnSeq sock m ≠ 0 →
    ((c.queues (c.objects h).eventQueue).live = true ∧
      (specFor c.impls (c.objects h).protocolName m.returnsType).isSome = true) ∨
    (c.shut = true ∧ (m.destructor = true → (c.objects h).destroyed = true))

/-! ## The call of the other modules -/

/-- What a call does first leaves the object as it is found, the queues, and the socket alone. -/
theorem prepared_eq (c : Client) (sock : Bool) (h : Nat) (m : MethodSpec) :
    ∃ objects seq issued, c.prepared sock h m = { c with objects, seq, issued } ∧
      (objects h).id = (c.objects h).id ∧ (objects h).seq = (c.objects h).seq ∧
      (objects h).eventQueue = (c.objects h).eventQueue ∧
      (objects h).destroyed = (m.destructor || (c.objects h).destroyed) := by
  unfold prepared markDestroyed
  cases hdes : m.destructor with
  | true =>
    simp only [if_true]
    split
    all_goals
      refine ⟨_, _, _, rfl, ?_, ?_, ?_, ?_⟩
      all_goals simp [setObject]
  | false =>
    simp only [Bool.false_eq_true, if_false]
    split
    · exact ⟨_, _, _, rfl, rfl, rfl, rfl, by simp⟩
    · exact ⟨_, _, _, rfl, rfl, rfl, rfl, by simp⟩

theorem made_answered (c : Client) (obj : ClientObject) (m : MethodSpec) (seq : Nat) :
    (match c.makeObject obj.protocolName m.returnsType seq obj.eventQueue with
      | some c => (c, seq)
      | none => (c, 0)) = ((c.made obj m seq).1, answered (c.made obj m seq).2) := by
  unfold made
  cases c.makeObject obj.protocolName m.returnsType seq obj.eventQueue <;> rfl

theorem callMethod_wireCallMethod : c.callMethod h method m args =
    ((c.wireCallMethod true h method m args).1,
      answered (c.wireCallMethod true h method m args).2) := by
  have hmark : (c.markDestroyed h m).nextSeq = c.nextSeq := by
    unfold markDestroyed
    split <;> rfl
  have hready : (if m.returnsType ≠ "" then (c.markDestroyed h m).fetchAdd
      else c.markDestroyed h m) = c.prepared true h m := by
    unfold prepared asks
    simp
  have hret : c.returnSeq true m = if m.returnsType ≠ "" then c.nextSeq else 0 := by
    unfold returnSeq asks
    simp
  obtain ⟨objects, seq, issued, hprep, hid, hseq, hqueue, -⟩ := prepared_eq c true h m
  have hsame : (c.prepared true h m).calls = c.calls ∧ (c.prepared true h m).queues = c.queues ∧
      (c.prepared true h m).objects = objects := by
    rw [hprep]
    exact ⟨rfl, rfl, rfl⟩
  -- Neither a message in the queue nor one on the wire changes whether the queue is alive.
  have hdeferred : ∀ call entry, ((((c.prepared true h m).record call).defer
      (c.objects h).eventQueue entry).queues (c.objects h).eventQueue).live =
        (c.queues (c.objects h).eventQueue).live := by
    intro call entry
    rw [(Frame.defer ..).live, ← hsame.2.1]
    rfl
  have hwritten : ∀ call msg, ((((c.prepared true h m).record call).write msg).queues
      (c.objects h).eventQueue).live = (c.queues (c.objects h).eventQueue).live := by
    intro call msg
    rw [(Frame.write ..).live, ← hsame.2.1]
    rfl
  unfold callMethod wireCallMethod
  simp only [hready, hmark, ← hret, route, encoded, hsame, hid, hseq, hqueue]
  by_cases hid0 : (c.objects h).id = 0
  · simp only [if_pos hid0]
    cases hlive : (c.queues (c.objects h).eventQueue).live with
    | true =>
      by_cases hs : c.returnSeq true m = 0
      · simp only [if_pos hs, if_true]
        rfl
      · simp only [if_neg hs, if_true, hdeferred, hlive]
        exact made_answered ..
    | false =>
      simp only [Bool.false_eq_true, if_false, hsame, hlive]
      split <;> rfl
  · simp only [if_neg hid0]
    by_cases hs : c.returnSeq true m = 0
    · simp only [if_pos hs]
      rfl
    · simp only [if_neg hs, hwritten]
      split
      · exact made_answered ..
      · rfl

/-- **The call of the other modules** is this one, without its error. -/
theorem call_eq (c : Client) (h method : Nat) (args : List CallArg) :
    c.call h method args =
      ((c.wireCall true h method args).1, answered (c.wireCall true h method args).2) := by
  unfold call wireCall
  cases (c.objects h).methodsOut[method]? with
  | none => rfl
  | some m =>
    simp only
    split
    · rfl
    · exact callMethod_wireCallMethod

/-! ## When a failure leaves nothing behind -/

/-- What a message that was queued leaves is seen in its queue. -/
theorem queue_deferred (c : Client) (call : Call) (q : Nat) (entry : Deferred) :
    (((c.record call).defer q entry).queues q).queue = (c.queues q).queue ++ [entry] := by
  simp [defer, setQueue, record]

/-- A state that differs in the counters, and in the destroyed flag of a destructor's object. -/
theorem untouched_prepared_iff :
    Untouched c (c.prepared sock h m) h ↔ (m.destructor = true → (c.objects h).destroyed = true) := by
  obtain ⟨objects, seq, issued, hprep, -, -, -, hdestroyed⟩ := prepared_eq c sock h m
  rw [hprep]
  constructor
  · intro hun hdes
    have hsame : (objects h).destroyed = (c.objects h).destroyed := hun.destroyed
    rw [← hsame, hdestroyed, hdes, Bool.true_or]
  · intro hmark
    refine ⟨rfl, fun _ => rfl, rfl, ?_⟩
    show (objects h).destroyed = (c.objects h).destroyed
    rw [hdestroyed]
    cases hdes : m.destructor with
    | true => rw [hmark hdes, Bool.true_or]
    | false => rw [Bool.false_or]

/-- A message was queued. -/
theorem not_untouched_deferred {call : Call} {q : Nat} {entry : Deferred} :
    ¬ Untouched c (((c.prepared sock h m).record call).defer q entry) h := by
  intro hun
  obtain ⟨objects, seq, issued, hprep, -⟩ := prepared_eq c sock h m
  have hqueue := hun.queue q
  rw [queue_deferred, hprep] at hqueue
  have hlen := congrArg List.length hqueue
  rw [List.length_append, List.length_singleton] at hlen
  exact Nat.succ_ne_self _ hlen

/-- A message was sent, unless the socket is shut down. -/
theorem untouched_written_iff {call : Call} {msg : C2S} :
    Untouched c (((c.prepared sock h m).record call).write msg) h ↔
      c.shut = true ∧ (m.destructor = true → (c.objects h).destroyed = true) := by
  rw [← @untouched_prepared_iff c sock h m]
  obtain ⟨objects, seq, issued, hprep, -⟩ := prepared_eq c sock h m
  have hshut : ((c.prepared sock h m).record call).shut = c.shut := by rw [hprep]; rfl
  unfold write
  rw [hshut]
  cases hs : c.shut with
  | true =>
    rw [if_pos rfl, and_iff_right rfl]
    constructor
    · intro hun
      exact ⟨hun.out, hun.queue, hun.table, hun.destroyed⟩
    · intro hun
      exact ⟨hun.out, hun.queue, hun.table, hun.destroyed⟩
  | false =>
    rw [if_neg Bool.false_ne_true]
    refine iff_of_false (fun hun => ?_) (fun h => Bool.false_ne_true h.1)
    have hout := hun.out
    rw [hprep] at hout
    have hlen := congrArg List.length hout
    simp [record] at hlen

/-- What `made` answers. -/
theorem made_cases (c : Client) (obj : ClientObject) (m : MethodSpec) (seq : Nat) :
    ((specFor c.impls obj.protocolName m.returnsType).isSome = true ∧ ∀ e, (c.made obj m seq).2 ≠ .error e) ∨
    ((specFor c.impls obj.protocolName m.returnsType).isSome = false ∧
      c.made obj m seq = (c, .error .noSpec)) := by
  unfold made makeObject
  cases specFor c.impls obj.protocolName m.returnsType with
  | some spec => exact .inl ⟨rfl, nofun⟩
  | none => exact .inr ⟨rfl, rfl⟩

/-- **The call of a method leaves nothing behind when it fails**, in exactly the clean states. -/
theorem failedMethod_iff :
    (∀ e, (c.wireCallMethod sock h method m args).2 = .error e →
      Untouched c (c.wireCallMethod sock h method m args).1 h) ↔ c.Clean sock h m := by
  obtain ⟨objects, seq, issued, hprep, -⟩ := prepared_eq c sock h m
  have himpls : (c.prepared sock h m).impls = c.impls := by rw [hprep]
  have hwritten : ∀ call msg, (((c.prepared sock h m).record call).write msg).impls = c.impls := by
    intro call msg
    obtain ⟨out, hwrite⟩ := write_eq ((c.prepared sock h m).record call) msg
    rw [hwrite]
    exact himpls
  have hlives : (c.queues (c.objects h).eventQueue).live = false →
      (c.queues (c.objects h).eventQueue).live ≠ true := fun hf ht => by rw [hf] at ht; cases ht
  unfold wireCallMethod
  simp only
  by_cases hid : (c.objects h).id = 0
  · rw [if_pos hid]
    cases hlive : (c.queues (c.objects h).eventQueue).live with
    | false =>
      -- The queue is gone: nothing but the mark can be left.
      rw [if_neg Bool.false_ne_true]
      constructor
      · intro hfail
        refine ⟨fun _ _ => untouched_prepared_iff.mp (hfail _ rfl), fun _ ht => ?_, fun hne => ?_⟩
        · exact absurd ht (hlives hlive)
        · exact absurd hid hne
      · rintro hclean e -
        exact untouched_prepared_iff.mpr (hclean.deferred hid hlive)
    | true =>
      rw [if_pos rfl]
      by_cases hseq : c.returnSeq sock m = 0
      · rw [if_pos hseq]
        refine iff_of_true nofun ⟨fun _ hf => absurd hlive (hlives hf), fun _ _ hne => ?_, fun hne => ?_⟩
        · exact absurd hseq hne
        · exact absurd hid hne
      · -- The message is queued before the new object is looked up.
        rw [if_neg hseq]
        rcases made_cases (((c.prepared sock h m).record ⟨h, method, true⟩).defer
          (c.objects h).eventQueue ⟨c.encoded sock h method m args, (c.objects h).seq⟩)
          (c.objects h) m (c.returnSeq sock m) with ⟨hspec, hok⟩ | ⟨hspec, hnone⟩
        · refine iff_of_true (fun e he => absurd he (hok e)) ⟨fun _ hf => ?_, fun _ _ _ => ?_, fun hne => ?_⟩
          · exact absurd hlive (hlives hf)
          · rw [← himpls]
            exact hspec
          · exact absurd hid hne
        · rw [hnone]
          refine iff_of_false (fun hfail => not_untouched_deferred (hfail _ rfl)) fun hclean => ?_
          have hsome := hclean.registered hid hlive hseq
          rw [← himpls] at hsome
          exact Bool.false_ne_true (hspec.symm.trans hsome)
  · rw [if_neg hid]
    by_cases hseq : c.returnSeq sock m = 0
    · rw [if_pos hseq]
      refine iff_of_true nofun ⟨fun h0 => ?_, fun h0 => ?_, fun _ hne => ?_⟩
      · exact absurd h0 hid
      · exact absurd h0 hid
      · exact absurd hseq hne
    · -- The message is sent before anything can fail.
      rw [if_neg hseq]
      have hbad : ¬ ((c.queues (c.objects h).eventQueue).live = true ∧
          (specFor c.impls (c.objects h).protocolName m.returnsType).isSome = true) →
          (c.shut = true ∧ (m.destructor = true → (c.objects h).destroyed = true) ↔
            c.Clean sock h m) := by
        intro hbad
        constructor
        · intro hshut
          exact ⟨fun h0 => absurd h0 hid, fun h0 => absurd h0 hid, fun _ _ => .inr hshut⟩
        · intro hclean
          exact (hclean.direct hid hseq).resolve_left hbad
      cases hlive : (c.queues (c.objects h).eventQueue).live with
      | false =>
        rw [if_neg Bool.false_ne_true, ← hbad fun hgood => hlives hlive hgood.1]
        constructor
        · intro hfail
          exact untouched_written_iff.mp (hfail _ rfl)
        · rintro hshut e -
          exact untouched_written_iff.mpr hshut
      | true =>
        rw [if_pos rfl]
        rcases made_cases (((c.prepared sock h m).record ⟨h, method, false⟩).write
          (.generic (c.encoded sock h method m args))) (c.objects h) m (c.returnSeq sock m) with
          ⟨hspec, hok⟩ | ⟨hspec, hnone⟩
        · rw [hwritten] at hspec
          refine iff_of_true (fun e he => absurd he (hok e)) ⟨fun h0 => ?_, fun h0 => ?_, fun _ _ => ?_⟩
          · exact absurd h0 hid
          · exact absurd h0 hid
          · exact .inl ⟨hlive, hspec⟩
        · rw [hwritten] at hspec
          rw [hnone, ← hbad fun hgood => Bool.false_ne_true (hspec.symm.trans hgood.2)]
          constructor
          · intro hfail
            exact untouched_written_iff.mp (hfail _ rfl)
          · rintro hshut e -
            exact untouched_written_iff.mpr hshut

/-- **When a failed call has no effect**: iff the state it is made in is clean, whatever the object, the
method and the arguments. -/
theorem failed_iff (c : Client) (sock : Bool) (h method : Nat) (args : List CallArg) :
    (∀ e, (c.wireCall sock h method args).2 = .error e →
      Untouched c (c.wireCall sock h method args).1 h) ↔
    ∀ m, (c.objects h).methodsOut[method]? = some m → m.since.toNat ≤ (c.objects h).version →
      c.Clean sock h m := by
  unfold wireCall
  cases hm : (c.objects h).methodsOut[method]? with
  | none => exact iff_of_true nofun nofun
  | some m =>
    simp only
    by_cases hold : (c.objects h).version < m.since.toNat
    · rw [if_pos hold]
      refine iff_of_true nofun fun m' hm' hnew => ?_
      cases hm'
      exact absurd hold (Nat.not_lt_of_le hnew)
    · rw [if_neg hold, failedMethod_iff]
      constructor
      · rintro hclean m' hm' -
        cases hm'
        exact hclean
      · intro hclean
        exact hclean m rfl (Nat.le_of_not_lt hold)

/-- A client that binds a protocol it never registered. -/
def unregistered : List Action := bound₀ ++ [.read 0 [.newObject 1 1], .handle 0, .finish 0]

/-- **The request of an item is sent, although the call fails.** -/
theorem not_always_untouched : ¬ ∀ (impls : List ProtocolSpec) (as : List Action) (c : Client),
    Run.run step { impls } as = some c → ∀ (h method : Nat) (args : List CallArg) (e : Error),
      (c.wireCall true h method args).2 = .error e →
        Untouched c (c.wireCall true h method args).1 h := by
  intro h
  have hout := (h [] unregistered _ rfl 0 0 [] .noSpec rfl).out
  exact absurd (congrArg List.length hout) (by decide)

end Hyprwire.Client
