import Hyprwire.Wire.Call
import Hyprwire.Wire.Send

/-!
# `Wire/Deferred.lean` — a deferred call on the wire

A call on an object without an id is marshalled at once, with a zero where the id goes, and waits
in the queue of the event queue. The loop behind `handle_message` patches the id in when the server
has named the object, four bytes at a fixed place in a message it knows nothing else about.

Nobody can tell afterwards: the message is the one that a call on the named object would have sent
(`resolved_call`), and the flush sends it in its turn, once, and nothing else is sent otherwise
than without it (`deferred_eq_direct`).
-/

namespace Hyprwire

open Rust

namespace GenericProtocolMessage

/-- What `send_message` takes of a message. -/
def outgoing (msg : GenericProtocolMessage) : Outgoing where
  data := msg.data
  fds := msg.fds

/-- The seq that a message waits for stays behind. -/
@[simp] theorem outgoing_setDependsOnSeq (msg : GenericProtocolMessage) (seq : UInt32) :
    (msg.setDependsOnSeq seq).outgoing = msg.outgoing := rfl

/-- **`resolve_seq` touches the object id and nothing else**: neither another field of the message
nor a byte outside the four that the id takes. -/
def Patched (msg msg' : GenericProtocolMessage) (id : UInt32) : Prop :=
  msg' = { msg with object := id, data := msg'.data } ∧ msg'.data.length = msg.data.length ∧
    (∀ k, k < 2 ∨ 6 ≤ k → msg'.data[k]? = msg.data[k]?) ∧
    (6 ≤ msg.data.length → (msg'.data.drop 2).take 4 = Bytes.toLeBytes id)

theorem patched_resolveSeq (msg : GenericProtocolMessage) (id : UInt32) :
    Patched msg (msg.resolveSeq id) id := by
  refine ⟨rfl, ?_⟩
  simp only [resolveSeq]
  by_cases hlen : 6 ≤ msg.data.length
  · have hfront : (msg.data.take 2).length = 2 := by rw [List.length_take]; omega
    have hpatch : (msg.data.take 2 ++ Bytes.toLeBytes id).length = 6 := by
      rw [List.length_append, hfront, Bytes.length_toLeBytes]
    rw [if_pos hlen]
    refine ⟨?_, ?_, ?_⟩
    · rw [List.length_append, hpatch, List.length_drop]
      omega
    · rintro k (hk | hk)
      · rw [List.append_assoc, List.getElem?_append_left (by omega), List.getElem?_take,
          if_pos hk]
      · rw [List.getElem?_append_right (by omega), hpatch, List.getElem?_drop]
        congr 1
        omega
    · intro _
      rw [List.append_assoc, List.drop_left' hfront, List.take_left' (Bytes.length_toLeBytes id)]
  · rw [if_neg hlen]
    exact ⟨rfl, fun _ _ => rfl, fun h => absurd h hlen⟩

end GenericProtocolMessage

/-! ## The message of a call -/

/-- What a call that was marshalled has put together: the id stands in the first eleven bytes, and
nothing after them depends on it. -/
theorem call_spec {self : Receiver} {method : UInt32} {args : List CallArg} {called : Called}
    (h : call self method args = .ok called) :
    ∃ rest fds, ∀ id : UInt32, ∃ msg,
      call { self with id } method args = .ok {
        msg
        returnSeq := called.returnSeq
        destructor := called.destructor
        deferred := decide (id = 0 ∧ self.server = false) } ∧
      msg.data = callHeader id method ++ rest ∧ msg.fds = fds ∧
      msg.dependsOnSeq = if id = 0 ∧ self.server = false then self.seq else 0 := by
  unfold call at h
  cases hmethod : self.methodsOut[method.toNat]? with
  | none =>
    rw [hmethod] at h
    cases h
  | some spec =>
    simp only [hmethod] at h
    by_cases hsince : self.version < spec.since
    · rw [if_pos hsince] at h
      cases h
    by_cases hreturns : spec.returnsType ≠ "" ∧ self.server = true
    · rw [if_neg hsince, if_pos hreturns] at h
      cases h
    rw [if_neg hsince, if_neg hreturns] at h
    obtain ⟨⟨data, fds⟩, hargs, hcalled⟩ := Outcome.bind_eq_ok.mp h
    cases hcalled
    refine ⟨callReturn spec (callReturnSeq self spec) ++ data ++ [MessageMagic.end_.toU8], fds, ?_⟩
    intro id
    unfold call
    simp only [hmethod, if_neg hsince, if_neg hreturns, hargs, Outcome.ok_bind]
    refine ⟨_, rfl, ?_, ?_, ?_⟩
    · split <;> simp [GenericProtocolMessage.setDependsOnSeq, GenericProtocolMessage.new,
        callReturnSeq]
    · split <;> rfl
    · split <;> rfl

/-- **Named late or named at once**: the message is the same when it is sent. -/
theorem resolved_call {self : Receiver} {method id : UInt32} {args : List CallArg}
    {called : Called} (hunnamed : self.id = 0) (hclient : self.server = false) (hid : id ≠ 0)
    (hcall : call self method args = .ok called) :
    called.deferred = true ∧ called.msg.dependsOnSeq = self.seq ∧
    ∃ direct, call { self with id } method args = .ok direct ∧ direct.deferred = false ∧
      direct.returnSeq = called.returnSeq ∧ direct.destructor = called.destructor ∧
      (called.msg.resolveSeq id).outgoing = direct.msg.outgoing := by
  obtain ⟨rest, fds, hspec⟩ := call_spec hcall
  obtain ⟨late, hlate, hdata, hfds, hseq⟩ := hspec 0
  obtain ⟨direct, hdirect, hdata', hfds', -⟩ := hspec id
  have hself : { self with id := 0 } = self := by rw [← hunnamed]
  rw [hself, hcall] at hlate
  have hmsg : called.msg = late := congrArg Called.msg (Outcome.ok.inj hlate)
  have hdeferred := congrArg Called.deferred (Outcome.ok.inj hlate)
  rw [hmsg]
  refine ⟨?_, ?_, _, hdirect, ?_, rfl, rfl, ?_⟩
  · rw [hdeferred]
    exact decide_eq_true ⟨rfl, hclient⟩
  · rw [hseq, if_pos ⟨rfl, hclient⟩]
  · exact decide_eq_false fun h => hid h.1
  · have hpatched := resolveSeq_data hdata id
    simp only [GenericProtocolMessage.outgoing, hpatched, hdata']
    rw [hfds', ← hfds]
    rfl

/-! ## The queue -/

/-- The messages that wait on an event queue, and what its connection has sent. -/
structure SendQueue where
  queue : List GenericProtocolMessage := []
  sent : List Outgoing := []

/-- What happens to them: a call hands its message on, another message is sent, the queue is
flushed. `idOf` is the id of the object with a seq, if there is one (`object_for_seq`). -/
inductive QueueOp
  | handOn (called : Called)
  | send (msg : Outgoing)
  | flush (idOf : UInt32 → Option UInt32)

namespace SendQueue

/-- The end of `WireObject::call`: the message waits for the id of its object, or is sent. -/
def handOn (s : SendQueue) (called : Called) : SendQueue :=
  if called.deferred then { s with queue := s.queue ++ [called.msg] }
  else { s with sent := s.sent ++ [called.msg.outgoing] }

/-- The loop over the queue behind `handle_message`: what it sends, and what it queues again. -/
def flushLoop (idOf : UInt32 → Option UInt32) :
    List GenericProtocolMessage → List Outgoing × List GenericProtocolMessage
  | [] => ([], [])
  | msg :: pending =>
    let (sent, queue) := flushLoop idOf pending
    match idOf msg.dependsOnSeq with
    | none => (sent, queue)
    | some id =>
      if id = 0 then (sent, msg :: queue)
      else ((msg.resolveSeq id).outgoing :: sent, queue)

def step (s : SendQueue) : QueueOp → SendQueue
  | .handOn called => s.handOn called
  | .send msg => { s with sent := s.sent ++ [msg] }
  | .flush idOf =>
    let (sent, queue) := flushLoop idOf s.queue
    { queue, sent := s.sent ++ sent }

variable {idOf : UInt32 → Option UInt32} {msg : GenericProtocolMessage}

/-- Each message of the queue is dealt with on its own. -/
theorem flushLoop_append (xs ys : List GenericProtocolMessage) :
    flushLoop idOf (xs ++ ys) = ((flushLoop idOf xs).1 ++ (flushLoop idOf ys).1,
      (flushLoop idOf xs).2 ++ (flushLoop idOf ys).2) := by
  induction xs with
  | nil => rfl
  | cons x xs ih =>
    simp only [List.cons_append, flushLoop, ih]
    split
    · rfl
    · split <;> rfl

/-- A message whose object has no id yet goes back as it came. -/
theorem flushLoop_waiting (h : idOf msg.dependsOnSeq = some 0) :
    flushLoop idOf [msg] = ([], [msg]) := by
  simp [flushLoop, h]

/-- A message whose object has got its id leaves. -/
theorem flushLoop_named {id : UInt32} (hid : id ≠ 0) (h : idOf msg.dependsOnSeq = some id) :
    flushLoop idOf [msg] = ([(msg.resolveSeq id).outgoing], []) := by
  simp [flushLoop, h, hid]

/-- The two queues differ by one message that waits in the first; the same was sent. -/
def Ahead (msg : GenericProtocolMessage) (s t : SendQueue) : Prop :=
  s.sent = t.sent ∧ ∃ front back, s.queue = front ++ [msg] ++ back ∧ t.queue = front ++ back

/-- While the object has no id, a message in the queue makes no difference. -/
theorem Ahead.step {s t : SendQueue} {op : QueueOp} (h : Ahead msg s t)
    (hop : ∀ idOf, op = .flush idOf → idOf msg.dependsOnSeq = some 0) :
    Ahead msg (s.step op) (t.step op) := by
  obtain ⟨hsent, front, back, hs, ht⟩ := h
  cases op with
  | handOn called =>
    simp only [SendQueue.step, handOn]
    by_cases hdeferred : called.deferred = true
    · rw [if_pos hdeferred, if_pos hdeferred]
      refine ⟨hsent, front, back ++ [called.msg], ?_, ?_⟩
      · rw [hs, List.append_assoc]
      · rw [ht, List.append_assoc]
    · rw [if_neg hdeferred, if_neg hdeferred]
      exact ⟨congrArg (· ++ [called.msg.outgoing]) hsent, front, back, hs, ht⟩
  | send out => exact ⟨congrArg (· ++ [out]) hsent, front, back, hs, ht⟩
  | flush idOf =>
    simp only [SendQueue.step, hs, ht, flushLoop_append, flushLoop_waiting (hop idOf rfl),
      List.append_nil, hsent]
    exact ⟨rfl, _, _, rfl, rfl⟩

theorem Ahead.run {ops : List QueueOp} {s t : SendQueue} (h : Ahead msg s t)
    (hops : ∀ idOf, .flush idOf ∈ ops → idOf msg.dependsOnSeq = some 0) :
    Ahead msg (ops.foldl SendQueue.step s) (ops.foldl SendQueue.step t) := by
  induction ops generalizing s t with
  | nil => exact h
  | cons op ops ih =>
    refine ih (h.step ?_) ?_
    · rintro idOf rfl
      exact hops idOf (List.mem_cons_self ..)
    · intro idOf hmem
      exact hops idOf (List.mem_cons_of_mem _ hmem)

/-- **Deferred equals direct on the wire.** A call on an object without an id, any calls, messages
and flushes while it has none, and the flush that finds it named `id`: up to that flush the same
was sent as without the call, and the flush sends one message more, the one that the call would have
sent had the id been there. On the way `resolve_seq` patches the object id alone, and the seq that
the message waits for is no part of what is sent. -/
theorem deferred_eq_direct {self : Receiver} {method id : UInt32} {args : List CallArg}
    {called : Called} (hunnamed : self.id = 0) (hclient : self.server = false) (hid : id ≠ 0)
    (hcall : call self method args = .ok called) :
    (∃ direct, call { self with id } method args = .ok direct ∧ direct.deferred = false ∧
      direct.returnSeq = called.returnSeq ∧ direct.destructor = called.destructor ∧
      ∀ (s : SendQueue) (ops : List QueueOp) (idOf : UInt32 → Option UInt32),
        (∀ idOf', .flush idOf' ∈ ops → idOf' self.seq = some 0) → idOf self.seq = some id →
        ∃ before after,
          (ops.foldl step (s.handOn called)).sent = (ops.foldl step s).sent ∧
          ((ops.foldl step s).step (.flush idOf)).sent
            = (ops.foldl step s).sent ++ before ++ after ∧
          ((ops.foldl step (s.handOn called)).step (.flush idOf)).sent
            = (ops.foldl step s).sent ++ before ++ direct.msg.outgoing :: after) ∧
    (∀ msg : GenericProtocolMessage, msg.Patched (msg.resolveSeq id) id) ∧
    ∀ (msg : GenericProtocolMessage) (seq : UInt32),
      (msg.setDependsOnSeq seq).outgoing = msg.outgoing ∧
      ((msg.setDependsOnSeq seq).resolveSeq id).outgoing = (msg.resolveSeq id).outgoing := by
  obtain ⟨hdeferred, hseq, direct, hdirect, hnow, hreturn, hdestructor, hwire⟩ :=
    resolved_call hunnamed hclient hid hcall
  refine ⟨⟨direct, hdirect, hnow, hreturn, hdestructor, ?_⟩, ?_, ?_⟩
  · intro s ops idOf hwaiting hnamed
    have hahead : Ahead called.msg (s.handOn called) s := by
      rw [handOn, if_pos hdeferred]
      exact ⟨rfl, s.queue, [], (List.append_nil _).symm, (List.append_nil _).symm⟩
    rw [← hseq] at hwaiting hnamed
    obtain ⟨hsent, front, back, hs, ht⟩ := hahead.run hwaiting
    refine ⟨(flushLoop idOf front).1, (flushLoop idOf back).1, hsent, ?_, ?_⟩
    · simp only [step, ht, flushLoop_append, List.append_assoc]
    · have hflush : flushLoop idOf (front ++ [called.msg] ++ back)
          = ((flushLoop idOf front).1 ++ direct.msg.outgoing :: (flushLoop idOf back).1,
              (flushLoop idOf front).2 ++ (flushLoop idOf back).2) := by
        rw [flushLoop_append, flushLoop_append, flushLoop_named hid hnamed, hwire, List.append_nil,
          List.append_assoc, List.singleton_append]
      simp only [step, hs, hflush, hsent]
      exact (List.append_assoc ..).symm
  · intro msg
    exact msg.patched_resolveSeq id
  · intro msg seq
    exact ⟨rfl, rfl⟩

/-- An object that waits for its id, with one method that makes another object of a string. -/
def unnamed : Receiver where
  id := 0
  seq := 3
  version := 1
  server := false
  methodsOut := [{
    idx := 0
    params := [MessageMagic.typeVarchar.toU8]
    returnsType := "surface"
    since := 0
    destructor := false }]
  freshSeq := some 4

theorem deferred_eq_direct_unnamed : ∃ called,
    call unnamed 0 [.varchar [104, 105]] = .ok called ∧
    ∃ direct, call { unnamed with id := 7 } 0 [.varchar [104, 105]] = .ok direct ∧
      direct.deferred = false ∧ direct.returnSeq = called.returnSeq := by
  have hcall : ∃ called, call unnamed 0 [.varchar [104, 105]] = .ok called := ⟨_, rfl⟩
  obtain ⟨called, hcalled⟩ := hcall
  obtain ⟨⟨direct, hdirect, hnow, hreturn, -⟩, -⟩ :=
    @deferred_eq_direct unnamed 0 7 _ called rfl rfl (by decide) hcalled
  exact ⟨called, hcalled, direct, hdirect, hnow, hreturn⟩

end SendQueue

end Hyprwire
