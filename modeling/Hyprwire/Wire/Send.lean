import Hyprwire.Lib.History
import Hyprwire.Lib.Run
import Hyprwire.Core.Types

/-!
# `Wire/Send.lean` — what a send puts on the socket

`ConnectionState::send_message` hands a message to the kernel in one `sendmsg`, and asks again only
after `EAGAIN`. Any other answer ends the loop, and none of them is looked at: a short write drops
the rest of the message, an interrupted or failed call all of it. The error flag is left alone.

So the stream is what was passed exactly as long as every message is taken whole
(`delivered_iff`).
-/

namespace Hyprwire

/-- What `send_message` reads of a message: `data()` and `fds()`. -/
structure Outgoing where
  data : List UInt8
  fds : List RawFd

/-- An answer of `sendmsg`: it took `k` bytes, or it did not take any. After `EAGAIN` the socket is
polled, and `polled` tells whether `poll` comes back without an error. -/
inductive SendAnswer
  | ok (k : Nat)
  | again (polled : Bool)
  | intr
  | failed
  deriving DecidableEq

/-- `ConnectionState`, with what the kernel has accepted on its stream and what was passed to
`send_message`. -/
structure ConnectionState where
  error : Bool := false
  /-- The calls of `sendmsg` that took something: the bytes, and the descriptors that go with them. -/
  stream : List (List UInt8 × List RawFd) := []
  passed : List UInt8 := []

/-- Something happens to a connection: a message is sent, or another part flags an error. -/
inductive SendOp
  | send (msg : Outgoing) (answers : List SendAnswer)
  | storeError

namespace ConnectionState

/-- The bytes the kernel has accepted. -/
def accepted (c : ConnectionState) : List UInt8 := c.stream.flatMap Prod.fst

/-- **`send_message`**: `none` while it waits for a further answer. -/
def sendMessage (c : ConnectionState) (msg : Outgoing) : List SendAnswer → Option ConnectionState
  | [] => none
  | .again true :: answers => sendMessage c msg answers
  | .ok k :: _ => some { c with stream := c.stream ++ [(msg.data.take k, msg.fds)] }
  | .again false :: _ | .intr :: _ | .failed :: _ => some c

/-- The answers a kernel may give: when it takes something, then at least one byte and at most
all of them. -/
def Possible (msg : Outgoing) (answers : List SendAnswer) : Prop :=
  ∀ answer ∈ answers, match answer with
    | .ok k => 1 ≤ k ∧ k ≤ msg.data.length
    | _ => True

instance (msg : Outgoing) (answers : List SendAnswer) : Decidable (Possible msg answers) :=
  @List.decidableBAll _ _ (fun answer => match answer with
    | .ok k => inferInstanceAs (Decidable (1 ≤ k ∧ k ≤ msg.data.length))
    | .again _ | .intr | .failed => isTrue trivial) answers

def step (c : ConnectionState) : SendOp → Option ConnectionState
  | .send msg answers =>
    if Possible msg answers then
      (c.sendMessage msg answers).map fun c => { c with passed := c.passed ++ msg.data }
    else none
  | .storeError => some { c with error := true }

/-- **All or error**: the kernel has accepted what was passed, or the error flag is set and it has
accepted the beginning of it. -/
def Delivered (c : ConnectionState) : Prop :=
  c.accepted = c.passed ∨ c.error = true ∧ c.accepted <+: c.passed

/-- The bytes taken by the call of `sendmsg` that ends the loop. -/
def taken : List SendAnswer → Nat
  | .again true :: answers => taken answers
  | .ok k :: _ => k
  | _ => 0

/-- **The condition** on a message and the answers it meets: it is taken whole. On a connection
whose error flag is set, what is taken of it goes on where the stream ends. -/
def Whole (c : ConnectionState) : SendOp → Prop
  | .send msg answers =>
    if c.error then msg.data.take (taken answers) <+: c.passed.drop c.accepted.length ++ msg.data
    else taken answers = msg.data.length
  | .storeError => True

instance (c : ConnectionState) : ∀ op, Decidable (Whole c op)
  | .send _ _ => inferInstanceAs (Decidable (ite _ _ _))
  | .storeError => .isTrue trivial

/-! ## One message -/

variable {c c' : ConnectionState} {msg : Outgoing} {answers : List SendAnswer}

/-- A message that was sent left its first bytes on the stream. -/
theorem sendMessage_spec (h : c.sendMessage msg answers = some c') :
    c'.error = c.error ∧ c'.passed = c.passed ∧
      c'.accepted = c.accepted ++ msg.data.take (taken answers) := by
  induction answers with
  | nil => cases h
  | cons answer answers ih =>
    cases answer with
    | ok k =>
      cases h
      simp [accepted, taken]
    | again polled =>
      cases polled with
      | true => exact ih h
      | false =>
        cases h
        simp [taken]
    | intr =>
      cases h
      simp [taken]
    | failed =>
      cases h
      simp [taken]

theorem taken_le (h : Possible msg answers) : taken answers ≤ msg.data.length := by
  induction answers with
  | nil => exact Nat.zero_le _
  | cons answer answers ih =>
    cases answer with
    | ok k => exact (h (.ok k) (List.mem_cons_self ..)).2
    | again polled =>
      cases polled with
      | true => exact ih fun answer hmem => h answer (List.mem_cons_of_mem _ hmem)
      | false => exact Nat.zero_le _
    | intr => exact Nat.zero_le _
    | failed => exact Nat.zero_le _

theorem step_send (h : step c (.send msg answers) = some c') :
    taken answers ≤ msg.data.length ∧ c'.error = c.error ∧ c'.passed = c.passed ++ msg.data ∧
      c'.accepted = c.accepted ++ msg.data.take (taken answers) := by
  simp only [step] at h
  by_cases hpossible : Possible msg answers
  · rw [if_pos hpossible, Option.map_eq_some_iff] at h
    obtain ⟨sent, hsent, rfl⟩ := h
    obtain ⟨herror, hpassed, haccepted⟩ := sendMessage_spec hsent
    refine ⟨taken_le hpossible, herror, ?_, haccepted⟩
    rw [← hpassed]
  · rw [if_neg hpossible] at h
    cases h

/-- Until the first error the whole message has to be taken. -/
theorem append_take_eq_iff {xs data : List UInt8} {k : Nat} (hk : k ≤ data.length) :
    xs ++ data.take k = xs ++ data ↔ k = data.length := by
  rw [List.append_cancel_left_eq]
  constructor
  · intro h
    have hlen := congrArg List.length h
    rw [List.length_take] at hlen
    omega
  · rintro rfl
    exact List.take_length

/-- **A step keeps the property in exactly the cases of the condition.** -/
theorem delivered_step {op : SendOp} (hc : c.Delivered) (h : step c op = some c') :
    c'.Delivered ↔ c.Whole op := by
  cases op with
  | storeError =>
    cases h
    refine iff_of_true ?_ trivial
    rcases hc with heq | ⟨-, hle⟩
    · exact .inl heq
    · exact .inr ⟨rfl, hle⟩
  | send msg answers =>
    obtain ⟨hle, herror, hpassed, haccepted⟩ := step_send h
    unfold Delivered Whole
    rw [herror, hpassed, haccepted]
    cases he : c.error with
    | false =>
      have heq : c.accepted = c.passed := by
        rcases hc with heq | ⟨htrue, -⟩
        · exact heq
        · rw [he] at htrue
          cases htrue
      rw [heq, append_take_eq_iff hle]
      simp
    | true =>
      -- The stream is a front part of what was passed; the rest is missing.
      have hfront : c.accepted <+: c.passed := by
        rcases hc with heq | ⟨-, hfront⟩
        · exact History.prefix_of_eq heq.symm
        · exact hfront
      obtain ⟨missing, hmissing⟩ := hfront
      simp only [if_true, true_and, ← hmissing]
      rw [List.drop_left, List.append_assoc, List.prefix_append_right_inj]
      constructor
      · rintro (heq | hfront)
        · exact History.prefix_of_eq (List.append_cancel_left heq).symm
        · exact hfront
      · exact .inr

/-- **The stream is what was passed in exactly the runs whose messages are taken whole**, up to
the first error. -/
theorem delivered_iff {ops : List SendOp} {c : ConnectionState}
    (hrun : Run.run step {} ops = some c) :
    Run.Meets step (fun c op => ∀ c', step c op = some c' → c'.Delivered) {} ops ↔
      Run.Meets step Whole {} ops :=
  @Run.meets_kept_iff _ _ step (fun _ => True) Delivered Whole (fun _ _ _ _ _ => trivial)
    (fun _ _ _ _ hc h => delivered_step hc h) _ _ _ trivial (.inl rfl) hrun

/-- A roundtrip request. -/
def requested : Outgoing where
  data := [13, 0x10, 1, 0, 0, 0, 0]
  fds := []

theorem delivered_iff_requested : ∃ c,
    Run.run step {} [.send requested [.again true, .ok 7], .send requested [.ok 7]] = some c ∧
      Run.Meets step (fun c op => ∀ c', step c op = some c' → c'.Delivered) {}
        [.send requested [.again true, .ok 7], .send requested [.ok 7]] :=
  ⟨_, rfl, (delivered_iff rfl).mpr (by decide)⟩

/-- **A short write is not made up for.** -/
theorem not_always_delivered : ¬ ∀ (ops : List SendOp) (c : ConnectionState),
    Run.run step {} ops = some c → c.Delivered := by
  intro h
  rcases h [.send requested [.ok 3]] _ rfl with heq | ⟨herror, -⟩
  · exact absurd (congrArg List.length heq) (by decide)
  · cases herror

end ConnectionState

end Hyprwire
