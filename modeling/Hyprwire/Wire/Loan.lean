import Hyprwire.Lib.Run
import Hyprwire.Wire.RoundTrip

/-!
# `Wire/Loan.lean` — descriptors lent to a call

A generated `send_` method borrows its descriptors (`AsFd`) for as long as the call lasts, and hands
on their numbers. A call on an object with an id sends them at once. A call on an object without one
leaves the numbers in the queue, and the kernel looks them up when the queue is flushed: by then
they may be closed, or stand for other files.

The peer gets the files that were meant exactly if every number still stands for its file at the
flush (`lent_iff`).
-/

namespace Hyprwire.Scanner

open Rust

variable {φ : Type} {up : Char → String} {p : Protocol}

/-- The descriptor table of the process: the file that each number stands for. -/
abbrev FdTable (φ : Type) := RawFd → Option φ

/-- What `sendmsg` makes of the numbers it is given (`SCM_RIGHTS`); `none` is `EBADF`. -/
def attach (table : FdTable φ) : List RawFd → Option (List φ)
  | [] => some []
  | fd :: fds => do
    let file ← table fd
    let files ← attach table fds
    some (file :: files)

/-- A call of a generated `send_` method of a client. -/
structure SendCall (up : Char → String) (p : Protocol) where
  self : Receiver
  methods : List Method
  idx : Nat
  method : Method
  vs : List Value
  client : self.server = false
  tables : self.methodsOut = methodSpecs methods
  row : methods[idx]? = some method
  small : idx < 2 ^ 32
  generated : method.returns ≠ some ""
  typed : Typed up p method.args vs

/-- The numbers of the descriptors it is given. -/
def SendCall.fds (call : SendCall up p) : List RawFd := call.vs.flatMap valueFds

/-- What it makes of them. -/
def SendCall.called (call : SendCall up p) : Outcome Refused Called :=
  Hyprwire.call call.self (UInt32.ofNat call.idx) (call.vs.map callArgExpr)

/-- A message in the queue, with what it was made of: the numbers it was given, and what they stood
for then. -/
structure Waiting (φ : Type) where
  msg : GenericProtocolMessage
  fds : List RawFd
  lent : FdTable φ
  files : List φ

/-- A message that was sent: its bytes, the files that came with it (none at all when `sendmsg`
failed), and those that its caller meant. -/
structure Passed (φ : Type) where
  data : List UInt8
  received : Option (List φ)
  meant : List φ

/-- The process of a client. -/
structure Caller (φ : Type) where
  table : FdTable φ
  queue : List (Waiting φ) := []
  passed : List (Passed φ) := []

/-- What happens: a call is made, a number is closed or given to a file, the queue is flushed.
`idOf` is the id of the object with a seq, if there is one (`object_for_seq`). -/
inductive LoanOp (φ : Type) (up : Char → String) (p : Protocol)
  | call (call : SendCall up p)
  | change (fd : RawFd) (file : Option φ)
  | flush (idOf : UInt32 → Option UInt32)

namespace Caller

/-- `send_message`: the numbers are looked up now. -/
def send (s : Caller φ) (msg : GenericProtocolMessage) (meant : List φ) : Caller φ :=
  { s with passed := s.passed ++ [⟨msg.data, attach s.table msg.fds, meant⟩] }

/-- The loop over the queue behind a dispatch. -/
def flush (idOf : UInt32 → Option UInt32) : List (Waiting φ) → Caller φ → Caller φ
  | [], s => s
  | w :: ws, s =>
    match idOf w.msg.dependsOnSeq with
    | none => flush idOf ws s
    | some id =>
      if id = 0 then flush idOf ws { s with queue := s.queue ++ [w] }
      else flush idOf ws (s.send (w.msg.resolveSeq id) w.files)

/-- A call has to be given open descriptors: it borrows them. -/
def step (s : Caller φ) : LoanOp φ up p → Option (Caller φ)
  | .call call =>
    match call.called, attach s.table call.fds with
    | .ok called, some files =>
      if called.deferred then
        some { s with queue := s.queue ++ [⟨called.msg, call.fds, s.table, files⟩] }
      else some (s.send called.msg files)
    | _, _ => none
  | .change fd file => some { s with table := fun fd' => if fd' = fd then file else s.table fd' }
  | .flush idOf => some (flush idOf s.queue { s with queue := [] })

/-- **The same files**: every message that was sent arrived with the files that its caller meant. -/
def Same (s : Caller φ) : Prop := ∀ x ∈ s.passed, x.received = some x.meant

/-- **The condition**: at a flush, the numbers of the messages that are sent stand for what they
stood for at the call. -/
def Held (s : Caller φ) : LoanOp φ up p → Prop
  | .flush idOf => ∀ w ∈ s.queue, (∃ id, idOf w.msg.dependsOnSeq = some id ∧ id ≠ 0) →
      ∀ fd ∈ w.fds, s.table fd = w.lent fd
  | .call _ | .change .. => True

/-! ## Looking numbers up -/

theorem attach_cons_eq_some {table : FdTable φ} {fd : RawFd} {fds : List RawFd} {files : List φ} :
    attach table (fd :: fds) = some files ↔
      ∃ file files', table fd = some file ∧ attach table fds = some files' ∧
        files = file :: files' := by
  rw [attach]
  cases table fd with
  | none => simp
  | some file =>
    cases attach table fds with
    | none => simp
    | some files' => simp [eq_comm]

/-- Numbers give the same files in two tables iff they stand for the same in both. -/
theorem attach_iff {table lent : FdTable φ} : ∀ {fds : List RawFd} {files : List φ},
    attach lent fds = some files →
      (attach table fds = some files ↔ ∀ fd ∈ fds, table fd = lent fd)
  | [], files, h => iff_of_true h (fun _ hmem => (List.not_mem_nil hmem).elim)
  | fd :: fds, files, h => by
    obtain ⟨file, files', hfd, hfds, rfl⟩ := attach_cons_eq_some.mp h
    rw [attach_cons_eq_some, List.forall_mem_cons, ← attach_iff hfds, hfd]
    constructor
    · rintro ⟨file', files'', hfd', hfds', heq⟩
      cases heq
      exact ⟨hfd', hfds'⟩
    · rintro ⟨hfd', hfds'⟩
      exact ⟨file, files', hfd', hfds', rfl⟩

/-- **What a `send_` method hands on** are the numbers it was given. -/
theorem fds_called (call : SendCall up p) {called : Called} (h : call.called = .ok called) :
    called.msg.fds = call.fds := by
  have hsend : writeSendMethod call.idx call.method
      = some fun vs => (UInt32.ofNat call.idx, vs.map callArgExpr) := if_neg call.generated
  obtain ⟨called', hcall, -, -, hfds, -⟩ := @call_send .checked up p call.methods call.idx
    call.method call.row call.small _ hsend call.vs call.typed call.self call.tables
    (fun hserver => by rw [call.client] at hserver; cases hserver)
  have hcalled : call.called = .ok called' := hcall
  rw [h] at hcalled
  cases hcalled
  exact hfds

/-! ## The queue -/

/-- What waits still has the numbers it was given, and they were open. -/
def Booked (s : Caller φ) : Prop :=
  ∀ w ∈ s.queue, w.msg.fds = w.fds ∧ attach w.lent w.fds = some w.files

variable {s s' : Caller φ} {idOf : UInt32 → Option UInt32}

theorem booked_flush : ∀ {ws : List (Waiting φ)} {s : Caller φ},
    (∀ w ∈ ws, w.msg.fds = w.fds ∧ attach w.lent w.fds = some w.files) → s.Booked →
      (flush idOf ws s).Booked
  | [], _, _, hs => hs
  | w :: ws, s, hws, hs => by
    have hrest : ∀ w ∈ ws, w.msg.fds = w.fds ∧ attach w.lent w.fds = some w.files :=
      fun w' hw' => hws w' (List.mem_cons_of_mem _ hw')
    rw [flush]
    split
    · exact booked_flush hrest hs
    · split
      · refine booked_flush hrest fun w' hw' => ?_
        rcases List.mem_append.mp hw' with hw' | hw'
        · exact hs w' hw'
        · cases List.mem_singleton.mp hw'
          exact hws w (List.mem_cons_self ..)
      · exact booked_flush hrest hs

theorem booked_step {op : LoanOp φ up p} (hs : s.Booked) (h : step s op = some s') : s'.Booked := by
  cases op with
  | change fd file =>
    cases h
    exact hs
  | flush idOf =>
    cases h
    exact booked_flush hs fun w hw => (List.not_mem_nil hw).elim
  | call call =>
    simp only [step] at h
    split at h
    · next called files hcalled hfiles =>
      split at h
      · cases h
        intro w hw
        rcases List.mem_append.mp hw with hw | hw
        · exact hs w hw
        · cases List.mem_singleton.mp hw
          exact ⟨fds_called call hcalled, hfiles⟩
      · cases h
        exact hs
    · cases h

/-- **A flush** sends the right files iff the numbers of what it sends are still the same. The
induction is on the messages that wait. -/
theorem same_flush : ∀ {ws : List (Waiting φ)} {s : Caller φ},
    (∀ w ∈ ws, w.msg.fds = w.fds ∧ attach w.lent w.fds = some w.files) →
      ((flush idOf ws s).Same ↔ s.Same ∧ ∀ w ∈ ws,
        (∃ id, idOf w.msg.dependsOnSeq = some id ∧ id ≠ 0) → ∀ fd ∈ w.fds, s.table fd = w.lent fd)
  | [], s, _ => by
    simp [flush]
  | w :: ws, s, hws => by
    have hrest : ∀ w ∈ ws, w.msg.fds = w.fds ∧ attach w.lent w.fds = some w.files :=
      fun w' hw' => hws w' (List.mem_cons_of_mem _ hw')
    rw [flush, List.forall_mem_cons]
    cases hid : idOf w.msg.dependsOnSeq with
    | none =>
      simp only []
      rw [same_flush hrest]
      simp
    | some id =>
      simp only []
      by_cases hzero : id = 0
      · rw [if_pos hzero, same_flush hrest]
        simp [hzero, Same]
      · -- The message goes out, with what its numbers stand for now.
        obtain ⟨hfds, hlent⟩ := hws w (List.mem_cons_self ..)
        have hsent : attach s.table (w.msg.resolveSeq id).fds = some w.files ↔
            ∀ fd ∈ w.fds, s.table fd = w.lent fd := by
          rw [← attach_iff hlent, ← hfds]
          rfl
        rw [if_neg hzero, same_flush hrest]
        simp only [Same, send, List.forall_mem_append, List.forall_mem_singleton, hsent, and_assoc]
        simp [hzero]

/-- **A step sends the right files in exactly the cases of the condition.** -/
theorem same_step {op : LoanOp φ up p} (hb : s.Booked) (hs : s.Same) (h : step s op = some s') :
    s'.Same ↔ s.Held op := by
  cases op with
  | change fd file =>
    cases h
    exact iff_of_true hs trivial
  | flush idOf =>
    cases h
    rw [same_flush hb]
    exact and_iff_right hs
  | call call =>
    refine iff_of_true ?_ trivial
    simp only [step] at h
    split at h
    · next called files hcalled hfiles =>
      split at h
      · cases h
        exact hs
      · -- The direct path: the numbers are looked up during the call.
        cases h
        intro x hx
        rcases List.mem_append.mp hx with hx | hx
        · exact hs x hx
        · cases List.mem_singleton.mp hx
          rw [fds_called call hcalled]
          exact hfiles
    · cases h

/-- **When deferred descriptors denote the same files**: in exactly the runs in which, at every
flush, the numbers of what is sent stand for what they stood for at the call. -/
theorem lent_iff {table : FdTable φ} {ops : List (LoanOp φ up p)} {s : Caller φ}
    (hrun : Run.run step { table } ops = some s) :
    Run.Meets step (fun s op => ∀ s', step s op = some s' → s'.Same) { table } ops ↔
      Run.Meets step Held { table } ops :=
  Run.meets_kept_iff (fun _ _ _ hb h => booked_step hb h) (fun _ _ _ hb hs h => same_step hb hs h)
    (fun _ hw => (List.not_mem_nil hw).elim) (fun _ hx => (List.not_mem_nil hx).elim) hrun

end Caller

/-! ## A number that is used again -/

/-- A method that takes a descriptor. -/
def uploadMethod : Method := ⟨"upload", [⟨"file", .fd, none⟩], none, false⟩

def uploadProtocol : Protocol := ⟨"desk_v1", 1, [⟨"desk", 1, [uploadMethod], []⟩], []⟩

/-- `upload(5)` on an object that has no id yet. -/
def uploadCall : SendCall Char.toString uploadProtocol where
  self := {
    id := 0
    seq := 3
    version := 0
    server := false
    methodsOut := methodSpecs [uploadMethod]
    freshSeq := some 4 }
  methods := [uploadMethod]
  idx := 0
  method := uploadMethod
  vs := [.fd 5]
  client := rfl
  tables := rfl
  row := rfl
  small := by decide
  generated := by decide
  typed := .cons rfl .nil

/-- One open file, the number 5. -/
def oneOpen : FdTable String := fun fd => if fd = 5 then some "report" else none

/-- The call, and the flush with nothing in between. -/
def uploaded : List (LoanOp String Char.toString uploadProtocol) :=
  [.call uploadCall, .flush fun _ => some 7]

theorem lent_iff_uploaded : ∃ s, Run.run Caller.step { table := oneOpen } uploaded = some s ∧
    Run.Meets Caller.step (fun s op => ∀ s', Caller.step s op = some s' → s'.Same)
      { table := oneOpen } uploaded := by
  have hheld : Run.Meets Caller.step Caller.Held { table := oneOpen } uploaded := by
    refine Run.meets_cons trivial rfl (Run.meets_cons (fun w hw _ fd _ => ?_) rfl trivial)
    obtain rfl := List.mem_singleton.mp hw
    rfl
  exact ⟨_, rfl, (Caller.lent_iff rfl).mpr hheld⟩

/-- The caller closes its file in between, and opens another one. -/
def replaced : List (LoanOp String Char.toString uploadProtocol) :=
  [.call uploadCall, .change 5 none, .change 5 (some "secret"), .flush fun _ => some 7]

/-- **The peer is sent a file that nobody meant.** -/
theorem not_always_same : ¬ ∀ (table : FdTable String)
    (ops : List (LoanOp String Char.toString uploadProtocol)) (s : Caller String),
    Run.run Caller.step { table } ops = some s → s.Same := by
  intro h
  have hsame := h oneOpen replaced _ rfl _ (List.mem_singleton.mpr rfl)
  exact absurd hsame (by decide)

end Hyprwire.Scanner
