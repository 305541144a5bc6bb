import Hyprwire.Wire.Validate
import Hyprwire.Wire.Stream

/-!
# `Wire/Descriptors.lean` — what becomes of received descriptors

`read_from_socket` takes the descriptors out of their `OwnedFd`s and hands them on as plain
numbers. From there on nobody owns them: `from_bytes` copies them from one list to another, and
only the generated `dispatch` makes an owner again, for each argument that is declared as a
descriptor or an array of them. No other code wraps or closes one. Every early exit in between
lets go of what is still a number: a read that fails, a message that is malformed, an object
nobody knows, a method that declares fewer descriptors than the message brought.

`Conserved` is what a receiver should be able to rely on, `conserved_iff` the exact condition:
the reads end well, and every descriptor comes with a message whose addressee asks for it
(`Claimed`).
-/

namespace Hyprwire

open Rust Scanner

variable {m : Overflow} {up : Char → String} {p : Protocol} {O σ : Type}

/-! ## What a decoder takes off the list -/

/-- The scan has copied what it passed. -/
def Scan.Copied (fds : List RawFd) (s : Scan) : Prop :=
  s.fdsCursor ≤ fds.length ∧ s.consumedFds = fds.take s.fdsCursor

namespace Scan.Copied

variable {data : List UInt8} {fds : List RawFd} {s s' : Scan}

theorem consume (hfds : fds.length < 2 ^ 64) {n : Nat} (hs : s.Copied fds)
    (h : consumeFds m fds n s = .ok s') : s'.Copied fds := by
  obtain ⟨hcur, hcopied⟩ := hs
  rw [consumeFds_eq hfds n s hcur] at h
  by_cases hn : s.fdsCursor + n ≤ fds.length
  · rw [if_pos hn] at h
    cases h
    refine ⟨hn, ?_⟩
    rw [hcopied, ← List.take_add]
  · rw [if_neg hn] at h
    cases h

theorem elements (hfds : fds.length < 2 ^ 64) {pos arrLen len len' : Nat} {t : MessageMagic}
    (hs : s.Copied fds) (h : scanElements m data fds pos t arrLen len s = .ok (len', s')) :
    s'.Copied fds := by
  cases t with
  | typeUint | typeF32 | typeInt | typeObject | typeSeq =>
    simp only [scanElements, Outcome.bind_eq_ok] at h
    obtain ⟨_, -, _, -, heq⟩ := h
    cases heq
    exact hs
  | typeVarchar =>
    simp only [scanElements, Outcome.bind_eq_ok] at h
    obtain ⟨_, -, heq⟩ := h
    cases heq
    exact hs
  | typeFd =>
    simp only [scanElements, Outcome.bind_eq_ok] at h
    obtain ⟨_, hconsume, heq⟩ := h
    cases heq
    exact hs.consume hfds hconsume
  | _ => cases h

theorem body (hfds : fds.length < 2 ^ 64) {pos : Nat} {t : MessageMagic} (hs : s.Copied fds)
    (h : scanBody m data fds pos t s = .ok s') : s'.Copied fds := by
  cases t with
  | typeUint | typeF32 | typeInt | typeObject | typeSeq =>
    simp only [scanBody, Outcome.bind_eq_ok] at h
    obtain ⟨_, -, heq⟩ := h
    cases heq
    exact hs
  | typeVarchar =>
    simp only [scanBody, Outcome.bind_eq_ok] at h
    obtain ⟨_, -, _, -, _, -, _, -, _, -, heq⟩ := h
    cases heq
    exact hs
  | typeArray =>
    simp only [scanBody, Outcome.bind_eq_ok] at h
    obtain ⟨_, -, _, -, _, -, _, -, ⟨arrLen, lenLen⟩, -, _, -, h⟩ := h
    split at h
    · cases h
    · simp only [Outcome.bind_eq_ok] at h
      obtain ⟨⟨_, mid⟩, helements, _, -, heq⟩ := h
      cases heq
      have hmid := hs.elements hfds helements
      exact hmid
  | typeFd =>
    simp only [scanBody, Outcome.bind_eq_ok] at h
    obtain ⟨mid, hconsume, _, -, heq⟩ := h
    cases heq
    have hmid := hs.consume hfds hconsume
    exact hmid
  | _ => cases h

theorem step (hfds : fds.length < 2 ^ 64) {offset : Nat} (hs : s.Copied fds)
    (h : scanStep m data fds offset s = .ok (some s')) : s'.Copied fds := by
  simp only [scanStep, Outcome.bind_eq_ok] at h
  obtain ⟨_, -, _, -, h⟩ := h
  split at h
  · cases h
  · simp only [Outcome.bind_eq_ok] at h
    obtain ⟨_, -, _, hbody, heq⟩ := h
    cases heq
    exact hs.body hfds hbody

/-- Along the whole loop, whatever the budget. -/
theorem loop (hfds : fds.length < 2 ^ 64) {offset fuel : Nat} (hs : s.Copied fds)
    (h : scanLoop m data fds offset fuel s = .ok s') : s'.Copied fds := by
  induction fuel generalizing s with
  | zero => cases h
  | succ fuel ih =>
    simp only [scanLoop, Outcome.bind_eq_ok] at h
    obtain ⟨next, hstep, h⟩ := h
    cases next with
    | none =>
      cases h
      exact hs
    | some next => exact ih (hs.step hfds hstep) h

end Scan.Copied

/-- **An accepted message takes its descriptors off the front of the list**, and leaves the
others as they are. -/
theorem fromBytes_fds {data : List UInt8} {fds rest : List RawFd} {offset : Nat}
    {msg : GenericProtocolMessage} (hfds : fds.length < 2 ^ 64)
    (h : GenericProtocolMessage.fromBytes m data fds offset = .ok (msg, rest)) :
    fds = msg.fds ++ rest := by
  simp only [GenericProtocolMessage.fromBytes, Outcome.bind_eq_ok] at h
  obtain ⟨header, -, s, hloop, h⟩ := h
  have hstart : (⟨11, 0, []⟩ : Scan).Copied fds := ⟨Nat.zero_le _, rfl⟩
  obtain ⟨-, hcopied⟩ := hstart.loop hfds hloop
  simp only [GenericProtocolMessage.finish, Outcome.bind_eq_ok] at h
  obtain ⟨_, -, _, -, _, -, _, -, heq⟩ := h
  cases heq
  simp only [hcopied, List.take_append_drop]

/-- The descriptors a decoded message brought. -/
def Decoded.fds : Decoded → List RawFd
  | .generic msg => msg.fds
  | _ => []

/-- For any type: only a generic message takes descriptors. -/
theorem decode_fds {type : MessageType} {data : List UInt8} {fds rest : List RawFd}
    {needle : Nat} {msg : Decoded} (hfds : fds.length < 2 ^ 64)
    (h : decode m type data fds needle = .ok (msg, rest)) : fds = msg.fds ++ rest := by
  cases type with
  | genericProtocolMessage =>
    simp only [decode, Outcome.bind_eq_ok] at h
    obtain ⟨⟨msg', rest'⟩, hfrom, heq⟩ := h
    cases heq
    exact fromBytes_fds hfds hfrom
  | _ =>
    simp only [decode, Outcome.bind_eq_ok] at h
    obtain ⟨_, -, heq⟩ := h
    cases heq
    rfl

/-! ## What the generated code makes owners of -/

/-- The `OwnedFd::from_raw_fd` calls in the statements printed for an argument, in order. Where the
statements panic, those that came before. -/
def argWraps (m : Overflow) (data : List UInt8) (arg : Arg) (c : Cursor) : List RawFd :=
  match arg.argType with
  | .fd =>
    match (uadd m c.needle 1 : Outcome Error Nat) with
    | .ok _ => c.fdsIter.take 1
    | _ => []
  | .arrayFd =>
    match arrayHead m data 4 c with
    | .ok (count, c) => c.fdsIter.take count
    | _ => []
  | _ => []

/-- The calls in the statements of all arguments. -/
def argsWraps (m : Overflow) (up : Char → String) (p : Protocol) (data : List UInt8) :
    List Arg → Cursor → List RawFd
  | [], _ => []
  | arg :: args, c =>
    argWraps m data arg c ++
      match writeParseArg m up p data arg c with
      | .ok (_, c) => argsWraps m up p data args c
      | _ => []

/-- The calls a run of the generated `dispatch` makes. A `create_object` that answers `none` ends it
before the first. -/
def dispatchWraps (m : Overflow) (up : Char → String) (p : Protocol) (isServer : Bool)
    (createObject : String → UInt32 → Option O) (methods : List Method) (method : UInt32)
    (data : List UInt8) (fds : List RawFd) : List RawFd :=
  match methods[method.toNat]? with
  | none => []
  | some mt =>
    match mt.returns with
    | none => argsWraps m up p data mt.args ⟨0, fds⟩
    | some returned =>
      match seqParse m isServer createObject data returned ⟨0, fds⟩ with
      | .ok (some _, c) => argsWraps m up p data mt.args c
      | _ => []

/-- The descriptors in a value. -/
def Scanner.Value.fds : Value → List RawFd
  | .fd own => [own]
  | .arrayFd own => own
  | _ => []

/-- The descriptors in a field of an event. -/
def Scanner.EventField.fds : EventField O → List RawFd
  | .value v => v.fds
  | _ => []

/-- The descriptors in a generated event. -/
def Scanner.Event.fds (e : Event O) : List RawFd := e.fields.flatMap EventField.fds

/-- What an argument wraps is what its value holds. -/
theorem argWraps_eq_fds {data : List UInt8} {arg : Arg} {c c' : Cursor} {v : Value}
    (h : writeParseArg m up p data arg c = .ok (v, c')) : argWraps m data arg c = v.fds := by
  unfold writeParseArg at h
  unfold argWraps
  cases harg : arg.argType with
  | fd =>
    simp only [harg, Outcome.bind_eq_ok] at h
    obtain ⟨needle, hneedle, h⟩ := h
    simp only [hneedle]
    split at h
    · next fd fdsIter hfds =>
      cases h
      rw [hfds]
      rfl
    · cases h
  | arrayFd =>
    simp only [harg, Outcome.bind_eq_ok] at h
    obtain ⟨⟨count, c₁⟩, hhead, heq⟩ := h
    cases heq
    simp only [hhead, Value.fds]
  | enum =>
    simp only [harg] at h
    split at h
    · cases h
      rfl
    · simp only [Outcome.bind_eq_ok] at h
      obtain ⟨_, -, h⟩ := h
      split at h
      · cases h
        rfl
      · cases h
  | varchar | arrayVarchar =>
    simp only [harg, Outcome.bind_eq_ok] at h
    obtain ⟨_, -, _, -, heq⟩ := h
    cases heq
    rfl
  | uint | int | f32 | arrayUint | arrayInt | arrayF32 =>
    simp only [harg, Outcome.bind_eq_ok] at h
    obtain ⟨_, -, heq⟩ := h
    cases heq
    rfl

theorem argsWraps_eq_fds {data : List UInt8} {args : List Arg} {c c' : Cursor} {vs : List Value}
    (h : writeParseArgs m up p data args c = .ok (vs, c')) :
    argsWraps m up p data args c = vs.flatMap Value.fds := by
  induction args generalizing c vs with
  | nil =>
    cases h
    rfl
  | cons arg args ih =>
    simp only [writeParseArgs, Outcome.bind_eq_ok] at h
    obtain ⟨⟨v, c₁⟩, harg, ⟨ws, c₂⟩, hargs, heq⟩ := h
    cases heq
    simp only [argsWraps, harg, argWraps_eq_fds harg, ih hargs, List.flatMap_cons]

/-- The field in front of the arguments holds none. -/
theorem seqParse_fds {isServer : Bool} {createObject : String → UInt32 → Option O}
    {data : List UInt8} {returned : String} {field : EventField O} {c c' : Cursor}
    (h : seqParse m isServer createObject data returned c = .ok (some field, c')) :
    field.fds = [] := by
  simp only [seqParse, Outcome.bind_eq_ok] at h
  obtain ⟨⟨seq, c₁⟩, -, h⟩ := h
  split at h
  · cases hnew : createObject returned seq with
    | none => simp [hnew] at h
    | some o =>
      rw [hnew] at h
      cases h
      rfl
  · cases h
    rfl

/-- **The descriptors of an event are those that were wrapped for it**, each once. -/
theorem dispatchWraps_eq_fds {isServer : Bool} {createObject : String → UInt32 → Option O}
    {methods : List Method} {method : UInt32} {data : List UInt8} {fds : List RawFd} {e : Event O}
    (h : dispatch m up p isServer true createObject methods method data fds = .ok (some e)) :
    dispatchWraps m up p isServer createObject methods method data fds = e.fds := by
  rw [dispatch, if_pos rfl] at h
  cases hmt : methods[method.toNat]? with
  | none =>
    rw [hmt] at h
    cases h
  | some mt =>
    simp only [hmt] at h
    cases hreturns : mt.returns with
    | none =>
      simp only [hreturns, Outcome.bind_eq_ok] at h
      obtain ⟨⟨vs, c⟩, hargs, heq⟩ := h
      cases heq
      simp only [dispatchWraps, hmt, hreturns, argsWraps_eq_fds hargs, Event.fds, List.flatMap_map]
      rfl
    | some returned =>
      simp only [hreturns, Outcome.bind_eq_ok] at h
      obtain ⟨⟨field, c⟩, hseq, h⟩ := h
      cases field with
      | none => cases h
      | some field =>
        simp only [Outcome.bind_eq_ok] at h
        obtain ⟨⟨vs, c'⟩, hargs, heq⟩ := h
        cases heq
        simp only [dispatchWraps, hmt, hreturns, hseq, argsWraps_eq_fds hargs, Event.fds,
          List.flatMap_cons, List.flatMap_map, seqParse_fds hseq, List.nil_append]
        rfl

/-! ## How many it asks for

What the printed statements ask for is read from the payload: one for a descriptor, for an array
the count in front of it. Nobody compares that with what the message brought. -/

/-- How many descriptors an argument asks for. -/
def argAsks (m : Overflow) (data : List UInt8) (arg : Arg) (needle : Nat) : Nat :=
  match arg.argType with
  | .fd =>
    match (uadd m needle 1 : Outcome Error Nat) with
    | .ok _ => 1
    | _ => 0
  | .arrayFd =>
    match arrayHead m data 4 ⟨needle, []⟩ with
    | .ok (count, _) => count
    | _ => 0
  | _ => 0

/-- How many the arguments ask for. The next argument is where the statements of the one before
leave the needle when they get all they ask for. -/
def argsAsk (m : Overflow) (up : Char → String) (p : Protocol) (data : List UInt8) :
    List Arg → Nat → Nat
  | [], _ => 0
  | arg :: args, needle =>
    let asks := argAsks m data arg needle
    asks + match writeParseArg m up p data arg ⟨needle, List.replicate asks 0⟩ with
      | .ok (_, c) => argsAsk m up p data args c.needle
      | _ => 0

/-- How many a run of the generated `dispatch` asks for. -/
def dispatchAsks (m : Overflow) (up : Char → String) (p : Protocol) (isServer : Bool)
    (createObject : String → UInt32 → Option O) (methods : List Method) (method : UInt32)
    (data : List UInt8) : Nat :=
  match methods[method.toNat]? with
  | none => 0
  | some mt =>
    match mt.returns with
    | none => argsAsk m up p data mt.args 0
    | some returned =>
      match seqParse m isServer createObject data returned ⟨0, []⟩ with
      | .ok (some _, c) => argsAsk m up p data mt.args c.needle
      | _ => 0

section Asks

variable {data : List UInt8} {arg : Arg} {args : List Arg}

theorem arrayHead_aside (data : List UInt8) (size needle : Nat) (fds : List RawFd) :
    arrayHead m data size ⟨needle, fds⟩ = (do
      let (count, c) ← arrayHead m data size ⟨needle, []⟩
      .ok (count, ⟨c.needle, fds⟩)) := by
  simp only [arrayHead, bind_assoc, Outcome.ok_bind]

theorem scalarArg_aside (data : List UInt8) (needle : Nat) (fds : List RawFd) :
    scalarArg m data ⟨needle, fds⟩ = (do
      let (w, c) ← scalarArg m data ⟨needle, []⟩
      .ok (w, ⟨c.needle, fds⟩)) := by
  simp only [scalarArg, bind_assoc, Outcome.ok_bind]

/-- An argument that is no descriptor does not look at the descriptors. -/
theorem writeParseArg_aside (hfd : arg.argType ≠ .fd) (harray : arg.argType ≠ .arrayFd)
    (needle : Nat) (fds : List RawFd) :
    writeParseArg m up p data arg ⟨needle, fds⟩ = (do
      let (v, c) ← writeParseArg m up p data arg ⟨needle, []⟩
      .ok (v, ⟨c.needle, fds⟩)) := by
  unfold writeParseArg
  cases harg : arg.argType with
  | fd => exact absurd harg hfd
  | arrayFd => exact absurd harg harray
  | enum =>
    cases arg.interface with
    | none => rfl
    | some interface =>
      simp only [scalarArg_aside data needle fds, bind_assoc, Outcome.ok_bind]
      congr 1
      funext r
      by_cases hdecl : Declared up p (snakeToPascal up interface) r.1
      · rw [if_pos hdecl, if_pos hdecl]
        rfl
      · rw [if_neg hdecl, if_neg hdecl]
        rfl
  | varchar => simp only [bind_assoc, Outcome.ok_bind]
  | uint | int | f32 => simp only [scalarArg_aside data needle fds, bind_assoc, Outcome.ok_bind]
  | arrayVarchar => simp only [arrayHead_aside data _ needle fds, bind_assoc, Outcome.ok_bind]
  | arrayUint | arrayInt | arrayF32 =>
    simp only [wordsArg, arrayHead_aside data _ needle fds, bind_assoc, Outcome.ok_bind]

/-- **What an argument does with the descriptors it finds.** There are too few, and none is left
behind it; or it takes those it asks for and leaves the needle where it would leave it anyway; or
it panics, whatever it finds. -/
theorem writeParseArg_takes (needle : Nat) (fds : List RawFd) :
    (fds.length < argAsks m data arg needle ∧
      ∀ v c, writeParseArg m up p data arg ⟨needle, fds⟩ = .ok (v, c) → c.fdsIter = []) ∨
    (∃ v v' n, writeParseArg m up p data arg ⟨needle, fds⟩ =
        .ok (v, ⟨n, fds.drop (argAsks m data arg needle)⟩) ∧
      writeParseArg m up p data arg
        ⟨needle, List.replicate (argAsks m data arg needle) 0⟩ = .ok (v', ⟨n, []⟩)) ∨
    ∀ fds r, writeParseArg m up p data arg ⟨needle, fds⟩ ≠ .ok r := by
  by_cases hfd : arg.argType = .fd
  · unfold writeParseArg argAsks
    simp only [hfd]
    cases uadd m needle 1 with
    | ok n =>
      cases fds with
      | nil => exact .inl ⟨Nat.zero_lt_one, nofun⟩
      | cons fd fds => exact .inr (.inl ⟨_, _, _, rfl, rfl⟩)
    | _ => exact .inr (.inr fun _ _ => nofun)
  · by_cases harray : arg.argType = .arrayFd
    · unfold writeParseArg argAsks
      simp only [harray]
      cases hhead : arrayHead m data 4 ⟨needle, []⟩ with
      | ok r =>
        obtain ⟨count, c⟩ := r
        have hgiven : ∀ fds, arrayHead m data 4 ⟨needle, fds⟩ = .ok (count, ⟨c.needle, fds⟩) := by
          intro fds
          rw [arrayHead_aside, hhead]
          rfl
        simp only [hgiven, Outcome.ok_bind]
        by_cases hcount : fds.length < count
        · refine .inl ⟨hcount, ?_⟩
          intro v c' h
          cases h
          exact List.drop_eq_nil_of_le (Nat.le_of_lt hcount)
        · have hall : (List.replicate count (0 : RawFd)).drop count = [] :=
            List.drop_eq_nil_of_le (by simp)
          rw [hall]
          exact .inr (.inl ⟨_, _, c.needle, rfl, rfl⟩)
      | _ =>
        refine .inr (.inr fun fds r => ?_)
        rw [arrayHead_aside, hhead]
        nofun
    · have hasks : argAsks m data arg needle = 0 := by
        unfold argAsks
        cases harg : arg.argType with
        | fd => exact absurd harg hfd
        | arrayFd => exact absurd harg harray
        | _ => rfl
      rw [hasks, List.replicate_zero, List.drop_zero]
      cases hnone : writeParseArg m up p data arg ⟨needle, []⟩ with
      | ok r =>
        have hgiven : ∀ fds, writeParseArg m up p data arg ⟨needle, fds⟩ =
            .ok (r.1, ⟨r.2.needle, fds⟩) := by
          intro fds
          rw [writeParseArg_aside hfd harray, hnone]
          rfl
        exact .inr (.inl ⟨_, _, _, hgiven fds, hnone.symm.trans (hgiven [])⟩)
      | _ =>
        refine .inr (.inr fun fds r => ?_)
        rw [writeParseArg_aside hfd harray, hnone]
        nofun

theorem argWraps_eq (needle : Nat) (fds : List RawFd) :
    argWraps m data arg ⟨needle, fds⟩ = fds.take (argAsks m data arg needle) := by
  unfold argWraps argAsks
  cases arg.argType with
  | fd => cases uadd m needle 1 <;> simp
  | arrayFd =>
    simp only [arrayHead_aside data 4 needle fds]
    cases arrayHead m data 4 ⟨needle, []⟩ <;> simp
  | _ => simp

/-- The arguments wrap what they ask for, as far as it goes. -/
theorem argsWraps_eq (needle : Nat) (fds : List RawFd) :
    argsWraps m up p data args ⟨needle, fds⟩ = fds.take (argsAsk m up p data args needle) := by
  induction args generalizing needle fds with
  | nil => simp [argsWraps, argsAsk]
  | cons arg args ih =>
    simp only [argsWraps, argsAsk, argWraps_eq, List.take_add]
    congr 1
    rcases @writeParseArg_takes m up p data arg needle fds
      with ⟨hfew, hnone⟩ | ⟨v, v', n, htakes, hall⟩ | hpanic
    · -- too few: what follows finds none
      rw [List.drop_eq_nil_of_le (Nat.le_of_lt hfew), List.take_nil]
      split
      · next v c hok =>
        obtain ⟨n, iter⟩ := c
        obtain rfl : iter = [] := hnone v _ hok
        rw [ih, List.take_nil]
      · rfl
    · simp only [htakes, hall, ih]
    · split
      · next v c hok => exact absurd hok (hpanic _ _)
      · split
        · next v c hok => exact absurd hok (hpanic _ _)
        · rw [List.take_zero]

/-- The sequence number is read past the descriptors, which stay as they are. -/
theorem seqParse_aside (isServer : Bool) (createObject : String → UInt32 → Option O)
    (returned : String) (fds : List RawFd) :
    seqParse m isServer createObject data returned ⟨0, fds⟩ = (do
      let (field, c) ← seqParse m isServer createObject data returned ⟨0, []⟩
      .ok (field, ⟨c.needle, fds⟩)) := by
  unfold seqParse
  rw [scalarArg_aside data 0 fds]
  cases scalarArg m data ⟨0, []⟩ with
  | ok r =>
    simp only [Outcome.ok_bind]
    cases isServer <;> rfl
  | _ => rfl

/-- **A run of `dispatch` wraps the front of what it is given**, as many as it asks for. -/
theorem dispatchWraps_eq (isServer : Bool) (createObject : String → UInt32 → Option O)
    (methods : List Method) (method : UInt32) (fds : List RawFd) :
    dispatchWraps m up p isServer createObject methods method data fds =
      fds.take (dispatchAsks m up p isServer createObject methods method data) := by
  unfold dispatchWraps dispatchAsks
  split
  · rw [List.take_zero]
  · split
    · exact argsWraps_eq 0 fds
    · next returned _ =>
      rw [seqParse_aside]
      cases seqParse m isServer createObject data returned ⟨0, []⟩ with
      | ok r =>
        obtain ⟨field, c⟩ := r
        cases field with
        | none => exact List.take_zero.symm
        | some field => exact argsWraps_eq c.needle fds
      | _ => exact List.take_zero.symm

end Asks

/-! ## The side that receives -/

/-- An object of a table, as `dispatch` finds it: its code is generated from a protocol. It also
does not listen while no `object_data` is set. -/
structure TableObject (O : Type) extends LiveObject O where
  protocol : Protocol

/-- A side: its objects, and what becomes of its state, and of the loop, when a message has been
handled. -/
structure Side (σ O : Type) where
  isServer : Bool
  objects : σ → List (TableObject O)
  after : σ → Decoded → σ × Outcome Error Unit
  flagError : σ → σ

namespace Side

variable (m up) (side : Side σ O)

/-- The types the side accepts. -/
def accepts : MessageType → Bool := if side.isServer then serverAccepts else clientAccepts

/-- `on_generic` looks the object up by its id. -/
def find (s : σ) (id : UInt32) : Option (TableObject O) :=
  (side.objects s).find? fun obj => obj.id = id

/-- The generated code that runs for a message. -/
def dispatch (s : σ) : Decoded → Outcome Error (Option (Event O))
  | .generic msg =>
    match side.find s msg.object with
    | none => .ok none
    | some obj => do
      let span ← msg.dataSpan
      Scanner.dispatch m up obj.protocol side.isServer obj.listens obj.createObject
        (obj.object.methods side.isServer) msg.method span msg.fds
  | _ => .ok none

/-- The descriptors that become owned while a message is handled. -/
def wraps (s : σ) : Decoded → List RawFd
  | .generic msg =>
    match side.find s msg.object, (msg.dataSpan) with
    | some obj, .ok span =>
      if obj.listens then
        dispatchWraps m up obj.protocol side.isServer obj.createObject
          (obj.object.methods side.isServer) msg.method span msg.fds
      else []
    | _, _ => []
  | _ => []

/-- How many descriptors the addressee of a message asks for: none if there is no such object, if
nobody listens to it, or if it has no such method. -/
def asks (s : σ) : Decoded → Nat
  | .generic msg =>
    match side.find s msg.object, (msg.dataSpan) with
    | some obj, .ok span =>
      if obj.listens then
        dispatchAsks m up obj.protocol side.isServer obj.createObject
          (obj.object.methods side.isServer) msg.method span
      else 0
    | _, _ => 0
  | _ => 0

/-- The state behind a message, and how the loop goes on. -/
def handled (s : σ) (msg : Decoded) : σ × Outcome Error Unit :=
  ((side.after s msg).1, do
    let _ ← side.dispatch m up s msg
    (side.after s msg).2)

/-- The side, with a record of the descriptors that became owned. -/
def handler : Handler (σ × List RawFd) where
  handle s msg :=
    (((side.handled m up s.1 msg).1, s.2 ++ side.wraps m up s.1 msg), (side.handled m up s.1 msg).2)
  flagError s := (side.flagError s.1, s.2)

/-- What became owned in the first `turns` turns of the loop of `handle_message`. -/
def owned (s : σ) (raw : SocketRawParsedMessage) (turns : Nat) : List RawFd :=
  (Frame.loop (handleTurn m side.accepts (side.handler m up) raw.data) raw.data.length turns
    (s, []) raw.fds 0).state.2

end Side

/-! ## `read_from_socket` -/

/-- An answer of `recvmsg`. -/
inductive Recv
  | failed
  | received (bytes : List UInt8) (fds : List RawFd)

/-- How `read_from_socket` ends; `waiting` when it asks for more than the answers listed. -/
inductive Reading
  | done (raw : SocketRawParsedMessage)
  | failed (fds : List RawFd)
  | waiting

/-- `BUFFER_SIZE`. -/
def bufferSize : Nat := 8192

/-- The loop of `read_from_socket`, with what it has gathered: it ends at an empty answer, or
behind one that does not fill the buffer. -/
def readLoop : List Recv → SocketRawParsedMessage → Reading
  | [], _ => .waiting
  | .failed :: _, raw => .failed raw.fds
  | .received bytes fds :: answers, raw =>
    if bytes.length = 0 then .done raw
    else if bytes.length < bufferSize then .done ⟨raw.data ++ bytes, raw.fds ++ fds⟩
    else readLoop answers ⟨raw.data ++ bytes, raw.fds ++ fds⟩

/-- `SocketRawParsedMessage::read_from_socket`. -/
def readFromSocket (answers : List Recv) : Reading := readLoop answers ⟨[], []⟩

/-- **Conservation**: of the descriptors a read made numbers of, each becomes owned, and once. A read
that fails leaves none behind. -/
def Conserved (m : Overflow) (up : Char → String) (side : Side σ O) (s : σ) (answers : List Recv) :
    Prop :=
  match readFromSocket answers with
  | .done raw => ∃ turns, (side.owned m up s raw turns).Perm raw.fds
  | .failed fds => [].Perm fds
  | .waiting => True

/-- From `needle` on, every descriptor comes with a message that is accepted, and whose addressee
asks for it; up to the last of these messages the loop goes on. -/
inductive Claimed (m : Overflow) (up : Char → String) (side : Side σ O) (data : List UInt8) :
    σ → List RawFd → Nat → Prop
  | none (s : σ) (needle : Nat) : Claimed m up side data s [] needle
  | last {s : σ} {fds : List RawFd} {needle : Nat} {byte : UInt8} {type : MessageType}
      {msg : Decoded} (hbyte : data[needle]? = some byte) (htype : MessageType.tryFrom byte = .ok type)
      (haccepts : side.accepts type = true)
      (hdecode : decode m type data fds needle = .ok (msg, []))
      (hasks : msg.fds.length ≤ side.asks m up s msg) : Claimed m up side data s fds needle
  | next {s : σ} {fds rest : List RawFd} {needle needle' : Nat} {byte : UInt8} {type : MessageType}
      {msg : Decoded} (hbyte : data[needle]? = some byte) (htype : MessageType.tryFrom byte = .ok type)
      (haccepts : side.accepts type = true)
      (hdecode : decode m type data fds needle = .ok (msg, rest))
      (hasks : msg.fds.length ≤ side.asks m up s msg)
      (hgoes : (side.handled m up s msg).2 = .ok ())
      (hmoves : (uadd m needle msg.data.length : Outcome Error Nat) = .ok needle')
      (hrest : Claimed m up side data (side.handled m up s msg).1 rest needle') :
      Claimed m up side data s fds needle

/-- **The condition**: the read ends well, or it had no descriptors; and they are all claimed. -/
def AllClaimed (m : Overflow) (up : Char → String) (side : Side σ O) (s : σ) (answers : List Recv) :
    Prop :=
  match readFromSocket answers with
  | .done raw => Claimed m up side raw.data s raw.fds 0
  | .failed fds => fds = []
  | .waiting => True

/-! ## Turn by turn -/

theorem Side.wraps_eq (side : Side σ O) (s : σ) (msg : Decoded) :
    side.wraps m up s msg = msg.fds.take (side.asks m up s msg) := by
  cases msg with
  | generic msg =>
    simp only [Side.wraps, Side.asks, Decoded.fds]
    split
    · split
      · exact dispatchWraps_eq _ _ _ _ _
      · exact List.take_zero.symm
    · exact List.take_zero.symm
  | _ => exact List.take_nil.symm

/-- A turn on a message that is accepted. -/
theorem turn_accepted {side : Side σ O} {data : List UInt8} {fds rest : List RawFd} {needle : Nat}
    {byte : UInt8} {type : MessageType} {msg : Decoded} (hbyte : data[needle]? = some byte)
    (htype : MessageType.tryFrom byte = .ok type) (haccepts : side.accepts type = true)
    (hdecode : decode m type data fds needle = .ok (msg, rest)) (s : σ) (w : List RawFd) :
    handleTurn m side.accepts (side.handler m up) data (s, w) fds needle =
      (((side.handled m up s msg).1, w ++ side.wraps m up s msg), do
        (side.handled m up s msg).2
        let needle ← uadd m needle msg.data.length
        .ok (needle, rest)) := by
  simp only [handleTurn, hbyte, htype, haccepts, if_true, hdecode]
  rfl

/-- A turn on anything else ends the loop, and nothing becomes owned. -/
theorem turn_refused {side : Side σ O} {data : List UInt8} {fds : List RawFd} {needle : Nat}
    (h : ∀ byte type msg rest, data[needle]? = some byte → MessageType.tryFrom byte = .ok type →
      side.accepts type = true → decode m type data fds needle ≠ .ok (msg, rest))
    (s : σ) (w : List RawFd) :
    let turn := handleTurn m side.accepts (side.handler m up) data (s, w) fds needle
    turn.1.2 = w ∧ ∀ r, turn.2 ≠ .ok r := by
  simp only [handleTurn]
  split
  · exact ⟨rfl, by simp⟩
  · next byte hbyte =>
    split
    · next type htype =>
      split
      · next haccepts =>
        split
        · next msg rest hdecode => exact absurd hdecode (h byte type msg rest hbyte htype haccepts)
        · exact ⟨rfl, by simp⟩
        · exact ⟨rfl, by simp⟩
        · exact ⟨rfl, by simp⟩
      · exact ⟨rfl, by simp⟩
    · exact ⟨rfl, by simp⟩

/-- A message that was decoded, and its turn: the loop goes on behind it or is over. -/
theorem loop_accepted {side : Side σ O} {data : List UInt8} {fds rest : List RawFd}
    {needle : Nat} {byte : UInt8} {type : MessageType} {msg : Decoded} (turns : Nat)
    (hbyte : data[needle]? = some byte) (htype : MessageType.tryFrom byte = .ok type)
    (haccepts : side.accepts type = true)
    (hdecode : decode m type data fds needle = .ok (msg, rest)) (s : σ) (w : List RawFd) :
    let run := Frame.loop (handleTurn m side.accepts (side.handler m up) data) data.length
    let next := (side.handled m up s msg).1
    (∃ needle', (side.handled m up s msg).2 = .ok () ∧
      (uadd m needle msg.data.length : Outcome Error Nat) = .ok needle' ∧
      run (turns + 1) (s, w) fds needle =
        run turns (next, w ++ side.wraps m up s msg) rest needle') ∨
    (¬ ∃ needle', (side.handled m up s msg).2 = .ok () ∧
      (uadd m needle msg.data.length : Outcome Error Nat) = .ok needle') ∧
      (run (turns + 1) (s, w) fds needle).state = (next, w ++ side.wraps m up s msg) := by
  obtain ⟨hlt, -⟩ := List.getElem?_eq_some_iff.mp hbyte
  have hturn := @turn_accepted m up O σ side data fds rest needle byte type msg hbyte htype haccepts
    hdecode s w
  simp only [Frame.loop, if_pos hlt, hturn]
  cases hgoes : (side.handled m up s msg).2 with
  | ok u =>
    cases hmoves : (uadd m needle msg.data.length : Outcome Error Nat) with
    | ok needle' => exact .inl ⟨needle', rfl, rfl, rfl⟩
    | _ => exact .inr ⟨by simp, rfl⟩
  | _ => exact .inr ⟨by simp, rfl⟩

/-- **What becomes owned is part of what was received, each once and in order**; if it is all of
it, it was claimed. The induction is on the turns. -/
theorem loop_owned {side : Side σ O} {data : List UInt8} (turns : Nat) :
    ∀ {fds : List RawFd} {needle : Nat} {s : σ} {w : List RawFd}, fds.length < 2 ^ 64 →
      ∃ taken, (Frame.loop (handleTurn m side.accepts (side.handler m up) data) data.length turns
          (s, w) fds needle).state.2 = w ++ taken ∧
        taken.Sublist fds ∧ (taken = fds → Claimed m up side data s fds needle) := by
  induction turns with
  | zero =>
    intro fds needle s w _
    refine ⟨[], by rw [Frame.loop, List.append_nil], List.nil_sublist _, ?_⟩
    intro hall
    subst hall
    exact .none s needle
  | succ turns ih =>
    intro fds needle s w hfds
    by_cases hmsg : ∃ byte type msg rest, data[needle]? = some byte ∧
      MessageType.tryFrom byte = .ok type ∧ side.accepts type = true ∧
      decode m type data fds needle = .ok (msg, rest)
    · obtain ⟨byte, type, msg, rest, hbyte, htype, haccepts, hdecode⟩ := hmsg
      have hsplit := decode_fds hfds hdecode
      have hwraps := @Side.wraps_eq m up O σ side s msg
      -- a message whose descriptors are all wrapped asked for them all
      have hasked : msg.fds.take (side.asks m up s msg) = msg.fds →
          msg.fds.length ≤ side.asks m up s msg := by
        intro htake
        have hlength := congrArg List.length htake
        rw [List.length_take] at hlength
        omega
      rcases loop_accepted turns hbyte htype haccepts hdecode s w with
        ⟨needle', hgoes, hmoves, hrun⟩ | ⟨-, hstate⟩
      · have hrest : rest.length < 2 ^ 64 := by
          rw [hsplit, List.length_append] at hfds
          omega
        obtain ⟨taken, howned, hsub, hclaimed⟩ := @ih rest needle' (side.handled m up s msg).1
          (w ++ side.wraps m up s msg) hrest
        refine ⟨msg.fds.take (side.asks m up s msg) ++ taken, ?_, ?_, ?_⟩
        · rw [hrun, howned, hwraps, List.append_assoc]
        · rw [hsplit]
          exact (List.take_sublist _ _).append hsub
        · intro hall
          rw [hsplit] at hall
          have hlen := congrArg List.length hall
          have htake := (List.take_sublist (side.asks m up s msg) msg.fds).length_le
          have htaken := hsub.length_le
          rw [List.length_append, List.length_append] at hlen
          obtain ⟨hfst, hsnd⟩ := List.append_inj hall (by omega)
          exact .next hbyte htype haccepts hdecode (hasked hfst) hgoes hmoves (hclaimed hsnd)
      · refine ⟨msg.fds.take (side.asks m up s msg), ?_, ?_, ?_⟩
        · rw [hstate, hwraps]
        · rw [hsplit]
          exact (List.take_sublist _ _).trans (List.sublist_append_left _ _)
        · intro hall
          have hlen := congrArg List.length hall
          have htake := (List.take_sublist (side.asks m up s msg) msg.fds).length_le
          rw [hsplit, List.length_append] at hlen
          obtain rfl : rest = [] := List.length_eq_zero_iff.mp (by omega)
          rw [List.append_nil] at hsplit
          exact .last hbyte htype haccepts hdecode (hasked (hall.trans hsplit))
    · refine ⟨[], ?_, List.nil_sublist _, ?_⟩
      · rw [List.append_nil, Frame.loop]
        by_cases hlt : needle < data.length
        · rw [if_pos hlt]
          have hturn := @turn_refused m up O σ side data fds needle
            (fun byte type msg rest h₁ h₂ h₃ h₄ => hmsg ⟨byte, type, msg, rest, h₁, h₂, h₃, h₄⟩) s w
          simp only at hturn
          split
          · next heq => exact absurd (congrArg Prod.snd heq) (hturn.2 _)
          all_goals
            next heq =>
            rw [← hturn.1, heq]
        · rw [if_neg hlt]
      · intro hall
        subst hall
        exact .none s needle

/-- **Claimed descriptors become owned**, in the turns of the messages that brought them. -/
theorem loop_claimed {side : Side σ O} {data : List UInt8} {fds : List RawFd} {needle : Nat} {s : σ}
    (hfds : fds.length < 2 ^ 64) (h : Claimed m up side data s fds needle) (w : List RawFd) :
    ∃ turns, (Frame.loop (handleTurn m side.accepts (side.handler m up) data) data.length turns
      (s, w) fds needle).state.2 = w ++ fds := by
  induction h generalizing w with
  | none s needle => exact ⟨0, by rw [Frame.loop, List.append_nil]⟩
  | @last s fds needle byte type msg hbyte htype haccepts hdecode hasks =>
    have hsplit := decode_fds hfds hdecode
    have hwraps := @Side.wraps_eq m up O σ side s msg
    rw [List.append_nil] at hsplit
    rw [List.take_of_length_le hasks, ← hsplit] at hwraps
    refine ⟨1, ?_⟩
    rcases loop_accepted 0 hbyte htype haccepts hdecode s w with
      ⟨needle', -, -, hrun⟩ | ⟨-, hstate⟩
    · rw [hrun, Frame.loop, hwraps]
    · rw [hstate, hwraps]
  | @next s fds rest needle needle' byte type msg hbyte htype haccepts hdecode hasks hgoes hmoves _
      ih =>
    have hsplit := decode_fds hfds hdecode
    have hwraps := @Side.wraps_eq m up O σ side s msg
    rw [List.take_of_length_le hasks] at hwraps
    have hrest : rest.length < 2 ^ 64 := by
      rw [hsplit, List.length_append] at hfds
      omega
    obtain ⟨turns, howned⟩ := ih hrest (w ++ side.wraps m up s msg)
    refine ⟨turns + 1, ?_⟩
    rcases loop_accepted turns hbyte htype haccepts hdecode s w with
      ⟨n, -, hn, hrun⟩ | ⟨hstuck, -⟩
    · obtain rfl : n = needle' := by
        rw [hmoves] at hn
        cases hn
        rfl
      rw [hrun, howned, hwraps, List.append_assoc, ← hsplit]
    · exact absurd ⟨needle', hgoes, hmoves⟩ hstuck

/-! ## The condition -/

section Owned

variable {side : Side σ O} {s : σ} {raw : SocketRawParsedMessage}

/-- **No descriptor becomes owned twice**, whatever is received and however often the loop turns. -/
theorem owned_sublist (hfds : raw.fds.length < 2 ^ 64) (turns : Nat) :
    (side.owned m up s raw turns).Sublist raw.fds := by
  obtain ⟨taken, howned, hsub, -⟩ := @loop_owned m up O σ side raw.data turns raw.fds 0 s [] hfds
  rw [List.nil_append] at howned
  rwa [Side.owned, howned]

/-- All of them become owned iff all of them are claimed. -/
theorem owned_iff (hfds : raw.fds.length < 2 ^ 64) :
    (∃ turns, (side.owned m up s raw turns).Perm raw.fds) ↔
      Claimed m up side raw.data s raw.fds 0 := by
  constructor
  · rintro ⟨turns, hperm⟩
    obtain ⟨taken, howned, hsub, hclaimed⟩ :=
      @loop_owned m up O σ side raw.data turns raw.fds 0 s [] hfds
    rw [Side.owned, howned, List.nil_append] at hperm
    exact hclaimed (hsub.eq_of_length hperm.length_eq)
  · intro hclaimed
    obtain ⟨turns, howned⟩ := loop_claimed hfds hclaimed []
    refine ⟨turns, ?_⟩
    rw [Side.owned, howned, List.nil_append]

/-- `handle_message` makes the turns it is given the budget for: where they suffice, what became
owned in it is all that ever does. -/
theorem owned_handleMessage (hend : (Hyprwire.handleMessage m side.accepts (side.handler m up)
      raw.data raw.fds (s, [])).outcome ≠ .stall) {turns : Nat} (hle : raw.data.length ≤ turns) :
    side.owned m up s raw turns = (Hyprwire.handleMessage m side.accepts (side.handler m up)
      raw.data raw.fds (s, [])).state.2 := by
  unfold Side.owned
  rw [Frame.loop_mono _ hle]
  · rfl
  · intro hstall
    apply hend
    unfold handleMessage
    simp only [hstall]
    rfl

end Owned

/-- **When received descriptors are conserved**: iff the read ends well and they are all claimed. -/
theorem conserved_iff (m : Overflow) (up : Char → String) {σ O : Type} (side : Side σ O) (s : σ)
    (answers : List Recv)
    (hcap : ∀ raw, readFromSocket answers = .done raw → raw.fds.length ≤ isizeMax) :
    Conserved m up side s answers ↔ AllClaimed m up side s answers := by
  unfold Conserved AllClaimed
  cases hread : readFromSocket answers with
  | done raw =>
    have hfds := hcap raw hread
    simp only [isizeMax] at hfds
    exact owned_iff (by omega)
  | failed fds => exact List.nil_perm
  | waiting => exact Iff.rfl

/-! ## A descriptor nobody asks for -/

/-- A server with one object, whose `upload` takes a descriptor. -/
def uploader : Side Unit Unit where
  isServer := true
  objects _ := [{
    id := 1
    object := ⟨"desk", 1, [⟨"upload", [⟨"file", .fd, none⟩], none, false⟩], []⟩
    createObject := fun _ _ => none
    listens := true
    protocol := ⟨"desk_v1", 1, [], []⟩ }]
  after _ _ := ((), .ok ())
  flagError _ := ()

/-- One read with a method call that carries a descriptor. -/
def carrying (object method : UInt32) : List Recv :=
  [.received (word object method ([.fd] : List (Field .checked))) [5]]

/-- The call as it is decoded. -/
def carried (object method : UInt32) : GenericProtocolMessage :=
  received object method ([.fd] : List (Field .checked)) [5]

theorem conserved_iff_upload : Conserved .checked Char.toString uploader () (carrying 1 0) :=
  (conserved_iff .checked Char.toString uploader () (carrying 1 0)
    (by intro raw hraw; cases hraw; decide)).mpr
    (.last rfl rfl rfl
      (show decode .checked .genericProtocolMessage (word 1 0 ([.fd] : List (Field .checked))) [5] 0 =
        .ok (.generic (carried 1 0), []) from rfl)
      (by decide))

/-- **A descriptor sent to an object nobody knows is left open.** -/
theorem not_always_conserved : ¬ ∀ (m : Overflow) (up : Char → String) (side : Side Unit Unit)
    (answers : List Recv), Conserved m up side () answers := by
  intro h
  have hfds : (⟨word 2 0 ([.fd] : List (Field .checked)), [5]⟩ : SocketRawParsedMessage).fds.length
    < 2 ^ 64 := by decide
  have hclaimed := (owned_iff hfds).mp (h .checked Char.toString uploader (carrying 2 0))
  have hdecode : decode .checked .genericProtocolMessage
      (word 2 0 ([.fd] : List (Field .checked))) [5] 0 = .ok (.generic (carried 2 0), []) := rfl
  cases hclaimed with
  | last hbyte htype haccepts hmsg hasks =>
    cases hbyte
    cases htype
    rw [hdecode] at hmsg
    cases hmsg
    exact absurd hasks (by decide)
  | next hbyte htype haccepts hmsg hasks hgoes hmoves hrest =>
    cases hbyte
    cases htype
    rw [hdecode] at hmsg
    cases hmsg
    exact absurd hasks (by decide)

end Hyprwire
