import Hyprwire.Wire.Word
import Hyprwire.Wire.Total

/-!
# `Wire/Exact.lean` — `from_bytes` accepts exactly its grammar

`fromBytes_word` says that a word is accepted; here the converse. Whatever a checked build
accepts began with a word (`word_of_fromBytes`), although the scan skips payload without
looking at it: a field that ran past the end is caught by the next look for a tag.

The caller's list is threaded through as the source does it: `fromBytesMut` leaves it alone
on every way out in front of `fds.drain(..)`, and behind that only a panic is possible.
-/

namespace Hyprwire

open Rust

variable {m : Overflow} {data : List UInt8} {fds left : List RawFd} {offset : Nat}

namespace GenericProtocolMessage

/-- The part of `from_bytes` in front of `fds.drain(..fds_cursor)`, with the check that
`drain` makes of its range before it takes anything. -/
def scanned (m : Overflow) (data : List UInt8) (fds : List RawFd) (offset : Nat) :
    Outcome Error ((UInt32 × UInt32) × Scan × Nat) := do
  let header ← readHeader m data offset
  let s ← scanLoop m data fds offset (data.length + 1) ⟨11, 0, []⟩
  let len ← uadd m s.i 1
  let _ ← slice fds 0 s.fdsCursor
  .ok (header, s, len)

/-- The part behind it. -/
def built (m : Overflow) (data : List UInt8) (offset : Nat) (header : UInt32 × UInt32) (s : Scan)
    (len : Nat) : Outcome Error GenericProtocolMessage := do
  let stop ← uadd m offset len
  let bytes ← slice data offset stop
  .ok { dependsOnSeq := 0, object := header.1, method := header.2, fds := s.consumedFds,
        data := bytes, range := (11, len) }

/-- **`from_bytes` with its `&mut Vec<i32>`**: what it answers, and what it leaves in the
caller's list. -/
def fromBytesMut (m : Overflow) (data : List UInt8) (fds : List RawFd) (offset : Nat) :
    Outcome Error GenericProtocolMessage × List RawFd :=
  match scanned m data fds offset with
  | .ok (header, s, len) => (built m data offset header s len, fds.drop s.fdsCursor)
  | .err e => (.err e, fds)
  | .panic p => (.panic p, fds)
  | .stall => (.stall, fds)

/-- `fromBytes`, which the other modules use, pairs an accepted message with the list that
is left. -/
theorem fromBytes_eq (m : Overflow) (data : List UInt8) (fds : List RawFd) (offset : Nat) :
    fromBytes m data fds offset = (fromBytesMut m data fds offset).1 >>= fun msg =>
      .ok (msg, (fromBytesMut m data fds offset).2) := by
  have hsplit : fromBytes m data fds offset = scanned m data fds offset >>= fun x =>
      built m data offset x.1 x.2.1 x.2.2 >>= fun msg => .ok (msg, fds.drop x.2.1.fdsCursor) := by
    simp only [fromBytes, finish, scanned, built, bind_assoc, Outcome.ok_bind]
  rw [hsplit, fromBytesMut]
  cases scanned m data fds offset with
  | ok x => rfl
  | err e => rfl
  | panic p => rfl
  | stall => rfl

theorem fromBytesMut_eq_ok {msg : GenericProtocolMessage} :
    fromBytesMut m data fds offset = (.ok msg, left) ↔
      fromBytes m data fds offset = .ok (msg, left) := by
  rw [fromBytes_eq, Outcome.bind_eq_ok]
  constructor
  · intro h
    exact ⟨msg, congrArg Prod.fst h, by rw [h]⟩
  · rintro ⟨msg', hmsg, h⟩
    cases h
    exact Prod.ext hmsg rfl

/-- Behind `drain` nothing is refused any more. -/
theorem built_ne_err (header : UInt32 × UInt32) (s : Scan) (len : Nat) (e : Error) :
    built m data offset header s len ≠ .err e := by
  intro h
  simp only [built, uadd, Overflow.fit, slice] at h
  repeat' split at h
  all_goals simp only [Outcome.ok_bind, Outcome.panic_bind] at h
  all_goals first | cases h | skip
  all_goals (split at h <;> cases h)

/-- **A refusal leaves the caller's list alone**, in every build. -/
theorem fromBytesMut_err {e : Error} (h : fromBytesMut m data fds offset = (.err e, left)) :
    left = fds := by
  unfold fromBytesMut at h
  cases hs : scanned m data fds offset with
  | ok x =>
    rw [hs] at h
    exact absurd (congrArg Prod.fst h) (built_ne_err _ _ _ _)
  | err e' =>
    rw [hs] at h
    exact (congrArg Prod.snd h).symm
  | panic p =>
    rw [hs] at h
    cases h
  | stall =>
    rw [hs] at h
    cases h

end GenericProtocolMessage

/-! ## What was accepted is a word -/

/-- A header that was read is there. -/
theorem callHeader_of_readHeader {object method : UInt32} (hlen : data.length ≤ isizeMax)
    (h : GenericProtocolMessage.readHeader m data offset = .ok (object, method)) :
    data.drop offset = callHeader object method ++ data.drop (offset + 11) := by
  have hcap : data.length ≤ 2 ^ 63 - 1 := hlen
  obtain ⟨⟨h0, h1, h6⟩, hle⟩ : (data[offset]? = some 100 ∧ data[offset + 1]? = some 0x22 ∧
      data[offset + 6]? = some 0x10) ∧ offset + 11 ≤ data.length := by
    have := (readHeader_eq_ok_iff hlen).mp ⟨_, h⟩
    simpa only [HasBytes, List.forall_mem_cons, List.not_mem_nil, false_implies, implies_true,
      and_true, Nat.add_zero] using this
  -- The two words are the ones the header names.
  rw [GenericProtocolMessage.readHeader] at h
  simp only [MessageType.toU8, MessageMagic.toU8] at h
  rw [expectByte_eq_ok.mpr h0, Outcome.ok_bind, uadd_eq (by omega), Outcome.ok_bind,
    expectByte_eq_ok.mpr h1, Outcome.ok_bind, uadd_eq (by omega), Outcome.ok_bind,
    Outcome.bind_eq_ok] at h
  obtain ⟨object', hobject, h⟩ := h
  rw [uadd_eq (by omega), Outcome.ok_bind, expectByte_eq_ok.mpr h6, Outcome.ok_bind,
    uadd_eq (by omega), Outcome.ok_bind, Outcome.bind_eq_ok] at h
  obtain ⟨method', hmethod, h⟩ := h
  cases h
  rw [Bytes.drop_eq_cons_of_getElem? h0, Bytes.drop_eq_cons_of_getElem? h1,
    drop_of_readU32 (by omega) hobject, Bytes.drop_eq_cons_of_getElem? h6,
    drop_of_readU32 (by omega) hmethod]
  simp only [callHeader, List.cons_append, List.append_assoc, MessageType.toU8, MessageMagic.toU8,
    Nat.add_assoc, Nat.reduceAdd]

/-- **Soundness**: what a checked build accepts begins with a word whose slots the list could
fill. -/
theorem word_of_fromBytes {msg : GenericProtocolMessage} (hlen : data.length ≤ isizeMax)
    (hfds : fds.length ≤ isizeMax)
    (hacc : GenericProtocolMessage.fromBytes .checked data fds offset = .ok (msg, left)) :
    ∃ (object method : UInt32) (fields : List (Field .checked)) (tail : List UInt8),
      data.drop offset = word object method fields ++ tail ∧ slotsAll fields ≤ fds.length := by
  have hcap : data.length ≤ 2 ^ 63 - 1 := hlen
  have hfcap : fds.length ≤ 2 ^ 63 - 1 := hfds
  rw [GenericProtocolMessage.fromBytes, Outcome.bind_eq_ok] at hacc
  obtain ⟨⟨object, method⟩, hheader, hacc⟩ := hacc
  obtain ⟨-, hle⟩ := (readHeader_eq_ok_iff hlen).mp ⟨_, hheader⟩
  rcases @scanLoop_cases data fds offset hlen (by omega) (data.length + 1) ⟨11, 0, []⟩
    (by simp only; omega) (Nat.succ_pos _) (by simp only; omega) (Nat.zero_le _) with
    hbad | ⟨e, herr⟩ | ⟨fields, tail, hslots, hd, -⟩
  · -- A hostile prefix would have ended in a panic.
    obtain ⟨fs, rest, hslots, hd, hbad⟩ := hbad
    rw [Outcome.bind_eq_ok] at hacc
    obtain ⟨s, hs, -⟩ := hacc
    refine absurd ?_ (scanLoop_hostile hlen (by omega) fs (data.length + 1) ⟨11, 0, []⟩ hle hslots
      hd hbad)
    rw [hs]
    trivial
  · rw [herr, Outcome.err_bind] at hacc
    cases hacc
  · rw [Nat.zero_add] at hslots
    refine ⟨object, method, fields, tail, ?_, hslots⟩
    rw [callHeader_of_readHeader hlen hheader, hd, word, List.append_assoc, List.append_assoc]
    rfl

/-- **`from_bytes` accepts exactly its grammar**, reads off a word what the word says, and
takes exactly the descriptors of its slots. -/
theorem fromBytes_exact (data : List UInt8) (fds : List RawFd) (offset : Nat)
    (hlen : data.length ≤ isizeMax) (hfds : fds.length ≤ isizeMax) :
    ((∃ msg left, GenericProtocolMessage.fromBytesMut .checked data fds offset = (.ok msg, left)) ↔
      ∃ (object method : UInt32) (fields : List (Field .checked)) (tail : List UInt8),
        data.drop offset = word object method fields ++ tail ∧ slotsAll fields ≤ fds.length) ∧
    (∀ msg left, GenericProtocolMessage.fromBytesMut .checked data fds offset = (.ok msg, left) →
      ∀ (object method : UInt32) (fields : List (Field .checked)) (tail : List UInt8),
        data.drop offset = word object method fields ++ tail →
        slotsAll fields ≤ fds.length ∧ msg.object = object ∧ msg.method = method ∧
          msg.data = word object method fields ∧ msg.fds = fds.take (slotsAll fields) ∧
          left = fds.drop (slotsAll fields)) ∧
    ∀ e left, GenericProtocolMessage.fromBytesMut .checked data fds offset = (.err e, left) →
      left = fds := by
  -- A word is nowhere but inside the buffer.
  have hin : ∀ (object method : UInt32) (fields : List (Field .checked)) (tail : List UInt8),
      data.drop offset = word object method fields ++ tail → offset ≤ data.length := by
    intro object method fields tail hd
    have h := congrArg List.length hd
    have hword := length_word object method fields
    simp only [List.length_drop, List.length_append] at h
    omega
  refine ⟨⟨?_, ?_⟩, ?_, ?_⟩
  · rintro ⟨msg, left, h⟩
    exact word_of_fromBytes hlen hfds (GenericProtocolMessage.fromBytesMut_eq_ok.mp h)
  · rintro ⟨object, method, fields, tail, hd, hslots⟩
    have hread := fromBytes_word fields hd (hin _ _ _ _ hd) hlen hfds
    rw [if_pos hslots] at hread
    exact ⟨_, _, GenericProtocolMessage.fromBytesMut_eq_ok.mpr hread⟩
  · intro msg left h object method fields tail hd
    have hread := fromBytes_word fields hd (hin _ _ _ _ hd) hlen hfds
    rw [GenericProtocolMessage.fromBytesMut_eq_ok.mp h] at hread
    by_cases hslots : slotsAll fields ≤ fds.length
    · rw [if_pos hslots] at hread
      cases hread
      exact ⟨hslots, rfl, rfl, rfl, rfl, rfl⟩
    · rw [if_neg hslots] at hread
      cases hread
  · intro e left h
    exact GenericProtocolMessage.fromBytesMut_err h

/-- Two descriptors passed as an array, and one byte behind the message. -/
def twoPassed : List UInt8 :=
  [100, 0x22, 1, 0, 0, 0, 0x10, 2, 0, 0, 0, 0x21, 0x40, 0x02, 0x00, 0xff]

theorem fromBytes_exact_twoPassed :
    ∃ (object method : UInt32) (fields : List (Field .checked)) (tail : List UInt8),
      twoPassed.drop 0 = word object method fields ++ tail ∧
        slotsAll fields ≤ ([5, 6, 7] : List RawFd).length :=
  (fromBytes_exact twoPassed [5, 6, 7] 0 (by decide) (by decide)).1.mp ⟨_, _, rfl⟩

end Hyprwire
