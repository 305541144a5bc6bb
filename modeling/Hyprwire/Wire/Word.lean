import Hyprwire.Core.Grammar
import Hyprwire.Wire.Call

/-!
# `Wire/Word.lean` — generic messages as words of the grammar

`word object method fs` is the byte string of a generic message with the fields `fs`. Placed
anywhere, followed by anything, `from_bytes` reads it back and takes exactly its own bytes and
its own descriptors (`fromBytes_word`); with fewer descriptors than slots it refuses.
-/

namespace Hyprwire

open Rust

variable {m : Overflow}

/-- A generic message with these fields. -/
def word (object method : UInt32) (fs : List (Field m)) : List UInt8 :=
  callHeader object method ++ encodeAll fs ++ [MessageMagic.end_.toU8]

theorem length_word (object method : UInt32) (fs : List (Field m)) :
    (word object method fs).length = 12 + (encodeAll fs).length := by
  simp only [word, List.length_append, length_callHeader, List.length_singleton]
  omega

/-- The message `from_bytes` makes of a word. -/
def received (object method : UInt32) (fs : List (Field m)) (fds : List RawFd) :
    GenericProtocolMessage where
  dependsOnSeq := 0
  object
  method
  fds
  data := word object method fs
  range := (11, (word object method fs).length)

theorem readHeader_callHeader {data rest : List UInt8} {offset : Nat} {object method : UInt32}
    (hd : data.drop offset = callHeader object method ++ rest) (hfit : offset + 11 < 2 ^ 64) :
    GenericProtocolMessage.readHeader m data offset = .ok (object, method) := by
  simp only [callHeader, List.cons_append, List.append_assoc] at hd
  have h1 := Bytes.drop_succ_of_drop_eq_cons hd
  have h2 := Bytes.drop_succ_of_drop_eq_cons h1
  have h6 := Bytes.drop_add_of_drop_eq_append h2
  have h7 := Bytes.drop_succ_of_drop_eq_cons h6
  rw [Bytes.length_toLeBytes] at h6 h7
  simp only [GenericProtocolMessage.readHeader]
  rw [expectByte_eq_ok.mpr (Bytes.getElem?_of_drop_eq_cons hd), Outcome.ok_bind,
    uadd_eq (by omega), Outcome.ok_bind,
    expectByte_eq_ok.mpr (Bytes.getElem?_of_drop_eq_cons h1), Outcome.ok_bind,
    uadd_eq (by omega), Outcome.ok_bind, readU32_of_drop h2 (by omega), Outcome.ok_bind,
    uadd_eq (by omega), Outcome.ok_bind,
    expectByte_eq_ok.mpr (Bytes.getElem?_of_drop_eq_cons h6), Outcome.ok_bind,
    uadd_eq (by omega), Outcome.ok_bind, readU32_of_drop h7 (by omega), Outcome.ok_bind]

/-- **`from_bytes` over a word**, at any offset, before any suffix, with any further
descriptors: the word's own message, and the descriptors behind its slots. -/
theorem fromBytes_word {data suf : List UInt8} {fds : List RawFd} {offset : Nat}
    {object method : UInt32} (fs : List (Field m))
    (hd : data.drop offset = word object method fs ++ suf) (hoff : offset ≤ data.length)
    (hlen : data.length ≤ isizeMax) (hfds : fds.length ≤ isizeMax) :
    GenericProtocolMessage.fromBytes m data fds offset = if slotsAll fs ≤ fds.length then
        .ok (received object method fs (fds.take (slotsAll fs)), fds.drop (slotsAll fs))
      else .err .malformedMessage := by
  have hbound := Bytes.length_of_drop_eq_append hoff hd
  have hword := length_word object method fs
  have hfields := length_le_length_encodeAll fs
  simp only [isizeMax] at hlen hfds
  have hd' : data.drop offset = callHeader object method
      ++ (encodeAll fs ++ MessageMagic.end_.toU8 :: suf) := by
    rw [hd]; simp [word]
  have hdrop := Bytes.drop_add_of_drop_eq_append hd'
  rw [length_callHeader] at hdrop
  simp only [GenericProtocolMessage.fromBytes]
  rw [readHeader_callHeader hd' (by omega), Outcome.ok_bind,
    scanLoop_encode (by omega) fs _ ⟨11, 0, []⟩ (by omega) (by simp) hdrop (by simp only; omega)]
  simp only [Nat.zero_add]
  by_cases hle : slotsAll fs ≤ fds.length
  · rw [if_pos hle, if_pos hle, Outcome.ok_bind]
    simp only [GenericProtocolMessage.finish, Scan.advance, Nat.zero_add, List.drop_zero,
      List.nil_append]
    rw [uadd_eq (by omega), Outcome.ok_bind, slice_eq (by omega) hle, Outcome.ok_bind,
      uadd_eq (by omega), Outcome.ok_bind, slice_eq (by omega) (by omega), Outcome.ok_bind, hd,
      Nat.add_sub_cancel_left, List.take_left' (by omega)]
    simp only [received, hword, Outcome.ok.injEq, Prod.mk.injEq, and_true,
      GenericProtocolMessage.mk.injEq, true_and]
    omega
  · rw [if_neg hle, if_neg hle]
    rfl

/-- The fields of a received word are what its handler is given. -/
theorem dataSpan_received (object method : UInt32) (fs : List (Field m)) (fds : List RawFd) :
    (received object method fs fds).dataSpan = .ok (encodeAll fs ++ [MessageMagic.end_.toU8]) := by
  have hword := length_word object method fs
  simp only [GenericProtocolMessage.dataSpan, received]
  rw [slice_eq (by omega) (Nat.le_refl _), word, List.append_assoc,
    List.drop_left' (length_callHeader object method), List.take_of_length_le]
  simp only [List.length_append, length_callHeader]
  omega

end Hyprwire
