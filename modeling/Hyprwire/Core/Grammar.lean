import Hyprwire.Core.Generic

/-!
# `Core/Grammar.lean` — the words `from_bytes` walks over

A generic message is a word `[100, TypeObject, object, TypeUint, method, field*, End]`. This
file gives the fields their own type: a `Field` carries what the format asks of it (a string
is as long as its prefix says, an array has fewer than 10000 elements), so that an ill-formed
one cannot be built, and `Field.encode` is a total function.

`scanLoop_encode` is what the rest of the development uses: over the encoding of any list of
fields, placed anywhere and followed by anything, the scan loop of `from_bytes` advances by
exactly that encoding and takes exactly one descriptor per fd slot, in order.

A length prefix means what `parse_var_int` makes of it, and that depends on the build (past
ten bytes a checked build refuses what a release build accepts), so the grammar takes the
`Overflow` switch as a parameter.
-/

namespace Hyprwire

open Rust

/-- The 4-byte field types. -/
inductive Scalar
  | uint
  | int
  | f32
  | object
  | seq
  deriving DecidableEq, Repr

def Scalar.magic : Scalar → MessageMagic
  | uint => .typeUint
  | int => .typeInt
  | f32 => .typeF32
  | object => .typeObject
  | seq => .typeSeq

/-- A length prefix: a run of bytes that ends, with the number `parse_var_int` reads. -/
structure LenPrefix (m : Overflow) where
  bytes : List UInt8
  count : Nat
  terminated : Leb128.Terminated bytes
  reads : parseVarIntSpanFrom m bytes 0 0 = .ok (count, bytes.length)

/-- A string: its length prefix and that many bytes. -/
structure Str (m : Overflow) where
  len : LenPrefix m
  payload : List UInt8
  length_payload : payload.length = len.count

def Str.encode {m : Overflow} (s : Str m) : List UInt8 := s.len.bytes ++ s.payload

/-- A field of a generic message. -/
inductive Field (m : Overflow)
  | scalar (t : Scalar) (w : UInt32)
  | varchar (s : Str m)
  | scalars (t : Scalar) (n : LenPrefix m) (ws : List UInt32) (hws : ws.length = n.count)
      (hn : n.count < 10000)
  | strings (n : LenPrefix m) (ss : List (Str m)) (hss : ss.length = n.count)
      (hn : n.count < 10000)
  | fds (n : LenPrefix m) (hn : n.count < 10000)
  | fd

namespace Field

variable {m : Overflow}

def encode : Field m → List UInt8
  | scalar t w => t.magic.toU8 :: Bytes.toLeBytes w
  | varchar s => MessageMagic.typeVarchar.toU8 :: s.encode
  | scalars t n ws _ _ =>
    MessageMagic.typeArray.toU8 :: t.magic.toU8 :: (n.bytes ++ ws.flatMap Bytes.toLeBytes)
  | strings n ss _ _ =>
    MessageMagic.typeArray.toU8 :: MessageMagic.typeVarchar.toU8 ::
      (n.bytes ++ ss.flatMap Str.encode)
  | fds n _ => MessageMagic.typeArray.toU8 :: MessageMagic.typeFd.toU8 :: n.bytes
  | fd => [MessageMagic.typeFd.toU8]

/-- Descriptors the field takes off the queue. -/
def slots : Field m → Nat
  | fds n _ => n.count
  | fd => 1
  | _ => 0

/-- The tags a method table lists for the field. -/
def tags : Field m → List MessageMagic
  | scalar t _ => [t.magic]
  | varchar _ => [.typeVarchar]
  | scalars t .. => [.typeArray, t.magic]
  | strings .. => [.typeArray, .typeVarchar]
  | fds .. => [.typeArray, .typeFd]
  | fd => [.typeFd]

end Field

def encodeAll {m : Overflow} (fs : List (Field m)) : List UInt8 := fs.flatMap Field.encode
def slotsAll {m : Overflow} (fs : List (Field m)) : Nat := (fs.map Field.slots).sum
def tagsAll {m : Overflow} (fs : List (Field m)) : List MessageMagic := fs.flatMap Field.tags

variable {m : Overflow}

@[simp] theorem encodeAll_nil : encodeAll ([] : List (Field m)) = [] := rfl
@[simp] theorem encodeAll_cons (f : Field m) (fs : List (Field m)) :
    encodeAll (f :: fs) = f.encode ++ encodeAll fs := rfl
@[simp] theorem encodeAll_append (fs gs : List (Field m)) :
    encodeAll (fs ++ gs) = encodeAll fs ++ encodeAll gs := List.flatMap_append
@[simp] theorem slotsAll_nil : slotsAll ([] : List (Field m)) = 0 := rfl
@[simp] theorem slotsAll_cons (f : Field m) (fs : List (Field m)) :
    slotsAll (f :: fs) = f.slots + slotsAll fs := by simp [slotsAll]
@[simp] theorem tagsAll_nil : tagsAll ([] : List (Field m)) = [] := rfl
@[simp] theorem tagsAll_cons (f : Field m) (fs : List (Field m)) :
    tagsAll (f :: fs) = f.tags ++ tagsAll fs := rfl

theorem length_flatMap_toLeBytes (ws : List UInt32) :
    (ws.flatMap Bytes.toLeBytes).length = 4 * ws.length := by
  induction ws with
  | nil => rfl
  | cons w ws ih =>
    simp only [List.flatMap_cons, List.length_append, Bytes.length_toLeBytes, ih, List.length_cons]
    omega

theorem Field.encode_pos (f : Field m) : 0 < f.encode.length := by
  cases f <;> simp [Field.encode]

theorem length_le_length_encodeAll (fs : List (Field m)) : fs.length ≤ (encodeAll fs).length := by
  induction fs with
  | nil => exact Nat.le_refl _
  | cons f fs ih =>
    have := f.encode_pos
    simp only [List.length_cons, encodeAll_cons, List.length_append]
    omega

/-- No field begins with the `End` byte. -/
theorem Field.encode_eq_cons (f : Field m) : ∃ (t : MessageMagic) (rest : List UInt8),
    f.encode = t.toU8 :: rest ∧ t ≠ .end_ ∧ f.tags.head? = some t := by
  cases f with
  | scalar t w => exact ⟨t.magic, _, rfl, by cases t <;> decide, rfl⟩
  | varchar s => exact ⟨.typeVarchar, _, rfl, by decide, rfl⟩
  | scalars t n ws _ _ => exact ⟨.typeArray, _, rfl, by decide, rfl⟩
  | strings n ss _ _ => exact ⟨.typeArray, _, rfl, by decide, rfl⟩
  | fds n _ => exact ⟨.typeArray, _, rfl, by decide, rfl⟩
  | fd => exact ⟨.typeFd, _, rfl, by decide, rfl⟩

/-! ## Reading a prefix -/

theorem parseVarInt_lenPrefix {data rest : List UInt8} {p : Nat} (n : LenPrefix m)
    (hd : data.drop p = n.bytes ++ rest) :
    parseVarInt m data p = .ok (n.count, n.bytes.length) := by
  rw [parseVarInt_eq_span, hd, parseVarIntSpanFrom_append n.terminated, n.reads]

/-- The prefix `encode_var_int` writes. -/
def LenPrefix.ofNat (m : Overflow) (n : Nat) (h : n < 2 ^ 64) : LenPrefix m where
  bytes := Leb128.encode n
  count := n
  terminated := Leb128.terminated_encode n
  reads := by
    have := @parseVarInt_encode m (Leb128.encode n) [] 0 n (by simp) h
    rwa [parseVarInt_eq_span, List.drop_zero] at this

/-! ## The scan loop over encoded fields -/

/-- `consume_fds`, all at once: the next `n` descriptors, or `MalformedMessage`. -/
theorem consumeFds_eq {fds : List RawFd} (hfds : fds.length < 2 ^ 64) : ∀ (n : Nat) (s : Scan),
    s.fdsCursor ≤ fds.length →
      consumeFds m fds n s = if s.fdsCursor + n ≤ fds.length then
          .ok { s with
            fdsCursor := s.fdsCursor + n
            consumedFds := s.consumedFds ++ (fds.drop s.fdsCursor).take n }
        else .err .malformedMessage
  | 0, s, hs => by simp [consumeFds, hs]
  | n + 1, s, hs => by
    unfold consumeFds
    cases hfd : fds[s.fdsCursor]? with
    | none =>
      have := List.getElem?_eq_none_iff.mp hfd
      rw [if_neg (by omega)]
      rfl
    | some fd =>
      obtain ⟨hlt, -⟩ := List.getElem?_eq_some_iff.mp hfd
      rw [Outcome.okOr_some, Outcome.ok_bind, uadd_eq (by omega), Outcome.ok_bind,
        consumeFds_eq hfds n _ (by show s.fdsCursor + 1 ≤ fds.length; omega)]
      simp only [Bytes.drop_eq_cons_of_getElem? hfd, List.take_succ_cons, List.append_assoc,
        List.singleton_append, Nat.add_assoc, Nat.add_comm 1 n]

theorem skipStrings_encode {data rest : List UInt8} {base : Nat} : ∀ (ss : List (Str m)) (len : Nat),
    data.drop (base + len) = ss.flatMap Str.encode ++ rest →
      base + len + (ss.flatMap Str.encode).length < 2 ^ 64 →
      skipStrings m data base ss.length len
        = .ok (len + (ss.flatMap Str.encode).length)
  | [], len, _, _ => by simp [skipStrings]
  | s :: ss, len, hd, hfit => by
    simp only [List.flatMap_cons, List.length_append, Str.encode, List.append_assoc,
      s.length_payload] at hd hfit
    have hrest : data.drop (base + (len + (s.len.count + s.len.bytes.length)))
        = ss.flatMap Str.encode ++ rest := by
      have h := Bytes.drop_add_of_drop_eq_append (Bytes.drop_add_of_drop_eq_append hd)
      rw [s.length_payload] at h
      rw [← h]
      congr 1
      omega
    simp only [List.length_cons, skipStrings]
    rw [uadd_eq (by omega), Outcome.ok_bind, parseVarInt_lenPrefix s.len hd, Outcome.ok_bind]
    simp only []
    rw [uadd_eq (by omega), Outcome.ok_bind, uadd_eq (by omega), Outcome.ok_bind,
      skipStrings_encode ss _ hrest (by omega)]
    simp only [List.flatMap_cons, List.length_append, Str.encode, s.length_payload]
    congr 1
    omega

/-- The loop state after the fields `fs`. -/
def Scan.advance (s : Scan) (fds : List RawFd) (len slots : Nat) : Scan where
  i := s.i + len
  fdsCursor := s.fdsCursor + slots
  consumedFds := s.consumedFds ++ (fds.drop s.fdsCursor).take slots

@[simp] theorem Scan.advance_i (s : Scan) (fds : List RawFd) (len slots : Nat) :
    (s.advance fds len slots).i = s.i + len := rfl
@[simp] theorem Scan.advance_fdsCursor (s : Scan) (fds : List RawFd) (len slots : Nat) :
    (s.advance fds len slots).fdsCursor = s.fdsCursor + slots := rfl

theorem Scan.advance_zero_slots (s : Scan) (fds : List RawFd) (len : Nat) :
    s.advance fds len 0 = { s with i := s.i + len } := by
  simp [Scan.advance]

theorem Scan.advance_advance (s : Scan) (fds : List RawFd) (l₁ n₁ l₂ n₂ : Nat) :
    (s.advance fds l₁ n₁).advance fds l₂ n₂ = s.advance fds (l₁ + l₂) (n₁ + n₂) := by
  simp only [Scan.advance, List.append_assoc, Nat.add_assoc, Scan.mk.injEq, true_and]
  rw [← List.drop_drop, ← List.take_add]

/-- **One field**: the body advances by its encoding and takes its descriptors; when they are
not there the message is malformed. -/
theorem scanBody_encode {data rest : List UInt8} {fds : List RawFd} {pos : Nat} {s : Scan}
    (f : Field m) {t : MessageMagic} (ht : f.tags.head? = some t)
    (hd : data.drop pos = f.encode ++ rest) (hi : s.i ≤ pos)
    (hfit : pos + f.encode.length < 2 ^ 64) (hfds : fds.length < 2 ^ 64)
    (hcur : s.fdsCursor ≤ fds.length) :
    scanBody m data fds pos t s = if s.fdsCursor + f.slots ≤ fds.length then
        .ok (s.advance fds f.encode.length f.slots)
      else .err .malformedMessage := by
  cases f with
  | scalar t' w =>
    obtain rfl : t'.magic = t := by simpa [Field.tags] using ht
    simp only [Field.encode, List.length_cons, Bytes.length_toLeBytes, Field.slots, Nat.add_zero,
      if_pos hcur, Scan.advance_zero_slots] at hfit ⊢
    cases t' <;> simp only [Scalar.magic, scanBody] <;> rw [uadd_eq (by omega)] <;> rfl
  | varchar str =>
    obtain rfl : MessageMagic.typeVarchar = t := by simpa [Field.tags] using ht
    simp only [Field.encode, Str.encode, List.cons_append, List.append_assoc, List.length_cons,
      List.length_append, str.length_payload, Field.slots, Nat.add_zero, if_pos hcur,
      Scan.advance_zero_slots] at hd hfit ⊢
    simp only [scanBody]
    rw [uadd_eq (by omega), Outcome.ok_bind,
      parseVarInt_lenPrefix str.len (Bytes.drop_succ_of_drop_eq_cons hd), Outcome.ok_bind]
    simp only []
    rw [uadd_eq (by omega), Outcome.ok_bind, uadd_eq (by omega), Outcome.ok_bind,
      uadd_eq (by omega), Outcome.ok_bind]
    congr 2
    omega
  | scalars t' n ws hws hn =>
    obtain rfl : MessageMagic.typeArray = t := by simpa [Field.tags] using ht
    simp only [Field.encode, List.cons_append, List.append_assoc, List.length_cons,
      List.length_append, length_flatMap_toLeBytes, hws, Field.slots, Nat.add_zero, if_pos hcur,
      Scan.advance_zero_slots] at hd hfit ⊢
    have hd1 := Bytes.drop_succ_of_drop_eq_cons hd
    have hbyte := Bytes.getElem?_of_drop_eq_cons hd1
    have hd2 := Bytes.drop_succ_of_drop_eq_cons hd1
    simp only [scanBody]
    rw [uadd_eq (by omega), Outcome.ok_bind, getByte_eq_ok.mpr hbyte, Outcome.ok_bind,
      MessageMagic.tryFrom_toU8, Outcome.ok_bind, uadd_eq (by omega), Outcome.ok_bind,
      parseVarInt_lenPrefix n hd2, Outcome.ok_bind]
    simp only []
    rw [uadd_eq (by omega), Outcome.ok_bind, if_neg (by omega)]
    have hel : scanElements m data fds pos t'.magic n.count (2 + n.bytes.length) s
        = .ok (2 + n.bytes.length + 4 * n.count, s) := by
      cases t' <;> simp only [Scalar.magic, scanElements] <;>
        rw [umul_eq (by omega), Outcome.ok_bind, uadd_eq (by omega), Outcome.ok_bind]
    rw [hel, Outcome.ok_bind]
    simp only []
    rw [uadd_eq (by omega), Outcome.ok_bind]
    congr 2
    omega
  | strings n ss hss hn =>
    obtain rfl : MessageMagic.typeArray = t := by simpa [Field.tags] using ht
    simp only [Field.encode, List.cons_append, List.append_assoc, List.length_cons,
      List.length_append, Field.slots, Nat.add_zero, if_pos hcur,
      Scan.advance_zero_slots] at hd hfit ⊢
    have hd1 := Bytes.drop_succ_of_drop_eq_cons hd
    have hbyte := Bytes.getElem?_of_drop_eq_cons hd1
    have hd2 := Bytes.drop_succ_of_drop_eq_cons hd1
    have hd3 := Bytes.drop_add_of_drop_eq_append hd2
    simp only [scanBody]
    rw [uadd_eq (by omega), Outcome.ok_bind, getByte_eq_ok.mpr hbyte, Outcome.ok_bind,
      MessageMagic.tryFrom_toU8, Outcome.ok_bind, uadd_eq (by omega), Outcome.ok_bind,
      parseVarInt_lenPrefix n hd2, Outcome.ok_bind]
    simp only []
    rw [uadd_eq (by omega), Outcome.ok_bind, if_neg (by omega)]
    simp only [scanElements, ← hss]
    rw [skipStrings_encode ss _ (by rw [← hd3]; congr 1; omega) (by omega), Outcome.ok_bind,
      Outcome.ok_bind]
    simp only []
    rw [uadd_eq (by omega), Outcome.ok_bind]
    congr 2
    omega
  | fds n hn =>
    obtain rfl : MessageMagic.typeArray = t := by simpa [Field.tags] using ht
    simp only [Field.encode, List.cons_append, List.length_cons] at hd hfit ⊢
    have hd1 := Bytes.drop_succ_of_drop_eq_cons hd
    have hbyte := Bytes.getElem?_of_drop_eq_cons hd1
    have hd2 := Bytes.drop_succ_of_drop_eq_cons hd1
    simp only [scanBody]
    rw [uadd_eq (by omega), Outcome.ok_bind, getByte_eq_ok.mpr hbyte, Outcome.ok_bind,
      MessageMagic.tryFrom_toU8, Outcome.ok_bind, uadd_eq (by omega), Outcome.ok_bind,
      parseVarInt_lenPrefix n hd2, Outcome.ok_bind]
    simp only []
    rw [uadd_eq (by omega), Outcome.ok_bind, if_neg (by omega)]
    simp only [scanElements]
    rw [consumeFds_eq hfds _ _ hcur]
    by_cases hle : s.fdsCursor + (Field.fds n hn).slots ≤ fds.length
    · rw [if_pos hle, if_pos (show s.fdsCursor + n.count ≤ fds.length from hle),
        Outcome.ok_bind, Outcome.ok_bind]
      simp only []
      rw [uadd_eq (by omega), Outcome.ok_bind, Scan.advance]
      simp only [Field.slots]
      congr 2
      omega
    · rw [if_neg hle, if_neg (show ¬ s.fdsCursor + n.count ≤ fds.length from hle)]
      rfl
  | fd =>
    obtain rfl : MessageMagic.typeFd = t := by simpa [Field.tags] using ht
    simp only [Field.encode, List.length_cons, List.length_nil] at hfit ⊢
    simp only [scanBody]
    rw [consumeFds_eq hfds _ _ hcur]
    by_cases hle : s.fdsCursor + (Field.fd : Field m).slots ≤ fds.length
    · rw [if_pos hle, if_pos (show s.fdsCursor + 1 ≤ fds.length from hle), Outcome.ok_bind]
      simp only []
      rw [uadd_eq (by omega), Outcome.ok_bind]
      rfl
    · rw [if_neg hle, if_neg (show ¬ s.fdsCursor + 1 ≤ fds.length from hle)]
      rfl

theorem scanStep_encode {data rest : List UInt8} {fds : List RawFd} {offset : Nat} {s : Scan}
    (f : Field m) (hd : data.drop (offset + s.i) = f.encode ++ rest)
    (hfit : offset + s.i + f.encode.length < 2 ^ 64) (hfds : fds.length < 2 ^ 64)
    (hcur : s.fdsCursor ≤ fds.length) :
    scanStep m data fds offset s = if s.fdsCursor + f.slots ≤ fds.length then
        .ok (some (s.advance fds f.encode.length f.slots))
      else .err .malformedMessage := by
  obtain ⟨t, tail, henc, hne, ht⟩ := f.encode_eq_cons
  have hbyte := Bytes.getElem?_of_drop_eq_cons (hd.trans (by rw [henc, List.cons_append]))
  simp only [scanStep]
  rw [uadd_eq (by omega), Outcome.ok_bind, getByte_eq_ok.mpr hbyte, Outcome.ok_bind,
    if_neg (mt MessageMagic.toU8_eq_end.mp hne), MessageMagic.tryFrom_toU8, Outcome.ok_bind,
    scanBody_encode f ht hd (by omega) hfit hfds hcur]
  split <;> rfl

theorem scanStep_end {data rest : List UInt8} {fds : List RawFd} {offset : Nat} {s : Scan}
    (hd : data.drop (offset + s.i) = MessageMagic.end_.toU8 :: rest)
    (hfit : offset + s.i < 2 ^ 64) : scanStep m data fds offset s = .ok none := by
  simp only [scanStep]
  rw [uadd_eq hfit, Outcome.ok_bind, getByte_eq_ok.mpr (Bytes.getElem?_of_drop_eq_cons hd),
    Outcome.ok_bind, if_pos rfl]

/-- **The whole loop over encoded fields.** It stops at the `End` byte, having advanced by the
encoding and taken one descriptor per slot; with too few descriptors it is `Malformed`. -/
theorem scanLoop_encode {data rest : List UInt8} {fds : List RawFd} {offset : Nat}
    (hfds : fds.length < 2 ^ 64) : ∀ (fs : List (Field m)) (fuel : Nat) (s : Scan),
    fs.length < fuel → s.fdsCursor ≤ fds.length →
    data.drop (offset + s.i) = encodeAll fs ++ MessageMagic.end_.toU8 :: rest →
    offset + s.i + (encodeAll fs).length < 2 ^ 64 →
      scanLoop m data fds offset fuel s = if s.fdsCursor + slotsAll fs ≤ fds.length then
          .ok (s.advance fds (encodeAll fs).length (slotsAll fs))
        else .err .malformedMessage
  | [], fuel + 1, s, _, hcur, hd, hfit => by
    simp only [scanLoop]
    rw [scanStep_end (by simpa using hd) (by omega), Outcome.ok_bind]
    simp [Scan.advance, hcur]
  | f :: fs, fuel + 1, s, hlt, hcur, hd, hfit => by
    simp only [encodeAll_cons, List.append_assoc, List.length_append, slotsAll_cons,
      List.length_cons] at hlt hd hfit ⊢
    simp only [scanLoop]
    rw [scanStep_encode f hd (by omega) hfds hcur]
    by_cases hle : s.fdsCursor + f.slots ≤ fds.length
    · have hd' : data.drop (offset + (s.i + f.encode.length))
          = encodeAll fs ++ MessageMagic.end_.toU8 :: rest := by
        rw [← Nat.add_assoc]
        exact Bytes.drop_add_of_drop_eq_append hd
      rw [if_pos hle, Outcome.ok_bind]
      simp only []
      rw [scanLoop_encode hfds fs fuel _ (by omega) hle hd' (by simp only [Scan.advance_i]; omega),
        Scan.advance_advance]
      simp only [Scan.advance_fdsCursor, Nat.add_assoc]
    · rw [if_neg hle, if_neg (by omega)]
      rfl

end Hyprwire
