import Mathlib.Tactic.Common
import Mathlib.Algebra.GroupWithZero.Nat

/-!
# `Lib/Utf8.lean` — strings as bytes

A Rust `str` is a slice of bytes known to be UTF-8, and so is a Lean `String`. `asBytes` is
the slice; `fromUtf8` is `str::from_utf8`; `fromUtf8Lossy` is `String::from_utf8_lossy`,
which puts U+FFFD in place of each maximal part of a sequence that is not UTF-8.

A position in a string is a number of bytes. `splitAt` is where slicing at it is possible, between
two characters, and `rfind` is the position of a character seen from the end (`rfind_append`,
`splitAt_append`).
-/

namespace Utf8

/-- `str::as_bytes`. -/
def asBytes (s : String) : List UInt8 := s.toByteArray.data.toList

/-- `str::from_utf8`. -/
def fromUtf8 (bytes : List UInt8) : Option String := String.fromUTF8? ⟨bytes.toArray⟩

/-- A continuation byte, `0b10xxxxxx`. -/
def isCont (b : UInt8) : Bool := b &&& 0xC0 = 0x80

/-- The second byte a 3- or 4-byte sequence may have after its first. -/
def secondOk (first second : UInt8) : Bool :=
  if first = 0xE0 then 0xA0 ≤ second && second ≤ 0xBF
  else if first = 0xED then 0x80 ≤ second && second ≤ 0x9F
  else if first = 0xF0 then 0x90 ≤ second && second ≤ 0xBF
  else if first = 0xF4 then 0x80 ≤ second && second ≤ 0x8F
  else isCont second

/-- Bytes of the sequence a first byte announces; 0 for a byte that begins none. -/
def charWidth (first : UInt8) : Nat :=
  if first < 0x80 then 1
  else if 0xC2 ≤ first && first ≤ 0xDF then 2
  else if 0xE0 ≤ first && first ≤ 0xEF then 3
  else if 0xF0 ≤ first && first ≤ 0xF4 then 4
  else 0

/-- How many bytes of the sequence at the head are as they should be (at least one). -/
def goodLen : List UInt8 → Nat
  | first :: second :: rest =>
    match charWidth first with
    | 2 => if isCont second then 2 else 1
    | 3 => if secondOk first second then 2 + min 1 (rest.takeWhile isCont).length else 1
    | 4 => if secondOk first second then 2 + min 2 (rest.takeWhile isCont).length else 1
    | _ => 1
  | _ => 1

/-- The loop of `Utf8Chunks`: sequences that are whole are kept, others replaced. -/
def replaceInvalid : Nat → List UInt8 → List UInt8
  | 0, _ | _, [] => []
  | fuel + 1, first :: rest =>
    let bs := first :: rest
    let n := goodLen bs
    (if n = charWidth first then bs.take n else [0xEF, 0xBF, 0xBD])
      ++ replaceInvalid fuel (bs.drop n)

/-- `String::from_utf8_lossy`: the input itself when it is UTF-8. -/
def fromUtf8Lossy (bytes : List UInt8) : String :=
  match fromUtf8 bytes with
  | some s => s
  | none => (fromUtf8 (replaceInvalid bytes.length bytes)).getD ""

@[simp] theorem fromUtf8_asBytes (s : String) : fromUtf8 (asBytes s) = some s := by
  have hvalid : ByteArray.IsValidUTF8 ⟨(asBytes s).toArray⟩ := s.isValidUTF8
  simp only [fromUtf8, String.fromUTF8?]
  rw [dif_pos hvalid]
  rfl

@[simp] theorem fromUtf8Lossy_asBytes (s : String) : fromUtf8Lossy (asBytes s) = s := by
  simp only [fromUtf8Lossy, fromUtf8_asBytes]

/-! ## Positions -/

/-- The bytes that the characters take. -/
def byteLen (cs : List Char) : Nat := (cs.map Char.utf8Size).sum

/-- `str::rfind`: where the last occurrence of a character begins. -/
def rfind (c : Char) : List Char → Option Nat
  | [] => none
  | d :: ds =>
    match rfind c ds with
    | some p => some (d.utf8Size + p)
    | none => if d = c then some 0 else none

/-- `&s[..p]` and `&s[p..]`; `none` where `p` is inside a character or past the end. -/
def splitAt : List Char → Nat → Option (List Char × List Char)
  | cs, 0 => some ([], cs)
  | [], _ + 1 => none
  | c :: cs, p + 1 =>
    if c.utf8Size ≤ p + 1 then
      (splitAt cs (p + 1 - c.utf8Size)).map fun (front, back) => (c :: front, back)
    else none

@[simp] theorem byteLen_nil : byteLen [] = 0 := rfl

@[simp] theorem byteLen_cons (c : Char) (cs : List Char) :
    byteLen (c :: cs) = c.utf8Size + byteLen cs := by
  simp [byteLen]

@[simp] theorem byteLen_append (cs ds : List Char) :
    byteLen (cs ++ ds) = byteLen cs + byteLen ds := by
  simp [byteLen]

theorem rfind_eq_none {c : Char} {cs : List Char} (h : c ∉ cs) : rfind c cs = none := by
  induction cs with
  | nil => rfl
  | cons d ds ih =>
    obtain ⟨hne, hds⟩ := not_or.mp fun hor => h (List.mem_cons.mpr hor)
    rw [rfind, ih hds]
    exact if_neg (Ne.symm hne)

/-- The last occurrence is the one behind which there is none. -/
theorem rfind_append {c : Char} {ds : List Char} (h : c ∉ ds) (cs : List Char) :
    rfind c (cs ++ c :: ds) = some (byteLen cs) := by
  induction cs with
  | nil =>
    rw [List.nil_append, rfind, rfind_eq_none h]
    exact if_pos rfl
  | cons b bs ih =>
    rw [List.cons_append, rfind, ih]
    simp

/-- A string is cut between two characters into what stands before and behind. -/
theorem splitAt_append (cs ds : List Char) : splitAt (cs ++ ds) (byteLen cs) = some (cs, ds) := by
  induction cs with
  | nil => cases ds <;> rfl
  | cons c cs ih =>
    obtain ⟨p, hp⟩ := Nat.exists_eq_succ_of_ne_zero (Nat.ne_of_gt c.utf8Size_pos)
    have hlen : byteLen (c :: cs) = p + byteLen cs + 1 := by rw [byteLen_cons, hp]; omega
    have hrest : p + byteLen cs + 1 - c.utf8Size = byteLen cs := by omega
    rw [hlen, List.cons_append, splitAt, if_pos (by omega), hrest, ih]
    rfl

end Utf8
