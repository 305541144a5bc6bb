import Hyprwire.Wire.Total

/-!
# `Wire/Release.lean` — the scan loop in a release build

A release build wraps, so the index `i` of the scan loop can stand still, move backwards, or
run past `2^64 - offset` and come back in front of the message. `Wraps` names the inputs on
which it does, in terms of the sizes the fields declare for themselves, which are exact
numbers here and not words. On every other input the index grows with each iteration, the loop
leaves within `data.len()` of them, and what is accepted lies inside the buffer
(`sound_iff`).
-/

namespace Hyprwire

open Rust

variable {data : List UInt8} {fds : List RawFd} {offset pos p : Nat} {s s' : Scan}

/-! ## What a field declares -/

/-- The length prefix at `p`, as a release build reads it. -/
def wrappedLen (data : List UInt8) (p : Nat) : Nat :=
  match parseVarInt .wrapping data p with
  | .ok (len, _) => len
  | _ => 0

/-- The size of `n` strings, found one behind the other at `base` on, added to `size`. -/
def stringsSize (data : List UInt8) (base : Nat) : Nat → Nat → Nat
  | 0, size => size
  | n + 1, size =>
    let p := (base + size) % 2 ^ 64
    stringsSize data base n (size + (wrappedLen data p + Leb128.span (data.drop p)))

/-- The size of an array field and its fd slots, if its element type is one. -/
def declaredElements (data : List UInt8) (pos : Nat) (arrType : MessageMagic) (n head : Nat) :
    Option (Nat × Nat) :=
  match arrType with
  | .typeUint | .typeF32 | .typeInt | .typeObject | .typeSeq => some (head + 4 * n, 0)
  | .typeVarchar => some (stringsSize data pos n head, 0)
  | .typeFd => some (head, n)
  | _ => none

/-- The size of the field with tag `magic` at `pos`, and its fd slots. -/
def declaredBody (data : List UInt8) (pos : Nat) (magic : MessageMagic) : Option (Nat × Nat) :=
  match magic with
  | .typeUint | .typeF32 | .typeInt | .typeObject | .typeSeq => some (5, 0)
  | .typeVarchar => some (wrappedLen data (pos + 1) + Leb128.span (data.drop (pos + 1)) + 1, 0)
  | .typeArray =>
    match data[pos + 1]?.map MessageMagic.tryFrom with
    | some (.ok t) =>
      if 10000 ≤ wrappedLen data (pos + 2) then none
      else declaredElements data pos t (wrappedLen data (pos + 2))
        (2 + Leb128.span (data.drop (pos + 2)))
    | _ => none
  | .typeFd => some (1, 1)
  | _ => none

/-- The size of the field at `pos` and its fd slots; `none` when there is no field. -/
def declared (data : List UInt8) (pos : Nat) : Option (Nat × Nat) :=
  match data[pos]?.map MessageMagic.tryFrom with
  | some (.ok t) => declaredBody data pos t
  | _ => none

theorem declared_end (h : data[pos]? = some MessageMagic.end_.toU8) : declared data pos = none := by
  rw [declared, h]
  rfl

/-! ## The body, over what a field declares -/

theorem parseVarInt_wrappedLen (hlen : data.length ≤ isizeMax) (p : Nat) :
    parseVarInt .wrapping data p = .ok (wrappedLen data p, Leb128.span (data.drop p)) := by
  simp only [isizeMax] at hlen
  obtain ⟨v, -, hv⟩ := parseVarInt_wrapping (show data.length < 2 ^ 64 by omega) p
  rw [wrappedLen, hv]

/-- The wrapped accumulator is the exact one, cut to 64 bits. -/
theorem skipStrings_wrapping (hlen : data.length ≤ isizeMax) {base : Nat} : ∀ (n size : Nat),
    skipStrings .wrapping data base n (size % 2 ^ 64)
      = .ok (stringsSize data base n size % 2 ^ 64)
  | 0, _ => rfl
  | n + 1, size => by
    have hp : (base + size % 2 ^ 64) % 2 ^ 64 = (base + size) % 2 ^ 64 := by omega
    simp only [skipStrings, uadd_wrapping, Outcome.ok_bind, hp, parseVarInt_wrappedLen hlen,
      stringsSize]
    rw [← skipStrings_wrapping hlen n]
    congr 1
    omega

/-- Where the body leaves the loop state after a field that declares `size` and `slots`. -/
def Scan.wrap (s : Scan) (fds : List RawFd) (size slots : Nat) : Scan :=
  { s.advance fds 0 slots with i := (s.i + size) % 2 ^ 64 }

/-- A run of the body against what the field declares: it refuses, and then the field is none or
its descriptors are missing; or it moves by the declared size. -/
def Moves (fds : List RawFd) (s : Scan) (field : Option (Nat × Nat)) (r : Outcome Error Scan) :
    Prop :=
  (∃ e, r = .err e ∧ ∀ size slots, field = some (size, slots) → fds.length < s.fdsCursor + slots) ∨
  ∃ size slots, field = some (size, slots) ∧ s.fdsCursor + slots ≤ fds.length ∧
    r = .ok (s.wrap fds size slots)

theorem Moves.refused {e : Error} : Moves fds s none (.err e) :=
  .inl ⟨e, rfl, fun _ _ h => by cases h⟩

theorem Moves.bare {size i : Nat} (hcur : s.fdsCursor ≤ fds.length)
    (hi : i = (s.i + size) % 2 ^ 64) : Moves fds s (some (size, 0)) (.ok { s with i }) := by
  refine .inr ⟨size, 0, rfl, hcur, ?_⟩
  simp [Scan.wrap, Scan.advance, hi]

/-- Fd slots are passed first, the index moves afterwards. -/
theorem moves_fds (hfds : fds.length < 2 ^ 64) (hcur : s.fdsCursor ≤ fds.length)
    (size slots : Nat) : Moves fds s (some (size, slots))
      (consumeFds .wrapping fds slots s >>= fun s' =>
        uadd .wrapping s'.i (size % 2 ^ 64) >>= fun i => .ok { s' with i }) := by
  rw [consumeFds_eq hfds slots s hcur]
  by_cases hslots : s.fdsCursor + slots ≤ fds.length
  · rw [if_pos hslots, Outcome.ok_bind, uadd_wrapping, Outcome.ok_bind]
    refine .inr ⟨size, slots, rfl, hslots, ?_⟩
    have hi : (s.i + size % 2 ^ 64) % 2 ^ 64 = (s.i + size) % 2 ^ 64 := by omega
    simp only [Scan.wrap, Scan.advance, hi]
  · rw [if_neg hslots]
    refine .inl ⟨_, rfl, ?_⟩
    rintro size' slots' ⟨⟩
    exact Nat.lt_of_not_le hslots

theorem moves_elements (hlen : data.length ≤ isizeMax) (hfds : fds.length < 2 ^ 64)
    (hcur : s.fdsCursor ≤ fds.length) {n head : Nat} (hn : n < 10000) (hhead : head < 2 ^ 64)
    (t : MessageMagic) : Moves fds s (declaredElements data pos t n head)
      (scanElements .wrapping data fds pos t n head s >>= fun r =>
        uadd .wrapping r.2.i r.1 >>= fun i => .ok { r.2 with i }) := by
  have hwords : Moves fds s (some (head + 4 * n, 0))
      (umul .wrapping 4 n >>= fun d => uadd .wrapping head d >>= fun size =>
        uadd .wrapping s.i size >>= fun i => .ok { s with i }) := by
    rw [umul_eq (by omega), Outcome.ok_bind, uadd_wrapping, Outcome.ok_bind, uadd_wrapping,
      Outcome.ok_bind]
    exact .bare hcur (by omega)
  cases t with
  | typeUint | typeF32 | typeInt | typeObject | typeSeq =>
    simpa only [declaredElements, scanElements, bind_assoc, Outcome.ok_bind] using hwords
  | typeVarchar =>
    have hskip : skipStrings .wrapping data pos n (head % 2 ^ 64) =
        .ok (stringsSize data pos n head % 2 ^ 64) := skipStrings_wrapping hlen n head
    rw [Nat.mod_eq_of_lt hhead] at hskip
    simp only [declaredElements, scanElements, Outcome.ok_bind, hskip, uadd_wrapping]
    exact .bare hcur (by omega)
  | typeFd =>
    have h := moves_fds hfds hcur head n
    rw [Nat.mod_eq_of_lt hhead] at h
    simpa only [declaredElements, scanElements, bind_assoc, Outcome.ok_bind] using h
  | end_ | typeObjectId | typeArray => exact .refused

/-- **One iteration**: the index moves by the declared size, modulo 2^64. -/
theorem moves_scanBody {magic : MessageMagic} (hlen : data.length ≤ isizeMax)
    (hpos : pos < data.length) (hfds : fds.length < 2 ^ 64) (hcur : s.fdsCursor ≤ fds.length) :
    Moves fds s (declaredBody data pos magic) (scanBody .wrapping data fds pos magic s) := by
  have hcap : data.length ≤ 2 ^ 63 - 1 := hlen
  cases magic with
  | typeUint | typeF32 | typeInt | typeObject | typeSeq =>
    simp only [declaredBody, scanBody, uadd_wrapping, Outcome.ok_bind]
    exact .bare hcur rfl
  | typeVarchar =>
    simp only [declaredBody, scanBody]
    rw [uadd_eq (by omega), Outcome.ok_bind, parseVarInt_wrappedLen hlen, Outcome.ok_bind]
    simp only [uadd_wrapping, Outcome.ok_bind]
    exact .bare hcur (by omega)
  | typeArray =>
    simp only [declaredBody, scanBody]
    rw [uadd_eq (by omega), Outcome.ok_bind, getByte]
    cases hb : data[pos + 1]? with
    | none => exact .refused
    | some byte =>
      rw [Outcome.okOr_some, Outcome.ok_bind, Option.map_some]
      cases ht : MessageMagic.tryFrom byte with
      | err e => exact .refused
      | panic p => exact absurd (MessageMagic.returns_tryFrom byte) (by rw [ht]; exact id)
      | stall => exact absurd (MessageMagic.returns_tryFrom byte) (by rw [ht]; exact id)
      | ok t =>
        have hspan := Leb128.span_le_length (data.drop (pos + 2))
        rw [List.length_drop] at hspan
        rw [Outcome.ok_bind, uadd_eq (by omega), Outcome.ok_bind, parseVarInt_wrappedLen hlen,
          Outcome.ok_bind]
        simp only []
        rw [uadd_eq (by omega), Outcome.ok_bind]
        by_cases hlong : 10000 ≤ wrappedLen data (pos + 2)
        · rw [if_pos hlong, if_pos hlong]
          exact .refused
        · rw [if_neg hlong, if_neg hlong]
          exact moves_elements hlen hfds hcur (Nat.lt_of_not_le hlong) (by omega) t
  | typeFd => exact moves_fds hfds hcur 1 1
  | end_ | typeObjectId => exact .refused

/-- The condition and the body. -/
theorem scanStep_wrapping (hlen : data.length ≤ isizeMax) (hfds : fds.length < 2 ^ 64)
    (hcur : s.fdsCursor ≤ fds.length) :
    (data[(offset + s.i) % 2 ^ 64]? = some MessageMagic.end_.toU8 ∧
      scanStep .wrapping data fds offset s = .ok none) ∨
    ∃ r, Moves fds s (declared data ((offset + s.i) % 2 ^ 64)) r ∧
      scanStep .wrapping data fds offset s = r >>= fun s' => .ok (some s') := by
  simp only [scanStep, declared]
  rw [uadd_wrapping, Outcome.ok_bind, getByte]
  cases hb : data[(offset + s.i) % 2 ^ 64]? with
  | none => exact .inr ⟨_, .refused, rfl⟩
  | some byte =>
    rw [Outcome.okOr_some, Outcome.ok_bind, Option.map_some]
    by_cases hend : byte = MessageMagic.end_.toU8
    · rw [if_pos hend]
      exact .inl ⟨by rw [hend], rfl⟩
    · rw [if_neg hend]
      cases ht : MessageMagic.tryFrom byte with
      | err e => exact .inr ⟨_, .refused, rfl⟩
      | panic p => exact absurd (MessageMagic.returns_tryFrom byte) (by rw [ht]; exact id)
      | stall => exact absurd (MessageMagic.returns_tryFrom byte) (by rw [ht]; exact id)
      | ok t => exact .inr ⟨_, moves_scanBody hlen (lt_length_of_getElem? hb) hfds hcur, rfl⟩

/-! ## The walk -/

/-- `Visits data fds offset i cursor`: going by the declared sizes, with addresses modulo 2^64,
one comes to index `i` with `cursor` descriptors passed. -/
inductive Visits (data : List UInt8) (fds : List RawFd) (offset : Nat) : Nat → Nat → Prop
  | start (hhead : HasBytes data offset [(0, 100), (1, 0x22), (6, 0x10)])
      (hle : offset + 11 ≤ data.length) : Visits data fds offset 11 0
  | field {i cursor size slots : Nat} (h : Visits data fds offset i cursor)
      (hfield : declared data ((offset + i) % 2 ^ 64) = some (size, slots))
      (hslots : cursor + slots ≤ fds.length) :
      Visits data fds offset ((i + size) % 2 ^ 64) (cursor + slots)

/-- **The inputs that make the index wrap**: a visited field declares a size that is nothing
modulo 2^64 or carries the index past 2^64, or the walk ends at the last index there is. -/
def Wraps (data : List UInt8) (fds : List RawFd) (offset : Nat) : Prop :=
  ∃ i cursor, Visits data fds offset i cursor ∧
    ((∃ size slots, declared data ((offset + i) % 2 ^ 64) = some (size, slots) ∧
        cursor + slots ≤ fds.length ∧ (size % 2 ^ 64 = 0 ∨ 2 ^ 64 ≤ i + size % 2 ^ 64)) ∨
      (i + 1 = 2 ^ 64 ∧ data[(offset + i) % 2 ^ 64]? = some MessageMagic.end_.toU8))

/-- `Reaches data fds offset n s`: the loop is in state `s` after `n` iterations. -/
inductive Reaches (data : List UInt8) (fds : List RawFd) (offset : Nat) : Nat → Scan → Prop
  | start {header : UInt32 × UInt32}
      (h : GenericProtocolMessage.readHeader .wrapping data offset = .ok header) :
      Reaches data fds offset 0 ⟨11, 0, []⟩
  | turn {n : Nat} {s s' : Scan} (h : Reaches data fds offset n s)
      (hstep : scanStep .wrapping data fds offset s = .ok (some s')) :
      Reaches data fds offset (n + 1) s'

/-- **What is expected of the loop** on one input: the index grows with every iteration, there
are at most `data.len()` of them (so that the budget of `from_bytes` is enough), and what is
accepted has a header and an `End` byte and lies inside the input. -/
structure Sound (data : List UInt8) (fds : List RawFd) (offset : Nat) : Prop where
  increases : ∀ n s s', Reaches data fds offset n s →
    scanStep .wrapping data fds offset s = .ok (some s') → s.i < s'.i
  iterations : ∀ n s, Reaches data fds offset n s → n ≤ data.length
  exits : GenericProtocolMessage.fromBytes .wrapping data fds offset ≠ .stall
  accepted : ∀ msg rest, GenericProtocolMessage.fromBytes .wrapping data fds offset = .ok (msg, rest) →
    msg.range.1 = 11 ∧ 12 ≤ msg.range.2 ∧ offset + msg.range.2 ≤ data.length ∧
      msg.data = (data.drop offset).take msg.range.2 ∧ msg.dataSpan.Returns

/-! ### The loop goes where the walk goes -/

theorem scanStep_eq_some (hlen : data.length ≤ isizeMax) (hfds : fds.length < 2 ^ 64)
    (hcur : s.fdsCursor ≤ fds.length)
    (hstep : scanStep .wrapping data fds offset s = .ok (some s')) :
    ∃ size slots, declared data ((offset + s.i) % 2 ^ 64) = some (size, slots) ∧
      s.fdsCursor + slots ≤ fds.length ∧ s' = s.wrap fds size slots := by
  rcases scanStep_wrapping hlen hfds hcur with ⟨-, h⟩ | ⟨r, hmoves, h⟩
  · rw [hstep] at h
    cases h
  · rw [hstep] at h
    rcases hmoves with ⟨e, rfl, -⟩ | ⟨size, slots, hfield, hslots, rfl⟩
    · cases h
    · cases h
      exact ⟨size, slots, hfield, hslots, rfl⟩

theorem visits_of_reaches (hlen : data.length ≤ isizeMax) (hfds : fds.length < 2 ^ 64) {n : Nat}
    (h : Reaches data fds offset n s) :
    Visits data fds offset s.i s.fdsCursor ∧ s.fdsCursor ≤ fds.length := by
  induction h with
  | start h =>
    obtain ⟨hhead, hle⟩ := (readHeader_eq_ok_iff hlen).mp ⟨_, h⟩
    exact ⟨.start hhead hle, Nat.zero_le _⟩
  | turn h hstep ih =>
    obtain ⟨hvisits, hcur⟩ := ih
    obtain ⟨size, slots, hfield, hslots, rfl⟩ := scanStep_eq_some hlen hfds hcur hstep
    exact ⟨.field hvisits hfield hslots, hslots⟩

/-- A declared field is walked over, if its descriptors are there. -/
theorem scanStep_of_declared (hlen : data.length ≤ isizeMax) (hfds : fds.length < 2 ^ 64)
    {size slots : Nat} (hcur : s.fdsCursor ≤ fds.length)
    (hfield : declared data ((offset + s.i) % 2 ^ 64) = some (size, slots))
    (hslots : s.fdsCursor + slots ≤ fds.length) :
    scanStep .wrapping data fds offset s = .ok (some (s.wrap fds size slots)) := by
  rcases scanStep_wrapping hlen hfds hcur with ⟨hend, -⟩ | ⟨r, hmoves, hstep⟩
  · rw [declared_end hend] at hfield
    cases hfield
  · rw [hstep]
    rcases hmoves with ⟨e, -, hmissing⟩ | ⟨size', slots', hfield', -, rfl⟩
    · exact absurd (hmissing _ _ hfield) (Nat.not_lt_of_le hslots)
    · rw [hfield] at hfield'
      cases hfield'
      rfl

theorem reaches_of_visits (hlen : data.length ≤ isizeMax) (hfds : fds.length < 2 ^ 64)
    {i cursor : Nat} (h : Visits data fds offset i cursor) :
    ∃ n s, Reaches data fds offset n s ∧ s.i = i ∧ s.fdsCursor = cursor := by
  induction h with
  | start hhead hle =>
    obtain ⟨header, hheader⟩ := (readHeader_eq_ok_iff (m := .wrapping) hlen).mpr ⟨hhead, hle⟩
    exact ⟨0, _, .start hheader, rfl, rfl⟩
  | field _ hfield hslots ih =>
    obtain ⟨n, s, hreaches, rfl, rfl⟩ := ih
    have hcur := (visits_of_reaches hlen hfds hreaches).2
    exact ⟨n + 1, _, .turn hreaches (scanStep_of_declared hlen hfds hcur hfield hslots), rfl, rfl⟩

/-! ### The measure

An index whose address does not wrap has the bytes behind it to go, and those in front of the
message; one whose address wraps has the indices up to 2^64 to go, and they are fewer. -/

/-- How many iterations there can still be from `i` on. -/
def room (data : List UInt8) (offset i : Nat) : Nat :=
  if offset + i < 2 ^ 64 then data.length - (offset + i) + offset else 2 ^ 64 - i

theorem room_lt {i i' : Nat} (hin : (offset + i) % 2 ^ 64 < data.length) (hi : i < i')
    (hi' : i' < 2 ^ 64) : room data offset i' < room data offset i := by
  unfold room
  by_cases h : offset + i < 2 ^ 64
  · rw [Nat.mod_eq_of_lt h] at hin
    rw [if_pos h]
    by_cases h' : offset + i' < 2 ^ 64
    · rw [if_pos h']
      omega
    · rw [if_neg h']
      omega
  · rw [if_neg h, if_neg (by omega)]
    omega

theorem lt_length_of_declared {field : Nat × Nat} (h : declared data pos = some field) :
    pos < data.length := by
  by_contra hge
  rw [declared, List.getElem?_eq_none (Nat.le_of_not_lt hge)] at h
  cases h

/-- What one iteration does to the index when nothing wraps. -/
theorem step_of_not_wraps (hlen : data.length ≤ isizeMax) (hfds : fds.length < 2 ^ 64)
    (hnot : ¬ Wraps data fds offset) {n : Nat} (h : Reaches data fds offset n s)
    (hstep : scanStep .wrapping data fds offset s = .ok (some s')) :
    s.i < s'.i ∧ s'.i < 2 ^ 64 ∧ (offset + s.i) % 2 ^ 64 < data.length := by
  obtain ⟨hvisits, hcur⟩ := visits_of_reaches hlen hfds h
  obtain ⟨size, slots, hfield, hslots, rfl⟩ := scanStep_eq_some hlen hfds hcur hstep
  have hgood : ¬ (size % 2 ^ 64 = 0 ∨ 2 ^ 64 ≤ s.i + size % 2 ^ 64) := fun hbad =>
    hnot ⟨s.i, s.fdsCursor, hvisits, .inl ⟨size, slots, hfield, hslots, hbad⟩⟩
  refine ⟨?_, Nat.mod_lt _ (by decide), lt_length_of_declared hfield⟩
  simp only [Scan.wrap]
  omega

/-- The invariant of the loop. -/
theorem invariant_of_reaches (hlen : data.length ≤ isizeMax) (hfds : fds.length < 2 ^ 64)
    (hnot : ¬ Wraps data fds offset) {n : Nat} (h : Reaches data fds offset n s) :
    11 ≤ s.i ∧ s.i < 2 ^ 64 ∧ n + room data offset s.i ≤ data.length := by
  have hcap : data.length ≤ 2 ^ 63 - 1 := hlen
  induction h with
  | start h =>
    obtain ⟨-, hle⟩ := (readHeader_eq_ok_iff hlen).mp ⟨_, h⟩
    refine ⟨Nat.le_refl 11, by decide, ?_⟩
    simp only [room]
    rw [if_pos (by omega)]
    omega
  | turn h hstep ih =>
    obtain ⟨hi, -, hroom⟩ := ih
    obtain ⟨hlt, hfit, hin⟩ := step_of_not_wraps hlen hfds hnot h hstep
    have hless := room_lt hin hlt hfit
    exact ⟨by omega, hfit, by omega⟩

/-! ### The budget -/

theorem header_of_reaches {n : Nat} (h : Reaches data fds offset n s) :
    ∃ header, GenericProtocolMessage.readHeader .wrapping data offset = .ok header := by
  induction h with
  | start h => exact ⟨_, h⟩
  | turn _ _ ih => exact ih

/-- A budget that is used up has been used for iterations. -/
theorem reaches_of_stall (hlen : data.length ≤ isizeMax) (hfds : fds.length < 2 ^ 64) :
    ∀ (fuel n : Nat) (s : Scan), Reaches data fds offset n s →
      scanLoop .wrapping data fds offset fuel s = .stall →
        ∃ s', Reaches data fds offset (n + fuel) s'
  | 0, _, s, h, _ => ⟨s, h⟩
  | fuel + 1, n, s, h, hstall => by
    have hcur := (visits_of_reaches hlen hfds h).2
    rcases scanStep_wrapping hlen hfds hcur with ⟨-, hstep⟩ | ⟨r, hmoves, hstep⟩
    · rw [scanLoop, hstep] at hstall
      cases hstall
    · rcases hmoves with ⟨e, rfl, -⟩ | ⟨size, slots, -, -, rfl⟩
      · rw [scanLoop, hstep] at hstall
        cases hstall
      · rw [Outcome.ok_bind] at hstep
        rw [scanLoop, hstep, Outcome.ok_bind] at hstall
        obtain ⟨s', h'⟩ := reaches_of_stall hlen hfds fuel (n + 1) _ (.turn h hstep) hstall
        rw [Nat.add_assoc, Nat.add_comm 1] at h'
        exact ⟨s', h'⟩

/-- A loop that came to an end came to an `End` byte. -/
theorem reaches_of_ok : ∀ (fuel n : Nat) (s t : Scan), Reaches data fds offset n s →
    scanLoop .wrapping data fds offset fuel s = .ok t →
      ∃ n', Reaches data fds offset n' t ∧ scanStep .wrapping data fds offset t = .ok none
  | fuel + 1, n, s, t, h, hok => by
    rw [scanLoop, Outcome.bind_eq_ok] at hok
    obtain ⟨next, hstep, hok⟩ := hok
    cases next with
    | none =>
      cases hok
      exact ⟨n, h, hstep⟩
    | some s' => exact reaches_of_ok fuel (n + 1) s' t (.turn h hstep) hok

/-- A state within the budget is one the loop passes. -/
theorem scanLoop_of_reaches {n : Nat} (h : Reaches data fds offset n s) : ∀ fuel,
    scanLoop .wrapping data fds offset (n + fuel) ⟨11, 0, []⟩
      = scanLoop .wrapping data fds offset fuel s := by
  induction h with
  | start _ =>
    intro fuel
    rw [Nat.zero_add]
  | turn _ hstep ih =>
    intro fuel
    rw [Nat.add_assoc, Nat.add_comm 1, ih, scanLoop, hstep, Outcome.ok_bind]

/-! ## The theorem -/

/-- What is built from the final state: the length and the end of the message are words too. -/
theorem finish_wrapping {header : UInt32 × UInt32} (hcur : s.fdsCursor ≤ fds.length) :
    GenericProtocolMessage.finish .wrapping data fds offset header s
      = slice data offset ((offset + (s.i + 1) % 2 ^ 64) % 2 ^ 64) >>= fun bytes =>
        .ok ({ dependsOnSeq := 0, object := header.1, method := header.2, fds := s.consumedFds,
               data := bytes, range := (11, (s.i + 1) % 2 ^ 64) }, fds.drop s.fdsCursor) := by
  simp only [GenericProtocolMessage.finish, uadd_wrapping, Outcome.ok_bind]
  rw [slice_eq (Nat.zero_le _) hcur, Outcome.ok_bind]

theorem Sound.of_not_wraps (hlen : data.length ≤ isizeMax) (hfds : fds.length < 2 ^ 64)
    (hnot : ¬ Wraps data fds offset) : Sound data fds offset where
  increases _ _ _ h hstep := (step_of_not_wraps hlen hfds hnot h hstep).1
  iterations n s h := by
    obtain ⟨-, -, hroom⟩ := invariant_of_reaches hlen hfds hnot h
    omega
  exits := by
    intro hstall
    rw [GenericProtocolMessage.fromBytes] at hstall
    cases hheader : GenericProtocolMessage.readHeader .wrapping data offset with
    | err e => rw [hheader] at hstall; cases hstall
    | panic p => rw [hheader] at hstall; cases hstall
    | stall =>
      have h := returns_readHeader (m := .wrapping) hlen offset
      rw [hheader] at h
      exact h
    | ok header =>
      rw [hheader, Outcome.ok_bind] at hstall
      cases hloop : scanLoop .wrapping data fds offset (data.length + 1) ⟨11, 0, []⟩ with
      | err e => rw [hloop] at hstall; cases hstall
      | panic p => rw [hloop] at hstall; cases hstall
      | ok s =>
        obtain ⟨n, h, -⟩ := reaches_of_ok _ 0 _ s (.start hheader) hloop
        rw [hloop, Outcome.ok_bind, finish_wrapping (visits_of_reaches hlen hfds h).2] at hstall
        unfold slice at hstall
        split at hstall <;> cases hstall
      | stall =>
        obtain ⟨s, h⟩ := reaches_of_stall hlen hfds _ 0 _ (.start hheader) hloop
        obtain ⟨-, -, hroom⟩ := invariant_of_reaches hlen hfds hnot h
        omega
  accepted msg rest hok := by
    rw [GenericProtocolMessage.fromBytes, Outcome.bind_eq_ok] at hok
    obtain ⟨header, hheader, hok⟩ := hok
    rw [Outcome.bind_eq_ok] at hok
    obtain ⟨s, hloop, hok⟩ := hok
    obtain ⟨n, h, hend⟩ := reaches_of_ok _ 0 _ s (.start hheader) hloop
    obtain ⟨hvisits, hcur⟩ := visits_of_reaches hlen hfds h
    obtain ⟨hi, hfit, -⟩ := invariant_of_reaches hlen hfds hnot h
    have hlast : s.i + 1 ≠ 2 ^ 64 := by
      intro hlast
      rcases @scanStep_wrapping _ _ offset _ hlen hfds hcur with ⟨hbyte, -⟩ | ⟨r, hmoves, hstep⟩
      · exact hnot ⟨s.i, s.fdsCursor, hvisits, .inr ⟨hlast, hbyte⟩⟩
      · rw [hend] at hstep
        rcases hmoves with ⟨e, rfl, -⟩ | ⟨size, slots, -, -, rfl⟩
        · cases hstep
        · cases hstep
    have hcount : (s.i + 1) % 2 ^ 64 = s.i + 1 := Nat.mod_eq_of_lt (by omega)
    rw [finish_wrapping hcur, hcount, Outcome.bind_eq_ok] at hok
    obtain ⟨bytes, hslice, hok⟩ := hok
    obtain ⟨hle, hstop, hbytes⟩ := slice_eq_ok.mp hslice
    cases hok
    have hsum : (offset + (s.i + 1)) % 2 ^ 64 = offset + (s.i + 1) := by omega
    rw [hsum, Nat.add_sub_cancel_left] at hbytes
    rw [hsum] at hstop
    refine ⟨rfl, by simp only; omega, hstop, hbytes, ?_⟩
    simp only [GenericProtocolMessage.dataSpan]
    rw [returns_slice, hbytes, List.length_take, List.length_drop]
    omega

theorem Sound.not_wraps (hlen : data.length ≤ isizeMax) (hfds : fds.length < 2 ^ 64)
    (h : Sound data fds offset) : ¬ Wraps data fds offset := by
  rintro ⟨i, cursor, hvisits, hbad⟩
  obtain ⟨n, s, hreaches, rfl, rfl⟩ := reaches_of_visits hlen hfds hvisits
  have hcur := (visits_of_reaches hlen hfds hreaches).2
  rcases hbad with ⟨size, slots, hfield, hslots, hbad⟩ | ⟨hlast, hend⟩
  · have hlt := h.increases n s _ hreaches (scanStep_of_declared hlen hfds hcur hfield hslots)
    simp only [Scan.wrap] at hlt
    omega
  · -- The loop leaves with the last index; the length of the message is 2^64, which is 0.
    obtain ⟨header, hheader⟩ := header_of_reaches hreaches
    obtain ⟨-, hle⟩ := (readHeader_eq_ok_iff hlen).mp ⟨header, hheader⟩
    have hstop : scanStep .wrapping data fds offset s = .ok none := by
      rcases @scanStep_wrapping _ _ offset _ hlen hfds hcur with ⟨-, hstep⟩ | ⟨r, hmoves, hstep⟩
      · exact hstep
      · rw [declared_end hend] at hmoves
        rcases hmoves with ⟨e, rfl, -⟩ | ⟨size, slots, hfield, -, -⟩
        · simp only [scanStep, uadd_wrapping, Outcome.ok_bind, getByte] at hstep
          rw [hend] at hstep
          cases hstep
        · cases hfield
    have hloop := scanLoop_of_reaches hreaches (data.length - n + 1)
    have hfuel : n + (data.length - n + 1) = data.length + 1 := by
      have := h.iterations n s hreaches
      omega
    have hrun : scanLoop .wrapping data fds offset (data.length - n + 1) s = .ok s := by
      rw [scanLoop, hstop, Outcome.ok_bind]
    rw [hfuel, hrun] at hloop
    have hslice := slice_eq (ε := Error) (Nat.le_refl offset) (show offset ≤ data.length by omega)
    have hok : GenericProtocolMessage.fromBytes .wrapping data fds offset
        = .ok ({ dependsOnSeq := 0, object := header.1, method := header.2, fds := s.consumedFds,
                 data := (data.drop offset).take (offset - offset), range := (11, 0) },
            fds.drop s.fdsCursor) := by
      have hcap : data.length ≤ 2 ^ 63 - 1 := hlen
      rw [GenericProtocolMessage.fromBytes, hheader, Outcome.ok_bind, hloop, Outcome.ok_bind,
        finish_wrapping hcur, hlast, Nat.mod_self, Nat.add_zero,
        Nat.mod_eq_of_lt (show offset < 2 ^ 64 by omega), hslice, Outcome.ok_bind]
    have h12 : 12 ≤ 0 := (h.accepted _ _ hok).2.1
    exact absurd h12 (by decide)

/-- **In a release build the scan loop is sound iff its index never wraps.** -/
theorem sound_iff (data : List UInt8) (fds : List RawFd) (offset : Nat)
    (hlen : data.length ≤ isizeMax) (hfds : fds.length ≤ isizeMax) :
    Sound data fds offset ↔ ¬ Wraps data fds offset := by
  simp only [isizeMax] at hfds
  have hfit : fds.length < 2 ^ 64 := by omega
  exact ⟨fun h => h.not_wraps hlen hfit, fun h => .of_not_wraps hlen hfit h⟩

/-- A generic message whose one string declares a length of 2^64 - 11: with the ten bytes of
the prefix and the tag this makes 2^64. -/
def standingVarchar : List UInt8 :=
  [100, 0x22, 1, 0, 0, 0, 0x10, 0, 0, 0, 0, 0x20, 0xF5, 0xFF, 0xFF, 0xFF, 0xFF, 0xFF, 0xFF, 0xFF,
    0xFF, 0x01, 0x00]

/-- There the loop stands still for ever. -/
theorem not_sound_standingVarchar : ¬ Sound standingVarchar [] 0 := by
  intro hsound
  have hheader : GenericProtocolMessage.readHeader .wrapping standingVarchar 0 = .ok (1, 0) := rfl
  have hstep : scanStep .wrapping standingVarchar [] 0 ⟨11, 0, []⟩ = .ok (some ⟨11, 0, []⟩) := rfl
  exact absurd (hsound.increases 0 _ _ (.start hheader) hstep) (Nat.lt_irrefl 11)

/-- **Not every input is sound.** -/
theorem not_all_sound : ¬ ∀ (data : List UInt8) (fds : List RawFd) (offset : Nat),
    data.length ≤ isizeMax → fds.length ≤ isizeMax → Sound data fds offset := by
  intro h
  exact not_sound_standingVarchar (h standingVarchar [] 0 (by decide) (by decide))

/-- The same input, seen by `sound_iff`. -/
theorem wraps_standingVarchar :
    ¬ Sound standingVarchar [] 0 ∧ ¬ ¬ Wraps standingVarchar [] 0 := by
  refine ⟨not_sound_standingVarchar, fun h => not_sound_standingVarchar ?_⟩
  exact (sound_iff standingVarchar [] 0 (by decide) (by decide)).mpr h

end Hyprwire
