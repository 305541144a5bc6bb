import Hyprwire.Core.Codec
import Hyprwire.Core.Trace
import Hyprwire.Wire.Total

/-!
# `Wire/Needle.lean` — where `parse_data` goes

`parse_data` against the functions of the bytes that say what it does (`Core/Trace.lean`), from the
elements of an array up to the whole loop: over any bytes at all it comes to a field that trips,
and panics there, or it returns and its needle was where `positions` says (`run_cases`).
-/

namespace Hyprwire.Trace

open Rust

variable (showF32 : UInt32 → String) {data : List UInt8} {type : MessageMagic} {p : Nat}

/-! ## Elements -/

theorem readU32_cases (hlen : data.length ≤ isizeMax) (hp : p ≤ data.length) :
    (p + 4 ≤ data.length ∧ ∃ w, readU32 .checked data p = .ok w) ∨
      (data.length < p + 4 ∧ ∃ e, readU32 .checked data p = .err e) := by
  have hcap : data.length ≤ 2 ^ 63 - 1 := hlen
  by_cases h : p + 4 ≤ data.length
  · exact .inl ⟨h, exists_readU32 h hlen⟩
  · exact .inr ⟨Nat.lt_of_not_le h, refuses_readU32 (Nat.lt_of_not_le h) (by omega)⟩

/-- A word, as an element. -/
theorem wordElement_cases (hlen : data.length ≤ isizeMax) (hp : p ≤ data.length)
    (text : UInt32 → String) :
    (∃ s k, (if p + 4 ≤ data.length then some 4 else none) = some k ∧ p + k ≤ data.length ∧
        (readU32 .checked (data.drop p) 0 >>= fun value => Outcome.ok (text value, 4))
          = .ok (s, k)) ∨
      ((if p + 4 ≤ data.length then some 4 else none) = none ∧
        ∃ e, (readU32 .checked (data.drop p) 0 >>= fun value => Outcome.ok (text value, 4))
          = .err e) := by
  have hrest : (data.drop p).length = data.length - p := List.length_drop
  rcases @readU32_cases (data.drop p) 0 (Nat.le_trans (by omega) hlen) (Nat.zero_le _) with
    ⟨hfits, w, hw⟩ | ⟨hcut, e, he⟩
  · refine .inl ⟨text w, 4, if_pos (by omega), by omega, ?_⟩
    rw [hw, Outcome.ok_bind]
  · refine .inr ⟨if_neg (by omega), e, ?_⟩
    rw [he, Outcome.err_bind]

/-- A string, as an element. -/
theorem varcharElement_cases (hlen : data.length ≤ isizeMax) (hp : p ≤ data.length) :
    (ElementTrips data .typeVarchar p ∧
        ¬ (formatPrimitiveType .checked showF32 (data.drop p) .typeVarchar).Returns) ∨
      (¬ ElementTrips data .typeVarchar p ∧
        ((∃ text k, elementLen data .typeVarchar p = some k ∧ p + k ≤ data.length ∧
            formatPrimitiveType .checked showF32 (data.drop p) .typeVarchar = .ok (text, k)) ∨
          (elementLen data .typeVarchar p = none ∧
            ∃ e, formatPrimitiveType .checked showF32 (data.drop p) .typeVarchar = .err e))) := by
  have hcap : data.length ≤ 2 ^ 63 - 1 := hlen
  have hspan := Leb128.span_le_length (data.drop p)
  rw [List.length_drop] at hspan
  by_cases htrips : ElementTrips data .typeVarchar p
  · refine .inl ⟨htrips, fun hret => ?_⟩
    simp only [formatPrimitiveType, returns_parseVarInt_bind, returns_uadd_bind, HostileLen, lenAt,
      List.drop_zero] at hret
    rcases htrips.2 with hbad | hbad
    · exact hret.1 hbad
    · exact absurd hret.2.1 (Nat.not_lt_of_le hbad)
  · have hnot := not_or.mp fun h => htrips ⟨rfl, h⟩
    have hread : parseVarInt .checked (data.drop p) 0
        = .ok (lenAt data p, Leb128.span (data.drop p)) :=
      @parseVarInt_eq .checked (data.drop p) 0 (Nat.le_of_not_lt hnot.1)
    have hfit := Nat.lt_of_not_le hnot.2
    refine .inr ⟨htrips, ?_⟩
    simp only [formatPrimitiveType]
    rw [hread, Outcome.ok_bind]
    simp only []
    rw [uadd_eq hfit, Outcome.ok_bind]
    simp only [elementLen, strEnd]
    by_cases hwhole : p + Leb128.span (data.drop p) + lenAt data p ≤ data.length
    · have hget : getRange (data.drop p) (Leb128.span (data.drop p))
          (Leb128.span (data.drop p) + lenAt data p)
            = some ((data.drop (p + Leb128.span (data.drop p))).take (lenAt data p)) := by
        rw [getRange_eq_some, List.drop_drop, Nat.add_sub_cancel_left, List.length_drop]
        exact ⟨Nat.le_add_right _ _, by omega, rfl⟩
      rw [getBytes, hget, Outcome.okOr_some, Outcome.ok_bind]
      cases hutf8 : Utf8.fromUtf8
          ((data.drop (p + Leb128.span (data.drop p))).take (lenAt data p)) with
      | none => exact .inr ⟨if_neg fun h => (by cases h.2), _, rfl⟩
      | some value =>
        rw [Outcome.okOr_some, Outcome.ok_bind, uadd_eq (by omega), Outcome.ok_bind]
        refine .inl ⟨quote value, _, if_pos ⟨hwhole, rfl⟩, by omega, ?_⟩
        rw [Nat.add_comm (lenAt data p)]
    · -- The slice would end behind the buffer.
      have hout : (data.drop p).length < Leb128.span (data.drop p) + lenAt data p := by
        rw [List.length_drop]
        omega
      obtain ⟨e, he⟩ := @refuses_getBytes (data.drop p) (Leb128.span (data.drop p)) _ hout
      refine .inr ⟨if_neg fun h => hwhole h.1, e, ?_⟩
      rw [he, Outcome.err_bind]

/-- An element is shown, is refused, or trips. -/
theorem formatPrimitiveType_cases (hlen : data.length ≤ isizeMax) (hp : p ≤ data.length) :
    (ElementTrips data type p ∧
        ¬ (formatPrimitiveType .checked showF32 (data.drop p) type).Returns) ∨
      (¬ ElementTrips data type p ∧
        ((∃ text k, elementLen data type p = some k ∧ p + k ≤ data.length ∧
            formatPrimitiveType .checked showF32 (data.drop p) type = .ok (text, k)) ∨
          (elementLen data type p = none ∧
            ∃ e, formatPrimitiveType .checked showF32 (data.drop p) type = .err e))) := by
  cases type with
  | typeVarchar => exact varcharElement_cases showF32 hlen hp
  | typeUint | typeInt | typeF32 | typeObject =>
    exact .inr ⟨nofun, wordElement_cases hlen hp _⟩
  | typeFd => exact .inr ⟨nofun, .inl ⟨_, 0, rfl, hp, rfl⟩⟩
  | end_ | typeSeq | typeObjectId | typeArray => exact .inr ⟨nofun, .inr ⟨rfl, _, rfl⟩⟩

/-- The elements of an array: one trips, or the needle comes to where `elementsEnd` says. -/
theorem elements_cases (hlen : data.length ≤ isizeMax) (els : Nat) : ∀ (n i : Nat) (t : Trace),
    t.needle ≤ data.length →
      (ElementsTrip data type n t.needle ∧
          ¬ (elements .checked showF32 data type els n i t).Returns) ∨
        (¬ ElementsTrip data type n t.needle ∧
          ∃ t', elements .checked showF32 data type els n i t = .ok t' ∧
            t'.needle = elementsEnd data type n t.needle ∧ t.needle ≤ t'.needle ∧
            t'.needle ≤ data.length ∧ t'.visited = t.visited)
  | 0, _, t, hp => .inr ⟨id, t, rfl, rfl, Nat.le_refl _, hp, rfl⟩
  | n + 1, i, t, hp => by
    have hcap : data.length ≤ 2 ^ 63 - 1 := hlen
    have hslice : (slice data t.needle data.length : Outcome Error _)
        = .ok (data.drop t.needle) := by
      rw [slice_eq hp (Nat.le_refl _), List.take_of_length_le (Nat.le_of_eq List.length_drop)]
    simp only [elements, ElementsTrip, elementsEnd]
    rw [hslice, Outcome.ok_bind]
    rcases @formatPrimitiveType_cases showF32 data type _ hlen hp with
      ⟨htrips, hbad⟩ | ⟨hsafe, ⟨text, k, hk, hfits, hok⟩ | ⟨hnone, e, he⟩⟩
    · refine .inl ⟨.inl htrips, fun hret => hbad ?_⟩
      cases hx : formatPrimitiveType .checked showF32 (data.drop t.needle) type with
      | ok | err => trivial
      | panic | stall =>
        rw [hx] at hret
        exact hret
    · rw [hok, hk]
      simp only [okElse]
      rw [uadd_eq (by omega), Outcome.ok_bind]
      -- The text of the element leaves the needle alone.
      rcases elements_cases hlen els n (i + 1)
          (if i < els - 1 then push (push { t with needle := t.needle + k } text) ", "
            else push { t with needle := t.needle + k } text)
          (by split <;> exact hfits) with ⟨htrips, hbad⟩ | ⟨hsafe', t', hok', hend, hle, hle', hv⟩
      · refine .inl ⟨.inr ⟨k, rfl, ?_⟩, hbad⟩
        split at htrips <;> exact htrips
      · refine .inr ⟨?_, t', hok', ?_, ?_, hle', ?_⟩
        · rintro (h | ⟨k', hk', h⟩)
          · exact hsafe h
          · cases hk'
            refine hsafe' ?_
            split <;> exact h
        · split at hend <;> exact hend
        · split at hle <;> exact Nat.le_trans (Nat.le_add_right _ k) hle
        · split at hv <;> exact hv
    · rw [he, hnone]
      refine .inr ⟨?_, _, rfl, rfl, Nat.le_refl _, hp, rfl⟩
      rintro (h | ⟨k, hk, -⟩)
      · exact hsafe h
      · cases hk

/-! ## One run of the body -/

/-- What a run of the body has done: it went on with the needle at `q`, or broke where there is no
`q`. -/
def Went (t : Trace) (data : List UInt8) (q : Option Nat) (r : Outcome Error Flow) : Prop :=
  (∃ t', r = .ok (.next t') ∧ q = some t'.needle ∧ t.needle ≤ t'.needle ∧
    t'.needle ≤ data.length ∧ t'.visited = t.visited) ∨
  ∃ t', r = .ok (.stop t') ∧ q = none ∧ t'.visited = t.visited

@[simp] theorem separate_needle (t : Trace) : t.separate.needle = t.needle := by
  unfold separate
  split <;> rfl

@[simp] theorem separate_visited (t : Trace) : t.separate.visited = t.visited := by
  unfold separate
  split <;> rfl

theorem word_went (hlen : data.length ≤ isizeMax) (text : UInt32 → String) {t : Trace}
    (hp : t.needle ≤ data.length) :
    Went t data (if t.needle + 4 ≤ data.length then some (t.needle + 4) else none)
      (word .checked data text t) := by
  have hcap : data.length ≤ 2 ^ 63 - 1 := hlen
  simp only [word, separate_needle]
  rcases readU32_cases hlen hp with ⟨hfits, w, hw⟩ | ⟨hcut, e, he⟩
  · rw [hw]
    simp only [okElse]
    rw [show (push t.separate (text w)).needle = t.needle from separate_needle t,
      uadd_eq (by omega), Outcome.ok_bind]
    exact .inl ⟨_, rfl, if_pos hfits, Nat.le_add_right _ _, hfits, separate_visited t⟩
  · rw [he]
    exact .inr ⟨_, rfl, if_neg (Nat.not_le_of_lt hcut), separate_visited t⟩

/-- A string is whole, or the slice panics. -/
theorem varchar_went (hlen : data.length ≤ isizeMax) {t : Trace} (hp : t.needle ≤ data.length) :
    (StrTrips data t.needle ∧ ¬ (varchar .checked data t).Returns) ∨
      (¬ StrTrips data t.needle ∧
        Went t data (some (strEnd data t.needle)) (varchar .checked data t)) := by
  have hcap : data.length ≤ 2 ^ 63 - 1 := hlen
  have hspan := Leb128.span_le_length (data.drop t.needle)
  rw [List.length_drop] at hspan
  by_cases hbad : HostileLen data t.needle
  · refine .inl ⟨.inl hbad, ?_⟩
    simp only [varchar, separate_needle]
    rw [parseVarInt_checked_panic hbad]
    exact id
  have hread : parseVarInt .checked data t.needle
      = .ok (lenAt data t.needle, Leb128.span (data.drop t.needle)) :=
    parseVarInt_eq (Nat.le_of_not_lt hbad)
  simp only [varchar, separate_needle]
  rw [hread, Outcome.ok_bind]
  simp only []
  by_cases hwhole : 0 < lenAt data t.needle ∧ data.length < strEnd data t.needle
  · refine .inl ⟨.inr hwhole, ?_⟩
    rw [strText, if_pos hwhole.1]
    simp only [bind_assoc, returns_uadd_bind, returns_slice_bind]
    unfold strEnd at hwhole
    omega
  · refine .inr ⟨not_or.mpr ⟨hbad, hwhole⟩, ?_⟩
    have hend : strEnd data t.needle ≤ data.length := by
      by_contra hlt
      have hzero : lenAt data t.needle = 0 :=
        Nat.eq_zero_of_not_pos fun hpos => hwhole ⟨hpos, Nat.lt_of_not_le hlt⟩
      unfold strEnd at hlt
      omega
    unfold strEnd at hend ⊢
    obtain ⟨text, htext⟩ : ∃ text, strText .checked data t.needle
        (Leb128.span (data.drop t.needle)) (lenAt data t.needle) = .ok text := by
      rw [strText]
      split
      · rw [uadd_eq (by omega), Outcome.ok_bind, Outcome.ok_bind, uadd_eq (by omega),
          Outcome.ok_bind, slice_eq (Nat.le_add_right _ _) hend, Outcome.ok_bind]
        exact ⟨_, rfl⟩
      · exact ⟨_, rfl⟩
    rw [htext, Outcome.ok_bind, uadd_eq (by omega), Outcome.ok_bind, uadd_eq (by omega),
      Outcome.ok_bind]
    refine .inl ⟨_, rfl, ?_, ?_, ?_, separate_visited t⟩
    · simp only [Nat.add_assoc]
    · exact Nat.le_add_right _ _
    · simp only
      omega

/-- An array behind its two tags: something trips, or the needle comes to the end of what can be
shown. -/
theorem array_went (hlen : data.length ≤ isizeMax) {t : Trace}
    (htype : data[t.needle]? = some type.toU8) :
    (ArrayTrips data type (t.needle + 1) ∧ ¬ (array .checked showF32 data t).Returns) ∨
      (¬ ArrayTrips data type (t.needle + 1) ∧
        Went t data (some (arrayEnd data type (t.needle + 1)))
          (array .checked showF32 data t)) := by
  have hcap : data.length ≤ 2 ^ 63 - 1 := hlen
  have hlt := lt_length_of_getElem? htype
  have hspan := Leb128.span_le_length (data.drop (t.needle + 1))
  rw [List.length_drop] at hspan
  simp only [array, separate_needle, htype, MessageMagic.tryFrom_toU8, okElse]
  rw [uadd_eq (by omega), Outcome.ok_bind]
  by_cases hbad : HostileLen data (t.needle + 1)
  · refine .inl ⟨.inl hbad, ?_⟩
    rw [parseVarInt_checked_panic hbad]
    exact id
  rw [parseVarInt_eq (Nat.le_of_not_lt hbad), Outcome.ok_bind]
  simp only []
  rw [uadd_eq (by omega), Outcome.ok_bind]
  rcases @elements_cases showF32 data type hlen (lenAt data (t.needle + 1))
      (lenAt data (t.needle + 1)) 0
      (push { t.separate with
        needle := t.needle + 1 + Leb128.span (data.drop (t.needle + 1)) } "\x7b ")
      (show t.needle + 1 + _ ≤ data.length by omega) with
    ⟨htrips, hpanics⟩ | ⟨hsafe, t', hok, hend, hle, hle', hvisited⟩
  · refine .inl ⟨.inr htrips, fun hret => hpanics ?_⟩
    exact (Outcome.returns_bind.mp hret).1
  · refine .inr ⟨not_or.mpr ⟨hbad, hsafe⟩, .inl ⟨t'.push " \x7d", ?_, ?_, ?_, hle', ?_⟩⟩
    · rw [show lenAt data (t.needle + 1)
          = Leb128.value (data.drop (t.needle + 1)) % 2 ^ 64 from rfl] at hok
      rw [hok, Outcome.ok_bind]
    · exact congrArg some hend.symm
    · have hstart : t.needle + 1 + Leb128.span (data.drop (t.needle + 1)) ≤ t'.needle := hle
      show t.needle ≤ t'.needle
      omega
    · exact hvisited.trans (separate_visited t)

/-- Where the array has no tag for its elements. -/
theorem array_stops {t : Trace} (htype : ∀ type : MessageMagic, data[t.needle]? ≠ some type.toU8) :
    Went t data none (array .checked showF32 data t) := by
  simp only [array, separate_needle]
  cases hbyte : data[t.needle]? with
  | none => exact .inr ⟨_, rfl, rfl, separate_visited t⟩
  | some byte =>
    have hret := MessageMagic.returns_tryFrom byte
    cases htry : MessageMagic.tryFrom byte with
    | err e =>
      simp only [htry, okElse]
      exact .inr ⟨_, rfl, rfl, separate_visited t⟩
    | ok type =>
      have htag := hbyte.trans (congrArg some (MessageMagic.toU8_of_tryFrom htry))
      exact absurd htag (htype type)
    | panic q | stall =>
      rw [htry] at hret
      exact hret.elim

/-- A field behind its tag. -/
theorem field_went (hlen : data.length ≤ isizeMax) (magic : MessageMagic) {t : Trace}
    (hp : t.needle ≤ data.length) :
    (FieldTrips data magic t.needle ∧ ¬ (field .checked showF32 data magic t).Returns) ∨
      (¬ FieldTrips data magic t.needle ∧
        Went t data (fieldEnd data magic t.needle) (field .checked showF32 data magic t)) := by
  have hother : magic ≠ .typeVarchar → magic ≠ .typeArray → ¬ FieldTrips data magic t.needle := by
    rintro hvarchar harray (⟨h, -⟩ | ⟨h, -⟩)
    · exact hvarchar h
    · exact harray h
  cases magic with
  | typeUint | typeInt | typeF32 | typeObject | typeSeq =>
    exact .inr ⟨hother (by decide) (by decide), word_went hlen _ hp⟩
  | typeFd =>
    refine .inr ⟨hother (by decide) (by decide), .inl ⟨_, rfl, ?_, ?_, ?_, separate_visited t⟩⟩
    · exact congrArg some (separate_needle t).symm
    · exact Nat.le_of_eq (separate_needle t).symm
    · exact Nat.le_trans (Nat.le_of_eq (separate_needle t)) hp
  | end_ | typeObjectId =>
    exact .inr ⟨hother (by decide) (by decide), .inl ⟨t, rfl, rfl, Nat.le_refl _, hp, rfl⟩⟩
  | typeVarchar =>
    rcases varchar_went hlen hp with ⟨htrips, hpanics⟩ | ⟨hsafe, hwent⟩
    · exact .inl ⟨.inl ⟨rfl, htrips⟩, hpanics⟩
    · refine .inr ⟨?_, hwent⟩
      rintro (⟨-, h⟩ | ⟨h, -⟩)
      · exact hsafe h
      · cases h
  | typeArray =>
    by_cases htag : ∃ type : MessageMagic, data[t.needle]? = some type.toU8
    · obtain ⟨type, htype⟩ := htag
      rcases array_went showF32 hlen htype with ⟨htrips, hpanics⟩ | ⟨hsafe, hwent⟩
      · exact .inl ⟨.inr ⟨rfl, type, htype, htrips⟩, hpanics⟩
      · refine .inr ⟨?_, ?_⟩
        · rintro (⟨h, -⟩ | ⟨-, type', htype', h⟩)
          · cases h
          · rw [htype, Option.some.injEq] at htype'
            have heq := congrArg MessageMagic.tryFrom htype'
            rw [MessageMagic.tryFrom_toU8, MessageMagic.tryFrom_toU8] at heq
            cases heq
            exact hsafe h
        · simp only [fieldEnd, htype, Option.map_some, MessageMagic.tryFrom_toU8]
          exact hwent
    · have hnone : fieldEnd data .typeArray t.needle = none := by
        unfold fieldEnd
        simp only
        split
        · next type htry =>
          obtain ⟨byte, hbyte, hok⟩ := Option.map_eq_some_iff.mp htry
          exact absurd ⟨type, hbyte.trans (congrArg some (MessageMagic.toU8_of_tryFrom hok))⟩ htag
        · rfl
      refine .inr ⟨?_, ?_⟩
      · rintro (⟨h, -⟩ | ⟨-, type, htype, -⟩)
        · cases h
        · exact htag ⟨type, htype⟩
      · rw [hnone]
        exact array_stops showF32 fun type htype => htag ⟨type, htype⟩

/-! ## The loop -/

theorem next_eq {magic : MessageMagic} (h : data[p]? = some magic.toU8) :
    next data p = fieldEnd data magic (p + 1) := by
  rw [next, h, Option.map_some, MessageMagic.tryFrom_toU8]

theorem trips_iff {magic : MessageMagic} (h : data[p]? = some magic.toU8) :
    Trips data p ↔ FieldTrips data magic (p + 1) := by
  constructor
  · rintro ⟨magic', h', htrips⟩
    rw [h, Option.some.injEq] at h'
    have heq := congrArg MessageMagic.tryFrom h'
    rw [MessageMagic.tryFrom_toU8, MessageMagic.tryFrom_toU8] at heq
    cases heq
    exact htrips
  · intro htrips
    exact ⟨magic, h, htrips⟩

/-- **One run of the body** does what `Trips` and `next` say. -/
theorem turn_cases (hlen : data.length ≤ isizeMax) {t : Trace} (hp : t.needle < data.length) :
    (Trips data t.needle ∧ ¬ (turn .checked showF32 data t).Returns) ∨
      (¬ Trips data t.needle ∧
        Went { t with needle := t.needle + 1 } data (next data t.needle)
          (turn .checked showF32 data t)) := by
  have hcap : data.length ≤ 2 ^ 63 - 1 := hlen
  have hbyte := List.getElem?_eq_getElem hp
  have hret := MessageMagic.returns_tryFrom data[t.needle]
  cases htry : MessageMagic.tryFrom data[t.needle] with
  | panic q | stall =>
    rw [htry] at hret
    exact hret.elim
  | err e =>
    have hmalformed : turn .checked showF32 data t = .ok (.stop (t.push "<malformed>")) := by
      simp only [turn, hbyte, htry, okElse]
    have hnone : next data t.needle = none := by
      rw [next, hbyte, Option.map_some, htry]
    refine .inr ⟨?_, .inr ⟨_, hmalformed, hnone, rfl⟩⟩
    rintro ⟨magic, h, -⟩
    rw [hbyte, Option.some.injEq] at h
    rw [h, MessageMagic.tryFrom_toU8] at htry
    cases htry
  | ok magic =>
    rw [MessageMagic.toU8_of_tryFrom htry] at hbyte
    have hturn : turn .checked showF32 data t
        = field .checked showF32 data magic { t with needle := t.needle + 1 } := by
      simp only [turn, hbyte, MessageMagic.tryFrom_toU8, okElse]
      rw [uadd_eq (by omega), Outcome.ok_bind]
    rw [trips_iff hbyte, next_eq hbyte, hturn]
    exact field_went showF32 hlen magic (t := { t with needle := t.needle + 1 }) hp

/-- Behind the bytes nothing trips. -/
theorem not_derails_end (hp : data.length ≤ p) : ¬ Derails data p := by
  have hnone : data[p]? = none := List.getElem?_eq_none hp
  intro hderails
  cases hderails with
  | here _ htrips =>
    obtain ⟨magic, h, -⟩ := htrips
    rw [hnone] at h
    cases h
  | later _ q hq hderails =>
    rw [next, hnone] at hq
    cases hq

/-- The loop comes to a field that trips, or goes where `positions` says and returns. -/
theorem loop_cases (hlen : data.length ≤ isizeMax) : ∀ (fuel : Nat) (t : Trace),
    t.needle ≤ data.length → data.length < t.needle + fuel →
      (Derails data t.needle ∧ ¬ (loop .checked showF32 data fuel t).Returns) ∨
        (¬ Derails data t.needle ∧ ∃ t', loop .checked showF32 data fuel t = .ok t' ∧
          t'.visited = t.visited ++ positions data fuel t.needle)
  | 0, t, hp, hfuel => absurd hfuel (Nat.not_lt_of_le hp)
  | fuel + 1, t, hp, hfuel => by
    rw [loop, positions]
    by_cases hlt : t.needle < data.length
    · rw [if_pos hlt, if_pos hlt]
      rcases turn_cases showF32 hlen
          (t := { t with visited := t.visited ++ [t.needle] }) hlt with
        ⟨htrips, hpanics⟩ | ⟨hsafe, hwent⟩
      · exact .inl ⟨.here _ htrips, fun hret => hpanics (Outcome.returns_bind.mp hret).1⟩
      · rcases hwent with ⟨t', hok, hnext, hle, hle', hvisited⟩ | ⟨t', hok, hnone, hvisited⟩
        · -- The needle has moved: the budget is one less, and still enough.
          have hmoved : t.needle + 1 ≤ t'.needle := hle
          have hcases := loop_cases hlen fuel t' hle' (by omega)
          rw [hok, Outcome.ok_bind]
          simp only [show next data t.needle = some t'.needle from hnext]
          rcases hcases with ⟨hderails, hpanics⟩ | ⟨hsafe', t'', hok', hvisited'⟩
          · exact .inl ⟨.later _ _ hnext hderails, hpanics⟩
          · refine .inr ⟨fun hderails => ?_, t'', hok', ?_⟩
            · cases hderails with
              | here _ htrips => exact hsafe htrips
              | later _ q hq hderails =>
                rw [show next data t.needle = some t'.needle from hnext] at hq
                cases hq
                exact hsafe' hderails
            · rw [hvisited', hvisited, List.append_assoc, List.singleton_append]
        · rw [hok, Outcome.ok_bind]
          simp only [show next data t.needle = none from hnone]
          refine .inr ⟨fun hderails => ?_, t', rfl, hvisited⟩
          cases hderails with
          | here _ htrips => exact hsafe htrips
          | later _ q hq hderails =>
            rw [show next data t.needle = none from hnone] at hq
            cases hq
    · rw [if_neg hlt, if_neg hlt]
      exact .inr ⟨not_derails_end (Nat.le_of_not_lt hlt), t, rfl, (List.append_nil _).symm⟩

/-- **`parse_data` over any bytes**: it returns unless a field on its way trips, and its needle was
where the bytes say. -/
theorem run_cases (hlen : data.length ≤ isizeMax) (type : MessageType) :
    (Derails data 1 ∧ ¬ (run .checked showF32 data type).Returns) ∨
      (¬ Derails data 1 ∧ ∃ t, run .checked showF32 data type = .ok t ∧
        t.visited = positions data (data.length + 1) 1) := by
  by_cases hpos : 0 < data.length
  · exact loop_cases showF32 hlen (data.length + 1) ⟨type.display ++ " ( ", true, 1, []⟩ hpos
      (show data.length < 1 + (data.length + 1) by omega)
  · -- No byte at all: the loop is not entered.
    have hout : ¬ 1 < data.length := by omega
    refine .inr ⟨not_derails_end (by omega), _, if_neg hout, ?_⟩
    rw [positions, if_neg hout]

end Hyprwire.Trace
