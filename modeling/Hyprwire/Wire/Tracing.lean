import Hyprwire.Wire.Batch
import Hyprwire.Wire.Exact
import Hyprwire.Wire.Needle

/-!
# `Wire/Tracing.lean` — `parse_data` and the messages it is given

`parse_data` reads again what a decoder has accepted or a constructor has written, by rules of its
own. Over a string or a field of words it agrees with the others; but an array of seqs has no
element that it can show, and a string in an array has to be UTF-8, which the scanner of a generic
message does not ask for. It breaks there with the needle in the middle of the array, and takes the
bytes of the elements for tags.
-/

namespace Hyprwire

open Rust Trace

variable {showF32 : UInt32 → String} {data rest : List UInt8} {p q : Nat}

/-! ## Passing a field -/

/-- A run of the body takes the needle from `p` to `q`. -/
def Passes (data : List UInt8) (p q : Nat) : Prop := ¬ Trips data p ∧ next data p = some q

theorem Passes.derails_iff (h : Passes data p q) : Derails data p ↔ Derails data q := by
  constructor
  · intro hderails
    cases hderails with
    | here _ htrips => exact absurd htrips h.1
    | later _ q' hq' hderails =>
      rw [h.2] at hq'
      cases hq'
      exact hderails
  · exact .later p q h.2

theorem Passes.lt_length (h : Passes data p q) : p < data.length := by
  by_contra hge
  have hnone : data[p]? = none := List.getElem?_eq_none (Nat.le_of_not_lt hge)
  have hnext := h.2
  rw [next, hnone] at hnext
  cases hnext

theorem Passes.positions (h : Passes data p q) (fuel : Nat) :
    Trace.positions data (fuel + 1) p = p :: Trace.positions data fuel q := by
  rw [Trace.positions, if_pos h.lt_length]
  simp only [h.2]

/-- What stands behind the tag decides. -/
theorem passes_of_field {magic : MessageMagic} (hd : data.drop p = magic.toU8 :: rest)
    (hsafe : ¬ FieldTrips data magic (p + 1)) (hend : fieldEnd data magic (p + 1) = some q) :
    Passes data p q := by
  have hbyte := Bytes.getElem?_of_drop_eq_cons hd
  refine ⟨?_, ?_⟩
  · rwa [trips_iff hbyte]
  · rwa [next_eq hbyte]

/-- Neither a string nor an array. -/
theorem not_fieldTrips {magic : MessageMagic} (hvarchar : magic ≠ .typeVarchar)
    (harray : magic ≠ .typeArray) : ¬ FieldTrips data magic p := by
  rintro (⟨h, -⟩ | ⟨h, -⟩)
  · exact hvarchar h
  · exact harray h

theorem passes_scalar (t : Scalar) {w : UInt32}
    (hd : data.drop p = t.magic.toU8 :: (Bytes.toLeBytes w ++ rest)) : Passes data p (p + 5) := by
  have hlen := congrArg List.length hd
  simp only [List.length_drop, List.length_cons, List.length_append, Bytes.length_toLeBytes] at hlen
  have hfits : p + 1 + 4 ≤ data.length := by omega
  refine passes_of_field hd (not_fieldTrips ?_ ?_) ?_
  · cases t <;> decide
  · cases t <;> decide
  · cases t <;> exact if_pos hfits

theorem passes_fd (hd : data.drop p = MessageMagic.typeFd.toU8 :: rest) : Passes data p (p + 1) :=
  passes_of_field hd (not_fieldTrips (by decide) (by decide)) rfl

theorem passes_end (hd : data.drop p = MessageMagic.end_.toU8 :: rest) : Passes data p (p + 1) :=
  passes_of_field hd (not_fieldTrips (by decide) (by decide)) rfl

/-- A prefix of the grammar is not overlong. -/
theorem lenPrefix_of_drop (n : LenPrefix .checked) (hd : data.drop p = n.bytes ++ rest) :
    ¬ HostileLen data p ∧ lenAt data p = n.count ∧
      Leb128.span (data.drop p) = n.bytes.length := by
  have hread := parseVarInt_lenPrefix n hd
  have hshort : ¬ HostileLen data p := by
    intro hbad
    rw [parseVarInt_checked_panic hbad] at hread
    cases hread
  exact ⟨hshort, lenAt_of_drop n hd hshort⟩

theorem strEnd_of_drop (s : Str .checked) (hd : data.drop p = s.encode ++ rest) :
    strEnd data p = p + s.encode.length := by
  rw [Str.encode, List.append_assoc] at hd
  obtain ⟨-, hcount, hspan⟩ := lenPrefix_of_drop s.len hd
  rw [strEnd, hcount, hspan, Str.encode, List.length_append, s.length_payload, Nat.add_assoc]

theorem passes_varchar (s : Str .checked)
    (hd : data.drop p = MessageMagic.typeVarchar.toU8 :: (s.encode ++ rest)) :
    Passes data p (p + 1 + s.encode.length) := by
  have hs := Bytes.drop_succ_of_drop_eq_cons hd
  have hend := strEnd_of_drop s hs
  have hbound := Bytes.length_of_drop_eq_append (Bytes.lt_length_of_drop_eq_cons hd) hs
  refine passes_of_field hd ?_ (congrArg some hend)
  rintro (⟨-, hbad | ⟨-, hbad⟩⟩ | ⟨h, -⟩)
  · rw [Str.encode, List.append_assoc] at hs
    exact (lenPrefix_of_drop s.len hs).1 hbad
  · omega
  · cases h

/-! ## Passing an array -/

theorem not_elementsTrip {type : MessageMagic} (htype : type ≠ .typeVarchar) :
    ∀ n p : Nat, ¬ ElementsTrip data type n p
  | 0, _ => id
  | n + 1, p => by
    rintro (⟨h, -⟩ | ⟨k, -, h⟩)
    · exact htype h
    · exact not_elementsTrip htype n (p + k) h

theorem passes_array {type : MessageMagic} (n : LenPrefix .checked)
    (hd : data.drop p = MessageMagic.typeArray.toU8 :: type.toU8 :: (n.bytes ++ rest))
    (hsafe : ¬ ElementsTrip data type n.count (p + 2 + n.bytes.length)) :
    Passes data p (elementsEnd data type n.count (p + 2 + n.bytes.length)) := by
  have h1 := Bytes.drop_succ_of_drop_eq_cons hd
  have htype := Bytes.getElem?_of_drop_eq_cons h1
  obtain ⟨hshort, hcount, hspan⟩ := lenPrefix_of_drop n (Bytes.drop_succ_of_drop_eq_cons h1)
  refine passes_of_field hd ?_ ?_
  · rintro (⟨h, -⟩ | ⟨-, type', htype', hbad⟩)
    · cases h
    · rw [htype, Option.some.injEq] at htype'
      have heq := congrArg MessageMagic.tryFrom htype'
      rw [MessageMagic.tryFrom_toU8, MessageMagic.tryFrom_toU8] at heq
      cases heq
      rcases hbad with hbad | hbad
      · exact hshort hbad
      · rw [hcount, hspan] at hbad
        exact hsafe hbad
  · simp only [fieldEnd, htype, Option.map_some, MessageMagic.tryFrom_toU8]
    rw [arrayEnd, hcount, hspan]

/-- All words of an array are shown, except seqs. -/
theorem elementsEnd_words {t : Scalar} (ht : t ≠ .seq) : ∀ (ws : List UInt32) (p : Nat),
    data.drop p = ws.flatMap Bytes.toLeBytes ++ rest → p ≤ data.length →
      elementsEnd data t.magic ws.length p = p + 4 * ws.length
  | [], _, _, _ => rfl
  | w :: ws, p, hd, hp => by
    rw [List.flatMap_cons, List.append_assoc] at hd
    have hbound := Bytes.length_of_drop_eq_append hp hd
    rw [Bytes.length_toLeBytes] at hbound
    have hfits : p + 4 ≤ data.length := by omega
    have hword : elementLen data t.magic p = some 4 := by
      cases t with
      | seq => exact absurd rfl ht
      | uint | int | f32 | object => exact if_pos hfits
    have hrest := Bytes.drop_add_of_drop_eq_append hd
    rw [Bytes.length_toLeBytes] at hrest
    simp only [List.length_cons, elementsEnd, hword]
    rw [elementsEnd_words ht ws (p + 4) hrest hfits]
    omega

theorem elementsEnd_seqs (n : Nat) (p : Nat) : elementsEnd data Scalar.seq.magic n p = p := by
  cases n <;> rfl

theorem elementsEnd_fds : ∀ (n p : Nat), elementsEnd data .typeFd n p = p
  | 0, _ => rfl
  | n + 1, p => elementsEnd_fds n p

/-- The string is UTF-8. -/
def Legible (s : Str .checked) : Prop := (Utf8.fromUtf8 s.payload).isSome

/-- A whole string never trips as an element, and is shown if it is UTF-8. -/
theorem element_str (s : Str .checked) (hlen : data.length ≤ isizeMax) (hp : p ≤ data.length)
    (hd : data.drop p = s.encode ++ rest) :
    ¬ ElementTrips data .typeVarchar p ∧
      (Legible s → elementLen data .typeVarchar p = some s.encode.length) ∧
      (¬ Legible s → elementLen data .typeVarchar p = none) := by
  have hcap : data.length ≤ 2 ^ 63 - 1 := hlen
  have hend := strEnd_of_drop s hd
  have hbound := Bytes.length_of_drop_eq_append hp hd
  rw [Str.encode, List.append_assoc] at hd
  obtain ⟨hshort, hcount, hspan⟩ := lenPrefix_of_drop s.len hd
  have hsize : Leb128.span (data.drop p) + lenAt data p = s.encode.length := by
    rw [hcount, hspan, Str.encode, List.length_append, s.length_payload]
  have hpayload : (data.drop (p + Leb128.span (data.drop p))).take (lenAt data p) = s.payload := by
    rw [hspan, Bytes.drop_add_of_drop_eq_append hd, hcount, ← s.length_payload, List.take_left]
  have hwhole : strEnd data p ≤ data.length := by omega
  refine ⟨?_, fun hlegible => ?_, fun hnot => ?_⟩
  · rintro ⟨-, hbad | hbad⟩
    · exact hshort hbad
    · omega
  · rw [← hsize]
    refine if_pos ⟨hwhole, ?_⟩
    rw [hpayload]
    exact hlegible
  · refine if_neg fun h => hnot ?_
    rw [hpayload] at h
    exact h.2

/-- The strings of an array are shown up to the first that is not UTF-8. -/
theorem elements_strings (hlen : data.length ≤ isizeMax) : ∀ (ss : List (Str .checked)) (p : Nat),
    data.drop p = ss.flatMap Str.encode ++ rest → p ≤ data.length →
      ¬ ElementsTrip data .typeVarchar ss.length p ∧
      ((∀ s ∈ ss, Legible s) →
        elementsEnd data .typeVarchar ss.length p = p + (ss.flatMap Str.encode).length) ∧
      ((∃ s ∈ ss, ¬ Legible s) → p ≤ elementsEnd data .typeVarchar ss.length p ∧
        elementsEnd data .typeVarchar ss.length p < p + (ss.flatMap Str.encode).length)
  | [], p, _, _ => ⟨id, fun _ => rfl, fun ⟨_, h, _⟩ => nomatch h⟩
  | s :: ss, p, hd, hp => by
    rw [List.flatMap_cons, List.append_assoc] at hd
    have hbound := Bytes.length_of_drop_eq_append hp hd
    obtain ⟨hsafe, hshown, hrefused⟩ := element_str s hlen hp hd
    obtain ⟨hsafe', hall, hsome⟩ := elements_strings hlen ss (p + s.encode.length)
      (Bytes.drop_add_of_drop_eq_append hd) (by omega)
    simp only [List.length_cons, ElementsTrip, elementsEnd, List.flatMap_cons, List.length_append]
    by_cases hlegible : Legible s
    · rw [hshown hlegible]
      simp only
      refine ⟨?_, fun hforall => ?_, fun hexists => ?_⟩
      · rintro (hbad | ⟨k, hk, hbad⟩)
        · exact hsafe hbad
        · cases hk
          exact hsafe' hbad
      · rw [hall fun s' hs' => hforall s' (List.mem_cons_of_mem s hs')]
        omega
      · obtain ⟨s', hs', hnot⟩ := hexists
        rcases List.mem_cons.mp hs' with rfl | hs'
        · exact absurd hlegible hnot
        · have hbreak := hsome ⟨s', hs', hnot⟩
          omega
    · rw [hrefused hlegible]
      simp only
      have hpos : 0 < s.encode.length := by
        rw [Str.encode, List.length_append]
        have hne := List.length_pos_iff.mpr s.len.terminated.ne_nil
        omega
      refine ⟨?_, fun hforall => ?_, fun _ => ⟨Nat.le_refl _, by omega⟩⟩
      · rintro (hbad | ⟨k, hk, -⟩)
        · exact hsafe hbad
        · cases hk
      · exact absurd (hforall s (List.mem_cons_self ..)) hlegible

/-! ## Fields -/

/-- The field has nothing in it that `parse_data` refuses: no seqs in an array, and no string in an
array that is not UTF-8. -/
def Field.Shown : Field .checked → Prop
  | .scalars t _ ws _ _ => t = .seq → ws = []
  | .strings _ ss _ _ => ∀ s ∈ ss, Legible s
  | _ => True

/-- **A field that can be shown is passed as the scanner passes it**, and another one is not. -/
theorem passes_field (hlen : data.length ≤ isizeMax) (f : Field .checked)
    (hd : data.drop p = f.encode ++ rest) :
    ∃ q, Passes data p q ∧ p < q ∧ q ≤ p + f.encode.length ∧
      (q = p + f.encode.length ↔ f.Shown) := by
  cases f with
  | scalar t w =>
    simp only [Field.encode, List.cons_append] at hd
    exact ⟨p + 5, passes_scalar t hd, by omega, Nat.le_refl _, iff_of_true rfl trivial⟩
  | varchar s =>
    have hsize : (Field.varchar s).encode.length = 1 + s.encode.length := Nat.add_comm _ _
    rw [hsize, ← Nat.add_assoc]
    exact ⟨_, passes_varchar s hd, by omega, Nat.le_refl _, iff_of_true rfl trivial⟩
  | fd => exact ⟨p + 1, passes_fd hd, Nat.lt_succ_self p, Nat.le_refl _, iff_of_true rfl trivial⟩
  | fds n hn =>
    have hpass := passes_array n hd (not_elementsTrip (by decide) _ _)
    rw [elementsEnd_fds] at hpass
    have hsize : (Field.fds n hn).encode.length = 2 + n.bytes.length := Nat.add_comm n.bytes.length 2
    rw [hsize, ← Nat.add_assoc]
    exact ⟨_, hpass, by omega, Nat.le_refl _, iff_of_true rfl trivial⟩
  | scalars t n ws hws hn =>
    simp only [Field.encode, List.cons_append, List.append_assoc] at hd
    have hbound := Bytes.length_of_drop_eq_append
      (Bytes.lt_length_of_drop_eq_cons (Bytes.drop_succ_of_drop_eq_cons hd))
      (Bytes.drop_succ_of_drop_eq_cons (Bytes.drop_succ_of_drop_eq_cons hd))
    have hpass := passes_array n hd (not_elementsTrip (by cases t <;> decide) _ _)
    have hwords := Bytes.drop_add_of_drop_eq_append
      (Bytes.drop_succ_of_drop_eq_cons (Bytes.drop_succ_of_drop_eq_cons hd))
    have hsize : (Field.scalars t n ws hws hn).encode.length
        = 2 + n.bytes.length + 4 * ws.length := by
      simp only [Field.encode, List.length_cons, List.length_append, length_flatMap_toLeBytes]
      omega
    rw [List.length_append] at hbound
    rw [hsize, Field.Shown]
    by_cases ht : t = .seq
    · subst ht
      rw [elementsEnd_seqs] at hpass
      refine ⟨_, hpass, by omega, by omega, ?_⟩
      constructor
      · intro heq _
        exact List.length_eq_zero_iff.mp (by omega)
      · intro hnil
        rw [hnil rfl, List.length_nil]
        omega
    · rw [← hws, elementsEnd_words ht ws _ hwords (by omega)] at hpass
      exact ⟨_, hpass, by omega, by omega, iff_of_true (by omega) fun h => absurd h ht⟩
  | strings n ss hss hn =>
    simp only [Field.encode, List.cons_append, List.append_assoc] at hd
    have hbound := Bytes.length_of_drop_eq_append
      (Bytes.lt_length_of_drop_eq_cons (Bytes.drop_succ_of_drop_eq_cons hd))
      (Bytes.drop_succ_of_drop_eq_cons (Bytes.drop_succ_of_drop_eq_cons hd))
    have hstrings := Bytes.drop_add_of_drop_eq_append
      (Bytes.drop_succ_of_drop_eq_cons (Bytes.drop_succ_of_drop_eq_cons hd))
    have hsize : (Field.strings n ss hss hn).encode.length
        = 2 + n.bytes.length + (ss.flatMap Str.encode).length := by
      simp only [Field.encode, List.length_cons, List.length_append]
      omega
    rw [List.length_append] at hbound
    obtain ⟨hsafe, hall, hsome⟩ :=
      elements_strings hlen ss (p + 2 + n.bytes.length) hstrings (by omega)
    rw [hss] at hsafe hall hsome
    have hpass := passes_array n hd hsafe
    rw [hsize, Field.Shown]
    by_cases hshown : ∀ s ∈ ss, Legible s
    · rw [hall hshown] at hpass
      exact ⟨_, hpass, by omega, by omega, iff_of_true (by omega) hshown⟩
    · obtain ⟨s, hs, hnot⟩ : ∃ s ∈ ss, ¬ Legible s := by
        by_contra hnone
        refine hshown fun s hs => ?_
        by_contra hnot
        exact hnone ⟨s, hs, hnot⟩
      obtain ⟨hle, hlt⟩ := hsome ⟨s, hs, hnot⟩
      exact ⟨_, hpass, by omega, by omega, iff_of_false (by omega) hshown⟩

/-! ## Words -/

/-- Where the fields begin, the first of them at `i`, and the `End` byte behind them. -/
def fieldStarts {m : Overflow} (i : Nat) : List (Field m) → List Nat
  | [] => [i]
  | f :: fs => i :: fieldStarts (i + f.encode.length) fs

/-- Over the fields of a word the needle goes from one to the next exactly if they can all be
shown. -/
theorem positions_fields (hlen : data.length ≤ isizeMax) : ∀ (fs : List (Field .checked))
    (fuel p : Nat), fs.length < fuel →
    data.drop p = encodeAll fs ++ [MessageMagic.end_.toU8] →
      ((∀ f ∈ fs, f.Shown) → ¬ Derails data p) ∧
        (positions data fuel p = fieldStarts p fs ↔ ∀ f ∈ fs, f.Shown)
  | [], fuel + 1, p, _, hd => by
    have hpass := passes_end hd
    have hend := congrArg List.length hd
    simp only [encodeAll_nil, List.nil_append, List.length_drop, List.length_singleton] at hend
    have hout : data.length ≤ p + 1 := by omega
    have hnone : positions data fuel (p + 1) = [] := by
      cases fuel with
      | zero => rfl
      | succ fuel => exact if_neg (Nat.not_lt_of_le hout)
    refine ⟨fun _ => ?_, iff_of_true ?_ nofun⟩
    · rw [hpass.derails_iff]
      exact not_derails_end hout
    · rw [hpass.positions, hnone]
      rfl
  | f :: fs, fuel + 1, p, hfuel, hd => by
    rw [List.length_cons] at hfuel
    rw [encodeAll_cons, List.append_assoc] at hd
    obtain ⟨q, hpass, hlt, hle, hiff⟩ := passes_field hlen f hd
    have hp := Nat.le_of_lt hpass.lt_length
    have hbound := Bytes.length_of_drop_eq_append hp hd
    rw [List.length_append, List.length_singleton] at hbound
    simp only [List.forall_mem_cons, fieldStarts]
    rw [hpass.positions, List.cons_inj_right, hpass.derails_iff]
    by_cases hshown : f.Shown
    · have hrest := Bytes.drop_add_of_drop_eq_append hd
      rw [hiff.mpr hshown]
      obtain ⟨hsafe, hsame⟩ := positions_fields hlen fs fuel _ (by omega) hrest
      exact ⟨fun hall => hsafe hall.2, by rw [hsame, and_iff_right hshown]⟩
    · -- The next run of the body starts inside the array.
      have hinside : q < p + f.encode.length := by
        have hne := mt hiff.mp hshown
        omega
      refine ⟨fun hall => absurd hall.1 hshown, iff_of_false ?_ fun hall => hshown hall.1⟩
      intro heq
      obtain ⟨fuel, rfl⟩ : ∃ k, fuel = k + 1 := ⟨fuel - 1, by omega⟩
      have hhead := congrArg List.head? heq
      rw [positions, if_pos (by omega), List.head?_cons] at hhead
      cases fs with
      | nil =>
        simp only [fieldStarts, List.head?_cons, Option.some.injEq] at hhead
        omega
      | cons f' fs =>
        simp only [fieldStarts, List.head?_cons, Option.some.injEq] at hhead
        omega

/-- The history of the index of `from_bytes`: its loop, with every `i` that it looks at. -/
def scanVisits (m : Overflow) (data : List UInt8) (fds : List RawFd) (offset : Nat) :
    Nat → Scan → Outcome Error (List Nat)
  | 0, _ => .stall
  | fuel + 1, s => do
    match ← scanStep m data fds offset s with
    | none => .ok [s.i]
    | some s' => do
      let visits ← scanVisits m data fds offset fuel s'
      .ok (s.i :: visits)

/-- **The bytes are a word that `from_bytes` accepts**, somewhere in a buffer and with descriptors
that are there, and these are the places, from the beginning of the word, where it finds a field. -/
def Accepted (bytes : List UInt8) (visits : List Nat) : Prop :=
  ∃ (data : List UInt8) (fds left : List RawFd) (offset : Nat) (msg : GenericProtocolMessage),
    data.length ≤ isizeMax ∧ fds.length ≤ isizeMax ∧
    GenericProtocolMessage.fromBytes .checked data fds offset = .ok (msg, left) ∧
    msg.data = bytes ∧ scanVisits .checked data fds offset (data.length + 1) ⟨11, 0, []⟩ = .ok visits

theorem scanVisits_encode {fds : List RawFd} {offset : Nat} (hfds : fds.length < 2 ^ 64) :
    ∀ (fs : List (Field .checked)) (fuel : Nat) (s : Scan), fs.length < fuel →
      s.fdsCursor + slotsAll fs ≤ fds.length →
      data.drop (offset + s.i) = encodeAll fs ++ MessageMagic.end_.toU8 :: rest →
      offset + s.i + (encodeAll fs).length < 2 ^ 64 →
        scanVisits .checked data fds offset fuel s = .ok (fieldStarts s.i fs)
  | [], fuel + 1, s, _, _, hd, hfit => by
    simp only [scanVisits]
    rw [scanStep_end (by simpa using hd) (by omega), Outcome.ok_bind]
    rfl
  | f :: fs, fuel + 1, s, hlt, hslots, hd, hfit => by
    simp only [encodeAll_cons, List.append_assoc, List.length_append, slotsAll_cons,
      List.length_cons] at hlt hd hfit hslots
    have hrest := Bytes.drop_add_of_drop_eq_append hd
    rw [Nat.add_assoc] at hrest
    simp only [scanVisits]
    rw [scanStep_encode f hd (by omega) hfds (by omega), if_pos (by omega), Outcome.ok_bind]
    simp only []
    rw [scanVisits_encode hfds fs fuel _ (by omega) (by rw [Scan.advance_fdsCursor]; omega) hrest
      (by rw [Scan.advance_i]; omega)]
    rfl

/-- The header of a word is two fields for `parse_data`. -/
theorem word_drop_one (object method : UInt32) (fs : List (Field .checked)) :
    (word object method fs).drop 1
      = encodeAll (.scalar .object object :: .scalar .uint method :: fs)
        ++ [MessageMagic.end_.toU8] := by
  simp [word, callHeader, Field.encode, Scalar.magic]

theorem fieldStarts_header (object method : UInt32) (fs : List (Field .checked)) :
    fieldStarts 1 (.scalar .object object :: .scalar .uint method :: fs)
      = 1 :: 6 :: fieldStarts 11 fs := rfl

theorem word_drop_header (object method : UInt32) (fs : List (Field .checked)) :
    (word object method fs).drop (0 + 11) = encodeAll fs ++ MessageMagic.end_.toU8 :: [] := by
  rw [word, List.append_assoc, Nat.zero_add, ← length_callHeader object method, List.drop_left]

/-- The bytes of a word tell where its fields begin. -/
theorem fieldStarts_of_word_eq {object method object' method' : UInt32}
    {fs fs' : List (Field .checked)} (hlen : (word object method fs).length ≤ isizeMax)
    (hslots : slotsAll fs ≤ isizeMax) (hslots' : slotsAll fs' ≤ isizeMax)
    (heq : word object method fs = word object' method' fs') :
    fieldStarts 11 fs = fieldStarts 11 fs' := by
  have hcap : (word object method fs).length ≤ 2 ^ 63 - 1 := hlen
  have hword := length_word object method fs
  have hword' := length_word object' method' fs'
  have hcount := length_le_length_encodeAll fs
  have hcount' := length_le_length_encodeAll fs'
  have hsame := congrArg List.length heq
  obtain ⟨fds, hfds⟩ : ∃ fds : List RawFd, fds.length = isizeMax :=
    ⟨List.replicate isizeMax 0, List.length_replicate⟩
  have hfew : fds.length < 2 ^ 64 := by
    rw [hfds]
    decide
  have hwalk := scanVisits_encode hfew fs ((word object method fs).length + 1) ⟨11, 0, []⟩
    (by omega) (by rwa [Nat.zero_add, hfds]) (word_drop_header object method fs)
    (by show 0 + 11 + _ < 2 ^ 64; omega)
  have hwalk' := scanVisits_encode hfew fs' ((word object method fs).length + 1) ⟨11, 0, []⟩
    (by omega) (by rwa [Nat.zero_add, hfds]) (heq ▸ word_drop_header object' method' fs')
    (by show 0 + 11 + _ < 2 ^ 64; omega)
  exact Outcome.ok.inj (hwalk.symm.trans hwalk')

/-- What is accepted is a word, and its fields are found where they begin. -/
theorem accepted_iff {bytes : List UInt8} {visits : List Nat} :
    Accepted bytes visits ↔ ∃ (object method : UInt32) (fs : List (Field .checked)),
      bytes = word object method fs ∧ bytes.length ≤ isizeMax ∧ slotsAll fs ≤ isizeMax ∧
        visits = fieldStarts 11 fs := by
  constructor
  · rintro ⟨data, fds, left, offset, msg, hlen, hfds, hacc, rfl, hvisits⟩
    have hcap : data.length ≤ 2 ^ 63 - 1 := hlen
    have hfew : fds.length < 2 ^ 64 := Nat.lt_of_le_of_lt hfds (by decide)
    obtain ⟨object, method, fs, tail, hd, hslots⟩ := word_of_fromBytes hlen hfds hacc
    have hoff : offset ≤ data.length := by
      by_contra hlt
      rw [List.drop_eq_nil_of_le (Nat.le_of_not_le hlt)] at hd
      cases hd
    have hbound := Bytes.length_of_drop_eq_append hoff hd
    have hread := fromBytes_word fs hd hoff hlen hfds
    rw [if_pos hslots, hacc] at hread
    have hmsg : msg = received object method fs (fds.take (slotsAll fs)) :=
      congrArg Prod.fst (Outcome.ok.inj hread)
    have hword := length_word object method fs
    refine ⟨object, method, fs, congrArg GenericProtocolMessage.data hmsg, ?_, by omega, ?_⟩
    · rw [hmsg]
      show (word object method fs).length ≤ isizeMax
      omega
    · have hfields : data.drop (offset + 11)
          = encodeAll fs ++ MessageMagic.end_.toU8 :: tail := by
        rw [word, List.append_assoc, List.append_assoc] at hd
        rw [← length_callHeader object method, Bytes.drop_add_of_drop_eq_append hd]
        rfl
      have hwalk := scanVisits_encode hfew fs (data.length + 1) ⟨11, 0, []⟩
        (by have := length_le_length_encodeAll fs; omega) (by simpa using hslots) hfields
        (by show offset + 11 + _ < 2 ^ 64; omega)
      rw [hwalk] at hvisits
      exact (Outcome.ok.inj hvisits).symm
  · rintro ⟨object, method, fs, rfl, hlen, hslots, rfl⟩
    have hcap : (word object method fs).length ≤ 2 ^ 63 - 1 := hlen
    have hword := length_word object method fs
    have hfds : (List.replicate (slotsAll fs) (0 : RawFd)).length ≤ isizeMax := by
      rwa [List.length_replicate]
    have hfew := Nat.lt_of_le_of_lt hfds (show isizeMax < 2 ^ 64 by decide)
    have hd : (word object method fs).drop 0 = word object method fs ++ [] :=
      (List.append_nil _).symm
    have hread := fromBytes_word fs hd (Nat.zero_le _) hlen hfds
    rw [if_pos (Nat.le_of_eq List.length_replicate.symm)] at hread
    have hfields := word_drop_header object method fs
    exact ⟨_, _, _, 0, _, hlen, hfds, hread, rfl, scanVisits_encode hfew fs _ ⟨11, 0, []⟩
      (by have := length_le_length_encodeAll fs; omega)
      (by simp only [Nat.zero_add, List.length_replicate, Nat.le_refl]) hfields
      (by show 0 + 11 + _ < 2 ^ 64; omega)⟩

end Hyprwire
