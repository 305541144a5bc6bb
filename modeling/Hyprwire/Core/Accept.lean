import Hyprwire.Core.Grammar

/-!
# `Core/Accept.lean` — what the scanner does with any bytes

`Grammar` says what the scan loop does over fields. This file takes the bytes as they come, in
a checked build. At every place there are three possibilities: a *hostile* length prefix, one
whose arithmetic overflows; an error; or a whole field, over which the loop advances as
`Grammar` says. A field that reaches past the end of the buffer is followed by an error, since
there is no byte to read there.

A prefix is hostile when it has an eleventh byte (its shift distance is 70), or when the string
it announces would end at an address of 2^64 or more.
-/

namespace Hyprwire

open Rust

/-! ## Hostile prefixes -/

/-- A length prefix of more than ten bytes. -/
def HostileLen (data : List UInt8) (p : Nat) : Prop := 10 < Leb128.span (data.drop p)

/-- The number a prefix of up to ten bytes is read as. -/
def lenAt (data : List UInt8) (p : Nat) : Nat := Leb128.value (data.drop p) % 2 ^ 64

/-- Where the string with its prefix at `p` ends. -/
def strEnd (data : List UInt8) (p : Nat) : Nat := p + Leb128.span (data.drop p) + lenAt data p

/-- A string whose prefix is overlong, or that ends past the address space. -/
def HostileStr (data : List UInt8) (p : Nat) : Prop := HostileLen data p ∨ 2 ^ 64 ≤ strEnd data p

/-- Among the `n` strings from `p` on, one is hostile; those before it are whole. -/
def HostileStrs (data : List UInt8) (valid : List UInt8 → Prop) (p n : Nat) : Prop :=
  ∃ (ss : List (Str .checked)) (rest : List UInt8), ss.length < n ∧ (∀ s ∈ ss, valid s.payload) ∧
    data.drop p = ss.flatMap Str.encode ++ rest ∧
    HostileStr data (p + (ss.flatMap Str.encode).length)

/-- The field at `pos` has a hostile prefix. -/
def HostileField (data : List UInt8) (pos : Nat) : Prop :=
  (data[pos]? = some MessageMagic.typeVarchar.toU8 ∧ HostileStr data (pos + 1)) ∨
  (data[pos]? = some MessageMagic.typeArray.toU8 ∧
    ∃ t : MessageMagic, data[pos + 1]? = some t.toU8 ∧
      (HostileLen data (pos + 2) ∨
        (t = .typeVarchar ∧ lenAt data (pos + 2) < 10000 ∧
          HostileStrs data (fun _ => True) (pos + 2 + Leb128.span (data.drop (pos + 2)))
            (lenAt data (pos + 2)))))

/-- A hostile field stands behind fields that are whole and whose descriptors are there. -/
def HostileFrom (data : List UInt8) (fds : List RawFd) (pos cursor : Nat) : Prop :=
  ∃ (fs : List (Field .checked)) (rest : List UInt8), cursor + slotsAll fs ≤ fds.length ∧
    data.drop pos = encodeAll fs ++ rest ∧ HostileField data (pos + (encodeAll fs).length)

/-! ## Bytes as grammar -/

/-- A run that ends before the list does is a length prefix. -/
theorem exists_lenPrefix {m : Overflow} {bs : List UInt8} (h10 : Leb128.span bs ≤ 10)
    (hlt : Leb128.span bs < bs.length) :
    ∃ n : LenPrefix m, n.count = Leb128.value bs % 2 ^ 64 ∧ n.bytes.length = Leb128.span bs ∧
      bs = n.bytes ++ bs.drop (Leb128.span bs) := by
  have hsplit := (List.take_append_drop (Leb128.span bs) bs).symm
  have hterm := Leb128.terminated_take_span hlt
  have hlen : (bs.take (Leb128.span bs)).length = Leb128.span bs := by
    rw [List.length_take]
    omega
  have hspan : Leb128.span (bs.take (Leb128.span bs)) = Leb128.span bs := by
    have h := Leb128.span_append hterm []
    rwa [List.append_nil, hlen] at h
  have hval : Leb128.value (bs.take (Leb128.span bs)) = Leb128.value bs := by
    have h := Leb128.value_append hterm (bs.drop (Leb128.span bs))
    rw [← hsplit] at h
    exact h.symm
  refine ⟨⟨bs.take (Leb128.span bs), Leb128.value bs % 2 ^ 64, hterm, ?_⟩, rfl, hlen, hsplit⟩
  rw [parseVarIntSpanFrom_eq (by omega) (by decide) (by decide), hlen, hspan, hval]
  simp

/-- A string that ends before the list does is whole. -/
theorem exists_str {m : Overflow} {bs : List UInt8} (h10 : Leb128.span bs ≤ 10)
    (hlt : Leb128.span bs + Leb128.value bs % 2 ^ 64 < bs.length) :
    ∃ s : Str m, s.encode.length = Leb128.span bs + Leb128.value bs % 2 ^ 64 ∧
      bs = s.encode ++ bs.drop (Leb128.span bs + Leb128.value bs % 2 ^ 64) := by
  obtain ⟨n, hcount, hlen, hsplit⟩ := @exists_lenPrefix m bs h10 (by omega)
  have hpay : ((bs.drop (Leb128.span bs)).take n.count).length = n.count := by
    rw [List.length_take, List.length_drop]
    omega
  refine ⟨⟨n, (bs.drop (Leb128.span bs)).take n.count, hpay⟩, ?_, ?_⟩
  · rw [Str.encode, List.length_append, hpay, hlen, hcount]
  · rw [Str.encode, List.append_assoc, ← List.drop_drop, ← hcount, List.take_append_drop, ← hsplit]

/-- `4 * n` bytes are `n` words. -/
theorem exists_words : ∀ {n : Nat} {bs : List UInt8}, 4 * n ≤ bs.length →
    ∃ ws : List UInt32, ws.length = n ∧
      bs = ws.flatMap Bytes.toLeBytes ++ bs.drop (4 * n)
  | 0, bs, _ => ⟨[], rfl, by simp⟩
  | n + 1, bs, h => by
    obtain ⟨ws, hlen, hws⟩ := @exists_words n (bs.drop 4) (by rw [List.length_drop]; omega)
    obtain ⟨w, -, hw⟩ := @Bytes.fromLeBytes_isSome (bs.take 4) (by rw [List.length_take]; omega)
    refine ⟨w :: ws, by rw [List.length_cons, hlen], ?_⟩
    rw [List.drop_drop, show 4 + 4 * n = 4 * (n + 1) by omega] at hws
    rw [List.flatMap_cons, List.append_assoc, ← hws, hw, List.take_append_drop]

theorem drop_add_of_drop_split {data xs : List UInt8} {p k : Nat}
    (h : data.drop p = xs ++ (data.drop p).drop k) (hk : xs.length = k) :
    data.drop p = xs ++ data.drop (p + xs.length) := by
  rwa [List.drop_drop, ← hk] at h

/-! ## Strings -/

/-- The string at `p`: hostile, or read; and whole when anything stands behind it. -/
theorem str_cases (data : List UInt8) (p : Nat) : HostileStr data p ∨
    (parseVarInt .checked data p = .ok (lenAt data p, Leb128.span (data.drop p)) ∧
      strEnd data p < 2 ^ 64 ∧
      (strEnd data p < data.length → ∃ s : Str .checked, strEnd data p = p + s.encode.length ∧
        data.drop p = s.encode ++ data.drop (p + s.encode.length))) := by
  by_cases h10 : Leb128.span (data.drop p) ≤ 10
  · by_cases hend : strEnd data p < 2 ^ 64
    · refine .inr ⟨parseVarInt_eq h10, hend, fun hlt => ?_⟩
      simp only [strEnd, lenAt] at hlt ⊢
      obtain ⟨s, hlen, hsplit⟩ := @exists_str .checked (data.drop p) h10
        (by rw [List.length_drop]; omega)
      exact ⟨s, by omega, drop_add_of_drop_split hsplit hlen⟩
    · exact .inl (.inr (Nat.le_of_not_lt hend))
  · exact .inl (.inl (Nat.lt_of_not_le h10))

theorem HostileStrs.cons {data : List UInt8} {valid : List UInt8 → Prop} {p n : Nat}
    {s : Str .checked} (hv : valid s.payload)
    (hd : data.drop p = s.encode ++ data.drop (p + s.encode.length))
    (h : HostileStrs data valid (p + s.encode.length) n) : HostileStrs data valid p (n + 1) := by
  obtain ⟨ss, rest, hlt, hall, hsplit, hbad⟩ := h
  refine ⟨s :: ss, rest, Nat.succ_lt_succ hlt, ?_, ?_, ?_⟩
  · intro x hx
    rcases List.mem_cons.mp hx with rfl | hx
    · exact hv
    · exact hall x hx
  · rw [List.flatMap_cons, List.append_assoc, ← hsplit, ← hd]
  · rw [List.flatMap_cons, List.length_append, ← Nat.add_assoc]
    exact hbad

/-- Past the end of the buffer every prefix reads as an empty string. -/
theorem skipStrings_past {m : Overflow} {data : List UInt8} {base : Nat} : ∀ (n len : Nat),
    data.length ≤ base + len → base + len < 2 ^ 64 →
      skipStrings m data base n len = .ok len
  | 0, _, _, _ => rfl
  | n + 1, len, hpast, hfit => by
    have hparse : parseVarInt m data (base + len) = .ok (0, 0) := by
      rw [parseVarInt, if_pos hpast]
    simp only [skipStrings]
    rw [uadd_eq hfit, Outcome.ok_bind, hparse, Outcome.ok_bind]
    simp only []
    rw [uadd_eq (by omega), Outcome.ok_bind, uadd_eq (by omega), Outcome.ok_bind]
    exact skipStrings_past n len hpast hfit

/-- Skipping `n` strings: one is hostile, or all are skipped, and are whole when anything
stands behind them. -/
theorem skipStrings_cases {data : List UInt8} {base : Nat} : ∀ (n len : Nat),
    base + len < 2 ^ 64 →
    HostileStrs data (fun _ => True) (base + len) n ∨
      ∃ len', skipStrings .checked data base n len = .ok len' ∧ len ≤ len' ∧
        base + len' < 2 ^ 64 ∧
        (base + len' < data.length → ∃ ss : List (Str .checked), ss.length = n ∧
          len' = len + (ss.flatMap Str.encode).length ∧
          data.drop (base + len) = ss.flatMap Str.encode ++ data.drop (base + len'))
  | 0, len, hfit => .inr ⟨len, rfl, Nat.le_refl _, hfit, fun _ => ⟨[], rfl, rfl, rfl⟩⟩
  | n + 1, len, hfit => by
    rcases str_cases data (base + len) with hbad | ⟨hparse, hend, hwhole⟩
    · exact .inl ⟨[], data.drop (base + len), Nat.succ_pos n, fun _ h => (by cases h), rfl, hbad⟩
    · have hlen : base + len + (Leb128.span (data.drop (base + len)) + lenAt data (base + len))
          = strEnd data (base + len) := (Nat.add_assoc _ _ _).symm
      have hstep : skipStrings .checked data base (n + 1) len = skipStrings .checked data base n
          (len + (lenAt data (base + len) + Leb128.span (data.drop (base + len)))) := by
        simp only [skipStrings]
        rw [uadd_eq hfit, Outcome.ok_bind, hparse, Outcome.ok_bind]
        simp only []
        rw [uadd_eq (by omega), Outcome.ok_bind, uadd_eq (by omega), Outcome.ok_bind]
      rw [hstep]
      by_cases hlt : strEnd data (base + len) < data.length
      · obtain ⟨s, hs, hd⟩ := hwhole hlt
        have hnext : base + (len + (lenAt data (base + len)
            + Leb128.span (data.drop (base + len)))) = base + len + s.encode.length := by omega
        rcases skipStrings_cases n _ (by rw [hnext]; omega) with hbad | ⟨len', hok, hle, hfit', hall⟩
        · rw [hnext] at hbad
          exact .inl (hbad.cons trivial hd)
        · refine .inr ⟨len', hok, by omega, hfit', fun hlt' => ?_⟩
          obtain ⟨ss, hss, hlen', hd'⟩ := hall hlt'
          refine ⟨s :: ss, by rw [List.length_cons, hss], ?_, ?_⟩
          · rw [List.flatMap_cons, List.length_append]
            omega
          · rw [hnext] at hd'
            rw [List.flatMap_cons, List.append_assoc, ← hd', ← hd]
      · have hpast := @skipStrings_past .checked data base n
          (len + (lenAt data (base + len) + Leb128.span (data.drop (base + len)))) (by omega)
          (by omega)
        exact .inr ⟨_, hpast, by omega, by omega, fun hlt' => absurd hlt' (by omega)⟩

/-! ## One field -/

/-- What the loop body can do at `pos` when nothing there is hostile: refuse, or go on; and
what it passed is a whole field when anything stands behind it. -/
def BodyGoes (data : List UInt8) (fds : List RawFd) (pos : Nat) (s : Scan)
    (r : Outcome Error Scan) : Prop :=
  (∃ e, r = .err e) ∨ ∃ s' k, r = .ok s' ∧ s'.i = s.i + k ∧ 0 < k ∧ pos + k < 2 ^ 64 ∧
    (pos + k < data.length → ∃ f : Field .checked, k = f.encode.length ∧
      data.drop pos = f.encode ++ data.drop (pos + k) ∧ s.fdsCursor + f.slots ≤ fds.length ∧
      s' = s.advance fds f.encode.length f.slots)

variable {data : List UInt8} {fds : List RawFd} {pos : Nat} {s : Scan}

/-- A whole field is passed as `Grammar` has it. -/
theorem BodyGoes.of_field {t : MessageMagic} (f : Field .checked) (ht : f.tags.head? = some t)
    (hd : data.drop pos = f.encode ++ data.drop (pos + f.encode.length)) (hi : s.i ≤ pos)
    (hfit : pos + f.encode.length < 2 ^ 64) (hfds : fds.length < 2 ^ 64)
    (hcur : s.fdsCursor ≤ fds.length) :
    BodyGoes data fds pos s (scanBody .checked data fds pos t s) := by
  rw [scanBody_encode f ht hd hi hfit hfds hcur]
  by_cases hslots : s.fdsCursor + f.slots ≤ fds.length
  · rw [if_pos hslots]
    exact .inr ⟨_, f.encode.length, rfl, rfl, f.encode_pos, hfit, fun _ => ⟨f, rfl, hd, hslots, rfl⟩⟩
  · rw [if_neg hslots]
    exact .inl ⟨_, rfl⟩

theorem bodyGoes_scalar {t : Scalar} (hd : data[pos]? = some t.magic.toU8) (hi : s.i ≤ pos)
    (hpos : pos < data.length) (hlen : data.length ≤ isizeMax) (hfds : fds.length < 2 ^ 64)
    (hcur : s.fdsCursor ≤ fds.length) :
    BodyGoes data fds pos s (scanBody .checked data fds pos t.magic s) := by
  simp only [isizeMax] at hlen
  have hdrop := Bytes.drop_eq_cons_of_getElem? hd
  by_cases hwhole : pos + 5 ≤ data.length
  · obtain ⟨ws, hws, hsplit⟩ := @exists_words 1 (data.drop (pos + 1)) (by rw [List.length_drop]; omega)
    obtain ⟨w, rfl⟩ := List.length_eq_one_iff.mp hws
    have hd' : data.drop pos = (Field.scalar t w : Field .checked).encode
        ++ data.drop (pos + (Field.scalar t w : Field .checked).encode.length) := by
      rw [hdrop, hsplit, List.drop_drop]
      simp [Field.encode]
    exact .of_field (.scalar t w) rfl hd' hi (by simp [Field.encode]; omega) hfds hcur
  · refine .inr ⟨{ s with i := s.i + 5 }, 5, ?_, rfl, by decide, by omega, fun h => by omega⟩
    cases t <;> simp only [Scalar.magic, scanBody] <;> rw [uadd_eq (by omega), Outcome.ok_bind]

theorem bodyGoes_varchar (hd : data[pos]? = some MessageMagic.typeVarchar.toU8) (hi : s.i ≤ pos)
    (hfds : fds.length < 2 ^ 64) (hcur : s.fdsCursor ≤ fds.length) :
    HostileField data pos ∨
      BodyGoes data fds pos s (scanBody .checked data fds pos .typeVarchar s) := by
  rcases str_cases data (pos + 1) with hbad | ⟨hparse, hend, hwhole⟩
  · exact .inl (.inl ⟨hd, hbad⟩)
  · right
    have hdrop := Bytes.drop_eq_cons_of_getElem? hd
    by_cases hlt : strEnd data (pos + 1) < data.length
    · obtain ⟨str, hstr, hsplit⟩ := hwhole hlt
      have hd' : data.drop pos = (Field.varchar str).encode
          ++ data.drop (pos + (Field.varchar str).encode.length) := by
        rw [hdrop, hsplit, Field.encode, List.cons_append, List.length_cons, Nat.add_assoc,
          Nat.add_comm 1]
      refine .of_field (.varchar str) rfl hd' hi ?_ hfds hcur
      simp only [Field.encode, List.length_cons]
      omega
    · have hk : strEnd data (pos + 1) = pos + (lenAt data (pos + 1)
          + Leb128.span (data.drop (pos + 1)) + 1) := by
        unfold strEnd
        omega
      refine .inr ⟨{ s with i := s.i + (lenAt data (pos + 1) + Leb128.span (data.drop (pos + 1)) + 1) },
        _, ?_, rfl, Nat.succ_pos _, by omega, fun h => absurd h (by omega)⟩
      simp only [scanBody]
      rw [uadd_eq (by omega), Outcome.ok_bind, hparse, Outcome.ok_bind]
      simp only []
      rw [uadd_eq (by omega), Outcome.ok_bind, uadd_eq (by omega), Outcome.ok_bind,
        uadd_eq (by omega), Outcome.ok_bind]

theorem bodyGoes_fd (hd : data[pos]? = some MessageMagic.typeFd.toU8) (hi : s.i ≤ pos)
    (hpos : pos < data.length) (hlen : data.length ≤ isizeMax) (hfds : fds.length < 2 ^ 64)
    (hcur : s.fdsCursor ≤ fds.length) :
    BodyGoes data fds pos s (scanBody .checked data fds pos .typeFd s) := by
  simp only [isizeMax] at hlen
  refine .of_field .fd rfl (Bytes.drop_eq_cons_of_getElem? hd) hi ?_ hfds hcur
  simp only [Field.encode, List.length_singleton]
  omega

/-! ### Arrays -/

/-- The body behind the length prefix of an array. -/
def arrayTail (data : List UInt8) (fds : List RawFd) (pos : Nat) (t : MessageMagic) (s : Scan) :
    Outcome Error Scan :=
  scanElements .checked data fds pos t (lenAt data (pos + 2))
      (2 + Leb128.span (data.drop (pos + 2))) s >>= fun r =>
    uadd .checked r.2.i r.1 >>= fun i => .ok { r.2 with i }

/-- The prefix of an array that does not end the buffer, as one of the grammar. -/
theorem exists_arrayPrefix {t : MessageMagic}
    (hd : data[pos]? = some MessageMagic.typeArray.toU8) (hb : data[pos + 1]? = some t.toU8)
    (hspan : Leb128.span (data.drop (pos + 2)) ≤ 10)
    (hlt : pos + 2 + Leb128.span (data.drop (pos + 2)) < data.length) :
    ∃ n : LenPrefix .checked, n.count = lenAt data (pos + 2) ∧
      n.bytes.length = Leb128.span (data.drop (pos + 2)) ∧
      data.drop pos = MessageMagic.typeArray.toU8 :: t.toU8 ::
        (n.bytes ++ data.drop (pos + 2 + n.bytes.length)) := by
  obtain ⟨n, hn, hnlen, hsplit⟩ := @exists_lenPrefix .checked (data.drop (pos + 2)) hspan
    (by rw [List.length_drop]; omega)
  refine ⟨n, hn, hnlen, ?_⟩
  rw [Bytes.drop_eq_cons_of_getElem? hd, Bytes.drop_eq_cons_of_getElem? hb,
    ← drop_add_of_drop_split hsplit hnlen]

theorem bodyGoes_scalars {t : Scalar} (hd : data[pos]? = some MessageMagic.typeArray.toU8)
    (hb : data[pos + 1]? = some t.magic.toU8)
    (hspan : Leb128.span (data.drop (pos + 2)) ≤ 10) (hn : lenAt data (pos + 2) < 10000)
    (hhead : scanBody .checked data fds pos .typeArray s = arrayTail data fds pos t.magic s)
    (hi : s.i ≤ pos) (hpos : pos < data.length) (hlen : data.length ≤ isizeMax)
    (hfds : fds.length < 2 ^ 64) (hcur : s.fdsCursor ≤ fds.length) :
    BodyGoes data fds pos s (scanBody .checked data fds pos .typeArray s) := by
  simp only [isizeMax] at hlen
  by_cases hwhole : pos + 2 + Leb128.span (data.drop (pos + 2)) + 4 * lenAt data (pos + 2)
      < data.length
  · obtain ⟨n, hcount, hnlen, hsplit⟩ := exists_arrayPrefix hd hb hspan (by omega)
    obtain ⟨ws, hws, hwords⟩ := @exists_words n.count (data.drop (pos + 2 + n.bytes.length))
      (by rw [List.length_drop]; omega)
    have hlenf : (Field.scalars t n ws hws (by omega)).encode.length
        = 2 + n.bytes.length + 4 * n.count := by
      simp only [Field.encode, List.length_cons, List.length_append, length_flatMap_toLeBytes, hws]
      omega
    refine .of_field (.scalars t n ws hws (by omega)) rfl ?_ hi (by rw [hlenf]; omega) hfds hcur
    rw [hlenf, hsplit, hwords, List.drop_drop, Field.encode]
    simp only [List.cons_append, List.append_assoc, Nat.add_assoc]
  · refine .inr ⟨{ s with i := s.i + (2 + Leb128.span (data.drop (pos + 2))
      + 4 * lenAt data (pos + 2)) }, _, ?_, rfl, by omega, by omega, fun h => absurd h (by omega)⟩
    rw [hhead, arrayTail]
    have hel : scanElements .checked data fds pos t.magic (lenAt data (pos + 2))
        (2 + Leb128.span (data.drop (pos + 2))) s
        = .ok (2 + Leb128.span (data.drop (pos + 2)) + 4 * lenAt data (pos + 2), s) := by
      cases t <;> simp only [Scalar.magic, scanElements] <;>
        rw [umul_eq (by omega), Outcome.ok_bind, uadd_eq (by omega), Outcome.ok_bind]
    rw [hel, Outcome.ok_bind, uadd_eq (by simp only; omega), Outcome.ok_bind]

theorem bodyGoes_strings (hd : data[pos]? = some MessageMagic.typeArray.toU8)
    (hb : data[pos + 1]? = some MessageMagic.typeVarchar.toU8)
    (hspan : Leb128.span (data.drop (pos + 2)) ≤ 10) (hn : lenAt data (pos + 2) < 10000)
    (hhead : scanBody .checked data fds pos .typeArray s = arrayTail data fds pos .typeVarchar s)
    (hi : s.i ≤ pos) (hpos : pos < data.length) (hlen : data.length ≤ isizeMax)
    (hcur : s.fdsCursor ≤ fds.length) :
    HostileField data pos ∨
      BodyGoes data fds pos s (scanBody .checked data fds pos .typeArray s) := by
  simp only [isizeMax] at hlen
  rcases @skipStrings_cases data pos (lenAt data (pos + 2)) (2 + Leb128.span (data.drop (pos + 2)))
    (by omega) with hbad | ⟨len', hok, hle, hfit, hall⟩
  · rw [← Nat.add_assoc] at hbad
    exact .inl (.inr ⟨hd, _, hb, .inr ⟨rfl, hn, hbad⟩⟩)
  · refine .inr (.inr ⟨{ s with i := s.i + len' }, len', ?_, rfl, by omega, hfit, fun hlt => ?_⟩)
    · rw [hhead, arrayTail]
      simp only [scanElements]
      rw [hok, Outcome.ok_bind, Outcome.ok_bind, uadd_eq (by simp only; omega), Outcome.ok_bind]
    · obtain ⟨ss, hss, hlen', hstrs⟩ := hall hlt
      obtain ⟨n, hcount, hnlen, hsplit⟩ := exists_arrayPrefix hd hb hspan (by omega)
      have hlenf : (Field.strings n ss (by omega) (by omega)).encode.length = len' := by
        simp only [Field.encode, List.length_cons, List.length_append]
        omega
      refine ⟨.strings n ss (by omega) (by omega), hlenf.symm, ?_, hcur, ?_⟩
      · rw [hsplit, hnlen, Nat.add_assoc, hstrs, Field.encode]
        simp only [List.cons_append, List.append_assoc]
      · rw [hlenf]
        exact (Scan.advance_zero_slots s fds len').symm

theorem bodyGoes_fds (hd : data[pos]? = some MessageMagic.typeArray.toU8)
    (hb : data[pos + 1]? = some MessageMagic.typeFd.toU8)
    (hspan : Leb128.span (data.drop (pos + 2)) ≤ 10) (hn : lenAt data (pos + 2) < 10000)
    (hhead : scanBody .checked data fds pos .typeArray s = arrayTail data fds pos .typeFd s)
    (hi : s.i ≤ pos) (hpos : pos < data.length) (hlen : data.length ≤ isizeMax)
    (hfds : fds.length < 2 ^ 64) (hcur : s.fdsCursor ≤ fds.length) :
    BodyGoes data fds pos s (scanBody .checked data fds pos .typeArray s) := by
  simp only [isizeMax] at hlen
  by_cases hwhole : pos + 2 + Leb128.span (data.drop (pos + 2)) < data.length
  · obtain ⟨n, hcount, hnlen, hsplit⟩ := exists_arrayPrefix hd hb hspan hwhole
    have hlenf : (Field.fds n (by omega)).encode.length = 2 + n.bytes.length := by
      simp only [Field.encode, List.length_cons]
      omega
    refine .of_field (.fds n (by omega)) rfl ?_ hi (by rw [hlenf]; omega) hfds hcur
    rw [hlenf, hsplit, Field.encode]
    simp only [List.cons_append, Nat.add_assoc]
  · rw [hhead, arrayTail]
    simp only [scanElements]
    rw [consumeFds_eq hfds _ _ hcur]
    by_cases hslots : s.fdsCursor + lenAt data (pos + 2) ≤ fds.length
    · rw [if_pos hslots, Outcome.ok_bind, Outcome.ok_bind, uadd_eq (by simp only; omega),
        Outcome.ok_bind]
      exact .inr ⟨_, _, rfl, rfl, by omega, by omega, fun h => absurd h (by omega)⟩
    · rw [if_neg hslots]
      exact .inl ⟨_, rfl⟩

theorem bodyGoes_array (hd : data[pos]? = some MessageMagic.typeArray.toU8) (hi : s.i ≤ pos)
    (hpos : pos < data.length) (hlen : data.length ≤ isizeMax) (hfds : fds.length < 2 ^ 64)
    (hcur : s.fdsCursor ≤ fds.length) :
    HostileField data pos ∨
      BodyGoes data fds pos s (scanBody .checked data fds pos .typeArray s) := by
  have hcap : data.length ≤ 2 ^ 63 - 1 := hlen
  cases hb : data[pos + 1]? with
  | none =>
    refine .inr (.inl ⟨.unexpectedEof, ?_⟩)
    simp only [scanBody]
    rw [uadd_eq (by omega), Outcome.ok_bind, getByte, hb]
    rfl
  | some byte =>
    cases ht : MessageMagic.tryFrom byte with
    | panic p => exact absurd (MessageMagic.returns_tryFrom byte) (by rw [ht]; exact id)
    | stall => exact absurd (MessageMagic.returns_tryFrom byte) (by rw [ht]; exact id)
    | err e =>
      refine .inr (.inl ⟨e, ?_⟩)
      simp only [scanBody]
      rw [uadd_eq (by omega), Outcome.ok_bind, getByte_eq_ok.mpr hb, Outcome.ok_bind, ht]
      rfl
    | ok t =>
      have hbyte := MessageMagic.toU8_of_tryFrom ht
      subst hbyte
      by_cases h10 : HostileLen data (pos + 2)
      · exact .inl (.inr ⟨hd, t, hb, .inl h10⟩)
      · have hspan := Nat.le_of_not_lt h10
        have hhead : scanBody .checked data fds pos .typeArray s
            = if 10000 ≤ lenAt data (pos + 2) then .err .arrayTooLong
              else arrayTail data fds pos t s := by
          simp only [scanBody]
          rw [uadd_eq (by omega), Outcome.ok_bind, getByte_eq_ok.mpr hb, Outcome.ok_bind, ht,
            Outcome.ok_bind, uadd_eq (by omega), Outcome.ok_bind, parseVarInt_eq hspan,
            Outcome.ok_bind]
          simp only []
          rw [uadd_eq (by omega), Outcome.ok_bind]
          rfl
        by_cases hlong : 10000 ≤ lenAt data (pos + 2)
        · rw [hhead, if_pos hlong]
          exact .inr (.inl ⟨_, rfl⟩)
        · rw [if_neg hlong] at hhead
          have hn := Nat.lt_of_not_le hlong
          cases t with
          | typeVarchar => exact bodyGoes_strings hd hb hspan hn hhead hi hpos hlen hcur
          | typeFd => exact .inr (bodyGoes_fds hd hb hspan hn hhead hi hpos hlen hfds hcur)
          | typeUint =>
            exact .inr (bodyGoes_scalars (t := .uint) hd hb hspan hn hhead hi hpos hlen hfds hcur)
          | typeInt =>
            exact .inr (bodyGoes_scalars (t := .int) hd hb hspan hn hhead hi hpos hlen hfds hcur)
          | typeF32 =>
            exact .inr (bodyGoes_scalars (t := .f32) hd hb hspan hn hhead hi hpos hlen hfds hcur)
          | typeObject =>
            exact .inr (bodyGoes_scalars (t := .object) hd hb hspan hn hhead hi hpos hlen hfds hcur)
          | typeSeq =>
            exact .inr (bodyGoes_scalars (t := .seq) hd hb hspan hn hhead hi hpos hlen hfds hcur)
          | end_ => rw [hhead]; exact .inr (.inl ⟨_, rfl⟩)
          | typeObjectId => rw [hhead]; exact .inr (.inl ⟨_, rfl⟩)
          | typeArray => rw [hhead]; exact .inr (.inl ⟨_, rfl⟩)

/-! ## The loop -/

/-- One evaluation of the condition, and the body. -/
theorem scanStep_cases {offset : Nat} (hlen : data.length ≤ isizeMax)
    (hlt : offset + s.i < data.length) (hfds : fds.length < 2 ^ 64)
    (hcur : s.fdsCursor ≤ fds.length) :
    HostileField data (offset + s.i) ∨
    (data.drop (offset + s.i) = MessageMagic.end_.toU8 :: data.drop (offset + s.i + 1) ∧
      scanStep .checked data fds offset s = .ok none) ∨
    ∃ r, BodyGoes data fds (offset + s.i) s r ∧
      scanStep .checked data fds offset s = r >>= fun s' => .ok (some s') := by
  have hcap : data.length ≤ 2 ^ 63 - 1 := hlen
  have hbyte := List.getElem?_eq_getElem hlt
  have hdrop := Bytes.drop_eq_cons_of_getElem? hbyte
  by_cases hend : data[offset + s.i] = MessageMagic.end_.toU8
  · rw [hend] at hdrop
    exact .inr (.inl ⟨hdrop, scanStep_end hdrop (by omega)⟩)
  · have hi : s.i ≤ offset + s.i := Nat.le_add_left _ _
    cases ht : MessageMagic.tryFrom data[offset + s.i] with
    | panic p => exact absurd (MessageMagic.returns_tryFrom data[offset + s.i]) (by rw [ht]; exact id)
    | stall => exact absurd (MessageMagic.returns_tryFrom data[offset + s.i]) (by rw [ht]; exact id)
    | err e =>
      refine .inr (.inr ⟨.err e, .inl ⟨e, rfl⟩, ?_⟩)
      simp only [scanStep]
      rw [uadd_eq (by omega), Outcome.ok_bind, getByte_eq_ok.mpr hbyte, Outcome.ok_bind,
        if_neg hend, ht]
      rfl
    | ok t =>
      rw [MessageMagic.toU8_of_tryFrom ht] at hbyte hend
      have hstep : scanStep .checked data fds offset s
          = scanBody .checked data fds (offset + s.i) t s >>= fun s' => .ok (some s') := by
        simp only [scanStep]
        rw [uadd_eq (by omega), Outcome.ok_bind, getByte_eq_ok.mpr hbyte, Outcome.ok_bind,
          if_neg hend, MessageMagic.tryFrom_toU8, Outcome.ok_bind]
      have hbody : HostileField data (offset + s.i) ∨ BodyGoes data fds (offset + s.i) s
          (scanBody .checked data fds (offset + s.i) t s) := by
        cases t with
        | end_ => exact absurd rfl hend
        | typeVarchar => exact bodyGoes_varchar hbyte hi hfds hcur
        | typeArray => exact bodyGoes_array hbyte hi hlt hlen hfds hcur
        | typeFd => exact .inr (bodyGoes_fd hbyte hi hlt hlen hfds hcur)
        | typeUint => exact .inr (bodyGoes_scalar (t := .uint) hbyte hi hlt hlen hfds hcur)
        | typeInt => exact .inr (bodyGoes_scalar (t := .int) hbyte hi hlt hlen hfds hcur)
        | typeF32 => exact .inr (bodyGoes_scalar (t := .f32) hbyte hi hlt hlen hfds hcur)
        | typeObject => exact .inr (bodyGoes_scalar (t := .object) hbyte hi hlt hlen hfds hcur)
        | typeSeq => exact .inr (bodyGoes_scalar (t := .seq) hbyte hi hlt hlen hfds hcur)
        | typeObjectId => exact .inr (.inl ⟨_, rfl⟩)
      rcases hbody with h | h
      · exact .inl h
      · exact .inr (.inr ⟨_, h, hstep⟩)

theorem HostileFrom.cons {cursor : Nat} {f : Field .checked}
    (hd : data.drop pos = f.encode ++ data.drop (pos + f.encode.length))
    (h : HostileFrom data fds (pos + f.encode.length) (cursor + f.slots)) :
    HostileFrom data fds pos cursor := by
  obtain ⟨fs, rest, hslots, hsplit, hbad⟩ := h
  refine ⟨f :: fs, rest, ?_, ?_, ?_⟩
  · rw [slotsAll_cons, ← Nat.add_assoc]
    exact hslots
  · rw [encodeAll_cons, List.append_assoc, ← hsplit, ← hd]
  · rw [encodeAll_cons, List.length_append, ← Nat.add_assoc]
    exact hbad

/-- Past the end there is no byte to read. -/
theorem scanLoop_past {m : Overflow} {offset : Nat} (hpast : data.length ≤ offset + s.i)
    (hfit : offset + s.i < 2 ^ 64) (fuel : Nat) :
    scanLoop m data fds offset (fuel + 1) s = .err .unexpectedEof := by
  simp only [scanLoop, scanStep]
  rw [uadd_eq hfit, Outcome.ok_bind, getByte, List.getElem?_eq_none hpast]
  rfl

/-- **The scan loop on any bytes** in a checked build: it meets a hostile prefix, or refuses,
or has walked over a list of fields up to an `End` byte. The induction is on the budget, which
is more than the bytes that are left. -/
theorem scanLoop_cases {offset : Nat} (hlen : data.length ≤ isizeMax)
    (hfds : fds.length < 2 ^ 64) : ∀ (fuel : Nat) (s : Scan), data.length < fuel + (offset + s.i) →
    0 < fuel → offset + s.i < 2 ^ 64 → s.fdsCursor ≤ fds.length →
    HostileFrom data fds (offset + s.i) s.fdsCursor ∨
    (∃ e, scanLoop .checked data fds offset fuel s = .err e) ∨
    ∃ (fs : List (Field .checked)) (rest : List UInt8), s.fdsCursor + slotsAll fs ≤ fds.length ∧
      data.drop (offset + s.i) = encodeAll fs ++ MessageMagic.end_.toU8 :: rest ∧
      scanLoop .checked data fds offset fuel s
        = .ok (s.advance fds (encodeAll fs).length (slotsAll fs))
  | 0, s, _, h0, _, _ => absurd h0 (Nat.lt_irrefl 0)
  | fuel + 1, s, hfuel, _, hfit, hcur => by
    by_cases hlt : offset + s.i < data.length
    · rcases scanStep_cases hlen hlt hfds hcur with hbad | ⟨hend, hstop⟩ | ⟨r, hgoes, hstep⟩
      · exact .inl ⟨[], _, by simpa using hcur, (List.nil_append _).symm, hbad⟩
      · refine .inr (.inr ⟨[], _, by simpa using hcur, hend, ?_⟩)
        rw [scanLoop, hstop, Outcome.ok_bind]
        simp [Scan.advance]
      · rcases hgoes with ⟨e, rfl⟩ | ⟨s', k, rfl, hk, hpos, hfit', hwhole⟩
        · rw [scanLoop, hstep]
          exact .inr (.inl ⟨e, rfl⟩)
        · rw [scanLoop, hstep, Outcome.ok_bind, Outcome.ok_bind]
          simp only []
          have hpos' : offset + s'.i = offset + s.i + k := by rw [hk, Nat.add_assoc]
          by_cases hin : offset + s.i + k < data.length
          · -- A whole field: go on behind it.
            obtain ⟨f, rfl, hd, hslots, rfl⟩ := hwhole hin
            rcases scanLoop_cases hlen hfds fuel _ (by rw [hpos']; omega) (by omega)
              (by rw [hpos']; exact hfit') hslots with hbad | herr | ⟨fs, rest, hfs, hsplit, hok⟩
            · rw [hpos'] at hbad
              exact .inl (hbad.cons hd)
            · exact .inr (.inl herr)
            · refine .inr (.inr ⟨f :: fs, rest, ?_, ?_, ?_⟩)
              · rw [slotsAll_cons, ← Nat.add_assoc]
                exact hfs
              · rw [hpos'] at hsplit
                rw [hd, hsplit, encodeAll_cons, List.append_assoc]
              · rw [hok, Scan.advance_advance, encodeAll_cons, List.length_append, slotsAll_cons]
          · cases fuel with
            | zero => omega
            | succ fuel =>
              exact .inr (.inl ⟨_, scanLoop_past (by rw [hpos']; exact Nat.le_of_not_lt hin)
                (by rw [hpos']; exact hfit') fuel⟩)
    · exact .inr (.inl ⟨_, scanLoop_past (Nat.le_of_not_lt hlt) hfit fuel⟩)

/-! ## Hostile prefixes are fatal

The other direction: the scanner does get to a hostile prefix, and there an addition or a
shift overflows, in the body or in the `offset + i` of the next condition. -/

theorem returns_parseVarInt_bind {α : Type} {p : Nat} {f : Nat × Nat → Outcome Error α} :
    (parseVarInt .checked data p >>= f).Returns ↔
      ¬ HostileLen data p ∧ (f (lenAt data p, Leb128.span (data.drop p))).Returns := by
  by_cases h : HostileLen data p
  · rw [parseVarInt_checked_panic h]
    simp [h]
  · rw [parseVarInt_eq (Nat.le_of_not_lt h)]
    simp [h, lenAt]

/-- A prefix of the grammar is read for what it is. -/
theorem lenAt_of_drop {p : Nat} {rest : List UInt8} (n : LenPrefix .checked)
    (hd : data.drop p = n.bytes ++ rest) (hlen : ¬ HostileLen data p) :
    lenAt data p = n.count ∧ Leb128.span (data.drop p) = n.bytes.length := by
  have h := (parseVarInt_eq (m := .checked) (Nat.le_of_not_lt hlen)).symm.trans
    (parseVarInt_lenPrefix n hd)
  simp only [Outcome.ok.injEq, Prod.mk.injEq] at h
  exact h

/-- Skipping strings one of which is hostile, when what follows cannot bear an address of 2^64
or more. -/
theorem skipStrings_hostile {α : Type} {base : Nat} {f : Nat → Outcome Error α}
    (hf : ∀ len, 2 ^ 64 ≤ base + len → ¬ (f len).Returns) :
    ∀ (ss : List (Str .checked)) {n len : Nat} {rest : List UInt8}, ss.length < n →
    data.drop (base + len) = ss.flatMap Str.encode ++ rest →
    HostileStr data (base + len + (ss.flatMap Str.encode).length) →
      ¬ (skipStrings .checked data base n len >>= f).Returns
  | [], n + 1, len, _, _, _, hbad => by
    intro hret
    simp only [List.flatMap_nil, List.length_nil, Nat.add_zero] at hbad
    simp only [skipStrings, bind_assoc, returns_uadd_bind, returns_parseVarInt_bind] at hret
    obtain ⟨-, hlen, -, -, hrest⟩ := hret
    rcases hbad with h | h
    · exact hlen h
    · have hpast : 2 ^ 64 ≤ base + (len + (lenAt data (base + len)
          + Leb128.span (data.drop (base + len)))) := by
        unfold strEnd at h
        omega
      cases n with
      | zero => exact hf _ hpast hrest
      | succ n =>
        simp only [skipStrings, bind_assoc, returns_uadd_bind] at hrest
        omega
  | s :: ss, n + 1, len, rest, hlt, hd, hbad => by
    intro hret
    simp only [List.flatMap_cons, List.append_assoc, List.length_append, Str.encode,
      s.length_payload] at hd hbad
    simp only [skipStrings, bind_assoc, returns_uadd_bind, returns_parseVarInt_bind] at hret
    obtain ⟨-, hlen, -, -, hret⟩ := hret
    obtain ⟨hcount, hspan⟩ := lenAt_of_drop s.len hd hlen
    rw [hcount, hspan] at hret
    have hnext : base + (len + (s.len.count + s.len.bytes.length))
        = base + len + (s.len.bytes.length + s.len.count) := by omega
    have hd' := Bytes.drop_add_of_drop_eq_append (Bytes.drop_add_of_drop_eq_append hd)
    rw [s.length_payload, Nat.add_assoc, ← hnext] at hd'
    refine skipStrings_hostile hf ss (Nat.lt_of_succ_lt_succ hlt) hd' ?_ hret
    rw [hnext]
    simpa only [Nat.add_assoc] using hbad

/-- **A hostile field is fatal**: the body panics, or the next condition does. -/
theorem scanStep_hostile {offset : Nat} (hbad : HostileField data (offset + s.i)) (fuel : Nat) :
    ¬ (scanLoop .checked data fds offset fuel s).Returns := by
  -- What follows the body cannot bear an address of 2^64 or more.
  have hnext : ∀ (fuel i : Nat) (s' : Scan), 2 ^ 64 ≤ offset + i →
      ¬ (scanLoop .checked data fds offset fuel { s' with i }).Returns := by
    intro fuel i s' hi
    cases fuel with
    | zero => exact id
    | succ fuel =>
      simp only [scanLoop, scanStep, bind_assoc, returns_uadd_bind]
      omega
  cases fuel with
  | zero => exact id
  | succ fuel =>
    intro hret
    rcases hbad with ⟨hbyte, hstr⟩ | ⟨hbyte, t, hb, hbad⟩
    · simp only [scanLoop, scanStep, bind_assoc, returns_uadd_bind, getByte_eq_ok.mpr hbyte,
        Outcome.ok_bind] at hret
      rw [if_neg (by decide)] at hret
      simp only [MessageMagic.tryFrom_toU8, Outcome.ok_bind, scanBody, bind_assoc,
        returns_uadd_bind, returns_parseVarInt_bind] at hret
      obtain ⟨-, -, hl, -, -, -, hret⟩ := hret
      rcases hstr with h | h
      · exact hl h
      · refine hnext _ _ _ ?_ hret
        unfold strEnd at h
        omega
    · simp only [scanLoop, scanStep, bind_assoc, returns_uadd_bind, getByte_eq_ok.mpr hbyte,
        Outcome.ok_bind] at hret
      rw [if_neg (by decide)] at hret
      simp only [MessageMagic.tryFrom_toU8, Outcome.ok_bind, scanBody, bind_assoc,
        returns_uadd_bind, returns_parseVarInt_bind, getByte_eq_ok.mpr hb] at hret
      obtain ⟨-, -, -, hl, -, hret⟩ := hret
      rcases hbad with h | ⟨rfl, hn, ss, rest, hlt, -, hd, hbad⟩
      · exact hl h
      · rw [if_neg (Nat.not_le_of_lt hn)] at hret
        simp only [scanElements, bind_assoc, Outcome.ok_bind] at hret
        rw [Nat.add_assoc (offset + s.i) 2] at hd hbad
        refine skipStrings_hostile ?_ ss hlt hd hbad hret
        intro len hpast
        rw [returns_uadd_bind]
        rintro ⟨-, h⟩
        exact hnext _ _ _ (by omega) h

/-- … also behind fields that are whole. -/
theorem scanLoop_hostile {offset : Nat} (hlen : data.length ≤ isizeMax)
    (hfds : fds.length < 2 ^ 64) : ∀ (fs : List (Field .checked)) {rest : List UInt8} (fuel : Nat)
    (s : Scan), offset + s.i ≤ data.length → s.fdsCursor + slotsAll fs ≤ fds.length →
    data.drop (offset + s.i) = encodeAll fs ++ rest →
    HostileField data (offset + s.i + (encodeAll fs).length) →
      ¬ (scanLoop .checked data fds offset fuel s).Returns
  | [], _, fuel, _, _, _, _, hbad => scanStep_hostile hbad fuel
  | _ :: _, _, 0, _, _, _, _, _ => id
  | f :: fs, rest, fuel + 1, s, hle, hslots, hd, hbad => by
    have hcap : data.length ≤ 2 ^ 63 - 1 := hlen
    rw [slotsAll_cons] at hslots
    rw [encodeAll_cons, List.append_assoc] at hd
    rw [encodeAll_cons, List.length_append] at hbad
    have hbound := Bytes.length_of_drop_eq_append hle hd
    have hpos : offset + (s.advance fds f.encode.length f.slots).i = offset + s.i + f.encode.length :=
      (Nat.add_assoc _ _ _).symm
    rw [scanLoop, scanStep_encode f hd (by omega) hfds (by omega), if_pos (by omega),
      Outcome.ok_bind]
    have hd' := Bytes.drop_add_of_drop_eq_append hd
    rw [← hpos] at hd'
    refine scanLoop_hostile hlen hfds fs fuel _ (by rw [hpos]; omega) ?_ hd' ?_
    · rw [Scan.advance_fdsCursor, Nat.add_assoc]
      exact hslots
    · rw [hpos, Nat.add_assoc (offset + s.i)]
      exact hbad

end Hyprwire
