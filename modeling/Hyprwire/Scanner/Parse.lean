import Hyprwire.Core.Grammar
import Hyprwire.Scanner.Dispatch

/-!
# `Scanner/Parse.lean` — the generated decoder over encoded fields

The printed parse statements step over tags they never look at, so over arbitrary bytes they
may do anything. Over the encoding of a field with the tags the argument declares they do one
thing (`writeParseArg_encode`): they yield `Field.value` and stop exactly behind the field.
The one value they cannot yield is an enum whose number is not declared.
-/

namespace Hyprwire.Scanner

open Rust

variable {m : Overflow} {up : Char → String} {p : Protocol}

/-! ## What a field means to an argument -/

/-- The value an argument takes from a field and the descriptors of its slots. `none` where
the field has not the argument's tags, or its number is no variant of the argument's enum. -/
def fieldValue (up : Char → String) (p : Protocol) (arg : Arg) (f : Field m)
    (fds : List RawFd) : Option Value :=
  match arg.argType, f with
  | .varchar, .varchar s => some (.varchar (Utf8.fromUtf8Lossy s.payload))
  | .uint, .scalar .uint w => some (.uint w)
  | .int, .scalar .int w => some (.int ⟨w⟩)
  | .f32, .scalar .f32 w => some (.f32 w)
  | .enum, .scalar .uint w =>
    match arg.interface with
    | none => none
    | some interface =>
      if Declared up p (snakeToPascal up interface) w then
        some (.enum (snakeToPascal up interface) w)
      else none
  | .fd, .fd => fds.head?.map .fd
  | .arrayVarchar, .strings _ ss _ _ =>
    some (.arrayVarchar (ss.map fun s => Utf8.fromUtf8Lossy s.payload))
  | .arrayFd, .fds _ _ => some (.arrayFd fds)
  | .arrayUint, .scalars .uint _ ws _ _ => some (.arrayUint ws)
  | .arrayInt, .scalars .int _ ws _ _ => some (.arrayInt (ws.map Int32.ofUInt32))
  | .arrayF32, .scalars .f32 _ ws _ _ => some (.arrayF32 ws)
  | _, _ => none

/-! ## Reading words and strings -/

theorem readWord_of_drop {data rest : List UInt8} {needle : Nat} {w : UInt32}
    (hd : data.drop needle = Bytes.toLeBytes w ++ rest) (hfit : needle + 4 < 2 ^ 64) :
    readWord m data needle = .ok w := by
  have hlen : needle + 4 ≤ data.length := by
    have h := congrArg List.length hd
    simp only [List.length_drop, List.length_append, Bytes.length_toLeBytes] at h
    omega
  simp only [readWord]
  rw [uadd_eq hfit, Outcome.ok_bind, slice_eq (by omega) hlen, Outcome.ok_bind, hd,
    Nat.add_sub_cancel_left, List.take_left' (Bytes.length_toLeBytes w),
    Bytes.fromLeBytes_toLeBytes]

theorem readString_of_drop {data rest : List UInt8} {needle : Nat} (s : Str m)
    (hd : data.drop needle = s.encode ++ rest) (hfit : needle + s.encode.length < 2 ^ 64) :
    readString m data needle
      = .ok (Utf8.fromUtf8Lossy s.payload, needle + s.encode.length) := by
  simp only [Str.encode, List.append_assoc, List.length_append] at hd hfit ⊢
  have hpay := Bytes.drop_add_of_drop_eq_append hd
  have hlen : needle + s.len.bytes.length + s.payload.length ≤ data.length := by
    have h := congrArg List.length hd
    have hpos := List.length_pos_iff.mpr s.len.terminated.ne_nil
    simp only [List.length_drop, List.length_append] at h
    omega
  simp only [readString]
  rw [parseVarInt_lenPrefix s.len hd, Outcome.ok_bind]
  simp only [← s.length_payload]
  rw [uadd_eq (by omega), Outcome.ok_bind, uadd_eq (by omega), Outcome.ok_bind,
    slice_eq (by omega) hlen, Outcome.ok_bind, hpay, Nat.add_sub_cancel_left,
    List.take_left' rfl, Nat.add_assoc]

theorem readWords_of_drop {data rest : List UInt8} : ∀ (ws : List UInt32) (needle : Nat),
    data.drop needle = ws.flatMap Bytes.toLeBytes ++ rest →
    needle + 4 * ws.length < 2 ^ 64 →
      readWords m data ws.length needle = .ok (ws, needle + 4 * ws.length)
  | [], _, _, _ => rfl
  | w :: ws, needle, hd, hfit => by
    simp only [List.flatMap_cons, List.append_assoc, List.length_cons] at hd hfit ⊢
    have hrest := Bytes.drop_add_of_drop_eq_append hd
    rw [Bytes.length_toLeBytes] at hrest
    simp only [readWords]
    rw [readWord_of_drop hd (by omega), Outcome.ok_bind, uadd_eq (by omega), Outcome.ok_bind,
      readWords_of_drop ws _ hrest (by omega), Outcome.ok_bind]
    simp only [Outcome.ok.injEq, Prod.mk.injEq, true_and]
    omega

theorem readStrings_of_drop {data rest : List UInt8} : ∀ (ss : List (Str m)) (needle : Nat),
    data.drop needle = ss.flatMap Str.encode ++ rest →
    needle + (ss.flatMap Str.encode).length < 2 ^ 64 →
      readStrings m data ss.length needle
        = .ok (ss.map fun s => Utf8.fromUtf8Lossy s.payload,
            needle + (ss.flatMap Str.encode).length)
  | [], _, _, _ => rfl
  | s :: ss, needle, hd, hfit => by
    simp only [List.flatMap_cons, List.append_assoc, List.length_cons, List.length_append]
      at hd hfit ⊢
    have hrest := Bytes.drop_add_of_drop_eq_append hd
    simp only [readStrings]
    rw [readString_of_drop s hd (by omega), Outcome.ok_bind]
    simp only []
    rw [readStrings_of_drop ss _ hrest (by omega), Outcome.ok_bind]
    simp only [List.map_cons, Nat.add_assoc]

theorem arrayHead_of_drop {data rest : List UInt8} {c : Cursor} {t₁ t₂ : UInt8} {size : Nat}
    (n : LenPrefix m) (hd : data.drop c.needle = t₁ :: t₂ :: (n.bytes ++ rest))
    (hfit : c.needle + 2 + n.bytes.length < 2 ^ 64) (hcap : size * n.count ≤ isizeMax) :
    arrayHead m data size c = .ok (n.count, { c with needle := c.needle + 2 + n.bytes.length })
    ∧ data.drop (c.needle + 2 + n.bytes.length) = rest := by
  have h1 := Bytes.drop_succ_of_drop_eq_cons hd
  have h2 := Bytes.drop_succ_of_drop_eq_cons h1
  refine ⟨?_, Bytes.drop_add_of_drop_eq_append h2⟩
  simp only [arrayHead]
  rw [uadd_eq (by omega), Outcome.ok_bind, parseVarInt_lenPrefix n h2, Outcome.ok_bind]
  simp only []
  rw [uadd_eq hfit, Outcome.ok_bind, withCapacity_eq hcap, Outcome.ok_bind]

theorem scalarArg_of_drop {data rest : List UInt8} {c : Cursor} {t : UInt8} {w : UInt32}
    (hd : data.drop c.needle = t :: (Bytes.toLeBytes w ++ rest))
    (hfit : c.needle + 5 < 2 ^ 64) :
    scalarArg m data c = .ok (w, { c with needle := c.needle + 5 }) := by
  have h1 := Bytes.drop_succ_of_drop_eq_cons hd
  simp only [scalarArg]
  rw [uadd_eq (by omega), Outcome.ok_bind, readWord_of_drop h1 (by omega), Outcome.ok_bind,
    uadd_eq (by omega), Outcome.ok_bind]

theorem wordsArg_of_drop {data rest : List UInt8} {c : Cursor} {t₁ t₂ : UInt8}
    (n : LenPrefix m) {ws : List UInt32} (hws : ws.length = n.count) (hn : n.count < 10000)
    (hd : data.drop c.needle
      = t₁ :: t₂ :: (n.bytes ++ (ws.flatMap Bytes.toLeBytes ++ rest)))
    (hfit : c.needle + 2 + n.bytes.length + 4 * n.count < 2 ^ 64) :
    wordsArg m data c
      = .ok (ws, { c with needle := c.needle + 2 + n.bytes.length + 4 * n.count }) := by
  have hcap : 4 * n.count ≤ isizeMax := by unfold isizeMax; omega
  obtain ⟨hhead, hrest⟩ := arrayHead_of_drop n hd (by omega) hcap
  simp only [wordsArg]
  rw [hhead, Outcome.ok_bind]
  simp only [← hws] at hfit ⊢
  rw [readWords_of_drop ws _ hrest hfit, Outcome.ok_bind]

/-! ## One argument, all arguments -/

/-- **One argument over one field**: the field's value, and the cursor right behind it; a
number that is no variant of the declared enum is undefined behaviour. -/
theorem writeParseArg_encode {data rest : List UInt8} {c : Cursor} {arg : Arg} (f : Field m)
    {fds more : List RawFd} (htags : f.tags = magicForArg arg.argType)
    (hiface : arg.argType = .enum → arg.interface ≠ none)
    (hd : data.drop c.needle = f.encode ++ rest)
    (hfit : c.needle + f.encode.length < 2 ^ 64)
    (hfds : c.fdsIter = fds ++ more) (hslots : fds.length = f.slots) :
    writeParseArg m up p data arg c = match fieldValue up p arg f fds with
      | some v => .ok (v, ⟨c.needle + f.encode.length, more⟩)
      | none => .panic .undefined := by
  obtain ⟨needle, fdsIter⟩ := c
  obtain ⟨name, argType, interface⟩ := arg
  simp only at htags hiface hd hfit hfds
  subst hfds
  cases f with
  | scalar t w =>
    have hnil : fds = [] := List.length_eq_zero_iff.mp hslots
    subst hnil
    simp only [Field.encode, List.cons_append, List.length_cons, Bytes.length_toLeBytes,
      List.nil_append] at hd hfit ⊢
    have hread := @scalarArg_of_drop m data rest ⟨needle, more⟩ _ w hd hfit
    cases argType <;> cases t <;> simp only [Field.tags, Scalar.magic, magicForArg,
      List.cons.injEq, reduceCtorEq, and_true, and_self] at htags <;>
      simp only [writeParseArg, fieldValue, hread, Outcome.ok_bind]
    -- What is left is the enum, whose number has to be a variant.
    obtain ⟨interface, rfl⟩ := Option.ne_none_iff_exists'.mp (hiface rfl)
    simp only
    by_cases hdecl : Declared up p (snakeToPascal up interface) w
    · rw [if_pos hdecl, if_pos hdecl]
    · rw [if_neg hdecl, if_neg hdecl]
  | varchar s =>
    have hnil : fds = [] := List.length_eq_zero_iff.mp hslots
    subst hnil
    obtain rfl : argType = .varchar := by cases argType <;> simp [Field.tags, magicForArg] at htags ⊢
    simp only [Field.encode, List.cons_append, List.length_cons, List.nil_append] at hd hfit ⊢
    simp only [writeParseArg, fieldValue]
    rw [uadd_eq (by omega), Outcome.ok_bind,
      readString_of_drop s (Bytes.drop_succ_of_drop_eq_cons hd) (by omega), Outcome.ok_bind]
    simp only [Nat.add_assoc, Nat.add_comm 1]
  | scalars t n ws hws hn =>
    have hnil : fds = [] := List.length_eq_zero_iff.mp hslots
    subst hnil
    simp only [Field.encode, List.cons_append, List.append_assoc, List.length_cons,
      List.length_append, length_flatMap_toLeBytes, List.nil_append] at hd hfit ⊢
    rw [hws] at hfit ⊢
    have hread := @wordsArg_of_drop m data rest ⟨needle, more⟩ _ _ n ws hws hn hd
      (by simp only; omega)
    cases argType <;> cases t <;> simp only [Field.tags, Scalar.magic, magicForArg,
      List.cons.injEq, reduceCtorEq, and_true, and_false, and_self] at htags <;>
      simp only [writeParseArg, fieldValue, hread, Outcome.ok_bind] <;>
      simp only [Outcome.ok.injEq, Prod.mk.injEq, Cursor.mk.injEq, true_and, and_true] <;> omega
  | strings n ss hss hn =>
    have hnil : fds = [] := List.length_eq_zero_iff.mp hslots
    subst hnil
    obtain rfl : argType = .arrayVarchar := by
      cases argType <;> simp [Field.tags, magicForArg] at htags ⊢
    simp only [Field.encode, List.cons_append, List.append_assoc, List.length_cons,
      List.length_append, List.nil_append] at hd hfit ⊢
    obtain ⟨hhead, hrest⟩ := @arrayHead_of_drop m data _ ⟨needle, more⟩ _ _ 24 n hd
      (by simp only; omega) (by unfold isizeMax; omega)
    simp only [writeParseArg, fieldValue]
    rw [hhead, Outcome.ok_bind]
    simp only [← hss]
    rw [readStrings_of_drop ss _ hrest (by simp only; omega), Outcome.ok_bind]
    simp only [Outcome.ok.injEq, Prod.mk.injEq, Cursor.mk.injEq, true_and, and_true]
    omega
  | fds n hn =>
    obtain rfl : argType = .arrayFd := by cases argType <;> simp [Field.tags, magicForArg] at htags ⊢
    simp only [Field.slots] at hslots
    simp only [Field.encode, List.cons_append, List.length_cons] at hd hfit ⊢
    obtain ⟨hhead, -⟩ := @arrayHead_of_drop m data _ ⟨needle, fds ++ more⟩ _ _ 4 n hd
      (by simp only; omega) (by unfold isizeMax; omega)
    simp only [writeParseArg, fieldValue]
    rw [hhead, Outcome.ok_bind]
    simp only [← hslots, List.take_left, List.drop_left, Outcome.ok.injEq, Prod.mk.injEq,
      Cursor.mk.injEq, true_and, and_true]
    omega
  | fd =>
    obtain rfl : argType = .fd := by cases argType <;> simp [Field.tags, magicForArg] at htags ⊢
    simp only [Field.slots] at hslots
    obtain ⟨fd, rfl⟩ := List.length_eq_one_iff.mp hslots
    simp only [Field.encode, List.length_singleton] at hfit ⊢
    simp only [writeParseArg, fieldValue]
    rw [uadd_eq (by omega), Outcome.ok_bind]
    rfl

/-- The values of all arguments; `none` as soon as one of them has none. -/
def fieldValues (up : Char → String) (p : Protocol) :
    List Arg → List (Field m) → List RawFd → Option (List Value)
  | [], [], _ => some []
  | arg :: args, f :: fs, fds => do
    let v ← fieldValue up p arg f (fds.take f.slots)
    let vs ← fieldValues up p args fs (fds.drop f.slots)
    some (v :: vs)
  | _, _, _ => none

/-- The fields are the declared ones, argument by argument. -/
def Matches (args : List Arg) (fs : List (Field m)) : Prop :=
  List.Forall₂ (fun arg f => f.tags = magicForArg arg.argType) args fs

/-- What `parse_method` refuses: an enum argument that does not name its enum. -/
def Parsed (args : List Arg) : Prop :=
  ∀ arg ∈ args, arg.argType = .enum → arg.interface ≠ none

/-- **All arguments over the fields they declare.** -/
theorem writeParseArgs_encode {data rest : List UInt8} {args : List Arg} {fs : List (Field m)}
    (hm : Matches args fs) : ∀ {c : Cursor} {more : List RawFd}, Parsed args →
    data.drop c.needle = encodeAll fs ++ rest →
    c.needle + (encodeAll fs).length < 2 ^ 64 →
    slotsAll fs ≤ c.fdsIter.length →
    c.fdsIter.drop (slotsAll fs) = more →
      writeParseArgs m up p data args c = match fieldValues up p args fs c.fdsIter with
        | some vs => .ok (vs, ⟨c.needle + (encodeAll fs).length, more⟩)
        | none => .panic .undefined := by
  induction hm with
  | nil =>
    intro c more _ _ _ _ hmore
    subst hmore
    simp [writeParseArgs, fieldValues]
  | @cons arg f args fs hf hrest ih =>
    intro c more hparsed hd hfit hslots hmore
    simp only [encodeAll_cons, List.append_assoc, List.length_append, slotsAll_cons] at *
    have hparsed' : Parsed args := fun a ha => hparsed a (List.mem_cons_of_mem _ ha)
    have htake : (c.fdsIter.take f.slots).length = f.slots := by
      rw [List.length_take]; omega
    simp only [writeParseArgs, fieldValues]
    rw [writeParseArg_encode f hf (hparsed arg (List.mem_cons_self ..)) hd (by omega)
      (List.take_append_drop f.slots c.fdsIter).symm htake]
    cases hv : fieldValue up p arg f (c.fdsIter.take f.slots) with
    | none => rfl
    | some v =>
      have hd' := Bytes.drop_add_of_drop_eq_append hd
      have hmore' : (c.fdsIter.drop f.slots).drop (slotsAll fs) = more := by
        rw [List.drop_drop]
        exact hmore
      simp only [Outcome.ok_bind]
      rw [ih hparsed' hd' (by simp only; omega) (by simp only [List.length_drop]; omega) hmore']
      cases fieldValues up p args fs (c.fdsIter.drop f.slots) with
      | none => rfl
      | some vs => simp [Nat.add_assoc]

/-! ## The whole payload -/

/-- The field of the return seq, in front of the arguments. -/
def returnField (m : Overflow) (mt : Method) (seq : UInt32) : List (Field m) :=
  if mt.returns.isSome then [.scalar .seq seq] else []

theorem slotsAll_returnField (mt : Method) (seq : UInt32) (fs : List (Field m)) :
    slotsAll (returnField m mt seq ++ fs) = slotsAll fs := by
  rw [slotsAll, List.map_append, List.sum_append, returnField]
  cases mt.returns <;> simp [Field.slots, slotsAll]

/-- The event a method's values make: behind the object that was created for the return seq
(on a server) or behind the seq itself (on a client). -/
def eventOf {O : Type} (isServer : Bool) (createObject : String → UInt32 → Option O)
    (method : UInt32) (mt : Method) (seq : UInt32) (vs : List Value) : Option (Event O) :=
  match mt.returns with
  | none => some ⟨method, mt.name, vs.map .value⟩
  | some returned =>
    if isServer then
      (createObject returned seq).map fun o => ⟨method, mt.name, .object o :: vs.map .value⟩
    else some ⟨method, mt.name, .seq seq :: vs.map .value⟩

/-- **The printed `dispatch` over the declared fields**, for a state of its type: one event with the
fields' values. A server whose object is destroyed makes none and returns. -/
theorem dispatch_encode {O : Type} {isServer : Bool} {createObject : String → UInt32 → Option O}
    {methods : List Method} {method seq : UInt32} {mt : Method}
    (hmt : methods[method.toNat]? = some mt) (hparsed : Parsed mt.args)
    {fs : List (Field m)} (hm : Matches mt.args fs) {rest : List UInt8} {fds : List RawFd}
    (hfit : (encodeAll (returnField m mt seq ++ fs)).length < 2 ^ 64)
    (hslots : slotsAll fs ≤ fds.length)
    (halive : ∀ returned, mt.returns = some returned → isServer = true →
      (createObject returned seq).isSome) :
    dispatch m up p isServer true createObject methods method
        (encodeAll (returnField m mt seq ++ fs) ++ rest) fds
      = match fieldValues up p mt.args fs fds with
        | some vs => .ok (eventOf isServer createObject method mt seq vs)
        | none => .panic .undefined := by
  simp only [dispatch, if_true, hmt, returnField, eventOf] at *
  cases hret : mt.returns with
  | none =>
    simp only [hret, Option.isSome_none, Bool.false_eq_true, if_false, List.nil_append] at hfit ⊢
    have hd : (encodeAll fs ++ rest).drop 0 = encodeAll fs ++ rest := List.drop_zero
    rw [writeParseArgs_encode hm hparsed (c := ⟨0, fds⟩) hd (by simpa using hfit) hslots rfl]
    cases fieldValues up p mt.args fs fds <;> rfl
  | some returned =>
    simp only [hret, Option.isSome_some, if_true, List.nil_append, encodeAll_cons,
      Field.encode, List.cons_append, List.append_assoc, List.length_cons, List.length_append,
      Bytes.length_toLeBytes] at hfit ⊢
    have hd : (MessageMagic.typeSeq.toU8 :: (Bytes.toLeBytes seq ++ (encodeAll fs ++ rest))).drop 5
        = encodeAll fs ++ rest := by simp [Bytes.toLeBytes]
    simp only [Scalar.magic, seqParse]
    rw [@scalarArg_of_drop m _ (encodeAll fs ++ rest) ⟨0, fds⟩ _ seq rfl (by simp only; omega)]
    cases isServer with
    | true =>
      obtain ⟨o, ho⟩ := Option.isSome_iff_exists.mp (halive returned hret rfl)
      simp only [Outcome.ok_bind, if_true, ho, Option.map_some, Nat.zero_add]
      rw [writeParseArgs_encode hm hparsed (c := ⟨5, fds⟩) hd (by simp only; omega) hslots rfl]
      cases fieldValues up p mt.args fs fds <;> rfl
    | false =>
      simp only [Outcome.ok_bind, Bool.false_eq_true, if_false, Nat.zero_add]
      rw [writeParseArgs_encode hm hparsed (c := ⟨5, fds⟩) hd (by simp only; omega) hslots rfl]
      cases fieldValues up p mt.args fs fds <;> rfl

/-- … and none where the object it should carry could not be created. -/
theorem dispatch_destroyed {O : Type} {createObject : String → UInt32 → Option O}
    {methods : List Method} {method seq : UInt32} {mt : Method} {returned : String}
    (hmt : methods[method.toNat]? = some mt) (hret : mt.returns = some returned)
    (hdead : createObject returned seq = none) {rest : List UInt8} {fds : List RawFd} :
    dispatch m up p true true createObject methods method
        (encodeAll (returnField m mt seq) ++ rest) fds = .ok none := by
  simp only [dispatch, hmt, hret, returnField, Option.isSome_some, if_true, encodeAll_cons,
    encodeAll_nil, Field.encode, List.append_nil, List.cons_append, seqParse]
  rw [@scalarArg_of_drop m _ rest ⟨0, fds⟩ _ seq rfl (by simp)]
  simp only [Outcome.ok_bind, hdead, Option.map_none]

end Hyprwire.Scanner
