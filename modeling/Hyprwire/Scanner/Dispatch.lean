import Hyprwire.Core.Generic
import Hyprwire.Scanner.Protocol

/-!
# `Scanner/Dispatch.lean` — the generated `ObjectData::dispatch`

`write_object_data_impl` prints, for every object, a function that asks whether the state it is
given is of the type it was made for (`__state.downcast_mut::<D>()`), picks the method by its
index and decodes the payload by the *declared* types of the arguments: it never looks at the
tags, it only steps over them. `dispatch` is that function, with the operations of the printed
code in their order: a slice out of range, an `unwrap` of a descriptor that is not there, a
`Vec` whose capacity overflows are panics, and a `transmute` to an enum value that is not
declared is undefined. It returns nothing, so there is no error it could report
(`infallible_dispatch`).

`create_object` is the one call the printed code makes besides the decoding; it is a
parameter, answering `none` when the object is already destroyed.
-/

namespace Hyprwire.Scanner

open Rust

/-- A field of a generated event. -/
inductive EventField (O : Type)
  | value (v : Value)
  | seq (seq : UInt32)
  | object (o : O)
  deriving DecidableEq, Repr

/-- A generated event: its variant (the method it stands for) and its fields in order. -/
structure Event (O : Type) where
  idx : UInt32
  name : String
  fields : List (EventField O)
  deriving DecidableEq, Repr

/-- `u32::from_le_bytes(__data[__needle..__needle + 4].try_into().unwrap())`. -/
def readWord (m : Overflow) (data : List UInt8) (needle : Nat) : Outcome Error UInt32 := do
  let stop ← uadd m needle 4
  let bytes ← slice data needle stop
  match Bytes.fromLeBytes bytes with
  | some w => .ok w
  | none => .panic .unwrapNone

/-- `String::from_utf8_lossy(&__data[__needle..__needle + __len]).into_owned()`, after its
length prefix; the new needle comes with it. -/
def readString (m : Overflow) (data : List UInt8) (needle : Nat) : Outcome Error (String × Nat) := do
  let (len, vl) ← parseVarInt m data needle
  let needle ← uadd m needle vl
  let stop ← uadd m needle len
  let bytes ← slice data needle stop
  .ok (Utf8.fromUtf8Lossy bytes, stop)

/-- The `for _ in 0..__count` loop over 4-byte elements. -/
def readWords (m : Overflow) (data : List UInt8) : Nat → Nat → Outcome Error (List UInt32 × Nat)
  | 0, needle => .ok ([], needle)
  | n + 1, needle => do
    let w ← readWord m data needle
    let needle ← uadd m needle 4
    let (ws, needle) ← readWords m data n needle
    .ok (w :: ws, needle)

/-- The `for _ in 0..__count` loop over strings. -/
def readStrings (m : Overflow) (data : List UInt8) : Nat → Nat → Outcome Error (List String × Nat)
  | 0, needle => .ok ([], needle)
  | n + 1, needle => do
    let (s, needle) ← readString m data needle
    let (ss, needle) ← readStrings m data n needle
    .ok (s :: ss, needle)

/-- The variables the printed statements share: `__needle` and `__fds_iter`. -/
structure Cursor where
  needle : Nat
  fdsIter : List RawFd
  deriving DecidableEq, Repr

/-- The printed `__needle += 2`, the element count, and the `Vec` made for it. -/
def arrayHead (m : Overflow) (data : List UInt8) (size : Nat) (c : Cursor) :
    Outcome Error (Nat × Cursor) := do
  let needle ← uadd m c.needle 2
  let (count, cl) ← parseVarInt m data needle
  let needle ← uadd m needle cl
  withCapacity size count
  .ok (count, { c with needle })

/-- The printed statements of a 4-byte argument. -/
def scalarArg (m : Overflow) (data : List UInt8) (c : Cursor) : Outcome Error (UInt32 × Cursor) := do
  let needle ← uadd m c.needle 1
  let w ← readWord m data needle
  let needle ← uadd m needle 4
  .ok (w, { c with needle })

/-- The printed statements of an array of 4-byte elements. -/
def wordsArg (m : Overflow) (data : List UInt8) (c : Cursor) :
    Outcome Error (List UInt32 × Cursor) := do
  let (count, c) ← arrayHead m data 4 c
  let (ws, needle) ← readWords m data count c.needle
  .ok (ws, { c with needle })

/-- `write_parse_arg`. A `String` takes 24 bytes of a `Vec`, a descriptor 4. -/
def writeParseArg (m : Overflow) (up : Char → String) (p : Protocol) (data : List UInt8) (arg : Arg)
    (c : Cursor) : Outcome Error (Value × Cursor) :=
  match arg.argType with
  | .varchar => do
    let needle ← uadd m c.needle 1
    let (s, needle) ← readString m data needle
    .ok (.varchar s, { c with needle })
  | .uint => do
    let (w, c) ← scalarArg m data c
    .ok (.uint w, c)
  | .int => do
    let (w, c) ← scalarArg m data c
    .ok (.int ⟨w⟩, c)
  | .f32 => do
    let (w, c) ← scalarArg m data c
    .ok (.f32 w, c)
  | .enum =>
    match arg.interface with
    | none => .ok (.unit, c)
    | some interface => do
      let (w, c) ← scalarArg m data c
      let ident := snakeToPascal up interface
      if Declared up p ident w then .ok (.enum ident w, c) else .panic .undefined
  | .fd => do
    let needle ← uadd m c.needle 1
    match c.fdsIter with
    | fd :: fdsIter => .ok (.fd fd, ⟨needle, fdsIter⟩)
    | [] => .panic .unwrapNone
  | .arrayVarchar => do
    let (count, c) ← arrayHead m data 24 c
    let (ss, needle) ← readStrings m data count c.needle
    .ok (.arrayVarchar ss, { c with needle })
  | .arrayFd => do
    let (count, c) ← arrayHead m data 4 c
    .ok (.arrayFd (c.fdsIter.take count), { c with fdsIter := c.fdsIter.drop count })
  | .arrayUint => do
    let (ws, c) ← wordsArg m data c
    .ok (.arrayUint ws, c)
  | .arrayInt => do
    let (ws, c) ← wordsArg m data c
    .ok (.arrayInt (ws.map Int32.ofUInt32), c)
  | .arrayF32 => do
    let (ws, c) ← wordsArg m data c
    .ok (.arrayF32 ws, c)

/-- The parse statements of all arguments, one after the other. -/
def writeParseArgs (m : Overflow) (up : Char → String) (p : Protocol) (data : List UInt8) :
    List Arg → Cursor → Outcome Error (List Value × Cursor)
  | [], c => .ok ([], c)
  | arg :: args, c => do
    let (v, c) ← writeParseArg m up p data arg c
    let (vs, c) ← writeParseArgs m up p data args c
    .ok (v :: vs, c)

/-- The statements printed for the return seq of a method that creates an object: on the
server the object is made (`none`: it could not be, and the function returns), on the client
the seq itself becomes a field. -/
def seqParse {O : Type} (m : Overflow) (isServer : Bool)
    (createObject : String → UInt32 → Option O) (data : List UInt8) (returned : String)
    (c : Cursor) : Outcome Error (Option (EventField O) × Cursor) := do
  let (seq, c) ← scalarArg m data c
  if isServer then .ok ((createObject returned seq).map .object, c) else .ok (some (.seq seq), c)

/-- `write_object_data_impl`: the printed `dispatch`. `downcast` is whether the state is of the
type that the object's data are for; with any other state nothing is done. The result is the event
handed to `Dispatch::event`, if any. -/
def dispatch {O : Type} (m : Overflow) (up : Char → String) (p : Protocol) (isServer downcast : Bool)
    (createObject : String → UInt32 → Option O) (methods : List Method) (method : UInt32)
    (data : List UInt8) (fds : List RawFd) : Outcome Error (Option (Event O)) :=
  if downcast then
    match methods[method.toNat]? with
    | none => .ok none
    | some mt =>
      match mt.returns with
      | none => do
        let (vs, _) ← writeParseArgs m up p data mt.args ⟨0, fds⟩
        .ok (some ⟨method, mt.name, vs.map .value⟩)
      | some returned => do
        let (field, c) ← seqParse m isServer createObject data returned ⟨0, fds⟩
        match field with
        | none => .ok none
        | some field => do
          let (vs, _) ← writeParseArgs m up p data mt.args c
          .ok (some ⟨method, mt.name, field :: vs.map .value⟩)
  else .ok none

/-- A state of another type is told nothing. -/
@[simp] theorem dispatch_other {O : Type} (m : Overflow) (up : Char → String) (p : Protocol)
    (isServer : Bool) (createObject : String → UInt32 → Option O) (methods : List Method)
    (method : UInt32) (data : List UInt8) (fds : List RawFd) :
    dispatch m up p isServer false createObject methods method data fds = .ok none :=
  if_neg Bool.false_ne_true

/-! ## The code reports nothing -/

section
open Outcome

variable {m : Overflow} {up : Char → String} {p : Protocol} {data : List UInt8}

theorem infallible_fit (m : Overflow) (panic : Panic) (n : Nat) :
    (m.fit panic n : Outcome Error Nat).Infallible := by
  unfold Overflow.fit
  split
  · trivial
  · cases m <;> trivial

theorem infallible_slice {α : Type} (data : List α) (start stop : Nat) :
    (slice data start stop : Outcome Error (List α)).Infallible := by
  unfold slice
  split <;> trivial

theorem infallible_ushl (m : Overflow) (a b : Nat) :
    (ushl m a b : Outcome Error Nat).Infallible := by
  unfold ushl
  split
  · trivial
  · cases m <;> trivial

theorem infallible_parseVarIntSpanFrom (m : Overflow) : ∀ (bytes : List UInt8) (rolling i : Nat),
    (parseVarIntSpanFrom m bytes rolling i).Infallible
  | [], _, _ => trivial
  | byte :: bytes, rolling, i => by
    refine (infallible_fit ..).bind fun dist => (infallible_ushl ..).bind fun chunk => ?_
    refine (infallible_fit ..).bind fun rolling => (infallible_fit ..).bind fun i => ?_
    split
    · trivial
    · exact infallible_parseVarIntSpanFrom m bytes rolling i

theorem infallible_parseVarInt (m : Overflow) (data : List UInt8) (offset : Nat) :
    (parseVarInt m data offset).Infallible := by
  unfold parseVarInt
  split
  · trivial
  · exact infallible_parseVarIntSpanFrom ..

theorem infallible_readWord (m : Overflow) (data : List UInt8) (needle : Nat) :
    (readWord m data needle).Infallible := by
  refine (infallible_fit ..).bind fun stop => (infallible_slice ..).bind fun bytes => ?_
  split <;> trivial

theorem infallible_readString (m : Overflow) (data : List UInt8) (needle : Nat) :
    (readString m data needle).Infallible :=
  (infallible_parseVarInt ..).bind fun _ => (infallible_fit ..).bind fun _ =>
    (infallible_fit ..).bind fun _ => (infallible_slice ..).bind fun _ => trivial

theorem infallible_readWords (m : Overflow) (data : List UInt8) : ∀ n needle : Nat,
    (readWords m data n needle).Infallible
  | 0, _ => trivial
  | n + 1, _ =>
    (infallible_readWord ..).bind fun _ => (infallible_fit ..).bind fun _ =>
      (infallible_readWords m data n _).bind fun _ => trivial

theorem infallible_readStrings (m : Overflow) (data : List UInt8) : ∀ n needle : Nat,
    (readStrings m data n needle).Infallible
  | 0, _ => trivial
  | n + 1, _ =>
    (infallible_readString ..).bind fun _ => (infallible_readStrings m data n _).bind fun _ => trivial

theorem infallible_arrayHead (m : Overflow) (data : List UInt8) (size : Nat) (c : Cursor) :
    (arrayHead m data size c).Infallible := by
  refine (infallible_fit ..).bind fun _ => (infallible_parseVarInt ..).bind fun _ => ?_
  refine (infallible_fit ..).bind fun _ => Infallible.bind ?_ fun _ => trivial
  unfold withCapacity
  split <;> trivial

theorem infallible_scalarArg (m : Overflow) (data : List UInt8) (c : Cursor) :
    (scalarArg m data c).Infallible :=
  (infallible_fit ..).bind fun _ => (infallible_readWord ..).bind fun _ =>
    (infallible_fit ..).bind fun _ => trivial

theorem infallible_wordsArg (m : Overflow) (data : List UInt8) (c : Cursor) :
    (wordsArg m data c).Infallible :=
  (infallible_arrayHead ..).bind fun _ => (infallible_readWords ..).bind fun _ => trivial

theorem infallible_writeParseArg (arg : Arg) (c : Cursor) :
    (writeParseArg m up p data arg c).Infallible := by
  unfold writeParseArg
  cases arg.argType with
  | varchar =>
    exact (infallible_fit ..).bind fun _ => (infallible_readString ..).bind fun _ => trivial
  | uint | int | f32 => exact (infallible_scalarArg ..).bind fun _ => trivial
  | enum =>
    cases arg.interface with
    | none => trivial
    | some interface =>
      refine (infallible_scalarArg ..).bind fun _ => ?_
      dsimp only
      split <;> trivial
  | fd =>
    refine (infallible_fit ..).bind fun _ => ?_
    split <;> trivial
  | arrayVarchar =>
    exact (infallible_arrayHead ..).bind fun _ => (infallible_readStrings ..).bind fun _ => trivial
  | arrayFd => exact (infallible_arrayHead ..).bind fun _ => trivial
  | arrayUint | arrayInt | arrayF32 => exact (infallible_wordsArg ..).bind fun _ => trivial

theorem infallible_writeParseArgs : ∀ (args : List Arg) (c : Cursor),
    (writeParseArgs m up p data args c).Infallible
  | [], _ => trivial
  | arg :: args, c =>
    (infallible_writeParseArg arg c).bind fun _ =>
      (infallible_writeParseArgs args _).bind fun _ => trivial

/-- **Generated code has no error to report**: it hands out an event, or does nothing, or panics. -/
theorem infallible_dispatch {O : Type} (isServer downcast : Bool)
    (createObject : String → UInt32 → Option O) (methods : List Method) (method : UInt32)
    (fds : List RawFd) :
    (dispatch m up p isServer downcast createObject methods method data fds).Infallible := by
  cases downcast with
  | false =>
    rw [dispatch_other]
    trivial
  | true =>
    rw [dispatch, if_pos rfl]
    split
    · trivial
    · next mt _ =>
      cases mt.returns with
      | none => exact (infallible_writeParseArgs ..).bind fun _ => trivial
      | some returned =>
        refine Infallible.bind ?_ fun r => ?_
        · unfold seqParse
          refine (infallible_scalarArg ..).bind fun _ => ?_
          dsimp only
          split <;> trivial
        · obtain ⟨field, c⟩ := r
          cases field with
          | none => trivial
          | some field => exact (infallible_writeParseArgs ..).bind fun _ => trivial

end

end Hyprwire.Scanner
