import Hyprwire.Core.Accept
import Hyprwire.Lib.Utf8

/-!
# `Core/Trace.lean` — `Message::parse_data`

What the traces print of a message. `parse_data` is a parser of its own: it walks the bytes of a
message with a needle and writes out what it finds. It gives up on a tag it does not know, on a
word that is cut off and on an element of an array that it cannot show; an index or a slice that
is out of range is a panic like any other.

The `while` loop is split as that of `from_bytes` is: `Trace.turn` is one run of the body, which
goes on or breaks, and `Trace.loop` runs it with a budget. `visited` is the history of the needle.
How a float is printed is left open.
-/

namespace Hyprwire

open Rust

/-- `Display for MessageType`. -/
def MessageType.display : MessageType → String
  | sup => "Sup"
  | handshakeBegin => "HandshakeBegin"
  | handshakeAck => "HandshakeAck"
  | handshakeProtocols => "HandshakeProtocols"
  | bindProtocol => "BindProtocol"
  | newObject => "NewObject"
  | fatalProtocolError => "FatalProtocolError"
  | roundtripRequest => "RoundtripRequest"
  | roundtripDone => "RoundtripDone"
  | genericProtocolMessage => "GenericProtocolMessage"

/-- The loop variables of `parse_data`. -/
structure Trace where
  result : String
  first : Bool
  needle : Nat
  -- history
  visited : List Nat

/-- A run of the loop body goes on to the next one, or breaks. -/
inductive Trace.Flow
  | next (t : Trace)
  | stop (t : Trace)

/-- `let Ok(a) = x else { … }`. -/
def okElse {α β : Type} (x : Outcome Error α) (orElse : Outcome Error β)
    (f : α → Outcome Error β) : Outcome Error β :=
  match x with
  | .ok a => f a
  | .err _ => orElse
  | .panic p => .panic p
  | .stall => .stall

namespace Trace

/-! ## The model -/

def push (t : Trace) (s : String) : Trace := { t with result := t.result ++ s }

/-- What stands between two fields. -/
def separate (t : Trace) : Trace := { (if t.first then t else t.push ", ") with first := false }

/-- A string in quotes. -/
def quote (s : String) : String := "\"" ++ s ++ "\""

variable (m : Overflow) (showF32 : UInt32 → String) (data : List UInt8)

/-- `format_primitive_type`: the text of an element, and its length. -/
def formatPrimitiveType (s : List UInt8) (type : MessageMagic) : Outcome Error (String × Nat) :=
  match type with
  | .typeUint => do
    let value ← readU32 m s 0
    .ok (toString value, 4)
  | .typeInt => do
    let value ← readU32 m s 0
    .ok (toString value.toInt32, 4)
  | .typeF32 => do
    let value ← readU32 m s 0
    .ok (showF32 value, 4)
  | .typeFd => .ok ("<fd>", 0)
  | .typeObject => do
    let id ← readU32 m s 0
    let objStr := if id = 0 then "null" else toString id
    .ok ("object: " ++ objStr, 4)
  | .typeVarchar => do
    let (len, intLen) ← parseVarInt m s 0
    let stop ← uadd m intLen len
    let strData ← getBytes s intLen stop
    let value ← Outcome.okOr (Utf8.fromUtf8 strData) .malformedMessage
    let size ← uadd m len intLen
    .ok (quote value, size)
  | _ => .err .malformedMessage

/-- The loop over the elements of an array, `n` of them from the `i`-th on. It breaks at one that
cannot be shown, with the needle where it is. -/
def elements (type : MessageMagic) (els : Nat) : (n i : Nat) → Trace → Outcome Error Trace
  | 0, _, t => .ok t
  | n + 1, i, t => do
    let s ← slice data t.needle data.length
    okElse (formatPrimitiveType m showF32 s type) (.ok (t.push "<malformed>")) fun (text, len) => do
      let needle ← uadd m t.needle len
      let t := { t with needle }.push text
      let t := if i < els - 1 then t.push ", " else t
      elements type els n (i + 1) t

/-- The fields of four bytes. -/
def word (text : UInt32 → String) (t : Trace) : Outcome Error Flow :=
  let t := t.separate
  okElse (readU32 m data t.needle) (.ok (.stop (t.push "<eof>"))) fun value => do
    let t := t.push (text value)
    let needle ← uadd m t.needle 4
    .ok (.next { t with needle })

/-- The text of a string of `len` bytes behind its prefix; they need not be UTF-8. -/
def strText (needle intLen len : Nat) : Outcome Error String :=
  if 0 < len then do
    let start ← uadd m needle intLen
    let stop ← uadd m needle intLen
    let stop ← uadd m stop len
    let strData ← slice data start stop
    .ok (quote (Utf8.fromUtf8Lossy strData))
  else .ok (quote "")

/-- A string. -/
def varchar (t : Trace) : Outcome Error Flow := do
  let t := t.separate
  let (len, intLen) ← parseVarInt m data t.needle
  let text ← strText m data t.needle intLen len
  let d ← uadd m intLen len
  let needle ← uadd m t.needle d
  .ok (.next { t.push text with needle })

/-- An array, with its elements in braces. -/
def array (t : Trace) : Outcome Error Flow :=
  let t := t.separate
  match data[t.needle]? with
  | none => .ok (.stop (t.push "<eof>"))
  | some typeByte =>
    okElse (MessageMagic.tryFrom typeByte) (.ok (.stop (t.push "<malformed>"))) fun thisType => do
      let needle ← uadd m t.needle 1
      let (els, intLen) ← parseVarInt m data needle
      let needle ← uadd m needle intLen
      let t ← elements m showF32 data thisType els els 0 ({ t with needle }.push "\x7b ")
      .ok (.next (t.push " \x7d"))

/-- A field, behind its tag. -/
def field (magic : MessageMagic) (t : Trace) : Outcome Error Flow :=
  match magic with
  | .typeSeq => word m data (fun value => "seq: " ++ toString value) t
  | .typeUint => word m data toString t
  | .typeInt => word m data (fun value => toString value.toInt32) t
  | .typeF32 => word m data showF32 t
  | .typeVarchar => varchar m data t
  | .typeArray => array m showF32 data t
  | .typeObject => word m data (fun id => "object(" ++ toString id ++ ")") t
  | .typeFd => .ok (.next (t.separate.push "<fd>"))
  | .end_ | .typeObjectId => .ok (.next t)

/-- One run of the loop body. -/
def turn (t : Trace) : Outcome Error Flow :=
  match data[t.needle]? with
  | none => .panic .indexOutOfRange
  | some byte =>
    okElse (MessageMagic.tryFrom byte) (.ok (.stop (t.push "<malformed>"))) fun magic => do
      let needle ← uadd m t.needle 1
      field m showF32 data magic { t with needle }

/-- The loop, with a budget of evaluations of its condition. -/
def loop : Nat → Trace → Outcome Error Trace
  | 0, _ => .stall
  | fuel + 1, t =>
    if t.needle < data.length then do
      match ← turn m showF32 data { t with visited := t.visited ++ [t.needle] } with
      | .next t => loop fuel t
      | .stop t => .ok t
    else .ok t

/-- `parse_data` up to the closing parenthesis. -/
def run (type : MessageType) : Outcome Error Trace :=
  loop m showF32 data (data.length + 1) ⟨type.display ++ " ( ", true, 1, []⟩

end Trace

/-- `Message::parse_data`. -/
def parseData (m : Overflow) (showF32 : UInt32 → String) (type : MessageType) (data : List UInt8) :
    Outcome Error String := do
  let t ← Trace.run m showF32 data type
  .ok (t.result ++ " ) ")

/-! ## Where the needle goes

What a run of the body does to the needle, as a function of the bytes alone, and where it does not
survive. This is for a checked build: a length prefix counts for what it is read as there. -/

namespace Trace

variable (data : List UInt8)

/-- The bytes of the element at `p`, if it can be shown. -/
def elementLen (type : MessageMagic) (p : Nat) : Option Nat :=
  match type with
  | .typeUint | .typeInt | .typeF32 | .typeObject => if p + 4 ≤ data.length then some 4 else none
  | .typeFd => some 0
  | .typeVarchar =>
    let start := p + Leb128.span (data.drop p)
    if strEnd data p ≤ data.length ∧
        (Utf8.fromUtf8 ((data.drop start).take (lenAt data p))).isSome then
      some (Leb128.span (data.drop p) + lenAt data p)
    else none
  | _ => none

/-- The element at `p` is a string whose prefix is overlong, or makes its length overflow. -/
def ElementTrips (type : MessageMagic) (p : Nat) : Prop :=
  type = .typeVarchar ∧
    (HostileLen data p ∨ 2 ^ 64 ≤ Leb128.span (data.drop p) + lenAt data p)

/-- Where the needle is behind `n` elements from `p` on: at the first that cannot be shown. -/
def elementsEnd (type : MessageMagic) : (n p : Nat) → Nat
  | 0, p => p
  | n + 1, p =>
    match elementLen data type p with
    | some k => elementsEnd type n (p + k)
    | none => p

/-- One of the `n` elements trips, and those before it are shown. -/
def ElementsTrip (type : MessageMagic) : (n p : Nat) → Prop
  | 0, _ => False
  | n + 1, p =>
    ElementTrips data type p ∨
      ∃ k, elementLen data type p = some k ∧ ElementsTrip type n (p + k)

/-- Where the needle is behind an array with its length prefix at `p`. -/
def arrayEnd (type : MessageMagic) (p : Nat) : Nat :=
  elementsEnd data type (lenAt data p) (p + Leb128.span (data.drop p))

/-- The length prefix at `p` is overlong, or one of the elements behind it trips. -/
def ArrayTrips (type : MessageMagic) (p : Nat) : Prop :=
  HostileLen data p ∨ ElementsTrip data type (lenAt data p) (p + Leb128.span (data.drop p))

/-- The string with its prefix at `p` is not all there, or its prefix is overlong. -/
def StrTrips (p : Nat) : Prop :=
  HostileLen data p ∨ (0 < lenAt data p ∧ data.length < strEnd data p)

/-- Where the next run of the body starts behind a tag that is followed by `p`; `none` where the
loop breaks. -/
def fieldEnd (magic : MessageMagic) (p : Nat) : Option Nat :=
  match magic with
  | .typeUint | .typeInt | .typeF32 | .typeObject | .typeSeq =>
    if p + 4 ≤ data.length then some (p + 4) else none
  | .typeVarchar => some (strEnd data p)
  | .typeArray =>
    match data[p]?.map MessageMagic.tryFrom with
    | some (.ok type) => some (arrayEnd data type (p + 1))
    | _ => none
  | .typeFd | .end_ | .typeObjectId => some p

/-- What stands behind the tag is a string or an array that trips. -/
def FieldTrips (magic : MessageMagic) (p : Nat) : Prop :=
  (magic = .typeVarchar ∧ StrTrips data p) ∨
  (magic = .typeArray ∧
    ∃ type : MessageMagic, data[p]? = some type.toU8 ∧ ArrayTrips data type (p + 1))

/-- Where the run of the body that starts at `p` leads. -/
def next (p : Nat) : Option Nat :=
  match data[p]?.map MessageMagic.tryFrom with
  | some (.ok magic) => fieldEnd data magic (p + 1)
  | _ => none

/-- The field at `p` trips. -/
def Trips (p : Nat) : Prop :=
  ∃ magic : MessageMagic, data[p]? = some magic.toU8 ∧ FieldTrips data magic (p + 1)

/-- From `p` on the needle comes to a field that trips. -/
inductive Derails : Nat → Prop
  | here (p : Nat) (h : Trips data p) : Derails p
  | later (p q : Nat) (hnext : next data p = some q) (h : Derails q) : Derails p

/-- Where the needle is at the head of each run of the body. -/
def positions : (fuel p : Nat) → List Nat
  | 0, _ => []
  | fuel + 1, p =>
    if p < data.length then
      p :: match next data p with
        | some q => positions fuel q
        | none => []
    else []

end Trace

end Hyprwire
