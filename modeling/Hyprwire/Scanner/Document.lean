import Hyprwire.Scanner.Protocol

/-!
# `Scanner/Document.lean` — `parse_protocol`

A protocol definition is XML, read through `quick_xml` as a stream of events. `parse_protocol`
walks the stream with loops written by hand, one for each kind of element that has children. Each
loop tells `Empty` (`<x/>`), `Start` and `End` apart on its own and ends at any `End`; what it does
not know it drops.

The stream is a list here, and `Eof` is what is read behind its end. `unescape` is the one function
of `quick_xml` the loops call on what they read, and a parameter. A loop has a budget of turns: the
number of events there are, each turn reads one at least.
-/

namespace Hyprwire.Scanner.Parse

open Rust

/-! ## The parsed definition -/

/-- `parse::Arg`, with the summary. -/
structure Arg extends Scanner.Arg where
  summary : Option String
  deriving DecidableEq, Repr

/-- `parse::Description`. -/
structure Description where
  summary : Option String
  body : Option String
  deriving DecidableEq, Repr

/-- `parse::Method`. -/
structure Method where
  name : String
  args : List Arg
  returns : Option String
  destructor : Bool
  description : Option Description
  deriving DecidableEq, Repr

/-- `parse::Object`. -/
structure Object where
  name : String
  version : UInt32
  c2s : List Method
  s2c : List Method
  description : Option Description
  deriving DecidableEq, Repr

/-- `parse::EnumValue`. -/
structure EnumValue extends Scanner.EnumValue where
  description : Option String
  deriving DecidableEq, Repr

/-- `parse::Enum`. -/
structure Enum where
  name : String
  values : List EnumValue
  deriving DecidableEq, Repr

/-- `parse::Protocol`. -/
structure Protocol where
  name : String
  version : UInt32
  objects : List Object
  enums : List Enum
  copyright : Option String
  deriving DecidableEq, Repr

/-! ## Events -/

/-- The attributes of a tag, in the order they stand in. -/
abbrev Attrs := List (String × String)

/-- `quick_xml::events::Event`. -/
inductive Event
  | start (name : String) (attrs : Attrs)
  | empty (name : String) (attrs : Attrs)
  | end_ (name : String)
  | text (content : String)
  | cData (content : String)
  | comment
  | decl
  | pi
  | docType
  | eof
  deriving DecidableEq, Repr

/-- What `parse_protocol` fails with: a text of its own, or an error of `str::parse` or of
`quick_xml`. -/
inductive Failure
  | message (text : String)
  | parseInt (text : String)
  | xml
  deriving DecidableEq, Repr

/-- `Reader::read_event`, with the events behind the one that was read. -/
def readEvent : List Event → Event × List Event
  | [] => (.eof, [])
  | e :: events => (e, events)

/-- `Reader::read_to_end`: the events behind the end tag, elements of the same name inside it passed
over. -/
def readToEnd (name : String) : Nat → List Event → Outcome Failure (List Event)
  | _, [] => .err .xml
  | depth, e :: events =>
    match e with
    | .start n _ => readToEnd name (if n = name then depth + 1 else depth) events
    | .end_ n =>
      if n = name then
        match depth with
        | 0 => .ok events
        | depth + 1 => readToEnd name depth events
      else readToEnd name depth events
    | .eof => .err .xml
    | _ => readToEnd name depth events

/-! ## Attributes -/

/-- `attr_str`. -/
def attrStr (attrs : Attrs) (key : String) : Option String :=
  (attrs.find? fun a => a.1 = key).map Prod.snd

/-- `attr_required`. -/
def attrRequired (attrs : Attrs) (key : String) : Outcome Failure String :=
  Outcome.okOr (attrStr attrs key) (.message s!"missing attribute '{key}'")

/-- The digits of `str::parse::<u32>`, behind those read so far. -/
def parseDigits : List Char → Nat → Outcome Failure Nat
  | [], n => .ok n
  | c :: cs, n =>
    if c.isDigit then
      let n := 10 * n + (c.toNat - '0'.toNat)
      if 2 ^ 32 ≤ n then .err (.parseInt "number too large to fit in target type")
      else parseDigits cs n
    else .err (.parseInt "invalid digit found in string")

/-- `str::parse::<u32>`: a sign may stand in front of the digits. -/
def parseU32 (s : String) : Outcome Failure UInt32 :=
  match s.toList with
  | [] => .err (.parseInt "cannot parse integer from empty string")
  | ['+'] => .err (.parseInt "invalid digit found in string")
  | '+' :: cs => do
    let n ← parseDigits cs 0
    .ok (UInt32.ofNat n)
  | cs => do
    let n ← parseDigits cs 0
    .ok (UInt32.ofNat n)

/-- `parse_arg_type`. -/
def parseArgType (typeStr : String) : Outcome Failure ArgType :=
  match typeStr with
  | "varchar" => .ok .varchar
  | "fd" => .ok .fd
  | "uint" => .ok .uint
  | "int" => .ok .int
  | "f32" => .ok .f32
  | "enum" => .ok .enum
  | "array varchar" => .ok .arrayVarchar
  | "array fd" => .ok .arrayFd
  | "array uint" => .ok .arrayUint
  | "array int" => .ok .arrayInt
  | "array f32" => .ok .arrayF32
  | other => .err (.message s!"unknown arg type: {other}")

/-- The argument of a tag: what `parse_method` does for `Empty` and `Start` alike. -/
def parseArg (attrs : Attrs) : Outcome Failure Arg := do
  let name ← attrRequired attrs "name"
  let argTypeStr ← attrRequired attrs "type"
  let argType ← parseArgType argTypeStr
  let interface := attrStr attrs "interface"
  if argType = .enum ∧ interface = none then
    .err (.message s!"enum arg '{name}' is missing interface")
  else .ok { name, argType, interface, summary := attrStr attrs "summary" }

/-! ## Texts -/

/-- `char::is_whitespace`. -/
def isWhitespace (c : Char) : Bool :=
  let n := c.toNat
  (9 ≤ n ∧ n ≤ 13) ∨ n = 0x20 ∨ n = 0x85 ∨ n = 0xA0 ∨ n = 0x1680 ∨ (0x2000 ≤ n ∧ n ≤ 0x200A) ∨
    n = 0x2028 ∨ n = 0x2029 ∨ n = 0x202F ∨ n = 0x205F ∨ n = 0x3000

/-- `s.trim().is_empty()`. -/
def isBlank (s : String) : Bool := s.toList.all isWhitespace

variable (unescape : String → Outcome Failure String)

/-- `read_text_to_end`, with what it has read so far. -/
def readTextToEnd (tag : String) : List Event → String → Outcome Failure (String × List Event)
  | [], _ => .err (.message "unexpected EOF in copyright")
  | e :: events, out =>
    match e with
    | .text content => do
      let t ← unescape content
      readTextToEnd tag events (out ++ t)
    | .cData content => readTextToEnd tag events (out ++ content)
    | .end_ n => if n = tag then .ok (out, events) else readTextToEnd tag events out
    | .eof => .err (.message "unexpected EOF in copyright")
    | _ => readTextToEnd tag events out

/-- `parse_description`. -/
def parseDescription (attrs : Attrs) (events : List Event) :
    Outcome Failure (Description × List Event) := do
  let (body, events) ← readTextToEnd unescape "description" events ""
  .ok (⟨attrStr attrs "summary", if isBlank body then none else some body⟩, events)

/-! ## Methods -/

/-- The loop of `parse_method`, with the children it has read. -/
def methodLoop : Nat → List Event → Method → Outcome Failure (Method × List Event)
  | 0, _, _ => .stall
  | fuel + 1, events, mt =>
    match readEvent events with
    | (.empty tag attrs, events) =>
      if tag = "arg" then do
        let arg ← parseArg attrs
        methodLoop fuel events { mt with args := mt.args ++ [arg] }
      else if tag = "returns" then do
        let returns ← attrRequired attrs "iface"
        methodLoop fuel events { mt with returns := some returns }
      else methodLoop fuel events mt
    | (.start tag attrs, events) =>
      if tag = "description" then do
        let (description, events) ← parseDescription unescape attrs events
        methodLoop fuel events { mt with description := some description }
      else if tag = "arg" then do
        let arg ← parseArg attrs
        let events ← readToEnd tag 0 events
        methodLoop fuel events { mt with args := mt.args ++ [arg] }
      else do
        let events ← readToEnd tag 0 events
        methodLoop fuel events mt
    | (.end_ _, events) => .ok (mt, events)
    | (.eof, _) => .err (.message "unexpected EOF in method")
    | (_, events) => methodLoop fuel events mt

/-- `parse_method`. -/
def parseMethod (attrs : Attrs) (events : List Event) : Outcome Failure (Method × List Event) := do
  let name ← attrRequired attrs "name"
  let destructor := attrStr attrs "destructor" = some "true"
  methodLoop unescape (events.length + 1) events
    { name, args := [], returns := none, destructor, description := none }

/-! ## Objects, enums, protocols -/

/-- The loop over the children of an object. -/
def objectLoop : Nat → List Event → Object → Outcome Failure (Object × List Event)
  | 0, _, _ => .stall
  | fuel + 1, events, o =>
    match readEvent events with
    | (.start tag attrs, events) =>
      if tag = "description" then do
        let (description, events) ← parseDescription unescape attrs events
        objectLoop fuel events { o with description := some description }
      else if tag = "c2s" then do
        let (mt, events) ← parseMethod unescape attrs events
        objectLoop fuel events { o with c2s := o.c2s ++ [mt] }
      else if tag = "s2c" then do
        let (mt, events) ← parseMethod unescape attrs events
        objectLoop fuel events { o with s2c := o.s2c ++ [mt] }
      else do
        let events ← readToEnd tag 0 events
        objectLoop fuel events o
    | (.end_ _, events) => .ok (o, events)
    | (.eof, _) => .err (.message "unexpected EOF in object")
    | (_, events) => objectLoop fuel events o

/-- The value of a tag. -/
def parseValue (attrs : Attrs) : Outcome Failure EnumValue := do
  let idxStr ← attrRequired attrs "idx"
  let idx ← parseU32 idxStr
  let name ← attrRequired attrs "name"
  .ok { name, idx, description := attrStr attrs "description" }

/-- The loop over the children of an enum. `Empty` and `Start` are treated alike, and the `End` of
a value ends it as well. -/
def enumLoop : Nat → List Event → Enum → Outcome Failure (Enum × List Event)
  | 0, _, _ => .stall
  | fuel + 1, events, en =>
    match readEvent events with
    | (.empty tag attrs, events) | (.start tag attrs, events) =>
      if tag = "value" then do
        let value ← parseValue attrs
        enumLoop fuel events { en with values := en.values ++ [value] }
      else enumLoop fuel events en
    | (.end_ _, events) => .ok (en, events)
    | (.eof, _) => .err (.message "unexpected EOF in enum")
    | (_, events) => enumLoop fuel events en

/-- The outer loop of `parse_protocol`: it does not count tags, whatever it does not know is
passed over, and only the end of the stream ends it. -/
def protocolLoop : Nat → List Event → Protocol → Outcome Failure Protocol
  | 0, _, _ => .stall
  | fuel + 1, events, p =>
    match readEvent events with
    | (.start tag attrs, events) =>
      if tag = "protocol" then do
        let name ← attrRequired attrs "name"
        let versionStr ← attrRequired attrs "version"
        let version ← parseU32 versionStr
        protocolLoop fuel events { p with name, version }
      else if tag = "copyright" then do
        let (text, events) ← readTextToEnd unescape tag events ""
        protocolLoop fuel events
          { p with copyright := if isBlank text then p.copyright else some text }
      else if tag = "object" then do
        let name ← attrRequired attrs "name"
        let versionStr ← attrRequired attrs "version"
        let version ← parseU32 versionStr
        let (o, events) ← objectLoop unescape (events.length + 1) events
          { name, version, c2s := [], s2c := [], description := none }
        protocolLoop fuel events { p with objects := p.objects ++ [o] }
      else if tag = "enum" then do
        let name ← attrRequired attrs "name"
        let (en, events) ← enumLoop (events.length + 1) events { name, values := [] }
        protocolLoop fuel events { p with enums := p.enums ++ [en] }
      else protocolLoop fuel events p
    | (.eof, _) => .ok p
    | (_, events) => protocolLoop fuel events p

/-- `parse_protocol`. -/
def parseProtocol (events : List Event) : Outcome Failure Protocol :=
  protocolLoop unescape (events.length + 1) events
    { name := "", version := 0, objects := [], enums := [], copyright := none }

/-! ## What the generator reads

The generated bindings depend on names, types and the order of the methods; texts become
comments. -/

def Method.toMethod (mt : Method) : Scanner.Method where
  name := mt.name
  args := mt.args.map Arg.toArg
  returns := mt.returns
  destructor := mt.destructor

def Object.toObject (o : Object) : Scanner.Object where
  name := o.name
  version := o.version
  c2s := o.c2s.map Method.toMethod
  s2c := o.s2c.map Method.toMethod

def Protocol.toProtocol (p : Protocol) : Scanner.Protocol where
  name := p.name
  version := p.version
  objects := p.objects.map Object.toObject
  enums := p.enums.map fun en => ⟨en.name, en.values.map EnumValue.toEnumValue⟩

/-! ## Numbers that were written -/

theorem le_ofDigitChars (cs : List Char) (n : Nat) : n ≤ Nat.ofDigitChars 10 cs n := by
  induction cs generalizing n with
  | nil => exact Nat.le_of_eq Nat.ofDigitChars_nil.symm
  | cons c cs ih =>
    rw [Nat.ofDigitChars_cons]
    exact Nat.le_trans (by omega) (ih (10 * n + (c.toNat - '0'.toNat)))

theorem parseDigits_eq {cs : List Char} (hdigits : ∀ c ∈ cs, c.isDigit = true) (n : Nat)
    (hlt : Nat.ofDigitChars 10 cs n < 2 ^ 32) :
    parseDigits cs n = .ok (Nat.ofDigitChars 10 cs n) := by
  induction cs generalizing n with
  | nil => rw [Nat.ofDigitChars_nil, parseDigits]
  | cons c cs ih =>
    rw [Nat.ofDigitChars_cons] at hlt ⊢
    have hle := le_ofDigitChars cs (10 * n + (c.toNat - '0'.toNat))
    rw [parseDigits, if_pos (hdigits c (List.mem_cons_self ..))]
    simp only []
    rw [if_neg (by omega), ih (fun d hd => hdigits d (List.mem_cons_of_mem c hd)) _ hlt]

/-- A number in decimal is read back. -/
theorem parseU32_repr (v : UInt32) : parseU32 v.toNat.repr = .ok v := by
  have hlist : v.toNat.repr.toList = Nat.toDigits 10 v.toNat := Nat.toList_repr
  have hdigits : ∀ c ∈ Nat.toDigits 10 v.toNat, c.isDigit = true := fun c hc =>
    Nat.isDigit_of_mem_toDigits (by decide) (by decide) hc
  have hparsed : parseDigits (Nat.toDigits 10 v.toNat) 0 = .ok v.toNat := by
    have hvalue : Nat.ofDigitChars 10 (Nat.toDigits 10 v.toNat) 0 = v.toNat :=
      Nat.ofDigitChars_ten_toDigits
    rw [parseDigits_eq hdigits 0 (by rw [hvalue]; exact v.toNat_lt), hvalue]
  rw [parseU32, hlist]
  cases hcs : Nat.toDigits 10 v.toNat with
  | nil => exact absurd hcs Nat.toDigits_ne_nil
  | cons c cs =>
    have hsign : c ≠ '+' := by
      rintro rfl
      have := hdigits '+' (by rw [hcs]; exact List.mem_cons_self ..)
      cases this
    rw [hcs] at hparsed
    split
    · next h => cases h
    · next h => exact absurd (List.cons.inj h).1 hsign
    · next h => exact absurd (List.cons.inj h).1 hsign
    · rw [hparsed, Outcome.ok_bind, UInt32.ofNat_toNat]

end Hyprwire.Scanner.Parse
