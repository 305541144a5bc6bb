import Hyprwire.Lib.History
import Hyprwire.Scanner.Document

/-!
# `Scanner/Rendering.lean` — the ways to write a definition down

A `Rendering` is a definition as it may stand in a file: every element with its attributes in some
order, the childless ones as `<x/>` or as `<x></x>`, and space and comments between them. It says
which definition it renders (`Rendering.protocol`) and which events a reader gets
(`Rendering.events`).

`parse_protocol` does not treat the two spellings alike. `Rendering.seen` is what it makes of a
rendering, always without an error, and `parse_rendering_iff` says when that is the definition: no
element that may have children is written as `<x/>`, no `returns` as a pair, and of the values of
an enum at most the last.
-/

namespace Hyprwire.Scanner.Parse

open Rust

/-! ## Elements -/

/-- White space of XML. -/
def isXmlSpace (c : Char) : Bool := c = ' ' ∨ c = '\t' ∨ c = '\n' ∨ c = '\r'

/-- What stands between elements. -/
inductive Filler
  | space (s : String) (blank : s.toList.all isXmlSpace = true)
  | comment

def Filler.event : Filler → Event
  | .space s _ => .text s
  | .comment => .comment

/-- How an element without children is written. -/
inductive Form
  | selfClosing
  | pair (inside : List Filler)

def Form.isSelfClosing : Form → Bool
  | .selfClosing => true
  | .pair _ => false

def Form.events (tag : String) (attrs : Attrs) : Form → List Event
  | .selfClosing => [.empty tag attrs]
  | .pair inside => .start tag attrs :: (inside.map Filler.event ++ [.end_ tag])

/-- An element that may have children: `none` is `<x/>`. -/
def bodyEvents {α : Type} (events : α → List Event) (tag : String) (attrs : Attrs) :
    Option (List α) → List Event
  | none => [.empty tag attrs]
  | some children => .start tag attrs :: (children.flatMap events ++ [.end_ tag])

/-- Text that needs no escaping, and is not blank. -/
structure Plain (s : String) : Prop where
  bare : '&' ∉ s.toList ∧ '<' ∉ s.toList
  notBlank : isBlank s = false

/-- The `type` attribute of an argument. -/
def argTypeStr : ArgType → String
  | .varchar => "varchar"
  | .fd => "fd"
  | .uint => "uint"
  | .int => "int"
  | .f32 => "f32"
  | .enum => "enum"
  | .arrayVarchar => "array varchar"
  | .arrayFd => "array fd"
  | .arrayUint => "array uint"
  | .arrayInt => "array int"
  | .arrayF32 => "array f32"

/-- `<arg/>`. -/
structure ArgTag where
  arg : Arg
  attrs : Attrs
  form : Form
  name : attrStr attrs "name" = some arg.name
  type : attrStr attrs "type" = some (argTypeStr arg.argType)
  interface : attrStr attrs "interface" = arg.interface
  summary : attrStr attrs "summary" = arg.summary
  enum : arg.argType = .enum → arg.interface ≠ none

/-- `<returns/>`. -/
structure ReturnsTag where
  iface : String
  attrs : Attrs
  form : Form
  value : attrStr attrs "iface" = some iface

/-- `<description/>`, or a description with a text. -/
structure DescriptionTag where
  description : Description
  attrs : Attrs
  selfClosing : Bool
  summary : attrStr attrs "summary" = description.summary
  childless : selfClosing = true → description.body = none
  plain : ∀ body, description.body = some body → Plain body

def DescriptionTag.events (d : DescriptionTag) : List Event :=
  if d.selfClosing then [.empty "description" d.attrs]
  else .start "description" d.attrs ::
    (d.description.body.toList.map .text ++ [.end_ "description"])

/-- `<value/>`. -/
structure ValueTag where
  value : EnumValue
  attrs : Attrs
  form : Form
  name : attrStr attrs "name" = some value.name
  idx : attrStr attrs "idx" = some value.idx.toNat.repr
  description : attrStr attrs "description" = value.description

/-! ### Methods -/

inductive MethodChild
  | filler (f : Filler)
  | description (d : DescriptionTag)
  | arg (a : ArgTag)
  | returns (r : ReturnsTag)

namespace MethodChild

def events : MethodChild → List Event
  | filler f => [f.event]
  | description d => d.events
  | arg a => a.form.events "arg" a.attrs
  | returns r => r.form.events "returns" r.attrs

def description? : MethodChild → Option DescriptionTag
  | description d => some d
  | _ => none

def arg? : MethodChild → Option ArgTag
  | arg a => some a
  | _ => none

def returns? : MethodChild → Option ReturnsTag
  | returns r => some r
  | _ => none

end MethodChild

/-- `<c2s>` or `<s2c>`. -/
structure MethodTag where
  name : String
  destructor : Bool
  attrs : Attrs
  body : Option (List MethodChild)
  nameAttr : attrStr attrs "name" = some name
  destructorAttr : attrStr attrs "destructor" = some "true" ↔ destructor = true
  oneDescription : ((body.getD []).filterMap MethodChild.description?).length ≤ 1
  oneReturns : ((body.getD []).filterMap MethodChild.returns?).length ≤ 1

namespace MethodTag

def children (t : MethodTag) : List MethodChild := t.body.getD []

def descriptions (t : MethodTag) : List DescriptionTag :=
  t.children.filterMap MethodChild.description?
def args (t : MethodTag) : List ArgTag := t.children.filterMap MethodChild.arg?
def returns (t : MethodTag) : List ReturnsTag := t.children.filterMap MethodChild.returns?

def events (tag : String) (t : MethodTag) : List Event :=
  bodyEvents MethodChild.events tag t.attrs t.body

/-- The method that is rendered. -/
def method (t : MethodTag) : Method where
  name := t.name
  args := t.args.map ArgTag.arg
  returns := (t.returns.map ReturnsTag.iface).head?
  destructor := t.destructor
  description := (t.descriptions.map DescriptionTag.description).head?

end MethodTag

/-! ### Objects -/

inductive ObjectChild
  | filler (f : Filler)
  | description (d : DescriptionTag)
  | c2s (t : MethodTag)
  | s2c (t : MethodTag)

namespace ObjectChild

def events : ObjectChild → List Event
  | filler f => [f.event]
  | description d => d.events
  | c2s t => t.events "c2s"
  | s2c t => t.events "s2c"

def description? : ObjectChild → Option DescriptionTag
  | description d => some d
  | _ => none

def c2s? : ObjectChild → Option MethodTag
  | c2s t => some t
  | _ => none

def s2c? : ObjectChild → Option MethodTag
  | s2c t => some t
  | _ => none

end ObjectChild

/-- `<object>`. -/
structure ObjectTag where
  name : String
  version : UInt32
  attrs : Attrs
  body : Option (List ObjectChild)
  nameAttr : attrStr attrs "name" = some name
  versionAttr : attrStr attrs "version" = some version.toNat.repr
  oneDescription : ((body.getD []).filterMap ObjectChild.description?).length ≤ 1

namespace ObjectTag

def children (t : ObjectTag) : List ObjectChild := t.body.getD []

def descriptions (t : ObjectTag) : List DescriptionTag :=
  t.children.filterMap ObjectChild.description?
def c2s (t : ObjectTag) : List MethodTag := t.children.filterMap ObjectChild.c2s?
def s2c (t : ObjectTag) : List MethodTag := t.children.filterMap ObjectChild.s2c?

def events (t : ObjectTag) : List Event := bodyEvents ObjectChild.events "object" t.attrs t.body

/-- The object that is rendered: its methods in the order of the document. -/
def object (t : ObjectTag) : Object where
  name := t.name
  version := t.version
  c2s := t.c2s.map MethodTag.method
  s2c := t.s2c.map MethodTag.method
  description := (t.descriptions.map DescriptionTag.description).head?

end ObjectTag

/-! ### Enums -/

inductive EnumChild
  | filler (f : Filler)
  | value (v : ValueTag)

namespace EnumChild

def events : EnumChild → List Event
  | filler f => [f.event]
  | value v => v.form.events "value" v.attrs

def value? : EnumChild → Option ValueTag
  | value v => some v
  | _ => none

end EnumChild

/-- `<enum>`. -/
structure EnumTag where
  name : String
  attrs : Attrs
  body : Option (List EnumChild)
  nameAttr : attrStr attrs "name" = some name

namespace EnumTag

def children (t : EnumTag) : List EnumChild := t.body.getD []
def values (t : EnumTag) : List ValueTag := t.children.filterMap EnumChild.value?

def events (t : EnumTag) : List Event := bodyEvents EnumChild.events "enum" t.attrs t.body

/-- The enum that is rendered. -/
def enum (t : EnumTag) : Enum where
  name := t.name
  values := t.values.map ValueTag.value

end EnumTag

/-! ### Protocols -/

/-- `<copyright>`, with its text. -/
structure CopyrightTag where
  text : String
  attrs : Attrs
  plain : Plain text

inductive ProtocolChild
  | filler (f : Filler)
  | copyright (c : CopyrightTag)
  | object (t : ObjectTag)
  | enum (t : EnumTag)

namespace ProtocolChild

def events : ProtocolChild → List Event
  | filler f => [f.event]
  | copyright c => [.start "copyright" c.attrs, .text c.text, .end_ "copyright"]
  | object t => t.events
  | enum t => t.events

def copyright? : ProtocolChild → Option CopyrightTag
  | copyright c => some c
  | _ => none

def object? : ProtocolChild → Option ObjectTag
  | object t => some t
  | _ => none

def enum? : ProtocolChild → Option EnumTag
  | enum t => some t
  | _ => none

end ProtocolChild

/-- **A rendering of a definition**: a whole document. -/
structure Rendering where
  declared : Bool
  before : List Filler
  name : String
  version : UInt32
  attrs : Attrs
  body : Option (List ProtocolChild)
  after : List Filler
  nameAttr : attrStr attrs "name" = some name
  versionAttr : attrStr attrs "version" = some version.toNat.repr
  oneCopyright : ((body.getD []).filterMap ProtocolChild.copyright?).length ≤ 1

namespace Rendering

def children (r : Rendering) : List ProtocolChild := r.body.getD []

def copyrights (r : Rendering) : List CopyrightTag :=
  r.children.filterMap ProtocolChild.copyright?
def objects (r : Rendering) : List ObjectTag := r.children.filterMap ProtocolChild.object?
def enums (r : Rendering) : List EnumTag := r.children.filterMap ProtocolChild.enum?

/-- What is read of it. -/
def events (r : Rendering) : List Event :=
  (if r.declared then [.decl] else []) ++ r.before.map Filler.event ++
    bodyEvents ProtocolChild.events "protocol" r.attrs r.body ++ r.after.map Filler.event

/-- **What is rendered**: the objects and the enums in the order of the document. -/
def protocol (r : Rendering) : Protocol where
  name := r.name
  version := r.version
  objects := r.objects.map ObjectTag.object
  enums := r.enums.map EnumTag.enum
  copyright := (r.copyrights.map CopyrightTag.text).head?

end Rendering

/-! ## What is read -/

/-- The last of a list, or what was there before. -/
def last {α : Type} (before : Option α) (xs : List α) : Option α :=
  xs.foldl (fun _ x => some x) before

/-- The values of an enum up to the first that is written as a pair. -/
def upToPair : List ValueTag → List ValueTag
  | [] => []
  | v :: vs => if v.form.isSelfClosing then v :: upToPair vs else [v]

def MethodTag.seen (t : MethodTag) : Method where
  name := t.name
  args := t.args.map ArgTag.arg
  returns := last none ((t.returns.filter fun r => r.form.isSelfClosing).map ReturnsTag.iface)
  destructor := t.destructor
  description :=
    last none ((t.descriptions.filter fun d => !d.selfClosing).map DescriptionTag.description)

def ObjectTag.seen (t : ObjectTag) : Object where
  name := t.name
  version := t.version
  c2s := (t.c2s.filter fun t => t.body.isSome).map MethodTag.seen
  s2c := (t.s2c.filter fun t => t.body.isSome).map MethodTag.seen
  description :=
    last none ((t.descriptions.filter fun d => !d.selfClosing).map DescriptionTag.description)

def EnumTag.seen (t : EnumTag) : Enum where
  name := t.name
  values := (upToPair t.values).map ValueTag.value

/-- **What `parse_protocol` makes of a rendering.** -/
def Rendering.seen (r : Rendering) : Protocol :=
  if r.body.isSome then
    { name := r.name
      version := r.version
      objects := (r.objects.filter fun t => t.body.isSome).map ObjectTag.seen
      enums := (r.enums.filter fun t => t.body.isSome).map EnumTag.seen
      copyright := last none (r.copyrights.map CopyrightTag.text) }
  else { name := "", version := 0, objects := [], enums := [], copyright := none }

/-! ## The condition -/

/-- A method that is kept: it is not self-closing, nor is its description, and its `returns` is no
pair. -/
structure MethodTag.Kept (t : MethodTag) : Prop where
  body : t.body.isSome = true
  descriptions : ∀ d ∈ t.descriptions, d.selfClosing = false
  returns : ∀ r ∈ t.returns, r.form.isSelfClosing = true

/-- An object that is kept, with its methods and its description. -/
structure ObjectTag.Kept (t : ObjectTag) : Prop where
  body : t.body.isSome = true
  descriptions : ∀ d ∈ t.descriptions, d.selfClosing = false
  c2s : ∀ mt ∈ t.c2s, mt.Kept
  s2c : ∀ mt ∈ t.s2c, mt.Kept

/-- An enum that is kept: no value but the last is a pair. -/
structure EnumTag.Kept (t : EnumTag) : Prop where
  body : t.body.isSome = true
  values : ∀ v ∈ t.values.dropLast, v.form.isSelfClosing = true

/-- **The condition.** A protocol without children may be self-closing if its name is empty and its
version 0. -/
structure Rendering.Kept (r : Rendering) : Prop where
  body : r.body.isSome = true ∨ r.name = "" ∧ r.version = 0
  objects : ∀ t ∈ r.objects, t.Kept
  enums : ∀ t ∈ r.enums, t.Kept

/-! ## Every definition can be rendered

An enum argument names its enum, and a text is not blank and needs no escaping: that is all that is
asked of a definition. -/

def Arg.Sound (a : Arg) : Prop := a.argType = .enum → a.interface ≠ none

def Description.Sound (d : Description) : Prop := ∀ body, d.body = some body → Plain body

structure Method.Sound (mt : Method) : Prop where
  args : ∀ a ∈ mt.args, a.Sound
  description : ∀ d ∈ mt.description, d.Sound

structure Object.Sound (o : Object) : Prop where
  c2s : ∀ mt ∈ o.c2s, mt.Sound
  s2c : ∀ mt ∈ o.s2c, mt.Sound
  description : ∀ d ∈ o.description, d.Sound

structure Protocol.Sound (p : Protocol) : Prop where
  objects : ∀ o ∈ p.objects, o.Sound
  copyright : ∀ text ∈ p.copyright, Plain text

/-- An attribute that may be missing. -/
def optional (key : String) (v : Option String) : Attrs := v.toList.map fun v => (key, v)

theorem attrStr_cons_ne {key k v : String} (attrs : Attrs) (h : k ≠ key) :
    attrStr ((k, v) :: attrs) key = attrStr attrs key := by
  simp [attrStr, h]

theorem attrStr_cons_eq {key v : String} (attrs : Attrs) :
    attrStr ((key, v) :: attrs) key = some v := by
  simp [attrStr]

theorem attrStr_optional (key : String) (v : Option String) : attrStr (optional key v) key = v := by
  cases v <;> simp [attrStr, optional]

/-- Behind an attribute of another name, that may be missing. -/
theorem attrStr_optional_ne {key k : String} (v : Option String) (attrs : Attrs) (h : k ≠ key) :
    attrStr (optional k v ++ attrs) key = attrStr attrs key := by
  cases v <;> simp [attrStr, optional, h]

theorem attrStr_optional_append {key k : String} (v w : Option String) (h : k ≠ key) :
    attrStr (optional key v ++ optional k w) key = v := by
  cases v <;> cases w <;> simp [attrStr, optional, h]

def ArgTag.of (a : Arg) (ha : a.Sound) : ArgTag where
  arg := a
  attrs := ("name", a.name) :: ("type", argTypeStr a.argType) ::
    (optional "interface" a.interface ++ optional "summary" a.summary)
  form := .selfClosing
  name := attrStr_cons_eq _
  type := by rw [attrStr_cons_ne _ (by decide), attrStr_cons_eq]
  interface := by
    rw [attrStr_cons_ne _ (by decide), attrStr_cons_ne _ (by decide),
      attrStr_optional_append _ _ (by decide)]
  summary := by
    rw [attrStr_cons_ne _ (by decide), attrStr_cons_ne _ (by decide),
      attrStr_optional_ne _ _ (by decide), attrStr_optional]
  enum := ha

def ReturnsTag.of (iface : String) : ReturnsTag where
  iface
  attrs := [("iface", iface)]
  form := .selfClosing
  value := attrStr_cons_eq _

def DescriptionTag.of (d : Description) (hd : d.Sound) : DescriptionTag where
  description := d
  attrs := optional "summary" d.summary
  selfClosing := false
  summary := attrStr_optional _ _
  childless := nofun
  plain := hd

def ValueTag.of (v : EnumValue) : ValueTag where
  value := v
  attrs := ("name", v.name) :: ("idx", v.idx.toNat.repr) :: optional "description" v.description
  form := .selfClosing
  name := attrStr_cons_eq _
  idx := by rw [attrStr_cons_ne _ (by decide), attrStr_cons_eq]
  description := by
    rw [attrStr_cons_ne _ (by decide), attrStr_cons_ne _ (by decide), attrStr_optional]

/-- Children of three kinds, one kind after the other. -/
def kinds {α β γ δ : Type} (a : α → δ) (b : β → δ) (c : γ → δ) (xs : List α) (ys : List β)
    (zs : List γ) : List δ := xs.map a ++ (ys.map b ++ zs.map c)

section Kinds

variable {α β γ δ ε : Type} {a : α → δ} {b : β → δ} {c : γ → δ} {xs : List α} {ys : List β}
  {zs : List γ}

theorem filterMap_kinds {g : δ → Option ε} : (kinds a b c xs ys zs).filterMap g =
    xs.filterMap (fun x => g (a x)) ++ (ys.filterMap (fun y => g (b y)) ++
      zs.filterMap fun z => g (c z)) := by
  simp only [kinds, List.filterMap_append, List.filterMap_map, Function.comp_def]

theorem filterMap_first {g : δ → Option α} (ha : ∀ x, g (a x) = some x) (hb : ∀ y, g (b y) = none)
    (hc : ∀ z, g (c z) = none) : (kinds a b c xs ys zs).filterMap g = xs := by
  simp only [filterMap_kinds, ha, hb, hc, List.filterMap_some, List.filterMap_none, List.append_nil]

theorem filterMap_second {g : δ → Option β} (ha : ∀ x, g (a x) = none)
    (hb : ∀ y, g (b y) = some y) (hc : ∀ z, g (c z) = none) :
    (kinds a b c xs ys zs).filterMap g = ys := by
  simp only [filterMap_kinds, ha, hb, hc, List.filterMap_some, List.filterMap_none, List.append_nil,
    List.nil_append]

theorem filterMap_third {g : δ → Option γ} (ha : ∀ x, g (a x) = none) (hb : ∀ y, g (b y) = none)
    (hc : ∀ z, g (c z) = some z) : (kinds a b c xs ys zs).filterMap g = zs := by
  simp only [filterMap_kinds, ha, hb, hc, List.filterMap_some, List.filterMap_none, List.nil_append]

end Kinds

theorem map_of {α β : Type} {P : α → Prop} {mk : ∀ a, P a → β} {back : β → α}
    (h : ∀ a ha, back (mk a ha) = a) {xs : List α} (hxs : ∀ a ∈ xs, P a) :
    (xs.pmap mk hxs).map back = xs := by
  rw [List.map_pmap]
  simp only [h]
  exact List.pmap_eq_self.mpr fun _ _ => rfl

theorem MethodChild.of_kinds (ds : List DescriptionTag) (as : List ArgTag) (rs : List ReturnsTag) :
    (kinds description arg returns ds as rs).filterMap description? = ds ∧
      (kinds description arg returns ds as rs).filterMap arg? = as ∧
        (kinds description arg returns ds as rs).filterMap returns? = rs :=
  ⟨filterMap_first (fun _ => rfl) (fun _ => rfl) fun _ => rfl,
    filterMap_second (fun _ => rfl) (fun _ => rfl) fun _ => rfl,
    filterMap_third (fun _ => rfl) (fun _ => rfl) fun _ => rfl⟩

theorem ObjectChild.of_kinds (ds : List DescriptionTag) (cs ss : List MethodTag) :
    (kinds description c2s s2c ds cs ss).filterMap description? = ds ∧
      (kinds description c2s s2c ds cs ss).filterMap c2s? = cs ∧
        (kinds description c2s s2c ds cs ss).filterMap s2c? = ss :=
  ⟨filterMap_first (fun _ => rfl) (fun _ => rfl) fun _ => rfl,
    filterMap_second (fun _ => rfl) (fun _ => rfl) fun _ => rfl,
    filterMap_third (fun _ => rfl) (fun _ => rfl) fun _ => rfl⟩

theorem ProtocolChild.of_kinds (cs : List CopyrightTag) (os : List ObjectTag) (es : List EnumTag) :
    (kinds copyright object enum cs os es).filterMap copyright? = cs ∧
      (kinds copyright object enum cs os es).filterMap object? = os ∧
        (kinds copyright object enum cs os es).filterMap enum? = es :=
  ⟨filterMap_first (fun _ => rfl) (fun _ => rfl) fun _ => rfl,
    filterMap_second (fun _ => rfl) (fun _ => rfl) fun _ => rfl,
    filterMap_third (fun _ => rfl) (fun _ => rfl) fun _ => rfl⟩

/-- The tag of an optional description. -/
def descriptionTags (d : Option Description) (h : ∀ x ∈ d, x.Sound) : List DescriptionTag :=
  d.toList.pmap DescriptionTag.of fun x hx => h x (Option.mem_toList.mp hx)

theorem length_descriptionTags {d : Option Description} (h : ∀ x ∈ d, x.Sound) :
    (descriptionTags d h).length ≤ 1 := by
  rw [descriptionTags, List.length_pmap]
  exact Option.length_toList_le

theorem map_descriptionTags {d : Option Description} (h : ∀ x ∈ d, x.Sound) :
    ((descriptionTags d h).map DescriptionTag.description).head? = d := by
  rw [descriptionTags, map_of fun _ _ => rfl, Option.head?_toList]

def MethodTag.of (mt : Method) (h : mt.Sound) : MethodTag where
  name := mt.name
  destructor := mt.destructor
  attrs := ("name", mt.name) :: optional "destructor" (if mt.destructor then some "true" else none)
  body := some (kinds .description .arg .returns (descriptionTags mt.description h.description)
    (mt.args.pmap ArgTag.of h.args) (mt.returns.toList.map ReturnsTag.of))
  nameAttr := attrStr_cons_eq _
  destructorAttr := by
    rw [attrStr_cons_ne _ (by decide), attrStr_optional]
    cases mt.destructor <;> simp
  oneDescription := by
    rw [Option.getD_some, (MethodChild.of_kinds _ _ _).1]
    exact length_descriptionTags h.description
  oneReturns := by
    rw [Option.getD_some, (MethodChild.of_kinds _ _ _).2.2, List.length_map]
    exact Option.length_toList_le

theorem MethodTag.method_of (mt : Method) (h : mt.Sound) : (MethodTag.of mt h).method = mt := by
  have hback : ReturnsTag.iface ∘ ReturnsTag.of = id := rfl
  simp only [method, args, MethodTag.returns, descriptions, children, MethodTag.of,
    Option.getD_some, MethodChild.of_kinds]
  rw [map_descriptionTags,
    map_of fun _ _ => rfl, List.map_map, hback, List.map_id, Option.head?_toList]

def ObjectTag.of (o : Object) (h : o.Sound) : ObjectTag where
  name := o.name
  version := o.version
  attrs := [("name", o.name), ("version", o.version.toNat.repr)]
  body := some (kinds .description .c2s .s2c (descriptionTags o.description h.description)
    (o.c2s.pmap MethodTag.of h.c2s) (o.s2c.pmap MethodTag.of h.s2c))
  nameAttr := attrStr_cons_eq _
  versionAttr := by rw [attrStr_cons_ne _ (by decide), attrStr_cons_eq]
  oneDescription := by
    rw [Option.getD_some, (ObjectChild.of_kinds _ _ _).1]
    exact length_descriptionTags h.description

theorem ObjectTag.object_of (o : Object) (h : o.Sound) : (ObjectTag.of o h).object = o := by
  simp only [object, c2s, s2c, descriptions, children, ObjectTag.of, Option.getD_some,
    ObjectChild.of_kinds]
  rw [map_descriptionTags,
    map_of MethodTag.method_of, map_of MethodTag.method_of]

def EnumTag.of (en : Enum) : EnumTag where
  name := en.name
  attrs := [("name", en.name)]
  body := some (en.values.map fun v => .value (.of v))
  nameAttr := attrStr_cons_eq _

theorem EnumTag.enum_of (en : Enum) : (EnumTag.of en).enum = en := by
  have hvalues : (EnumTag.of en).values = en.values.map ValueTag.of := by
    simp only [values, children, EnumTag.of, Option.getD_some, List.filterMap_map]
    exact congrFun List.filterMap_eq_map en.values
  have hback : ValueTag.value ∘ ValueTag.of = id := rfl
  rw [EnumTag.enum, hvalues, List.map_map, hback, List.map_id]
  rfl

def CopyrightTag.of (text : String) (h : Plain text) : CopyrightTag where
  text
  attrs := []
  plain := h

/-- A rendering without space or comments: arguments, results and values as `<x/>`, everything else
as a pair. -/
def Rendering.of (p : Protocol) (h : p.Sound) : Rendering where
  declared := true
  before := []
  name := p.name
  version := p.version
  attrs := [("name", p.name), ("version", p.version.toNat.repr)]
  body := some (kinds .copyright .object .enum (p.copyright.toList.pmap CopyrightTag.of fun x hx =>
    h.copyright x (Option.mem_toList.mp hx)) (p.objects.pmap ObjectTag.of h.objects)
      (p.enums.map EnumTag.of))
  after := []
  nameAttr := attrStr_cons_eq _
  versionAttr := by rw [attrStr_cons_ne _ (by decide), attrStr_cons_eq]
  oneCopyright := by
    rw [Option.getD_some, (ProtocolChild.of_kinds _ _ _).1, List.length_pmap]
    exact Option.length_toList_le

/-- **Every definition has a rendering.** -/
theorem Rendering.protocol_of (p : Protocol) (h : p.Sound) : (Rendering.of p h).protocol = p := by
  have hback : EnumTag.enum ∘ EnumTag.of = id := funext EnumTag.enum_of
  simp only [protocol, objects, enums, copyrights, children, Rendering.of, Option.getD_some,
    ProtocolChild.of_kinds]
  rw [map_of ObjectTag.object_of,
    map_of fun _ _ => rfl, List.map_map, hback, List.map_id, Option.head?_toList]

end Hyprwire.Scanner.Parse
