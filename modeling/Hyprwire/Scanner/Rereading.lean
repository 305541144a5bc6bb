import Hyprwire.Scanner.Rendering

/-!
# `Scanner/Rereading.lean` — a rendering, read again

What each loop of `parse.rs` makes of the children it is written for, one child at a time and then
all of them; and from that when a definition survives.
-/

namespace Hyprwire.Scanner.Parse

open Rust

variable {unescape : String → Outcome Failure String}

/-! ## Texts, arguments and values -/

theorem parseArgType_argTypeStr (t : ArgType) : parseArgType (argTypeStr t) = .ok t := by
  cases t <;> rfl

theorem attrRequired_eq {attrs : Attrs} {key v : String} (h : attrStr attrs key = some v) :
    attrRequired attrs key = .ok v := by
  rw [attrRequired, h, Outcome.okOr_some]

theorem parseArg_tag (a : ArgTag) : parseArg a.attrs = .ok a.arg := by
  have hfine : ¬ (a.arg.argType = .enum ∧ a.arg.interface = none) :=
    fun ⟨henum, hnone⟩ => a.enum henum hnone
  simp only [parseArg, attrRequired_eq a.name, attrRequired_eq a.type, Outcome.ok_bind,
    parseArgType_argTypeStr, a.interface, a.summary, if_neg hfine]

theorem parseValue_tag (v : ValueTag) : parseValue v.attrs = .ok v.value := by
  simp only [parseValue, attrRequired_eq v.idx, attrRequired_eq v.name, Outcome.ok_bind,
    parseU32_repr, v.description]

/-- Fillers are passed over on the way to an end tag. -/
theorem readToEnd_fillers (tag : String) (inside : List Filler) (rest : List Event) :
    readToEnd tag 0 (inside.map Filler.event ++ .end_ tag :: rest) = .ok rest := by
  induction inside with
  | nil => simp [readToEnd]
  | cons f inside ih =>
    cases f with
    | space s blank => exact ih
    | comment => exact ih

/-- The texts `quick_xml` need not unescape are what they are. -/
def LeavesPlain (unescape : String → Outcome Failure String) : Prop :=
  ∀ s : String, '&' ∉ s.toList → unescape s = .ok s

theorem readTextToEnd_plain (hplain : LeavesPlain unescape) {tag s : String} (hs : Plain s)
    (rest : List Event) :
    readTextToEnd unescape tag (.text s :: .end_ tag :: rest) "" = .ok (s, rest) := by
  simp [readTextToEnd, hplain s hs.bare.1]

theorem parseDescription_tag (hplain : LeavesPlain unescape) (d : DescriptionTag)
    (rest : List Event) :
    parseDescription unescape d.attrs
      (d.description.body.toList.map .text ++ .end_ "description" :: rest) =
        .ok (d.description, rest) := by
  obtain ⟨⟨summary, body⟩, attrs, selfClosing, hsummary, -, hbody⟩ := d
  simp only at hsummary hbody ⊢
  cases body with
  | none => simp [parseDescription, readTextToEnd, hsummary, isBlank]
  | some s =>
    have hs := hbody s rfl
    simp only [parseDescription, Option.toList_some, List.map_cons, List.map_nil, List.cons_append,
      List.nil_append, readTextToEnd_plain hplain hs, Outcome.ok_bind, hsummary, hs.notBlank]
    rfl

/-! ## Methods -/

@[simp] theorem last_nil {α : Type} (before : Option α) : last before [] = before := rfl
@[simp] theorem last_singleton {α : Type} (before : Option α) (x : α) : last before [x] = some x :=
  rfl
@[simp] theorem last_append {α : Type} (before : Option α) (xs ys : List α) :
    last before (xs ++ ys) = last (last before xs) ys := List.foldl_append ..

/-- What the children of a method add to it. -/
def Method.with (mt : Method) (children : List MethodChild) : Method where
  name := mt.name
  args := mt.args ++ (children.filterMap MethodChild.arg?).map ArgTag.arg
  returns := last mt.returns (((children.filterMap MethodChild.returns?).filter
    fun r => r.form.isSelfClosing).map ReturnsTag.iface)
  destructor := mt.destructor
  description := last mt.description (((children.filterMap MethodChild.description?).filter
    fun d => !d.selfClosing).map DescriptionTag.description)

theorem Method.with_append (mt : Method) (cs ds : List MethodChild) :
    mt.with (cs ++ ds) = (mt.with cs).with ds := by
  simp only [Method.with, List.filterMap_append, List.filter_append, List.map_append, last_append,
    List.append_assoc]

/-- One child is one turn. -/
theorem methodLoop_child (hplain : LeavesPlain unescape) (c : MethodChild) (fuel : Nat)
    (rest : List Event) (mt : Method) :
    methodLoop unescape (fuel + 1) (c.events ++ rest) mt =
      methodLoop unescape fuel rest (mt.with [c]) := by
  cases c with
  | filler f =>
    cases f <;> simp [methodLoop, MethodChild.events, Filler.event, readEvent, Method.with,
      List.filterMap_cons, MethodChild.arg?, MethodChild.returns?, MethodChild.description?]
  | description d =>
    cases hd : d.selfClosing with
    | true =>
      simp [methodLoop, MethodChild.events, DescriptionTag.events, hd, readEvent, Method.with,
        List.filterMap_cons, MethodChild.arg?, MethodChild.returns?, MethodChild.description?]
    | false =>
      have hparse := parseDescription_tag hplain d rest
      simp [methodLoop, MethodChild.events, DescriptionTag.events, hd, readEvent, hparse,
        Method.with, List.filterMap_cons, MethodChild.arg?, MethodChild.returns?, MethodChild.description?]
  | arg a =>
    cases ha : a.form with
    | selfClosing =>
      simp [methodLoop, MethodChild.events, Form.events, ha, readEvent, parseArg_tag, Method.with,
        List.filterMap_cons, MethodChild.arg?, MethodChild.returns?, MethodChild.description?]
    | pair inside =>
      have hread := readToEnd_fillers "arg" inside rest
      simp [methodLoop, MethodChild.events, Form.events, ha, readEvent, parseArg_tag, hread,
        Method.with, List.filterMap_cons, MethodChild.arg?, MethodChild.returns?, MethodChild.description?]
  | returns r =>
    cases hr : r.form with
    | selfClosing =>
      simp [methodLoop, MethodChild.events, Form.events, hr, readEvent, attrRequired_eq r.value,
        Method.with, List.filterMap_cons, MethodChild.arg?, MethodChild.returns?, MethodChild.description?,
        Form.isSelfClosing]
    | pair inside =>
      have hread := readToEnd_fillers "returns" inside rest
      simp [methodLoop, MethodChild.events, Form.events, hr, readEvent, hread, Method.with,
        List.filterMap_cons, MethodChild.arg?, MethodChild.returns?, MethodChild.description?, Form.isSelfClosing]

/-- **All children of a method**, and its end tag. -/
theorem methodLoop_children (hplain : LeavesPlain unescape) (tag : String)
    (children : List MethodChild) (rest : List Event) :
    ∀ (fuel : Nat) (mt : Method), children.length < fuel →
      methodLoop unescape fuel (children.flatMap MethodChild.events ++ .end_ tag :: rest) mt =
        .ok (mt.with children, rest) := by
  induction children with
  | nil =>
    intro fuel mt hfuel
    cases fuel with
    | zero => cases hfuel
    | succ fuel => simp [methodLoop, readEvent, Method.with]
  | cons c cs ih =>
    intro fuel mt hfuel
    cases fuel with
    | zero => cases hfuel
    | succ fuel =>
      rw [List.flatMap_cons, List.append_assoc, methodLoop_child hplain c,
        ih fuel (mt.with [c]) (Nat.lt_of_succ_lt_succ hfuel), ← Method.with_append]
      rfl

/-- Every child is one event at least. -/
theorem length_le_flatMap {α β : Type} {f : α → List β} (hf : ∀ x, f x ≠ []) (xs : List α) :
    xs.length ≤ (xs.flatMap f).length := by
  induction xs with
  | nil => exact Nat.le_refl _
  | cons x xs ih =>
    have hpos := List.length_pos_iff.mpr (hf x)
    rw [List.flatMap_cons, List.length_append, List.length_cons]
    omega

theorem Form.events_ne_nil (tag : String) (attrs : Attrs) (form : Form) :
    form.events tag attrs ≠ [] := by
  cases form <;> simp [Form.events]

theorem bodyEvents_ne_nil {α : Type} (events : α → List Event) (tag : String) (attrs : Attrs)
    (body : Option (List α)) : bodyEvents events tag attrs body ≠ [] := by
  cases body <;> simp [bodyEvents]

theorem DescriptionTag.events_ne_nil (d : DescriptionTag) : d.events ≠ [] := by
  unfold DescriptionTag.events
  split <;> simp

theorem MethodChild.events_ne_nil (c : MethodChild) : c.events ≠ [] := by
  cases c with
  | filler f => exact List.cons_ne_nil _ _
  | description d => exact d.events_ne_nil
  | arg a => exact a.form.events_ne_nil _ _
  | returns r => exact r.form.events_ne_nil _ _

/-- A method that is not self-closing is read to its end. -/
theorem parseMethod_tag (hplain : LeavesPlain unescape) {t : MethodTag}
    {children : List MethodChild} (hbody : t.body = some children) (tag : String)
    (rest : List Event) :
    parseMethod unescape t.attrs (children.flatMap MethodChild.events ++ .end_ tag :: rest) =
      .ok (t.seen, rest) := by
  have hdestructor : decide (attrStr t.attrs "destructor" = some "true") = t.destructor := by
    rw [Bool.eq_iff_iff, decide_eq_true_iff]
    exact t.destructorAttr
  have hchildren : t.children = children := by rw [MethodTag.children, hbody, Option.getD_some]
  have hfuel := length_le_flatMap MethodChild.events_ne_nil children
  rw [parseMethod, attrRequired_eq t.nameAttr, Outcome.ok_bind]
  simp only [hdestructor]
  rw [methodLoop_children hplain tag children rest]
  · simp only [Method.with, MethodTag.seen, MethodTag.args, MethodTag.returns,
      MethodTag.descriptions, hchildren, List.nil_append]
  · rw [List.length_append]
    omega

/-! ## Objects -/

/-- What the children of an object add to it. -/
def Object.with (o : Object) (children : List ObjectChild) : Object where
  name := o.name
  version := o.version
  c2s := o.c2s ++ ((children.filterMap ObjectChild.c2s?).filter fun t => t.body.isSome).map
    MethodTag.seen
  s2c := o.s2c ++ ((children.filterMap ObjectChild.s2c?).filter fun t => t.body.isSome).map
    MethodTag.seen
  description := last o.description (((children.filterMap ObjectChild.description?).filter
    fun d => !d.selfClosing).map DescriptionTag.description)

theorem Object.with_append (o : Object) (cs ds : List ObjectChild) :
    o.with (cs ++ ds) = (o.with cs).with ds := by
  simp only [Object.with, List.filterMap_append, List.filter_append, List.map_append, last_append,
    List.append_assoc]

/-- One child is one turn. -/
theorem objectLoop_child (hplain : LeavesPlain unescape) (c : ObjectChild) (fuel : Nat)
    (rest : List Event) (o : Object) :
    objectLoop unescape (fuel + 1) (c.events ++ rest) o =
      objectLoop unescape fuel rest (o.with [c]) := by
  cases c with
  | filler f =>
    cases f <;> simp [objectLoop, ObjectChild.events, Filler.event, readEvent, Object.with,
      List.filterMap_cons, ObjectChild.c2s?, ObjectChild.s2c?, ObjectChild.description?]
  | description d =>
    cases hd : d.selfClosing with
    | true =>
      simp [objectLoop, ObjectChild.events, DescriptionTag.events, hd, readEvent, Object.with,
        List.filterMap_cons, ObjectChild.c2s?, ObjectChild.s2c?, ObjectChild.description?]
    | false =>
      have hparse := parseDescription_tag hplain d rest
      simp [objectLoop, ObjectChild.events, DescriptionTag.events, hd, readEvent, hparse,
        Object.with, List.filterMap_cons, ObjectChild.c2s?, ObjectChild.s2c?,
        ObjectChild.description?]
  | c2s t =>
    cases ht : t.body with
    | none =>
      simp [objectLoop, ObjectChild.events, MethodTag.events, bodyEvents, ht, readEvent,
        Object.with, List.filterMap_cons, ObjectChild.c2s?, ObjectChild.s2c?,
        ObjectChild.description?]
    | some children =>
      have hparse := parseMethod_tag hplain ht "c2s" rest
      simp [objectLoop, ObjectChild.events, MethodTag.events, bodyEvents, ht, readEvent, hparse,
        Object.with, List.filterMap_cons, ObjectChild.c2s?, ObjectChild.s2c?,
        ObjectChild.description?]
  | s2c t =>
    cases ht : t.body with
    | none =>
      simp [objectLoop, ObjectChild.events, MethodTag.events, bodyEvents, ht, readEvent,
        Object.with, List.filterMap_cons, ObjectChild.c2s?, ObjectChild.s2c?,
        ObjectChild.description?]
    | some children =>
      have hparse := parseMethod_tag hplain ht "s2c" rest
      simp [objectLoop, ObjectChild.events, MethodTag.events, bodyEvents, ht, readEvent, hparse,
        Object.with, List.filterMap_cons, ObjectChild.c2s?, ObjectChild.s2c?,
        ObjectChild.description?]

theorem ObjectChild.events_ne_nil (c : ObjectChild) : c.events ≠ [] := by
  cases c with
  | filler f => exact List.cons_ne_nil _ _
  | description d => exact d.events_ne_nil
  | c2s t | s2c t => exact bodyEvents_ne_nil _ _ _ _

/-- **All children of an object**, and its end tag. -/
theorem objectLoop_children (hplain : LeavesPlain unescape) (children : List ObjectChild)
    (rest : List Event) : ∀ (fuel : Nat) (o : Object), children.length < fuel →
      objectLoop unescape fuel (children.flatMap ObjectChild.events ++ .end_ "object" :: rest) o =
        .ok (o.with children, rest) := by
  induction children with
  | nil =>
    intro fuel o hfuel
    cases fuel with
    | zero => cases hfuel
    | succ fuel => simp [objectLoop, readEvent, Object.with]
  | cons c cs ih =>
    intro fuel o hfuel
    cases fuel with
    | zero => cases hfuel
    | succ fuel =>
      rw [List.flatMap_cons, List.append_assoc, objectLoop_child hplain c,
        ih fuel (o.with [c]) (Nat.lt_of_succ_lt_succ hfuel), ← Object.with_append]
      rfl

/-! ## Enums -/

/-- What the outer loop passes over. -/
def Event.Passed : Event → Prop
  | .start tag _ => tag ≠ "protocol" ∧ tag ≠ "copyright" ∧ tag ≠ "object" ∧ tag ≠ "enum"
  | .eof => False
  | _ => True

theorem Filler.event_passed (f : Filler) : f.event.Passed := by
  cases f <;> trivial

theorem EnumChild.events_passed (c : EnumChild) : ∀ e ∈ c.events, e.Passed := by
  intro e he
  cases c with
  | filler f =>
    obtain rfl := List.mem_singleton.mp he
    exact f.event_passed
  | value v =>
    simp only [EnumChild.events] at he
    cases hform : v.form with
    | selfClosing =>
      rw [hform] at he
      obtain rfl := List.mem_singleton.mp he
      trivial
    | pair inside =>
      simp only [hform, Form.events, List.mem_cons, List.mem_append, List.mem_map, List.not_mem_nil,
        or_false] at he
      rcases he with rfl | ⟨f, -, rfl⟩ | rfl
      · exact ⟨by decide, by decide, by decide, by decide⟩
      · exact f.event_passed
      · trivial

theorem enumLoop_fillers (inside : List Filler) (fuel : Nat) (rest : List Event) (en : Enum) :
    enumLoop (inside.length + fuel) (inside.map Filler.event ++ rest) en = enumLoop fuel rest en := by
  induction inside with
  | nil => simp
  | cons f inside ih =>
    rw [List.length_cons, Nat.add_right_comm, List.map_cons, List.cons_append]
    cases f with
    | space s blank => simpa [enumLoop, readEvent, Filler.event] using ih
    | comment => simpa [enumLoop, readEvent, Filler.event] using ih

/-- A value is read at its first tag, in either spelling. -/
theorem enumLoop_value (v : ValueTag) (fuel : Nat) (rest : List Event) (en : Enum) :
    enumLoop (fuel + 1) (.empty "value" v.attrs :: rest) en =
        enumLoop fuel rest { en with values := en.values ++ [v.value] } ∧
      enumLoop (fuel + 1) (.start "value" v.attrs :: rest) en =
        enumLoop fuel rest { en with values := en.values ++ [v.value] } := by
  constructor <;> simp only [enumLoop, readEvent, parseValue_tag, if_true, Outcome.ok_bind]

/-- **The children of an enum, up to the first pair**: its end tag ends the loop, and the outer loop
passes over what is left. -/
theorem enumLoop_children (children : List EnumChild) (rest : List Event) :
    ∀ (fuel : Nat) (en : Enum), (children.flatMap EnumChild.events).length < fuel →
      ∃ left, enumLoop fuel (children.flatMap EnumChild.events ++ .end_ "enum" :: rest) en =
          .ok ({ en with values := en.values ++ (upToPair (children.filterMap
            EnumChild.value?)).map ValueTag.value }, left ++ rest) ∧
        (∀ e ∈ left, e.Passed) ∧ left.length ≤ (children.flatMap EnumChild.events).length + 1 := by
  induction children with
  | nil =>
    intro fuel en hfuel
    cases fuel with
    | zero => cases hfuel
    | succ fuel =>
      refine ⟨[], ?_, nofun, Nat.zero_le _⟩
      simp [enumLoop, readEvent, upToPair]
  | cons c cs ih =>
    intro fuel en hfuel
    rw [List.flatMap_cons, List.length_append] at hfuel ⊢
    obtain ⟨fuel, rfl⟩ : ∃ k, fuel = k + 1 := ⟨fuel - 1, by omega⟩
    cases c with
    | filler f =>
      simp only [EnumChild.events, List.length_singleton] at hfuel
      obtain ⟨left, hloop, hpassed, hlength⟩ := ih fuel en (by omega)
      refine ⟨left, ?_, hpassed, by simp only [EnumChild.events, List.length_singleton]; omega⟩
      rw [EnumChild.events, List.singleton_append, List.cons_append,
        List.filterMap_cons_none (by rfl), ← hloop]
      cases f <;> simp [enumLoop, readEvent, Filler.event]
    | value v =>
      have hvalues : (EnumChild.value v :: cs).filterMap EnumChild.value? =
          v :: cs.filterMap EnumChild.value? := rfl
      rw [hvalues]
      simp only [EnumChild.events] at hfuel ⊢
      cases hform : v.form with
      | selfClosing =>
        have hclosing : v.form.isSelfClosing = true := by rw [hform]; rfl
        simp only [hform, Form.events, List.length_singleton] at hfuel ⊢
        obtain ⟨left, hloop, hpassed, hlength⟩ := ih fuel
          { en with values := en.values ++ [v.value] } (by omega)
        refine ⟨left, ?_, hpassed, by omega⟩
        rw [upToPair, if_pos hclosing, List.map_cons, List.singleton_append, List.cons_append,
          (enumLoop_value v fuel _ en).1, hloop, List.append_assoc]
        rfl
      | pair inside =>
        have hpair : ¬ v.form.isSelfClosing = true := by rw [hform]; nofun
        simp only [hform, Form.events, List.length_cons, List.length_append, List.length_map,
          List.length_nil] at hfuel ⊢
        obtain ⟨k, rfl⟩ : ∃ k, fuel = inside.length + (k + 1) :=
          ⟨fuel - inside.length - 1, by omega⟩
        refine ⟨cs.flatMap EnumChild.events ++ [.end_ "enum"], ?_, ?_, ?_⟩
        · have hskip := enumLoop_fillers inside (k + 1)
            (.end_ "value" :: (cs.flatMap EnumChild.events ++ .end_ "enum" :: rest))
            { en with values := en.values ++ [v.value] }
          rw [upToPair, if_neg hpair]
          simp only [List.cons_append, List.append_assoc, List.nil_append]
          rw [(enumLoop_value v _ _ en).2, hskip]
          rfl
        · intro e he
          rcases List.mem_append.mp he with hmem | hend
          · obtain ⟨c, -, hc⟩ := List.mem_flatMap.mp hmem
            exact c.events_passed e hc
          · obtain rfl := List.mem_singleton.mp hend
            trivial
        · rw [List.length_append, List.length_singleton]
          omega

/-! ## Protocols -/

/-- The outer loop takes no notice of what it passes over. -/
theorem protocolLoop_passed {left : List Event} (hleft : ∀ e ∈ left, e.Passed) (fuel : Nat)
    (rest : List Event) (p : Protocol) :
    protocolLoop unescape (left.length + fuel) (left ++ rest) p =
      protocolLoop unescape fuel rest p := by
  induction left with
  | nil => rw [List.length_nil, Nat.zero_add, List.nil_append]
  | cons e left ih =>
    rw [List.length_cons, Nat.add_right_comm, List.cons_append,
      ← ih fun e he => hleft e (List.mem_cons_of_mem _ he)]
    have hpassed := hleft e (List.mem_cons_self ..)
    cases e with
    | start tag attrs =>
      obtain ⟨h₁, h₂, h₃, h₄⟩ := hpassed
      simp only [protocolLoop, readEvent, if_neg h₁, if_neg h₂, if_neg h₃, if_neg h₄]
    | eof => exact hpassed.elim
    | _ => rfl

/-- What the children of a protocol add to it. -/
def Protocol.with (p : Protocol) (children : List ProtocolChild) : Protocol where
  name := p.name
  version := p.version
  objects := p.objects ++ ((children.filterMap ProtocolChild.object?).filter
    fun t => t.body.isSome).map ObjectTag.seen
  enums := p.enums ++ ((children.filterMap ProtocolChild.enum?).filter
    fun t => t.body.isSome).map EnumTag.seen
  copyright := last p.copyright
    ((children.filterMap ProtocolChild.copyright?).map CopyrightTag.text)

theorem Protocol.with_append (p : Protocol) (cs ds : List ProtocolChild) :
    p.with (cs ++ ds) = (p.with cs).with ds := by
  simp only [Protocol.with, List.filterMap_append, List.filter_append, List.map_append, last_append,
    List.append_assoc]

/-- **One child**: what it leaves is passed over, so that the loop comes to the next. -/
theorem protocolLoop_child (hplain : LeavesPlain unescape) (c : ProtocolChild) (rest : List Event)
    (p : Protocol) {fuel : Nat} (hfuel : c.events.length ≤ fuel) :
    ∃ fuel', fuel ≤ fuel' + c.events.length ∧
      protocolLoop unescape fuel (c.events ++ rest) p =
        protocolLoop unescape fuel' rest (p.with [c]) := by
  cases c with
  | filler f =>
    have hpassed : ∀ e ∈ (ProtocolChild.filler f).events, e.Passed := by
      intro e he
      obtain rfl := List.mem_singleton.mp he
      exact f.event_passed
    obtain ⟨fuel', rfl⟩ := Nat.exists_eq_add_of_le hfuel
    refine ⟨fuel', by omega, ?_⟩
    rw [protocolLoop_passed hpassed]
    simp [Protocol.with, List.filterMap_cons, ProtocolChild.object?, ProtocolChild.enum?,
      ProtocolChild.copyright?]
  | copyright c =>
    have hread : readTextToEnd unescape "copyright" (.text c.text :: .end_ "copyright" :: rest) "" =
        .ok (c.text, rest) := readTextToEnd_plain hplain c.plain rest
    simp only [ProtocolChild.events, List.length_cons, List.length_nil] at hfuel ⊢
    obtain ⟨fuel', rfl⟩ := Nat.exists_eq_add_of_le' (Nat.le_trans (Nat.le_add_left 1 2) hfuel)
    refine ⟨fuel', by omega, ?_⟩
    simp [protocolLoop, readEvent, hread, c.plain.notBlank, Protocol.with, List.filterMap_cons,
      ProtocolChild.object?, ProtocolChild.enum?, ProtocolChild.copyright?]
  | object t =>
    obtain ⟨fuel', rfl⟩ := Nat.exists_eq_add_of_le'
      (Nat.le_trans (List.length_pos_iff.mpr (bodyEvents_ne_nil ObjectChild.events "object" t.attrs
        t.body)) hfuel)
    refine ⟨fuel', Nat.add_le_add_left (List.length_pos_iff.mpr (bodyEvents_ne_nil _ _ _ _)) _, ?_⟩
    simp only [ProtocolChild.events, ObjectTag.events]
    cases ht : t.body with
    | none =>
      simp [protocolLoop, readEvent, bodyEvents, ht, Protocol.with, List.filterMap_cons,
        ProtocolChild.object?, ProtocolChild.enum?, ProtocolChild.copyright?]
    | some children =>
      have hchildren : t.children = children := by rw [ObjectTag.children, ht, Option.getD_some]
      have hseen : Object.with ⟨t.name, t.version, [], [], none⟩ children = t.seen := by
        simp only [Object.with, ObjectTag.seen, ObjectTag.c2s, ObjectTag.s2c,
          ObjectTag.descriptions, hchildren, List.nil_append]
      have hloop := objectLoop_children hplain children rest
        ((children.flatMap ObjectChild.events ++ .end_ "object" :: rest).length + 1)
        ⟨t.name, t.version, [], [], none⟩ (by
          have := length_le_flatMap ObjectChild.events_ne_nil children
          rw [List.length_append]
          omega)
      rw [hseen] at hloop
      simp only [bodyEvents, List.cons_append, List.append_assoc, List.nil_append]
      simp only [protocolLoop, readEvent, attrRequired_eq t.nameAttr, attrRequired_eq t.versionAttr,
        Outcome.ok_bind, parseU32_repr, hloop]
      simp [Protocol.with, List.filterMap_cons, ht, ProtocolChild.object?, ProtocolChild.enum?,
        ProtocolChild.copyright?]
  | enum t =>
    simp only [ProtocolChild.events, EnumTag.events] at hfuel ⊢
    cases ht : t.body with
    | none =>
      rw [ht] at hfuel
      simp only [bodyEvents, List.length_singleton] at hfuel ⊢
      obtain ⟨fuel', rfl⟩ := Nat.exists_eq_add_of_le' hfuel
      refine ⟨fuel', Nat.le_refl _, ?_⟩
      simp [protocolLoop, readEvent, ht, Protocol.with, List.filterMap_cons, ProtocolChild.object?,
        ProtocolChild.enum?, ProtocolChild.copyright?]
    | some children =>
      have hchildren : t.children = children := by rw [EnumTag.children, ht, Option.getD_some]
      obtain ⟨left, hloop, hpassed, hlength⟩ := enumLoop_children children rest
        ((children.flatMap EnumChild.events ++ .end_ "enum" :: rest).length + 1)
        ⟨t.name, []⟩ (by rw [List.length_append]; omega)
      have hseen : Enum.mk t.name ([] ++ (upToPair (children.filterMap
          EnumChild.value?)).map ValueTag.value) = t.seen := by
        simp only [EnumTag.seen, EnumTag.values, hchildren, List.nil_append]
      rw [hseen] at hloop
      rw [ht] at hfuel
      simp only [bodyEvents, List.length_cons, List.length_append, List.length_nil] at hfuel ⊢
      obtain ⟨fuel', rfl⟩ : ∃ k, fuel = left.length + k + 1 := ⟨fuel - left.length - 1, by omega⟩
      refine ⟨fuel', by omega, ?_⟩
      have hskip := @protocolLoop_passed unescape _ hpassed fuel' rest
        { p with enums := p.enums ++ [t.seen] }
      simp only [List.cons_append, List.append_assoc, List.nil_append]
      simp only [protocolLoop, readEvent, attrRequired_eq t.nameAttr, Outcome.ok_bind, hloop]
      simp [hskip, Protocol.with, List.filterMap_cons, ht, ProtocolChild.object?,
        ProtocolChild.enum?, ProtocolChild.copyright?]

/-- **All children of a protocol**, and what is passed over behind them. -/
theorem protocolLoop_children (hplain : LeavesPlain unescape) (children : List ProtocolChild)
    {tail : List Event} (htail : ∀ e ∈ tail, e.Passed) : ∀ (fuel : Nat) (p : Protocol),
      (children.flatMap ProtocolChild.events).length + tail.length < fuel →
        protocolLoop unescape fuel (children.flatMap ProtocolChild.events ++ tail) p =
          .ok (p.with children) := by
  induction children with
  | nil =>
    intro fuel p hfuel
    simp only [List.flatMap_nil, List.length_nil, Nat.zero_add] at hfuel
    obtain ⟨k, rfl⟩ : ∃ k, fuel = tail.length + (k + 1) := ⟨fuel - tail.length - 1, by omega⟩
    have hskip := @protocolLoop_passed unescape _ htail (k + 1) [] p
    rw [List.append_nil] at hskip
    rw [List.flatMap_nil, List.nil_append, hskip]
    simp [protocolLoop, readEvent, Protocol.with]
  | cons c cs ih =>
    intro fuel p hfuel
    rw [List.flatMap_cons, List.length_append] at hfuel
    have hown : c.events.length ≤ fuel := by omega
    obtain ⟨fuel', hle, hchild⟩ := protocolLoop_child hplain c
      (cs.flatMap ProtocolChild.events ++ tail) p hown
    rw [List.flatMap_cons, List.append_assoc, hchild, ih fuel' (p.with [c]) (by omega),
      ← Protocol.with_append]
    rfl

/-- **A rendering is read without an error**, and what is read is what is seen of it. -/
theorem parseProtocol_rendering (hplain : LeavesPlain unescape) (r : Rendering) :
    parseProtocol unescape r.events = .ok r.seen := by
  have hfillers : ∀ fs : List Filler, ∀ e ∈ fs.map Filler.event, e.Passed := by
    intro fs e he
    obtain ⟨f, -, rfl⟩ := List.mem_map.mp he
    exact f.event_passed
  -- everything before the first tag
  have hhead : ∀ e ∈ (if r.declared then [Event.decl] else []) ++ r.before.map Filler.event,
      e.Passed := by
    intro e he
    rcases List.mem_append.mp he with hdecl | hfiller
    · split at hdecl
      · obtain rfl := List.mem_singleton.mp hdecl
        trivial
      · cases hdecl
    · exact hfillers _ e hfiller
  unfold parseProtocol Rendering.events
  generalize (if r.declared then [Event.decl] else []) ++ r.before.map Filler.event = head
    at hhead ⊢
  have hfuel : (head ++ bodyEvents ProtocolChild.events "protocol" r.attrs r.body ++
      r.after.map Filler.event).length + 1 = head.length +
        ((bodyEvents ProtocolChild.events "protocol" r.attrs r.body ++
          r.after.map Filler.event).length + 1) := by
    simp only [List.length_append]
    omega
  rw [hfuel, List.append_assoc, protocolLoop_passed hhead]
  cases hbody : r.body with
  | none =>
    have htail : ∀ e ∈ bodyEvents ProtocolChild.events "protocol" r.attrs none ++
        r.after.map Filler.event, e.Passed := by
      intro e he
      rcases List.mem_append.mp he with hempty | hfiller
      · obtain rfl := List.mem_singleton.mp hempty
        trivial
      · exact hfillers _ e hfiller
    have hloop := protocolLoop_children hplain [] htail
      ((bodyEvents ProtocolChild.events "protocol" r.attrs none ++
        r.after.map Filler.event).length + 1) ⟨"", 0, [], [], none⟩ (by simp)
    rw [List.flatMap_nil, List.nil_append] at hloop
    rw [hloop, Rendering.seen, hbody]
    rfl
  | some children =>
    have hchildren : r.children = children := by rw [Rendering.children, hbody, Option.getD_some]
    have htail : ∀ e ∈ .end_ "protocol" :: r.after.map Filler.event, Event.Passed e := by
      intro e he
      rcases List.mem_cons.mp he with rfl | hfiller
      · trivial
      · exact hfillers _ e hfiller
    simp only [bodyEvents, List.cons_append, List.append_assoc, List.nil_append]
    rw [protocolLoop]
    simp only [readEvent, if_true, attrRequired_eq r.nameAttr, attrRequired_eq r.versionAttr,
      Outcome.ok_bind, parseU32_repr]
    rw [protocolLoop_children hplain children htail]
    · simp only [Rendering.seen, hbody, Option.isSome_some, if_true, Protocol.with,
        Rendering.objects, Rendering.enums, Rendering.copyrights, hchildren, List.nil_append]
    · simp only [List.length_cons, List.length_append, List.length_map]
      omega

/-! ## What is kept -/

/-- A list that lost nothing, and changed nothing. -/
theorem filter_map_eq_iff {α β : Type} {p : α → Bool} {f g : α → β} {xs : List α} :
    (xs.filter p).map f = xs.map g ↔ ∀ x ∈ xs, p x = true ∧ f x = g x := by
  induction xs with
  | nil => exact iff_of_true rfl (by simp)
  | cons x xs ih =>
    rw [List.forall_mem_cons]
    cases hp : p x with
    | true =>
      rw [List.filter_cons_of_pos hp, List.map_cons, List.map_cons, List.cons.injEq, ih]
      simp only [true_and]
    | false =>
      rw [List.filter_cons_of_neg (by rw [hp]; simp)]
      refine iff_of_false ?_ ?_
      · intro heq
        have hlength := congrArg List.length heq
        have hle := List.length_filter_le p xs
        rw [List.length_map, List.length_map, List.length_cons] at hlength
        omega
      · rintro ⟨⟨hx, -⟩, -⟩
        cases hx

/-- What there is at most one of is kept iff it is seen. -/
theorem last_eq_head_iff {α β : Type} {p : α → Bool} {f : α → β} {xs : List α}
    (hone : xs.length ≤ 1) :
    last none ((xs.filter p).map f) = (xs.map f).head? ↔ ∀ x ∈ xs, p x = true := by
  cases xs with
  | nil => exact iff_of_true rfl nofun
  | cons x xs =>
    obtain rfl : xs = [] := List.length_eq_zero_iff.mp (Nat.le_zero.mp (Nat.le_of_succ_le_succ hone))
    cases hp : p x <;> simp [hp]

theorem upToPair_eq_iff {vs : List ValueTag} :
    (upToPair vs).map ValueTag.value = vs.map ValueTag.value ↔
      ∀ v ∈ vs.dropLast, v.form.isSelfClosing = true := by
  induction vs with
  | nil => exact iff_of_true rfl (by simp)
  | cons v vs ih =>
    cases hv : v.form.isSelfClosing with
    | true =>
      rw [upToPair, if_pos hv, List.map_cons, List.map_cons, List.cons.injEq, ih]
      cases vs with
      | nil => simp
      | cons w ws =>
        rw [List.dropLast_cons_cons, List.forall_mem_cons]
        simp only [true_and, hv]
    | false =>
      rw [upToPair, if_neg (by rw [hv]; simp)]
      cases vs with
      | nil => exact iff_of_true rfl (by simp)
      | cons w ws =>
        rw [List.dropLast_cons_cons, List.forall_mem_cons]
        refine iff_of_false (by simp) ?_
        rintro ⟨hx, -⟩
        rw [hv] at hx
        cases hx

/-- A description is kept iff it is not self-closing. -/
theorem descriptions_iff {ds : List DescriptionTag} (hone : ds.length ≤ 1) :
    last none ((ds.filter fun d => !d.selfClosing).map DescriptionTag.description) =
        (ds.map DescriptionTag.description).head? ↔ ∀ d ∈ ds, d.selfClosing = false := by
  rw [last_eq_head_iff hone]
  simp only [Bool.not_eq_true']

theorem MethodTag.seen_eq_iff (t : MethodTag) : t.seen = t.method ↔
    (∀ d ∈ t.descriptions, d.selfClosing = false) ∧
      ∀ r ∈ t.returns, r.form.isSelfClosing = true := by
  have honeReturns : t.returns.length ≤ 1 := t.oneReturns
  have honeDescription : t.descriptions.length ≤ 1 := t.oneDescription
  have hreturns := last_eq_head_iff (p := fun r => r.form.isSelfClosing) (f := ReturnsTag.iface)
    honeReturns
  rw [← hreturns, ← descriptions_iff honeDescription]
  simp only [seen, method, Method.mk.injEq, true_and]
  exact and_comm

theorem MethodTag.kept_iff (t : MethodTag) :
    t.Kept ↔ t.body.isSome = true ∧ t.seen = t.method := by
  rw [t.seen_eq_iff]
  exact ⟨fun h => ⟨h.body, h.descriptions, h.returns⟩, fun ⟨h₁, h₂, h₃⟩ => ⟨h₁, h₂, h₃⟩⟩

theorem ObjectTag.seen_eq_iff (t : ObjectTag) : t.seen = t.object ↔
    (∀ mt ∈ t.c2s, mt.Kept) ∧ (∀ mt ∈ t.s2c, mt.Kept) ∧
      ∀ d ∈ t.descriptions, d.selfClosing = false := by
  have honeDescription : t.descriptions.length ≤ 1 := t.oneDescription
  simp only [MethodTag.kept_iff, ← filter_map_eq_iff]
  rw [← descriptions_iff honeDescription]
  simp only [seen, object, Object.mk.injEq, true_and]

theorem ObjectTag.kept_iff (t : ObjectTag) :
    t.Kept ↔ t.body.isSome = true ∧ t.seen = t.object := by
  rw [t.seen_eq_iff]
  exact ⟨fun h => ⟨h.body, h.c2s, h.s2c, h.descriptions⟩,
    fun ⟨h₁, h₂, h₃, h₄⟩ => ⟨h₁, h₄, h₂, h₃⟩⟩

theorem EnumTag.kept_iff (t : EnumTag) : t.Kept ↔ t.body.isSome = true ∧ t.seen = t.enum := by
  have hseen : t.seen = t.enum ↔ ∀ v ∈ t.values.dropLast, v.form.isSelfClosing = true := by
    rw [← upToPair_eq_iff]
    simp only [seen, enum, Enum.mk.injEq, true_and]
  rw [hseen]
  exact ⟨fun h => ⟨h.body, h.values⟩, fun h => ⟨h.1, h.2⟩⟩

/-- What is seen is the definition iff everything is kept. -/
theorem Rendering.seen_eq_iff (r : Rendering) : r.seen = r.protocol ↔ r.Kept := by
  have hobjects : (∀ t ∈ r.objects, t.Kept) ↔ (r.objects.filter fun t => t.body.isSome).map
      ObjectTag.seen = r.objects.map ObjectTag.object := by
    simp only [ObjectTag.kept_iff, filter_map_eq_iff]
  have henums : (∀ t ∈ r.enums, t.Kept) ↔ (r.enums.filter fun t => t.body.isSome).map
      EnumTag.seen = r.enums.map EnumTag.enum := by
    simp only [EnumTag.kept_iff, filter_map_eq_iff]
  have hkept : r.Kept ↔ (r.body.isSome = true ∨ r.name = "" ∧ r.version = 0) ∧
      (∀ t ∈ r.objects, t.Kept) ∧ ∀ t ∈ r.enums, t.Kept :=
    ⟨fun h => ⟨h.body, h.objects, h.enums⟩, fun ⟨h₁, h₂, h₃⟩ => ⟨h₁, h₂, h₃⟩⟩
  rw [hkept, hobjects, henums]
  cases hbody : r.body with
  | none =>
    have hchildren : r.children = [] := by rw [Rendering.children, hbody, Option.getD_none]
    simp only [seen, protocol, hbody, objects, enums, copyrights, hchildren, Option.isSome_none,
      Bool.false_eq_true, if_false, List.filterMap_nil, List.filter_nil, List.map_nil,
      List.head?_nil, Protocol.mk.injEq, false_or, and_true]
    constructor
    · rintro ⟨hname, hversion⟩
      exact ⟨hname.symm, hversion.symm⟩
    · rintro ⟨hname, hversion⟩
      exact ⟨hname.symm, hversion.symm⟩
  | some children =>
    have hone : r.copyrights.length ≤ 1 := r.oneCopyright
    have hcopyright : last none (r.copyrights.map CopyrightTag.text) =
        (r.copyrights.map CopyrightTag.text).head? := by
      have hall := (last_eq_head_iff (p := fun _ => true) (f := CopyrightTag.text) hone).mpr
        fun _ _ => rfl
      rwa [List.filter_true] at hall
    simp only [seen, protocol, hbody, Option.isSome_some, if_true, Protocol.mk.injEq, hcopyright,
      true_and, and_true, true_or]

/-- **When a definition survives**: a rendering is read as the definition it renders iff everything
in it is kept. -/
theorem parse_rendering_iff (unescape : String → Outcome Failure String)
    (hplain : LeavesPlain unescape) (r : Rendering) :
    parseProtocol unescape r.events = .ok r.protocol ↔ r.Kept := by
  rw [parseProtocol_rendering hplain r, ← r.seen_eq_iff]
  exact ⟨Outcome.ok.inj, congrArg Outcome.ok⟩

/-! ## A destructor that is lost

An object with a destructor in front of another method, written as `<c2s/>` or as a pair. -/

def destroyTag (body : Option (List MethodChild)) (hbody : body.getD [] = []) : MethodTag where
  name := "destroy"
  destructor := true
  attrs := [("name", "destroy"), ("destructor", "true")]
  body := body
  nameAttr := rfl
  destructorAttr := by decide
  oneDescription := by rw [hbody]; exact Nat.zero_le _
  oneReturns := by rw [hbody]; exact Nat.zero_le _

def pingTag : MethodTag where
  name := "ping"
  destructor := false
  attrs := [("name", "ping")]
  body := some []
  nameAttr := rfl
  destructorAttr := by decide
  oneDescription := by decide
  oneReturns := by decide

def windowTag (destroy : MethodTag) : ObjectTag where
  name := "window"
  version := 1
  attrs := [("name", "window"), ("version", "1")]
  body := some [.c2s destroy, .filler .comment, .c2s pingTag]
  nameAttr := rfl
  versionAttr := by decide
  oneDescription := Nat.zero_le _

def windowProtocol (destroy : MethodTag) : Rendering where
  declared := true
  before := []
  name := "test"
  version := 1
  attrs := [("name", "test"), ("version", "1")]
  body := some [.object (windowTag destroy)]
  after := []
  nameAttr := rfl
  versionAttr := by decide
  oneCopyright := Nat.zero_le _

/-- Written as a pair, the destructor is kept. -/
theorem windowProtocol_kept : (windowProtocol (destroyTag (some []) rfl)).Kept where
  body := .inl rfl
  objects := by
    intro t ht
    obtain rfl := List.mem_singleton.mp ht
    refine ⟨rfl, nofun, ?_, nofun⟩
    intro mt hmt
    rcases List.mem_cons.mp hmt with rfl | hping
    · exact ⟨rfl, nofun, nofun⟩
    · obtain rfl := List.mem_singleton.mp hping
      exact ⟨rfl, nofun, nofun⟩
  enums := nofun

theorem parse_rendering_iff_window : parseProtocol .ok
    (windowProtocol (destroyTag (some []) rfl)).events =
      .ok (windowProtocol (destroyTag (some []) rfl)).protocol :=
  (parse_rendering_iff .ok (fun _ _ => rfl) _).mpr windowProtocol_kept

/-- **Written as `<c2s/>`, it is lost**, and `ping` takes its number. -/
theorem not_always_parsed : ¬ ∀ (unescape : String → Outcome Failure String),
    LeavesPlain unescape → ∀ r : Rendering, parseProtocol unescape r.events = .ok r.protocol := by
  intro h
  have hparsed := h .ok (fun _ _ => rfl) (windowProtocol (destroyTag none rfl))
  rw [parseProtocol_rendering fun _ _ => rfl] at hparsed
  have hnames := congrArg (fun p : Protocol => p.objects.map fun o => o.c2s.map Method.name)
    (Outcome.ok.inj hparsed)
  have hseen : (windowProtocol (destroyTag none rfl)).seen.objects.map
      (fun o => o.c2s.map Method.name) = [["ping"]] := rfl
  have hwritten : (windowProtocol (destroyTag none rfl)).protocol.objects.map
      (fun o => o.c2s.map Method.name) = [["destroy", "ping"]] := rfl
  rw [hseen, hwritten] at hnames
  exact absurd hnames (by decide)

end Hyprwire.Scanner.Parse
