import Hyprwire.Scanner.Generate

/-!
# `Scanner/Names.lean` — the definitions that can be generated from

`generate` makes identifiers of every name in a definition, some of them in several ways, and does
not look at them first. `Nameable` collects what each name has to be like; `generate_returns_iff`
says that this is all, and that a server cannot be generated without objects.

Each function is read the same way: whether it returns is a conjunction, over what it makes, of
whether that can be made.
-/

namespace Hyprwire.Scanner.Generate

/-! ## What returns -/

section

variable {ε α β : Type}

@[simp] theorem isOk_ok (a : α) : (Except.ok a : Except ε α).isOk = true := rfl

theorem exists_eq_ok {e : Except ε α} : (∃ a, e = .ok a) ↔ e.isOk = true := by
  cases e with
  | ok a => exact iff_of_true ⟨a, rfl⟩ rfl
  | error e => exact iff_of_false nofun nofun

theorem isOk_bind {e : Except ε α} {f : α → Except ε β} :
    (e >>= f).isOk = true ↔ ∃ a, e = .ok a ∧ (f a).isOk = true := by
  cases e with
  | ok a =>
    constructor
    · intro h
      exact ⟨a, rfl, h⟩
    · rintro ⟨b, hb, h⟩
      cases hb
      exact h
  | error e =>
    refine iff_of_false nofun ?_
    rintro ⟨b, hb, -⟩
    cases hb

theorem isOk_mapM {f : α → Except ε β} : ∀ {xs : List α},
    (xs.mapM f).isOk = true ↔ ∀ a ∈ xs, (f a).isOk = true := by
  intro xs
  induction xs with
  | nil => exact iff_of_true rfl nofun
  | cons a xs ih =>
    rw [List.mapM_cons, isOk_bind, List.forall_mem_cons, ← ih]
    constructor
    · rintro ⟨b, hb, h⟩
      rw [isOk_bind] at h
      obtain ⟨bs, hbs, -⟩ := h
      rw [hb, hbs]
      exact ⟨rfl, rfl⟩
    · intro ⟨hb, hbs⟩
      obtain ⟨b, hb⟩ := exists_eq_ok.mpr hb
      obtain ⟨bs, hbs⟩ := exists_eq_ok.mpr hbs
      refine ⟨b, hb, ?_⟩
      rw [hbs]
      rfl

/-- Numbering a list changes nothing about its members. -/
theorem forall_mem_zipIdx {P : α → Prop} {xs : List α} :
    (∀ y ∈ xs.zipIdx, P y.1) ↔ ∀ a ∈ xs, P a := by
  rw [← List.forall_mem_map (f := Prod.fst), List.zipIdx_map_fst]

end

variable (x : Xid) (up : Char → String)

/-! ## The condition -/

/-- The name of an object, as that of its module and that of its type. -/
structure Named (name : String) : Prop where
  module : x.Escapes name
  type : x.Accepts (snakeToPascal up name)

structure ArgNamed (arg : Parse.Arg) : Prop where
  field : x.Escapes arg.name
  interface : arg.argType = .enum → ∀ interface ∈ arg.interface,
    x.Accepts (snakeToPascal up interface)

/-- A method as an event of its receiver. -/
structure Receivable (isServer : Bool) (m : Parse.Method) : Prop where
  variant : x.Accepts (snakeToPascal up m.name)
  args : ∀ arg ∈ m.args, ArgNamed x up arg
  returns : isServer = true → ∀ returned ∈ m.returns, Named x up returned

/-- A method as a `send_` method of its sender. -/
structure Sendable (m : Parse.Method) : Prop where
  method : x.Rest m.name
  args : ∀ arg ∈ m.args, ArgNamed x up arg
  returns : ∀ returned ∈ m.returns, Named x up returned

/-- **The condition**: there is an object for a server, and every name can be made into the
identifiers that the targets make of it. -/
structure Nameable (p : Parse.Protocol) (targets : Targets) : Prop where
  protocol : x.Stem (snakeToPascal up p.name)
  enums : ∀ e ∈ p.enums, x.Accepts (snakeToPascal up e.name) ∧
    ∀ v ∈ e.values, x.Accepts (snakeToPascal up v.name)
  objects : ∀ o ∈ p.objects, Named x up o.name ∧ x.Accepts (snakeToScreaming up o.name)
  server : targets.contains .server = true → p.objects ≠ [] ∧ ∀ o ∈ p.objects,
    (∀ m ∈ o.c2s, Receivable x up true m) ∧ ∀ m ∈ o.s2c, Sendable x up m
  client : targets.contains .client = true → ∀ o ∈ p.objects,
    (∀ m ∈ o.s2c, Receivable x up false m) ∧
      ∀ m ∈ o.c2s, ¬ (m.destructor = true ∧ m.args = []) → Sendable x up m

variable {x up}

/-! ## Arguments -/

theorem isOk_typed {template : ArgType → Template} {orElse : TokenStream x}
    {before : List (TokenStream x)} {argType : ArgType} {interface : Option String} :
    (typed x up template orElse before argType interface).isOk = true ↔
      (argType = .enum → ∀ i ∈ interface, x.Accepts (snakeToPascal up i)) := by
  cases argType with
  | enum =>
    cases interface with
    | none => exact iff_of_true rfl fun _ => nofun
    | some i =>
      simp only [typed, isOk_bind, isOk_ok, and_true, exists_eq_ok, isOk_formatIdent, forall_const,
        Option.mem_def, Option.some.injEq, forall_eq']
  | _ => exact iff_of_true rfl nofun

theorem argNamed_iff {arg : Parse.Arg} : ArgNamed x up arg ↔
    x.Escapes arg.name ∧
      (arg.argType = .enum → ∀ i ∈ arg.interface, x.Accepts (snakeToPascal up i)) :=
  ⟨fun h => ⟨h.field, h.interface⟩, fun h => ⟨h.1, h.2⟩⟩

theorem named_iff {name : String} :
    Named x up name ↔ x.Escapes name ∧ x.Accepts (snakeToPascal up name) :=
  ⟨fun h => ⟨h.module, h.type⟩, fun h => ⟨h.1, h.2⟩⟩

theorem isOk_callArgExpr (i : Ident x) (argType : ArgType) :
    (callArgExpr x i argType).isOk = true := by
  cases argType with
  | arrayFd =>
    simp only [callArgExpr, isOk_bind, isOk_ok, and_true, exists_eq_ok, isOk_formatIdent]
    exact accepts_raw_fds i
  | _ => rfl

/-! ## What an object receives -/

theorem isOk_seqParse {isServer : Bool} {m : Parse.Method} :
    (seqParse x up isServer m).isOk = true ↔
      (isServer = true → ∀ returned ∈ m.returns, Named x up returned) := by
  unfold seqParse
  cases m.returns with
  | none => exact iff_of_true rfl fun _ => nofun
  | some returned =>
    cases isServer with
    | false => exact iff_of_true rfl nofun
    | true =>
      simp only [if_true, isOk_bind, isOk_ok, and_true, exists_and_right, exists_eq_ok,
        isOk_formatIdent, isOk_rawIdent, forall_const, Option.mem_def, Option.some.injEq,
        forall_eq', named_iff]
      tauto

theorem isOk_returnField {isServer : Bool} {m : Parse.Method} :
    (returnField x isServer m).isOk = true ↔
      (isServer = true → ∀ returned ∈ m.returns, x.Escapes returned) := by
  unfold returnField
  cases m.returns with
  | none => exact iff_of_true rfl fun _ => nofun
  | some returned =>
    cases isServer with
    | false => exact iff_of_true rfl nofun
    | true =>
      simp only [if_true, isOk_bind, isOk_ok, and_true, exists_eq_ok, isOk_rawIdent, forall_const,
        Option.mem_def, Option.some.injEq, forall_eq']

theorem isOk_returnsField {isServer : Bool} {m : Parse.Method} :
    (returnsField x up isServer m).isOk = true ↔
      (isServer = true → ∀ returned ∈ m.returns, Named x up returned) := by
  unfold returnsField
  cases m.returns with
  | none => exact iff_of_true rfl fun _ => nofun
  | some returned =>
    cases isServer with
    | false => exact iff_of_true rfl nofun
    | true =>
      simp only [if_true, isOk_bind, isOk_ok, and_true, exists_and_right, exists_eq_ok,
        isOk_formatIdent, isOk_rawIdent, forall_const, Option.mem_def, Option.some.injEq,
        forall_eq', named_iff]
      tauto

theorem receivable_iff {isServer : Bool} {m : Parse.Method} : Receivable x up isServer m ↔
    x.Accepts (snakeToPascal up m.name) ∧ (∀ arg ∈ m.args, ArgNamed x up arg) ∧
      (isServer = true → ∀ returned ∈ m.returns, Named x up returned) :=
  ⟨fun h => ⟨h.variant, h.args, h.returns⟩, fun h => ⟨h.1, h.2.1, h.2.2⟩⟩

theorem isOk_methodDispatch {eventPath : TokenStream x} {isServer : Bool} {m : Parse.Method} :
    (methodDispatch x up eventPath isServer m).isOk = true ↔ Receivable x up isServer m := by
  simp only [methodDispatch, isOk_bind, isOk_ok, isOk_mapM, and_true, exists_and_right, exists_eq_ok,
    isOk_formatIdent, isOk_rawIdent, isOk_seqParse, isOk_returnField, writeParseArg, isOk_typed]
  rw [receivable_iff]
  simp only [argNamed_iff]
  constructor
  · intro ⟨hvariant, hreturns, hargs, _⟩
    exact ⟨hvariant, hargs, hreturns⟩
  · intro ⟨hvariant, hargs, hreturns⟩
    exact ⟨hvariant, hreturns, hargs, fun h r hr => (hreturns h r hr).module,
      fun arg harg => (hargs arg harg).1⟩

theorem isOk_eventVariant {isServer : Bool} {m : Parse.Method} :
    (eventVariant x up isServer m).isOk = true ↔ Receivable x up isServer m := by
  simp only [eventVariant, isOk_bind, isOk_ok, isOk_mapM, and_true, exists_and_right, exists_eq_ok,
    isOk_formatIdent, isOk_rawIdent, isOk_returnsField, eventFieldType, isOk_typed]
  rw [receivable_iff]
  simp only [argNamed_iff]
  tauto

theorem isOk_writeEventEnum {eventIdent : Ident x} {methods : List Parse.Method}
    {isServer : Bool} : (writeEventEnum x up eventIdent methods isServer).isOk = true ↔
      ∀ m ∈ methods, Receivable x up isServer m := by
  simp only [writeEventEnum, isOk_bind, isOk_ok, isOk_mapM, and_true, exists_eq_ok, isOk_eventVariant]

theorem tail_objectData : Tail "ObjectData" := ⟨by decide, by decide, by decide⟩
theorem tail_spec : Tail "Spec" := ⟨by decide, by decide, by decide⟩
theorem tail_protocolSpec : Tail "ProtocolSpec" := ⟨by decide, by decide, by decide⟩
theorem tail_handler : Tail "Handler" := ⟨by decide, by decide, by decide⟩
theorem tail_impl : Tail "Impl" := ⟨by decide, by decide, by decide⟩

theorem isOk_writeObjectDataImpl {objName : String} {objPath eventPath : TokenStream x}
    {methods : List Parse.Method} {isServer : Bool} {bounds : List (TokenStream x)} :
    (writeObjectDataImpl x up objName objPath eventPath methods isServer bounds).isOk = true ↔
      x.Stem (snakeToPascal up objName) ∧ ∀ m ∈ methods, Receivable x up isServer m := by
  simp only [writeObjectDataImpl, isOk_bind, isOk_ok, isOk_mapM, and_true, exists_and_right,
    exists_eq_ok, isOk_formatIdent, isOk_methodDispatch, accepts_append tail_objectData]
  rw [forall_mem_zipIdx]

theorem isOk_writeNewFn {objName : String} {bounds : List (TokenStream x)} :
    (writeNewFn x up objName bounds).isOk = true ↔ x.Stem (snakeToPascal up objName) := by
  simp only [writeNewFn, isOk_bind, isOk_ok, and_true, exists_eq_ok, isOk_formatIdent,
    accepts_append tail_objectData]

/-! ## What an object sends -/

theorem isOk_buildCallBody {idx : Nat} {args : List Parse.Arg} {isSeq : Bool} :
    (buildCallBody x idx args isSeq).isOk = true ↔ ∀ arg ∈ args, x.Escapes arg.name := by
  have hprep : ∀ (arg : Parse.Arg) (aname : Ident x), (if arg.argType = .arrayFd then do
        let rawName ← formatIdent x (aname.text ++ "_raw_fds")
        .ok [TokenStream.quote .rawFds [.ident rawName, .ident aname]]
      else .ok [] : Except Panicked (List (TokenStream x))).isOk = true := by
    intro arg aname
    split
    · simp only [isOk_bind, isOk_ok, and_true, exists_eq_ok, isOk_formatIdent]
      exact accepts_raw_fds aname
    · rfl
  simp only [buildCallBody, isOk_bind, isOk_ok, isOk_mapM, and_true, exists_and_right, exists_eq_ok,
    isOk_rawIdent, hprep, isOk_callArgExpr, and_self]

theorem sendable_iff {m : Parse.Method} : Sendable x up m ↔
    x.Rest m.name ∧ (∀ arg ∈ m.args, ArgNamed x up arg) ∧
      ∀ returned ∈ m.returns, Named x up returned :=
  ⟨fun h => ⟨h.method, h.args, h.returns⟩, fun h => ⟨h.1, h.2.1, h.2.2⟩⟩

theorem isOk_writeSendMethod {idx : Nat} {m : Parse.Method} :
    (writeSendMethod x up idx m).isOk = true ↔ Sendable x up m := by
  -- The names of the arguments are asked for again in the body of the call.
  have hagain : (∀ arg ∈ m.args, x.Escapes arg.name ∧ (arg.argType = .enum →
      ∀ i ∈ arg.interface, x.Accepts (snakeToPascal up i))) → ∀ arg ∈ m.args, x.Escapes arg.name :=
    fun hargs arg harg => (hargs arg harg).1
  unfold writeSendMethod
  rw [sendable_iff]
  simp only [argNamed_iff]
  cases hreturns : m.returns with
  | some returned =>
    simp only [isOk_bind, isOk_ok, isOk_mapM, and_true, exists_and_right, exists_eq_ok,
      isOk_formatIdent, isOk_rawIdent, sendParamType, isOk_typed, isOk_buildCallBody, accepts_send,
      named_iff, Option.mem_def, Option.some.injEq, forall_eq'] at hagain ⊢
    constructor
    · rintro ⟨hmethod, hargs, -, hmodule, htype⟩
      exact ⟨hmethod, hargs, hmodule, htype⟩
    · rintro ⟨hmethod, hargs, hmodule, htype⟩
      exact ⟨hmethod, hargs, hagain hargs, hmodule, htype⟩
  | none =>
    have hnone : ∀ returned ∈ (none : Option String), Named x up returned := by simp
    cases m.destructor with
    | true =>
      simp only [if_true, isOk_bind, isOk_ok, isOk_mapM, and_true, exists_and_right, exists_eq_ok,
        isOk_formatIdent, isOk_rawIdent, sendParamType, isOk_typed, isOk_buildCallBody, accepts_send]
      constructor
      · rintro ⟨hmethod, hargs, -⟩
        exact ⟨hmethod, hargs, hnone⟩
      · rintro ⟨hmethod, hargs, -⟩
        exact ⟨hmethod, hargs, hagain hargs⟩
    | false =>
      cases hargs : m.args with
      | nil =>
        simp only [isOk_bind, isOk_ok, isOk_mapM, and_true, exists_and_right, exists_eq_ok,
          isOk_formatIdent, accepts_send, List.isEmpty_nil, if_true, Bool.false_eq_true, if_false]
        constructor
        · rintro ⟨hmethod, -⟩
          exact ⟨hmethod, by simp, hnone⟩
        · rintro ⟨hmethod, -⟩
          exact ⟨hmethod, by simp⟩
      | cons arg args =>
        rw [hargs] at hagain
        simp only [isOk_bind, isOk_ok, isOk_mapM, and_true, exists_and_right, exists_eq_ok,
          isOk_formatIdent, isOk_rawIdent, sendParamType, isOk_typed, isOk_buildCallBody,
          accepts_send, List.isEmpty_cons, Bool.false_eq_true, if_false]
        constructor
        · rintro ⟨hmethod, hargs, -⟩
          exact ⟨hmethod, hargs, hnone⟩
        · rintro ⟨hmethod, hargs, -⟩
          exact ⟨hmethod, hargs, hagain hargs⟩

/-! ## The specification -/

theorem isOk_enumItem {protocolName : String} {typeAttributes : List (TypeAttribute x)}
    {e : Parse.Enum} : (enumItem x up protocolName typeAttributes e).isOk = true ↔
      x.Accepts (snakeToPascal up e.name) ∧
        ∀ v ∈ e.values, x.Accepts (snakeToPascal up v.name) := by
  simp only [enumItem, isOk_bind, isOk_ok, isOk_mapM, and_true, exists_and_right, exists_eq_ok,
    isOk_formatIdent]

theorem isOk_objectItem {obj : Parse.Object} : (objectItem x up obj).isOk = true ↔
    x.Stem (snakeToPascal up obj.name) ∧ x.Accepts (snakeToScreaming up obj.name) := by
  simp only [objectItem, isOk_bind, isOk_ok, and_true, exists_and_right, exists_eq_ok,
    isOk_formatIdent, accepts_append tail_spec]

theorem isOk_generateSpec {protocol : Parse.Protocol} {typeAttributes : List (TypeAttribute x)} :
    (generateSpec x up protocol typeAttributes).isOk = true ↔
      (∀ e ∈ protocol.enums, x.Accepts (snakeToPascal up e.name) ∧
        ∀ v ∈ e.values, x.Accepts (snakeToPascal up v.name)) ∧
      (∀ o ∈ protocol.objects, x.Stem (snakeToPascal up o.name) ∧
        x.Accepts (snakeToScreaming up o.name)) ∧
      x.Stem (snakeToPascal up protocol.name) := by
  simp only [generateSpec, isOk_bind, isOk_ok, isOk_mapM, and_true, exists_and_right, exists_eq_ok,
    isOk_formatIdent, isOk_enumItem, isOk_objectItem, accepts_append tail_protocolSpec]
  constructor
  · intro ⟨henums, hobjects, hprotocol, _⟩
    exact ⟨henums, hobjects, hprotocol⟩
  · intro ⟨henums, hobjects, hprotocol⟩
    exact ⟨henums, hobjects, hprotocol, fun o ho => (hobjects o ho).2⟩

/-! ## The client -/

theorem accepts_event : x.Accepts "Event" := by
  have hident : x.isIdent "Event" = true := isIdent_of_letters (by decide) (by decide)
  unfold Xid.Accepts
  rw [stripRaw_of_isIdent hident]
  exact hident

/-- A method is numbered among all, before those that are not sent are left out. -/
theorem forall_mem_clientSends {P : Parse.Method → Prop} {obj : Parse.Object} :
    (∀ y ∈ clientSends obj, P y.1) ↔
      ∀ m ∈ obj.c2s, ¬ (m.destructor = true ∧ m.args = []) → P m := by
  have hkept : ∀ m : Parse.Method, (!(m.destructor && m.args.isEmpty)) = true ↔
      ¬ (m.destructor = true ∧ m.args = []) := by
    intro m
    rw [← List.isEmpty_iff, ← Bool.and_eq_true, Bool.not_eq_true', Bool.not_eq_true]
  rw [← @forall_mem_zipIdx _ (fun m => ¬ (m.destructor = true ∧ m.args = []) → P m)]
  simp only [clientSends, List.mem_filter, hkept, and_imp]

theorem isOk_clientObject {protoImplIdent : Ident x} {obj : Parse.Object} :
    (clientObject x up protoImplIdent obj).isOk = true ↔ Named x up obj.name ∧
      (∀ m ∈ obj.s2c, Receivable x up false m) ∧
      ∀ m ∈ obj.c2s, ¬ (m.destructor = true ∧ m.args = []) → Sendable x up m := by
  simp only [clientObject, isOk_bind, isOk_ok, isOk_mapM, and_true, exists_and_right, exists_eq_ok,
    isOk_formatIdent, isOk_rawIdent, isOk_writeEventEnum, isOk_writeObjectDataImpl,
    isOk_writeNewFn, isOk_writeSendMethod, accepts_event, true_and]
  rw [forall_mem_clientSends, named_iff]
  constructor
  · intro ⟨hmodule, htype, hreceived, _, _, hsent⟩
    exact ⟨⟨hmodule, htype⟩, hreceived, hsent⟩
  · intro ⟨⟨hmodule, htype⟩, hreceived, hsent⟩
    exact ⟨hmodule, htype, hreceived, ⟨htype.stem, hreceived⟩, htype.stem, hsent⟩

theorem isOk_generateClient {protocol : Parse.Protocol} :
    (generateClient x up protocol).isOk = true ↔ x.Stem (snakeToPascal up protocol.name) ∧
      ∀ o ∈ protocol.objects, Named x up o.name ∧ (∀ m ∈ o.s2c, Receivable x up false m) ∧
        ∀ m ∈ o.c2s, ¬ (m.destructor = true ∧ m.args = []) → Sendable x up m := by
  simp only [generateClient, isOk_bind, isOk_ok, isOk_mapM, and_true, exists_and_right,
    exists_eq_ok, isOk_formatIdent, isOk_clientObject, accepts_append tail_impl,
    accepts_append tail_protocolSpec]
  tauto

/-! ## The server -/

theorem isOk_dispatchBound {template : Template} {returned : String} :
    (dispatchBound x up template returned).isOk = true ↔ Named x up returned := by
  simp only [dispatchBound, isOk_bind, isOk_ok, and_true, exists_and_right, exists_eq_ok,
    isOk_formatIdent, isOk_rawIdent]
  exact named_iff.symm

/-- A name that is reached is returned by a method of some object. -/
theorem mem_transitiveReturns {p : Parse.Protocol} {objName name : String}
    (h : name ∈ transitiveReturns objName p) :
    ∃ o ∈ p.objects, ∃ m ∈ o.c2s, name ∈ m.returns := by
  obtain ⟨names, hends, -, hmem⟩ := collectTransitiveReturns_spec p.toProtocol objName
  rw [transitiveReturns, hends (searchRounds p) (Nat.lt_succ_self _), Option.getD_some] at h
  have hlast : ∃ last, Returns p.toProtocol last name := by
    cases ((hmem name).mp h).1 with
    | single hedge => exact ⟨_, hedge⟩
    | tail _ hedge => exact ⟨_, hedge⟩
  obtain ⟨last, hedge⟩ := hlast
  obtain ⟨obj, hfind, m, hm, hreturned⟩ := returns_iff.mp hedge
  obtain ⟨o, ho, rfl⟩ := List.mem_map.mp (List.mem_of_find?_eq_some hfind)
  obtain ⟨m', hm', rfl⟩ := List.mem_map.mp hm
  exact ⟨o, ho, m', hm', hreturned⟩

theorem mem_allTransitiveReturns {p : Parse.Protocol} {name : String}
    (h : name ∈ allTransitiveReturns p) : ∃ o ∈ p.objects, name ∈ transitiveReturns o.name p := by
  choose bounds hrun hnodup hmem using collectTransitiveReturns_spec p.toProtocol
  obtain ⟨all, hend, -, hunion⟩ := collectAllTransitiveReturns_spec hrun
  rw [allTransitiveReturns, hend (searchRounds p) (Nat.lt_succ_self _), Option.getD_some] at h
  obtain ⟨obj, hobj, hname⟩ := (hunion name).mp h
  obtain ⟨o, ho, rfl⟩ := List.mem_map.mp hobj
  refine ⟨o, ho, ?_⟩
  rw [transitiveReturns, hrun _ (searchRounds p) (Nat.lt_succ_self _), Option.getD_some]
  exact hname

theorem isOk_serverObject {protocol : Parse.Protocol} {obj : Parse.Object} :
    (serverObject x up protocol obj).isOk = true ↔ Named x up obj.name ∧
      (∀ name ∈ transitiveReturns obj.name protocol, Named x up name) ∧
      (∀ m ∈ obj.c2s, Receivable x up true m) ∧ ∀ m ∈ obj.s2c, Sendable x up m := by
  simp only [serverObject, isOk_bind, isOk_ok, isOk_mapM, and_true, exists_and_right, exists_eq_ok,
    isOk_formatIdent, isOk_rawIdent, isOk_dispatchBound, isOk_writeEventEnum,
    isOk_writeObjectDataImpl, isOk_writeNewFn, isOk_writeSendMethod, accepts_event, true_and]
  rw [forall_mem_zipIdx, named_iff]
  constructor
  · intro ⟨hmodule, htype, hreturned, hreceived, _, _, hsent⟩
    exact ⟨⟨hmodule, htype⟩, hreturned, hreceived, hsent⟩
  · intro ⟨⟨hmodule, htype⟩, hreturned, hreceived, hsent⟩
    exact ⟨hmodule, htype, hreturned, hreceived, ⟨htype.stem, hreceived⟩, htype.stem, hsent⟩

theorem isOk_objectImpl {idx : Nat} {obj : Parse.Object} (h : Named x up obj.name) :
    (objectImpl x up idx obj).isOk = true := by
  unfold objectImpl
  split
  · simp only [isOk_bind, isOk_ok, and_true, exists_and_right, exists_eq_ok, isOk_formatIdent,
      isOk_rawIdent]
    exact ⟨h.module, h.type⟩
  · rfl

/-- The implementation part needs no more than the objects do, and that there is one. -/
theorem isOk_generateServer {protocol : Parse.Protocol} :
    (generateServer x up protocol).isOk = true ↔ x.Stem (snakeToPascal up protocol.name) ∧
      protocol.objects ≠ [] ∧ ∀ o ∈ protocol.objects, Named x up o.name ∧
        (∀ m ∈ o.c2s, Receivable x up true m) ∧ ∀ m ∈ o.s2c, Sendable x up m := by
  unfold generateServer
  cases hobjects : protocol.objects with
  | nil =>
    simp only [isOk_bind]
    refine iff_of_false ?_ fun h => h.2.1 rfl
    rintro ⟨_, -, _, -, _, -, _, -, h⟩
    cases h
  | cons first others =>
    simp only [isOk_bind, isOk_ok, isOk_mapM, and_true, exists_and_right, exists_eq_ok,
      isOk_formatIdent, isOk_rawIdent, isOk_dispatchBound, isOk_serverObject,
      accepts_append tail_handler, accepts_append tail_impl, accepts_append tail_protocolSpec]
    rw [← hobjects]
    have hfirst : first ∈ protocol.objects := by
      rw [hobjects]
      exact List.mem_cons_self
    constructor
    · intro ⟨hitems, hstem, _⟩
      refine ⟨hstem, ?_, fun o ho => ?_⟩
      · rw [hobjects]
        exact List.cons_ne_nil _ _
      · obtain ⟨hname, -, hmethods⟩ := hitems o ho
        exact ⟨hname, hmethods⟩
    · intro ⟨hstem, _, hitems⟩
      have hreturned : ∀ objName, ∀ name ∈ transitiveReturns objName protocol,
          Named x up name := by
        intro objName name hname
        obtain ⟨o, ho, m, hm, hreturns⟩ := mem_transitiveReturns hname
        exact ((hitems o ho).2.1 m hm).returns rfl name hreturns
      refine ⟨fun o ho => ⟨(hitems o ho).1, hreturned o.name, (hitems o ho).2⟩, hstem, hstem, hstem,
        (hitems first hfirst).1.module, (hitems first hfirst).1.type, ?_, ?_⟩
      · intro name hname
        obtain ⟨o, -, hname⟩ := mem_allTransitiveReturns hname
        exact hreturned o.name name hname
      · intro y hy
        have hobj : y.1 ∈ protocol.objects :=
          forall_mem_zipIdx.mpr (fun o ho => ho) y hy
        exact isOk_objectImpl (hitems y.1 hobj).1

/-! ## The file -/

theorem isOk_ite {c : Bool} {e : Except Panicked (TokenStream x)} :
    (if c then e else .ok .empty).isOk = true ↔ (c = true → e.isOk = true) := by
  cases c with
  | true => exact ⟨fun h _ => h, fun h => h rfl⟩
  | false => exact iff_of_true rfl (by simp)

theorem Targets.contains_some (t : Targets) :
    t.contains .server = true ∨ t.contains .client = true := by
  unfold Targets.contains
  rcases t.valid with h | h | h <;> rw [h] <;> decide

theorem isOk_generate {crates : Crates x} {p : Parse.Protocol} {targets : Targets}
    {typeAttributes : List (String × String)} :
    (generate up crates p targets typeAttributes).isOk = true ↔
      (generateSpec x up p (parseTypeAttributes crates typeAttributes)).isOk = true ∧
      (targets.contains .server = true → (generateServer x up p).isOk = true) ∧
      (targets.contains .client = true → (generateClient x up p).isOk = true) := by
  simp only [generate, isOk_bind, isOk_ok, and_true, exists_and_right, exists_eq_ok, isOk_ite]

/-- Identifiers of ASCII alone. -/
def Xid.ascii : Xid where
  start := Char.isAlpha
  continue_ c := c.isAlphanum || c = '_'
  start_letter _ h := h
  continue_word _ h := by
    rw [Bool.or_eq_true, decide_eq_true_eq]
    exact h
  continue_hash := by decide

end Hyprwire.Scanner.Generate
