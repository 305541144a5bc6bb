import Hyprwire.Scanner.Document
import Hyprwire.Scanner.Ident
import Hyprwire.Scanner.Returns

/-!
# `Scanner/Generate.lean` — `generate`

The generator with everything that a definition decides in it: which identifiers are made, in which
order, and which tokens they go into. A `quote!` is the name of its template and what is put into it;
the fixed text of a template is no part of the model, and neither is what becomes of the tokens. That
they are printed, read by `syn` and laid out by `prettyplease` is left to `Crates`.
-/

namespace Hyprwire.Scanner.Generate

/-! ## Tokens -/

/-- The `quote!`s of `generate.rs`, by what they print. Some are one for each type of argument. -/
inductive Template
  | compileError
  | doc
  | unitType
  | eventFieldType (argType : ArgType)
  | sendParamType (argType : ArgType)
  | parseArg (argType : ArgType)
  | callArg (argType : ArgType)
  | createObject
  | readSeq
  | field
  | seqField
  | unitVariant
  | variant
  | needleInit
  | fdsIterInit
  | dispatchBody
  | ifMethod
  | matchArm
  | matchMethod
  | objectData
  | enumValue
  | enumItem
  | objectSpec
  | cloneSpec
  | specModule
  | seqDecl
  | objectDecl
  | fieldDecl
  | eventVariant
  | eventVariantFields
  | eventEnum
  | sBound
  | fBound
  | param
  | path
  | eventPath
  | superPath
  | sendReturns
  | sendDestructor
  | sendNoArgs
  | send
  | rawFds
  | callSeq
  | call
  | newFn
  | dispatchBound
  | rootDispatchBound
  | serverObject
  | onBind
  | onBindNone
  | objectImpl
  | serverProtocol
  | serverModule
  | clientObject
  | clientProtocol
  | clientModule
  | file
  deriving DecidableEq, Repr

/-- `proc_macro2::TokenStream`. `row` is what `write_method_spec` prints, `lexed` a text that was
lexed. -/
inductive TokenStream (x : Xid)
  | ident (i : Ident x)
  | str (s : String)
  | num (n : Nat)
  | row (spec : MethodSpec)
  | lexed (s : String)
  | many (ts : List (TokenStream x))
  | quote (template : Template) (holes : List (TokenStream x))

/-- `quote! {}`. -/
def TokenStream.empty {x : Xid} : TokenStream x := .many []

/-- `Targets`: the field is private, so it is made of the three constants with `|`. -/
structure Targets where
  bits : UInt8
  valid : bits = 1 ∨ bits = 2 ∨ bits = 3

namespace Targets

def client : Targets := ⟨1, .inl rfl⟩
def server : Targets := ⟨2, .inr (.inl rfl)⟩
def all : Targets := ⟨3, .inr (.inr rfl)⟩

def bitOr (s t : Targets) : Targets where
  bits := s.bits ||| t.bits
  valid := by
    rcases s.valid with h | h | h <;> rcases t.valid with h' | h' | h' <;> rw [h, h'] <;> decide

def contains (s other : Targets) : Bool := s.bits &&& other.bits = other.bits

end Targets

/-- What the generator has from other crates, and from the standard library: whether a text lexes,
`TokenStream::to_string`, `syn::parse_file`, `prettyplease::unparse`, `{:?}` of a string, and
`CARGO_PKG_VERSION`. -/
structure Crates (x : Xid) where
  lex : String → Except String Unit
  display : TokenStream x → String
  File : Type
  parseFile : String → Except String File
  unparse : File → String
  debug : String → String
  scannerVersion : String

/-! ## Texts -/

/-- Without those at either end that are `p`. -/
def trimEnds {α : Type} (p : α → Bool) (xs : List α) : List α :=
  ((xs.dropWhile p).reverse.dropWhile p).reverse

/-- `str::trim`. -/
def trim (s : String) : String := String.ofList (trimEnds Parse.isWhitespace s.toList)

/-- A line that a `\n` ended, without a `\r` at its end. -/
def stripCr (line : List Char) : List Char :=
  if line.getLast? = some '\r' then line.dropLast else line

/-- `str::lines`. -/
def lines (s : String) : List String :=
  let parts := s.toList.splitOn '\n'
  (parts.dropLast.map stripCr ++ parts.getLast?.toList.filter (· ≠ [])).map String.ofList

/-- `trim_doc_lines`. -/
def trimDocLines (text : String) : List String := trimEnds (· = "") ((lines text).map trim)

example : trimDocLines "\n Binds the seat.\r\n\n  Once.\n " = ["Binds the seat.", "", "Once."] := by
  decide

/-- `description_doc_lines`. -/
def descriptionDocLines : Option Parse.Description → List String
  | none => []
  | some description =>
    let summary := (description.summary.map trim).toList.filter (· ≠ "")
    let bodyLines := (description.body.map trimDocLines).getD []
    if bodyLines.isEmpty then summary
    else if summary.isEmpty then bodyLines
    else summary ++ "" :: bodyLines

section

variable {x : Xid}

/-- `doc_attrs`. -/
def docAttrs (lines : List String) : TokenStream x :=
  if lines.isEmpty then .empty
  else .quote .doc (lines.map fun line => .str (if line = "" then "" else " " ++ line))

/-- `object_doc_attrs`. -/
def objectDocAttrs (description : Option Parse.Description) : TokenStream x :=
  docAttrs (descriptionDocLines description)

/-- `arg_doc_line`. -/
def argDocLine (arg : Parse.Arg) : String :=
  match (arg.summary.map trim).filter (· ≠ "") with
  | some summary => "`" ++ arg.name ++ "`: " ++ summary
  | none => "`" ++ arg.name ++ "`."

/-- A paragraph of documentation behind others. -/
def paragraph (before more : List String) : List String :=
  if more.isEmpty then before
  else if before.isEmpty then more
  else before ++ "" :: more

/-- `method_doc_attrs`. -/
def methodDocAttrs (method : Parse.Method) (returnsNamedObject : Bool) : TokenStream x :=
  let argLines := method.args.map argDocLine
  let lines := paragraph (descriptionDocLines method.description)
    (if argLines.isEmpty then [] else "Arguments:" :: argLines)
  let returned := if returnsNamedObject then method.returns.toList else []
  docAttrs (paragraph lines
    (returned.map fun returned => "Returns a new `" ++ returned ++ "` object."))

end

variable (x : Xid) (up : Char → String)

/-! ## Arguments -/

/-- The types that are printed, and the statements that are, for an argument: only an enum makes an
identifier. -/
def typed (template : ArgType → Template) (orElse : TokenStream x) (before : List (TokenStream x))
    (argType : ArgType) (interface : Option String) : Except Panicked (TokenStream x) :=
  match argType with
  | .enum =>
    match interface with
    | none => .ok orElse
    | some interface => do
      let ident ← formatIdent x (snakeToPascal up interface)
      .ok (.quote (template .enum) (before ++ [.ident ident]))
  | argType => .ok (.quote (template argType) before)

/-- `event_field_type`. -/
def eventFieldType (argType : ArgType) (interface : Option String) :
    Except Panicked (TokenStream x) :=
  typed x up .eventFieldType (.quote .unitType []) [] argType interface

/-- `send_param_type`. -/
def sendParamType (argType : ArgType) (interface : Option String) :
    Except Panicked (TokenStream x) :=
  typed x up .sendParamType (.quote .unitType []) [] argType interface

/-- `write_parse_arg`. -/
def writeParseArg (name : Ident x) (arg : Parse.Arg) : Except Panicked (TokenStream x) :=
  typed x up .parseArg .empty [.ident name] arg.argType arg.interface

/-- `call_arg_expr`. -/
def callArgExpr (nameIdent : Ident x) (argType : ArgType) : Except Panicked (TokenStream x) :=
  match argType with
  | .arrayFd => do
    let rawName ← formatIdent x (nameIdent.text ++ "_raw_fds")
    .ok (.quote (.callArg .arrayFd) [.ident rawName])
  | argType => .ok (.quote (.callArg argType) [.ident nameIdent])

/-! ## What an object receives -/

/-- The object a method makes: its module, its type, and the field it is handed over in. -/
def seqParse (isServer : Bool) (m : Parse.Method) : Except Panicked (TokenStream x) :=
  match m.returns with
  | some returned =>
    if isServer then do
      let returnedModIdent ← rawIdent x returned
      let returnedObjIdent ← formatIdent x (snakeToPascal up returned)
      let returnedFieldIdent ← rawIdent x returned
      .ok (.quote .createObject [.str returned, .ident returnedFieldIdent, .ident returnedModIdent,
        .ident returnedObjIdent])
    else .ok (.quote .readSeq [])
  | none => .ok .empty

/-- The field for what a method returns, in the event that is put together. -/
def returnField (isServer : Bool) (m : Parse.Method) :
    Except Panicked (List (TokenStream x)) :=
  match m.returns with
  | some returned =>
    if isServer then do
      let returnedFieldIdent ← rawIdent x returned
      .ok [.quote .field [.ident returnedFieldIdent]]
    else .ok [.quote .seqField []]
  | none => .ok []

/-- The body that reads a method's arguments and hands the event on. -/
def methodDispatch (eventPath : TokenStream x) (isServer : Bool) (m : Parse.Method) :
    Except Panicked (TokenStream x) := do
  let variantIdent ← formatIdent x (snakeToPascal up m.name)
  let needsNeedle := m.returns.isSome || !m.args.isEmpty
  let needsFdCursor := m.args.any fun arg => arg.argType = .fd || arg.argType = .arrayFd
  let seqParse ← seqParse x up isServer m
  let parseStmts ← m.args.mapM fun a => do
    let aname ← rawIdent x a.name
    writeParseArg x up aname a
  let returnField ← returnField x isServer m
  let argFields ← m.args.mapM fun a => do
    let aname ← rawIdent x a.name
    .ok (TokenStream.quote .field [.ident aname])
  let eventFields := returnField ++ argFields
  let eventConstruct :=
    if eventFields.isEmpty then .quote .unitVariant [eventPath, .ident variantIdent]
    else .quote .variant [eventPath, .ident variantIdent, .many eventFields]
  .ok (.quote .dispatchBody [if needsNeedle then .quote .needleInit [] else .empty,
    if needsFdCursor then .quote .fdsIterInit [] else .empty, seqParse, .many parseStmts,
    eventConstruct])

/-- The branching over methods: none, an `if` or a `match`. -/
def dispatch : List (Nat × TokenStream x) → TokenStream x
  | [] => .empty
  | [(idx, body)] => .quote .ifMethod [.num idx, body]
  | dispatches =>
    .quote .matchMethod (dispatches.map fun (idx, body) => .quote .matchArm [.num idx, body])

/-- `write_object_data_impl`. -/
def writeObjectDataImpl (objName : String) (objPath eventPath : TokenStream x)
    (methods : List Parse.Method) (isServer : Bool) (extraDispatchBounds : List (TokenStream x)) :
    Except Panicked (TokenStream x) := do
  let dataIdent ← formatIdent x (snakeToPascal up objName ++ "ObjectData")
  let methodDispatches ← methods.zipIdx.mapM fun (m, idx) => do
    let body ← methodDispatch x up eventPath isServer m
    .ok (idx, body)
  .ok (.quote .objectData [.ident dataIdent, objPath, .many extraDispatchBounds,
    dispatch x methodDispatches])

/-- The field an event is declared with for what its method returns. -/
def returnsField (isServer : Bool) (m : Parse.Method) : Except Panicked (Option (TokenStream x)) :=
  match m.returns with
  | some returned =>
    if isServer then do
      let returnedModIdent ← rawIdent x returned
      let returnedObjIdent ← formatIdent x (snakeToPascal up returned)
      let returnedFieldIdent ← rawIdent x returned
      .ok (some (.quote .objectDecl [.ident returnedFieldIdent, .ident returnedModIdent,
        .ident returnedObjIdent]))
    else .ok (some (.quote .seqDecl []))
  | none => .ok none

/-- The variant of a method. -/
def eventVariant (isServer : Bool) (m : Parse.Method) : Except Panicked (TokenStream x) := do
  let variant ← formatIdent x (snakeToPascal up m.name)
  let methodDocs := objectDocAttrs m.description
  let extra ← returnsField x up isServer m
  let fields ← m.args.mapM fun a => do
    let fname ← rawIdent x a.name
    let ftype ← eventFieldType x up a.argType a.interface
    .ok (TokenStream.quote .fieldDecl [.ident fname, ftype])
  .ok (match extra.toList ++ fields with
    | [] => .quote .eventVariant [methodDocs, .ident variant]
    | fields => .quote .eventVariantFields [methodDocs, .ident variant, .many fields])

/-- `write_event_enum`. -/
def writeEventEnum (eventIdent : Ident x) (methods : List Parse.Method) (isServer : Bool) :
    Except Panicked (TokenStream x) := do
  let variants ← methods.mapM (eventVariant x up isServer)
  .ok (.quote .eventEnum [.ident eventIdent, .many variants])

/-! ## What an object sends -/

/-- `build_call_body`. -/
def buildCallBody (idx : Nat) (args : List Parse.Arg) (isSeq : Bool) :
    Except Panicked (TokenStream x) := do
  let prep ← args.mapM fun arg => do
    let aname ← rawIdent x arg.name
    if arg.argType = .arrayFd then do
      let rawName ← formatIdent x (aname.text ++ "_raw_fds")
      .ok [TokenStream.quote .rawFds [.ident rawName, .ident aname]]
    else .ok []
  let callArgs ← args.mapM fun a => do
    let aname ← rawIdent x a.name
    callArgExpr x aname a.argType
  .ok (.quote (if isSeq then .callSeq else .call) [.many prep.flatten, .num idx, .many callArgs])

/-- `write_send_method`. -/
def writeSendMethod (idx : Nat) (m : Parse.Method) : Except Panicked (TokenStream x) := do
  let methodIdent ← formatIdent x ("send_" ++ m.name)
  let docs := methodDocAttrs m m.returns.isSome
  let sBound := if m.args.any fun a => a.argType = .arrayVarchar then .quote .sBound [] else .empty
  let fBound := if m.args.any fun a => a.argType = .arrayFd then .quote .fBound [] else .empty
  let paramPairs ← m.args.mapM fun arg => do
    let aname ← rawIdent x arg.name
    let atype ← sendParamType x up arg.argType arg.interface
    .ok (TokenStream.quote .param [.ident aname, atype])
  match m.returns with
  | some returned => do
    let callBody ← buildCallBody x idx m.args true
    let returnedModIdent ← rawIdent x returned
    let returnedObjIdent ← formatIdent x (snakeToPascal up returned)
    let returnedObjPath := .quote .superPath [.ident returnedModIdent, .ident returnedObjIdent]
    .ok (.quote .sendReturns [docs, .ident methodIdent, sBound, fBound, returnedObjPath,
      .many paramPairs, callBody])
  | none =>
    if m.destructor then do
      let callBody ← buildCallBody x idx m.args false
      .ok (.quote .sendDestructor [docs, .ident methodIdent, sBound, fBound, .many paramPairs,
        callBody])
    else if m.args.isEmpty then .ok (.quote .sendNoArgs [docs, .ident methodIdent, .num idx])
    else do
      let callBody ← buildCallBody x idx m.args false
      .ok (.quote .send [docs, .ident methodIdent, sBound, fBound, .many paramPairs, callBody])

/-- `write_new_fn`. -/
def writeNewFn (objName : String) (extraDispatchBounds : List (TokenStream x)) :
    Except Panicked (TokenStream x) := do
  let dataIdent ← formatIdent x (snakeToPascal up objName ++ "ObjectData")
  .ok (.quote .newFn [.many extraDispatchBounds, .ident dataIdent])

/-- The documentation of an `Event`. -/
def eventDocs (objModIdent : Ident x) (objName : String) : String :=
  "Incoming events for `" ++ objModIdent.display ++ "::" ++ snakeToPascal up objName ++ "`."

/-! ## The modules -/

/-- A type attribute that was lexed. -/
structure TypeAttribute where
  path : String
  tokens : TokenStream x

/-- `parse_type_attributes`. -/
def parseTypeAttributes {x : Xid} (crates : Crates x) (attributes : List (String × String)) :
    List (TypeAttribute x) :=
  attributes.map fun (path, attr) =>
    let path := trim path
    match crates.lex attr with
    | .ok () => ⟨path, .lexed attr⟩
    | .error err =>
      let msg := "failed to parse type attribute for '" ++ path ++ "': " ++ err
      ⟨path, .quote .compileError [.str msg]⟩

/-- `type_path_matches`. -/
def typePathMatches (attributePath fullPath : String) : Bool :=
  if attributePath = "." then true
  else if attributePath.toList.head? = some '.' then attributePath = fullPath
  else attributePath.toList.isSuffixOf fullPath.toList

/-- An enum of `generate_spec`. -/
def enumItem (protocolName : String) (typeAttributes : List (TypeAttribute x)) (e : Parse.Enum) :
    Except Panicked (TokenStream x) := do
  let ident ← formatIdent x (snakeToPascal up e.name)
  let variants ← e.values.mapM fun v => do
    let name ← formatIdent x (snakeToPascal up v.name)
    .ok (TokenStream.quote .enumValue [.ident name, .num v.idx.toNat])
  let fullPath := "." ++ protocolName ++ "." ++ e.name
  let enumAttributes := (typeAttributes.filter fun attr => typePathMatches attr.path fullPath).map
    (·.tokens)
  .ok (.quote .enumItem [.many enumAttributes, .ident ident, .many variants])

/-- An object of `generate_spec`. -/
def objectItem (obj : Parse.Object) : Except Panicked (TokenStream x) := do
  let specIdent ← formatIdent x (snakeToPascal up obj.name ++ "Spec")
  let staticIdent ← formatIdent x (snakeToScreaming up obj.name)
  let c2sSpecs := (methodSpecs obj.toObject.c2s).map .row
  let s2cSpecs := (methodSpecs obj.toObject.s2c).map .row
  .ok (.quote .objectSpec [.ident specIdent, .ident staticIdent, .many c2sSpecs, .many s2cSpecs,
    .str obj.name])

/-- `generate_spec`. -/
def generateSpec (protocol : Parse.Protocol) (typeAttributes : List (TypeAttribute x)) :
    Except Panicked (TokenStream x) := do
  let enumItems ← protocol.enums.mapM (enumItem x up protocol.name typeAttributes)
  let objectItems ← protocol.objects.mapM (objectItem x up)
  let protoSpecIdent ← formatIdent x (snakeToPascal up protocol.name ++ "ProtocolSpec")
  let objArcClones ← protocol.objects.mapM fun o => do
    let staticIdent ← formatIdent x (snakeToScreaming up o.name)
    .ok (TokenStream.quote .cloneSpec [.ident staticIdent])
  .ok (.quote .specModule [.many enumItems, .many objectItems, .ident protoSpecIdent,
    .num protocol.objects.length, .many objArcClones, .str protocol.name,
    .num protocol.version.toNat])

/-- The type of an object, under a module of another object or from outside of them. -/
def dispatchBound (template : Template) (returned : String) : Except Panicked (TokenStream x) := do
  let returnedModIdent ← rawIdent x returned
  let returnedObjIdent ← formatIdent x (snakeToPascal up returned)
  .ok (.quote template [.ident returnedModIdent, .ident returnedObjIdent])

/-- As many rounds as the search for returned objects needs. -/
def searchRounds (protocol : Parse.Protocol) : Nat := (returnedNames protocol.toProtocol).length + 1

/-- `collect_transitive_returns`. -/
def transitiveReturns (objName : String) (protocol : Parse.Protocol) : List String :=
  (collectTransitiveReturns (searchRounds protocol) objName protocol.toProtocol).getD []

/-- `collect_all_transitive_returns`. -/
def allTransitiveReturns (protocol : Parse.Protocol) : List String :=
  (collectAllTransitiveReturns (searchRounds protocol) protocol.toProtocol).getD []

/-- The module of an object on the server. -/
def serverObject (protocol : Parse.Protocol) (obj : Parse.Object) :
    Except Panicked (TokenStream x) := do
  let objModIdent ← rawIdent x obj.name
  let objTypeIdent ← formatIdent x (snakeToPascal up obj.name)
  let docs := objectDocAttrs obj.description
  let eventDocs := eventDocs x up objModIdent obj.name
  let extraDispatchBounds ← (transitiveReturns obj.name protocol).mapM
    (dispatchBound x up .dispatchBound)
  let eventIdent ← formatIdent x "Event"
  let eventEnum ← writeEventEnum x up eventIdent obj.c2s true
  let objPath := .quote .path [.ident objModIdent, .ident objTypeIdent]
  let eventPath := .quote .eventPath [.ident objModIdent]
  let objectDataImpl ←
    writeObjectDataImpl x up obj.name objPath eventPath obj.c2s true extraDispatchBounds
  let newFn ← writeNewFn x up obj.name extraDispatchBounds
  let sendMethods ← obj.s2c.zipIdx.mapM fun (m, idx) => writeSendMethod x up idx m
  .ok (.quote .serverObject [.ident objModIdent, docs, .ident objTypeIdent, .str eventDocs, eventEnum,
    objectDataImpl, .str obj.name, newFn, .many sendMethods])

/-- The implementation of an object that the server registers: the first one is bound. -/
def objectImpl (idx : Nat) (obj : Parse.Object) : Except Panicked (TokenStream x) :=
  if idx = 0 then do
    let bindObjModIdent ← rawIdent x obj.name
    let bindObjTypeIdent ← formatIdent x (snakeToPascal up obj.name)
    .ok (.quote .objectImpl [.str obj.name,
      .quote .onBind [.ident bindObjModIdent, .ident bindObjTypeIdent]])
  else .ok (.quote .objectImpl [.str obj.name, .quote .onBindNone []])

/-- `generate_server`. It indexes the objects with 0. -/
def generateServer (protocol : Parse.Protocol) : Except Panicked (TokenStream x) := do
  let items ← protocol.objects.mapM (serverObject x up protocol)
  let protoPascal := snakeToPascal up protocol.name
  let handlerIdent ← formatIdent x (protoPascal ++ "Handler")
  let implIdent ← formatIdent x (protoPascal ++ "Impl")
  let protoSpecIdent ← formatIdent x (protoPascal ++ "ProtocolSpec")
  match protocol.objects with
  | [] => .error .indexOutOfRange
  | first :: _ => do
    let firstObjModIdent ← rawIdent x first.name
    let firstObjTypeIdent ← formatIdent x (snakeToPascal up first.name)
    let firstObjPath := .quote .path [.ident firstObjModIdent, .ident firstObjTypeIdent]
    let allExtraDispatchBounds ← (allTransitiveReturns protocol).mapM
      (dispatchBound x up .rootDispatchBound)
    let objImpls ← protocol.objects.zipIdx.mapM fun (obj, idx) => objectImpl x up idx obj
    .ok (.quote .serverModule [.many items, .quote .serverProtocol [.ident handlerIdent,
      firstObjPath, .ident implIdent, .ident protoSpecIdent, .many allExtraDispatchBounds,
      .many objImpls]])

/-- The methods that a client may call by a `send_` method: not a destructor without arguments, for
which dropping the handle is there. -/
def clientSends (obj : Parse.Object) : List (Parse.Method × Nat) :=
  obj.c2s.zipIdx.filter fun (m, _) => !(m.destructor && m.args.isEmpty)

/-- The module of an object on the client. -/
def clientObject (protoImplIdent : Ident x) (obj : Parse.Object) :
    Except Panicked (TokenStream x) := do
  let objModIdent ← rawIdent x obj.name
  let objTypeIdent ← formatIdent x (snakeToPascal up obj.name)
  let docs := objectDocAttrs obj.description
  let eventDocs := eventDocs x up objModIdent obj.name
  let eventIdent ← formatIdent x "Event"
  let eventEnum ← writeEventEnum x up eventIdent obj.s2c false
  let objPath := .quote .path [.ident objModIdent, .ident objTypeIdent]
  let eventPath := .quote .eventPath [.ident objModIdent]
  let objectDataImpl ← writeObjectDataImpl x up obj.name objPath eventPath obj.s2c false []
  let newFn ← writeNewFn x up obj.name []
  let sendMethods ← (clientSends obj).mapM fun (m, idx) => writeSendMethod x up idx m
  .ok (.quote .clientObject [.ident objModIdent, .ident protoImplIdent, docs, .ident objTypeIdent,
    .str eventDocs, eventEnum, objectDataImpl, .str obj.name, newFn, .many sendMethods])

/-- `generate_client`. -/
def generateClient (protocol : Parse.Protocol) : Except Panicked (TokenStream x) := do
  let protoPascal := snakeToPascal up protocol.name
  let protoImplIdent ← formatIdent x (protoPascal ++ "Impl")
  let items ← protocol.objects.mapM (clientObject x up protoImplIdent)
  let protoSpecIdent ← formatIdent x (protoPascal ++ "ProtocolSpec")
  .ok (.quote .clientModule [.many items, .quote .clientProtocol [.ident protoImplIdent,
    .ident protoSpecIdent, .str protocol.name]])

/-! ## The file -/

variable {x} (crates : Crates x)

/-- The comment a copyright notice becomes. -/
def copyrightBlock (copyright : String) : String :=
  let lines := trimEnds (fun l => trim l = "") (lines copyright)
  let formatted := lines.map fun l => if trim l = "" then "" else "    " ++ trim l
  "/*\n This protocol's author copyright notice is:\n\n" ++ String.intercalate "\n" formatted
    ++ "\n\n*/\n\n"

/-- `generate`. -/
def generate (protocol : Parse.Protocol) (targets : Targets)
    (typeAttributes : List (String × String)) : Except Panicked String := do
  let headerComment := "// Generated with hyprwire-scanner " ++ crates.scannerVersion
    ++ ". Made with pure malice and hatred by r0chd.\n// " ++ protocol.name ++ "\n"
  let copyrightBlock := (protocol.copyright.map copyrightBlock).getD ""
  let spec ← generateSpec x up protocol (parseTypeAttributes crates typeAttributes)
  let server ←
    (if targets.contains .server then generateServer x up protocol else .ok .empty)
  let client ←
    (if targets.contains .client then generateClient x up protocol else .ok .empty)
  .ok (match crates.parseFile (crates.display (.quote .file [server, client, spec])) with
    | .ok file => headerComment ++ copyrightBlock ++ crates.unparse file
    | .error err =>
      let msg := "generated code is not valid Rust: " ++ err
      headerComment ++ copyrightBlock ++ "compile_error!(" ++ crates.debug msg ++ ");\n")

end Hyprwire.Scanner.Generate
