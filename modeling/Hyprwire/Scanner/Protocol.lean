import Hyprwire.Core.Types
import Hyprwire.Lib.Utf8

/-!
# `Scanner/Protocol.lean` — protocol definitions and what is generated from their types

The parsed form of a protocol (`parse.rs`), and the parts of the generated bindings that
depend on an argument's type alone: the method tables (`magic_for_arg`, `write_method_spec`)
and the expression a `send_` method builds its untyped argument with (`call_arg_expr`).

A `Value` is an argument of a generated `send_` method, or a field of a generated event: one
constructor per type that `send_param_type` and `event_field_type` print. Generated enums are
named by `snake_to_pascal`, which upper-cases with `char::to_uppercase`; that function is a
parameter (`up`), as nothing depends on which characters it maps where.
-/

namespace Hyprwire.Scanner

open Rust

/-- `parse::ArgType`. -/
inductive ArgType
  | varchar
  | fd
  | uint
  | int
  | f32
  | enum
  | arrayVarchar
  | arrayFd
  | arrayUint
  | arrayInt
  | arrayF32
  deriving DecidableEq, Repr

/-- `parse::Arg`. -/
structure Arg where
  name : String
  argType : ArgType
  interface : Option String
  deriving DecidableEq, Repr

/-- `parse::Method`. -/
structure Method where
  name : String
  args : List Arg
  returns : Option String
  destructor : Bool
  deriving DecidableEq, Repr

/-- `parse::Object`. -/
structure Object where
  name : String
  version : UInt32
  c2s : List Method
  s2c : List Method
  deriving DecidableEq, Repr

/-- The methods an object receives: a server is sent `c2s`, a client `s2c`. -/
def Object.methods (o : Object) (isServer : Bool) : List Method := if isServer then o.c2s else o.s2c

/-- `parse::EnumValue`. -/
structure EnumValue where
  name : String
  idx : UInt32
  deriving DecidableEq, Repr

/-- `parse::Enum`. -/
structure Enum where
  name : String
  values : List EnumValue
  deriving DecidableEq, Repr

/-- `parse::Protocol`. -/
structure Protocol where
  name : String
  version : UInt32
  objects : List Object
  enums : List Enum
  deriving DecidableEq, Repr

/-- `snake_to_pascal`. -/
def snakeToPascal (up : Char → String) (s : String) : String :=
  String.join ((s.splitOn "_").map fun part =>
    match part.toList with
    | [] => ""
    | c :: cs => up c ++ String.ofList cs)

/-! ## Method tables -/

/-- `magic_for_arg`. -/
def magicForArg : ArgType → List MessageMagic
  | .varchar => [.typeVarchar]
  | .fd => [.typeFd]
  | .uint | .enum => [.typeUint]
  | .int => [.typeInt]
  | .f32 => [.typeF32]
  | .arrayVarchar => [.typeArray, .typeVarchar]
  | .arrayFd => [.typeArray, .typeFd]
  | .arrayUint => [.typeArray, .typeUint]
  | .arrayInt => [.typeArray, .typeInt]
  | .arrayF32 => [.typeArray, .typeF32]

/-- The parameters of a method as its table row lists them. -/
def Method.params (m : Method) : List UInt8 :=
  (m.args.flatMap fun arg => magicForArg arg.argType).map MessageMagic.toU8

/-- `write_method_spec`. -/
def writeMethodSpec (idx : Nat) (m : Method) : MethodSpec where
  idx := UInt32.ofNat idx
  params := m.params
  returnsType := m.returns.getD ""
  since := 0
  destructor := m.destructor

/-- The method tables of an object, in the order the definition lists the methods. -/
def methodSpecs (ms : List Method) : List MethodSpec := ms.mapIdx writeMethodSpec

def Object.spec (o : Object) : ObjectSpec where
  objectName := o.name
  c2s := methodSpecs o.c2s
  s2c := methodSpecs o.s2c

/-- The `ProtocolSpec` that `generate_spec` prints. -/
def Protocol.spec (p : Protocol) : ProtocolSpec where
  specName := p.name
  specVer := p.version
  objects := p.objects.map Object.spec

theorem getElem?_methodSpecs (ms : List Method) (i : Nat) :
    (methodSpecs ms)[i]? = ms[i]?.map (writeMethodSpec i) := by
  simp [methodSpecs]

/-! ## Typed values -/

/-- An argument of a generated method. `unit` is what an enum argument without an interface
is given for a type; `parse_method` refuses such an argument. -/
inductive Value
  | varchar (s : String)
  | fd (fd : RawFd)
  | uint (v : UInt32)
  | int (v : Int32)
  | f32 (bits : UInt32)
  | enum (ident : String) (v : UInt32)
  | unit
  | arrayVarchar (ss : List String)
  | arrayFd (fds : List RawFd)
  | arrayUint (vs : List UInt32)
  | arrayInt (vs : List Int32)
  | arrayF32 (vs : List UInt32)
  deriving DecidableEq, Repr

/-- The generated enum `ident` has a variant with this discriminant. -/
def Declared (up : Char → String) (p : Protocol) (ident : String) (v : UInt32) : Prop :=
  ∃ e ∈ p.enums, snakeToPascal up e.name = ident ∧ ∃ x ∈ e.values, x.idx = v

instance (up : Char → String) (p : Protocol) (ident : String) (v : UInt32) :
    Decidable (Declared up p ident v) :=
  inferInstanceAs (Decidable (∃ e ∈ p.enums, _ ∧ ∃ x ∈ e.values, x.idx = v))

/-- `send_param_type`: the value has the type that is printed for the argument. Strings are
UTF-8 by their type; an enum value is a declared variant of the enum the argument names. -/
def HasType (up : Char → String) (p : Protocol) (arg : Arg) : Value → Prop
  | .varchar _ => arg.argType = .varchar
  | .fd _ => arg.argType = .fd
  | .uint _ => arg.argType = .uint
  | .int _ => arg.argType = .int
  | .f32 _ => arg.argType = .f32
  | .enum ident v => arg.argType = .enum ∧ arg.interface.map (snakeToPascal up) = some ident ∧
      Declared up p ident v
  | .unit => False
  | .arrayVarchar _ => arg.argType = .arrayVarchar
  | .arrayFd _ => arg.argType = .arrayFd
  | .arrayUint _ => arg.argType = .arrayUint
  | .arrayInt _ => arg.argType = .arrayInt
  | .arrayF32 _ => arg.argType = .arrayF32

/-- The elements of an array value. -/
def Value.count : Value → Nat
  | .arrayVarchar ss => ss.length
  | .arrayFd fds => fds.length
  | .arrayUint vs => vs.length
  | .arrayInt vs => vs.length
  | .arrayF32 vs => vs.length
  | _ => 0

/-- Arguments that fit a method: one per parameter, of its type, arrays below the limit of
the receiving side. -/
def WellTyped (up : Char → String) (p : Protocol) (args : List Arg) (vs : List Value) : Prop :=
  List.Forall₂ (fun arg v => HasType up p arg v ∧ v.count < 10000) args vs

/-- Arguments that compile: of their parameters' types, and as long as they like. -/
def Typed (up : Char → String) (p : Protocol) (args : List Arg) (vs : List Value) : Prop :=
  List.Forall₂ (HasType up p) args vs

theorem WellTyped.typed {up : Char → String} {p : Protocol} {args : List Arg} {vs : List Value}
    (h : WellTyped up p args vs) : Typed up p args vs := by
  induction h with
  | nil => exact .nil
  | cons hv _ ih => exact .cons hv.1 ih

/-- `call_arg_expr`: the untyped argument a `send_` method passes on. -/
def callArgExpr : Value → CallArg
  | .varchar s => .varchar (Utf8.asBytes s)
  | .fd fd => .fd fd
  | .uint v => .uint v
  | .int v => .int v
  | .f32 bits => .f32 bits
  | .enum _ v => .uint v
  | .unit => .uint 0
  | .arrayVarchar ss => .varcharArray (ss.map Utf8.asBytes)
  | .arrayFd fds => .fdArray fds
  | .arrayUint vs => .uintArray vs
  | .arrayInt vs => .intArray vs
  | .arrayF32 vs => .f32Array vs

end Hyprwire.Scanner
