import Hyprwire.Wire.Validate

/-!
# `Wire/Enums.lean` — the enum numbers a peer may choose

An enum argument travels as a `u32`. The scanner prints the enum with the declared indices, which
may be sparse, and for the receiver a `transmute` of the number it read: no check stands between
the two, and `Error::InvalidParameter` is made nowhere.

`EnumsSafe` is what the handler of a well-signed message is owed. `enumsSafe_iff` says when it
gets it: when every number in the payload is declared, or when the printed function returns before
it reads an argument, because the state is not of its type or the server could not make the object
the message returns.
-/

namespace Hyprwire

open Rust Scanner

variable {m : Overflow} {up : Char → String} {p : Protocol} {O : Type}

/-! ## What the handler is owed -/

/-- Each enum argument was handed over as the declared variant with the number on the wire. -/
def EnumsHanded (up : Char → String) (p : Protocol) (args : List Arg) (fs : List (Field m))
    (handed : List (EventField O)) : Prop :=
  ∀ (i : Nat) (arg : Arg) (interface : String) (w : UInt32), args[i]? = some arg →
    arg.argType = .enum → arg.interface = some interface → fs[i]? = some (.scalar .uint w) →
    handed[i]? = some (.value (.enum (snakeToPascal up interface) w)) ∧
      Declared up p (snakeToPascal up interface) w

/-- **What is owed**: no number that is not declared reaches the `transmute`, and the handler
sees the declared variants, behind the field of the return seq. -/
def EnumsSafe (m : Overflow) (up : Char → String) (p : Protocol) (isServer : Bool)
    (objects : List (LiveObject O)) (msg : GenericProtocolMessage) (mt : Method)
    (fs : List (Field m)) : Prop :=
  onGeneric m up p isServer objects msg ≠ .panic .undefined ∧
  ∀ acts, onGeneric m up p isServer objects msg = .ok acts → ∀ e ∈ delivered acts,
    EnumsHanded up p mt.args fs (e.fields.drop (if mt.returns.isSome then 1 else 0))

/-! ## The values of declared fields -/

theorem fieldValue_enum {arg : Arg} {interface : String} {w : UInt32} {fds : List RawFd} {v : Value}
    (henum : arg.argType = .enum) (hiface : arg.interface = some interface)
    (hv : fieldValue up p arg (.scalar .uint w : Field m) fds = some v) :
    v = .enum (snakeToPascal up interface) w ∧ Declared up p (snakeToPascal up interface) w := by
  simp only [fieldValue, henum, hiface] at hv
  by_cases hdecl : Declared up p (snakeToPascal up interface) w
  · rw [if_pos hdecl] at hv
    exact ⟨(Option.some.inj hv).symm, hdecl⟩
  · rw [if_neg hdecl] at hv
    cases hv

/-- An enum argument's value is the variant its field names, at every position. -/
theorem enumsHanded_of_fieldValues : ∀ {args : List Arg} {fs : List (Field m)} {fds : List RawFd}
    {vs : List Value}, fieldValues up p args fs fds = some vs →
    EnumsHanded (O := O) up p args fs (vs.map .value) := by
  intro args
  induction args with
  | nil =>
    intro fs fds vs _ i arg interface w harg
    cases harg
  | cons arg args ih =>
    intro fs fds vs hvs i arg' interface w harg henum hiface hw
    cases fs with
    | nil => cases hw
    | cons f fs =>
      simp only [fieldValues] at hvs
      cases hv : fieldValue up p arg f (fds.take f.slots) with
      | none =>
        rw [hv] at hvs
        cases hvs
      | some v =>
        cases hrest : fieldValues up p args fs (fds.drop f.slots) with
        | none =>
          rw [hv, hrest] at hvs
          cases hvs
        | some vs' =>
          rw [hv, hrest] at hvs
          cases hvs
          -- The enum is the argument at hand, or one of those behind it.
          cases i with
          | zero =>
            cases harg
            cases hw
            obtain ⟨rfl, hdecl⟩ := fieldValue_enum henum hiface hv
            exact ⟨rfl, hdecl⟩
          | succ i => exact ih hrest i arg' interface w harg henum hiface hw

/-- Behind the field of the return seq stand the values. -/
theorem fields_of_eventOf {isServer : Bool} {createObject : String → UInt32 → Option O}
    {method seq : UInt32} {mt : Method} {vs : List Value} {e : Event O}
    (h : eventOf isServer createObject method mt seq vs = some e) :
    e.fields.drop (if mt.returns.isSome then 1 else 0) = vs.map .value := by
  unfold eventOf at h
  cases hret : mt.returns with
  | none =>
    rw [hret] at h
    cases h
    rfl
  | some returned =>
    simp only [hret] at h
    cases isServer with
    | false =>
      cases h
      rfl
    | true =>
      obtain ⟨o, -, rfl⟩ := Option.map_eq_some_iff.mp h
      rfl

/-- The object to be made could not be: the printed function returns before the arguments. -/
theorem onGeneric_dead {objects : List (LiveObject O)} {obj : LiveObject O}
    {msg : GenericProtocolMessage}
    (hfind : (objects.find? fun obj => obj.id = msg.object) = some obj)
    {mt : Method} (hmt : (obj.object.methods true)[msg.method.toNat]? = some mt)
    {seq : UInt32} {returned : String} (hret : mt.returns = some returned)
    (hlistens : obj.listens = true) (hdead : obj.createObject returned seq = none)
    {fs : List (Field m)}
    (hspan : msg.dataSpan = .ok (encodeAll (returnField m mt seq ++ fs) ++
      [MessageMagic.end_.toU8])) :
    onGeneric m up p true objects msg = .ok (destructorActions true obj msg.method) := by
  simp only [onGeneric, hfind, hspan, hlistens, Outcome.ok_bind]
  rw [encodeAll_append, List.append_assoc, dispatch_destroyed hmt hret hdead, Outcome.ok_bind]
  rfl

/-! ## When the handler gets it -/

/-- An outcome that delivers nothing hands over no enum. -/
theorem enumsSafe_of_silent {isServer : Bool} {objects : List (LiveObject O)} {obj : LiveObject O}
    {msg : GenericProtocolMessage} {mt : Method} {fs : List (Field m)}
    (hrun : onGeneric m up p isServer objects msg
      = .ok (destructorActions isServer obj msg.method)) :
    EnumsSafe m up p isServer objects msg mt fs := by
  refine ⟨by rw [hrun]; simp, ?_⟩
  intro acts hacts e he
  rw [hrun] at hacts
  cases hacts
  have hnil := @delivered_found O isServer obj none msg.method
  rw [Option.toList_none, List.map_nil, List.nil_append] at hnil
  rw [hnil] at he
  cases he

/-- **Enum arguments are declared variants exactly when the peer sent declared numbers**, or when
the printed function returns before it reads one. For every protocol, every method and every
message `from_bytes` accepts with the fields the method declares, on either side and in either
build. -/
theorem enumsSafe_iff (m : Overflow) (up : Char → String) (p : Protocol) (isServer : Bool)
    {O : Type} {objects : List (LiveObject O)} {obj : LiveObject O}
    {data : List UInt8} {fds rest : List RawFd} {offset : Nat} {msg : GenericProtocolMessage}
    (hlen : data.length ≤ isizeMax) (hfds : fds.length ≤ isizeMax)
    (hacc : GenericProtocolMessage.fromBytes m data fds offset = .ok (msg, rest))
    (hfind : (objects.find? fun obj => obj.id = msg.object) = some obj)
    {mt : Method} (hmt : (obj.object.methods isServer)[msg.method.toNat]? = some mt)
    (hparsed : Parsed mt.args) {seq : UInt32} {fs : List (Field m)}
    (hspan : msg.dataSpan = .ok (encodeAll (returnField m mt seq ++ fs) ++
      [MessageMagic.end_.toU8]))
    (hm : Matches mt.args fs) :
    EnumsSafe m up p isServer objects msg mt fs ↔ EnumsDeclared up p mt.args fs ∨
      obj.listens = false ∨ ∃ returned, mt.returns = some returned ∧ isServer = true ∧
        obj.createObject returned seq = none := by
  cases hlistens : obj.listens with
  | false =>
    exact iff_of_true (enumsSafe_of_silent (onGeneric_deaf hfind hlistens hspan)) (.inr (.inl rfl))
  | true =>
    rw [or_iff_right (show ¬ true = false by decide)]
    have hslots : slotsAll fs ≤ msg.fds.length := by
      rw [length_fds_of_accepted hlen hfds hacc hspan, slotsAll_returnField]
    have hfit := length_dataSpan_of_accepted hacc hspan
    rw [List.length_append] at hfit
    by_cases hdead : ∃ returned, mt.returns = some returned ∧ isServer = true ∧
        obj.createObject returned seq = none
    · refine iff_of_true ?_ (.inr hdead)
      obtain ⟨returned, hret, rfl, hnone⟩ := hdead
      exact enumsSafe_of_silent (onGeneric_dead hfind hmt hret hlistens hnone hspan)
    · have halive : ∀ returned, mt.returns = some returned → isServer = true →
          (obj.createObject returned seq).isSome := by
        intro returned hret hserver
        rw [Option.isSome_iff_ne_none]
        exact fun hnone => hdead ⟨returned, hret, hserver, hnone⟩
      have hrun := @onGeneric_signed m up p O isServer objects obj msg hfind hlistens mt hmt hparsed
        seq halive fs hm hspan (by simp only [isizeMax] at hlen; omega) hslots
      rw [or_iff_left hdead, ← fieldValues_isSome hm hparsed hslots, EnumsSafe, hrun]
      cases hvs : fieldValues up p mt.args fs msg.fds with
      | none => exact iff_of_false (fun h => h.1 rfl) (by simp)
      | some vs =>
        refine iff_of_true ⟨by simp, ?_⟩ rfl
        intro acts hacts e he
        cases hacts
        rw [delivered_found] at he
        rw [fields_of_eventOf (Option.mem_toList.mp he)]
        exact enumsHanded_of_fieldValues hvs

/-! ## A number nobody declared

`set_kind` takes an enum with one variant, 2; the message carries 7. -/

def kindWindow : LiveObject Unit where
  id := 1
  object := ⟨"window", 1, [⟨"set_kind", [⟨"kind", .enum, some "kind"⟩], none, false⟩], []⟩
  listens := true
  createObject _ _ := some ()

def kindProtocol : Protocol := ⟨"sample", 1, [kindWindow.object], [⟨"kind", [⟨"popup", 2⟩]⟩]⟩

/-- `set_kind(kind)` on object 1. -/
def setKind (kind : UInt8) : List UInt8 :=
  [100, 0x22, 1, 0, 0, 0, 0x10, 0, 0, 0, 0, 0x10, kind, 0, 0, 0, 0]

def setKindMessage (kind : UInt8) : GenericProtocolMessage where
  dependsOnSeq := 0
  object := 1
  method := 0
  fds := []
  data := setKind kind
  range := (11, 17)

/-- 7 is no number of the enum, whatever its name becomes. -/
theorem fieldValues_undeclared :
    fieldValues Char.toString kindProtocol [⟨"kind", .enum, some "kind"⟩]
      [(.scalar .uint 7 : Field .checked)] [] = none := by
  have hnot : ¬ Declared Char.toString kindProtocol (snakeToPascal Char.toString "kind") 7 := by
    intro hdecl
    obtain ⟨e, he, -, x, hx, hidx⟩ := hdecl
    obtain rfl := List.mem_singleton.mp he
    obtain rfl := List.mem_singleton.mp hx
    revert hidx
    decide
  simp only [fieldValues, fieldValue, if_neg hnot]
  rfl

/-- Every number is accepted; 7 goes through the `transmute`. -/
theorem not_always_declared :
    GenericProtocolMessage.fromBytes .checked (setKind 7) [] 0 = .ok (setKindMessage 7, []) ∧
    (setKindMessage 7).dataSpan
      = .ok (encodeAll [(.scalar .uint 7 : Field .checked)] ++ [MessageMagic.end_.toU8]) ∧
    Matches [⟨"kind", .enum, some "kind"⟩] [(.scalar .uint 7 : Field .checked)] ∧
    ¬ EnumsSafe .checked Char.toString kindProtocol true [kindWindow] (setKindMessage 7)
      ⟨"set_kind", [⟨"kind", .enum, some "kind"⟩], none, false⟩ [.scalar .uint 7] := by
  have hparsed : Parsed [(⟨"kind", .enum, some "kind"⟩ : Arg)] := by
    intro arg harg _
    obtain rfl := List.mem_singleton.mp harg
    nofun
  have hrun := @onGeneric_signed .checked Char.toString kindProtocol Unit true [kindWindow] kindWindow
    (setKindMessage 7) rfl rfl _ rfl hparsed 0 nofun [.scalar .uint 7] (.cons rfl .nil) (by decide)
    (by decide) (by decide)
  have hundefined : onGeneric .checked Char.toString kindProtocol true [kindWindow]
      (setKindMessage 7) = .panic .undefined :=
    hrun.trans (by simp only [setKindMessage, fieldValues_undeclared])
  exact ⟨by decide, by decide, .cons rfl .nil, fun h => h.1 hundefined⟩

theorem declared_popup :
    EnumsDeclared Char.toString kindProtocol [⟨"kind", .enum, some "kind"⟩]
      [(.scalar .uint 2 : Field .checked)] := by
  refine .cons ?_ .nil
  rintro interface w - h₁ h₂
  cases h₁
  cases h₂
  exact ⟨_, List.mem_singleton.mpr rfl, rfl, ⟨"popup", 2⟩, List.mem_singleton.mpr rfl, rfl⟩

/-- And 2, the declared one, is handed over. -/
theorem enumsSafe_iff_popup :
    EnumsSafe .checked Char.toString kindProtocol true [kindWindow] (setKindMessage 2)
        ⟨"set_kind", [⟨"kind", .enum, some "kind"⟩], none, false⟩ [.scalar .uint 2] := by
  have hacc : GenericProtocolMessage.fromBytes .checked (setKind 2) [] 0
      = .ok (setKindMessage 2, []) := by decide
  have hparsed : Parsed [(⟨"kind", .enum, some "kind"⟩ : Arg)] := by
    intro arg harg _
    obtain rfl := List.mem_singleton.mp harg
    nofun
  have hspan : (setKindMessage 2).dataSpan = .ok (encodeAll (returnField .checked
      ⟨"set_kind", [⟨"kind", .enum, some "kind"⟩], none, false⟩ 0 ++ [.scalar .uint 2])
        ++ [MessageMagic.end_.toU8]) := by decide
  exact (enumsSafe_iff .checked Char.toString kindProtocol true (by decide) (by decide) hacc rfl
    rfl hparsed hspan (.cons rfl .nil)).mpr (.inl declared_popup)

end Hyprwire
