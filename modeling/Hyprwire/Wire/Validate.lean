import Hyprwire.Scanner.Parse
import Hyprwire.Wire.Word

/-!
# `Wire/Validate.lean` — accepted messages and the generated dispatch

`from_bytes` checks a payload against the tags the payload itself carries; the generated
`dispatch` walks the same bytes by the signature of the method. Nobody compares the two.
`Error` has cases for a method index out of range and for an argument of another type
(`InvalidMethod`, `InvalidParameter`), and no function of the program makes either.

`onGeneric` is what both sides do with an accepted message. `Validated` is what its receiver
is owed, and `validated_iff` says when it gets it: exactly when the state that is dispatched is one
the object's data are for, the fields in the payload are those the method declares and every enum
number is a declared variant. Of every other message the receiver is told nothing, and it may
panic.
-/

namespace Hyprwire

open Rust Scanner

variable {m : Overflow} {up : Char → String} {p : Protocol} {O : Type}

/-- An object in a side's table, with its generated `ObjectData`. It listens when `object_data` is
set, and the state that is dispatched is of the type the data were made for: the printed function
asks for a `D`, and given any other state it returns before it reads a byte. -/
structure LiveObject (O : Type) where
  id : UInt32
  object : Object
  listens : Bool
  createObject : String → UInt32 → Option O

/-- What a side does while it handles a generic message, in order. -/
inductive Action (O : Type)
  | event (e : Event O)
  | destroyed
  | destroyObject (id : UInt32)
  | sendFatal (objectId errorId : UInt32) (errorMsg : String)
  | setError
  | shutdown
  deriving DecidableEq, Repr

/-- The tail of `on_generic`: a destructor method takes its object out of the table. -/
def destructorActions (isServer : Bool) (obj : LiveObject O) (method : UInt32) : List (Action O) :=
  match (obj.object.methods isServer)[method.toNat]? with
  | some mt =>
    if mt.destructor then .destroyed :: if obj.id ≠ 0 then [.destroyObject obj.id] else []
    else []
  | none => []

/-- `ServerClientState::on_generic` (`isServer`) and `ClientSocket::on_generic`. -/
def onGeneric (m : Overflow) (up : Char → String) (p : Protocol) (isServer : Bool)
    (objects : List (LiveObject O)) (msg : GenericProtocolMessage) :
    Outcome Error (List (Action O)) :=
  match objects.find? fun obj => obj.id = msg.object with
  | some obj => do
    let span ← msg.dataSpan
    let event ← dispatch m up p isServer obj.listens obj.createObject
      (obj.object.methods isServer) msg.method span msg.fds
    .ok (event.toList.map .event ++ destructorActions isServer obj msg.method)
  | none =>
    if isServer then
      .ok [.sendFatal msg.object 0xFFFFFFFF
        s!"generic message references unknown object {msg.object}", .setError]
    else .ok [.setError, .shutdown]

/-! ## What the receiver is owed -/

/-- The events that were delivered. -/
def delivered (acts : List (Action O)) : List (Event O) :=
  acts.filterMap fun
    | .event e => some e
    | _ => none

/-- The receiver told anyone: it set its error flag or sent an error. -/
def Reported (acts : List (Action O)) : Prop :=
  .setError ∈ acts ∨ ∃ objectId errorId errorMsg, .sendFatal objectId errorId errorMsg ∈ acts

/-- The declared signature of a method: the return seq first, then the parameters. -/
def signature (mt : Method) : List MessageMagic :=
  (if mt.returns.isSome then [.typeSeq] else [])
    ++ mt.args.flatMap fun arg => magicForArg arg.argType

/-- The payload has the fields the method at this index declares. -/
def WellSigned (m : Overflow) (methods : List Method) (msg : GenericProtocolMessage) : Prop :=
  ∃ mt, methods[msg.method.toNat]? = some mt ∧ ∃ fs : List (Field m),
    msg.dataSpan = .ok (encodeAll fs ++ [MessageMagic.end_.toU8]) ∧ tagsAll fs = signature mt

/-- **What is owed**: one event for a well-signed message; for any other none, and an error
reported. A panic is neither. -/
def Validated (m : Overflow) (up : Char → String) (p : Protocol) (isServer : Bool)
    (objects : List (LiveObject O)) (obj : LiveObject O) (msg : GenericProtocolMessage) : Prop :=
  match onGeneric m up p isServer objects msg with
  | .ok acts =>
    (WellSigned m (obj.object.methods isServer) msg → (delivered acts).length = 1) ∧
    (¬ WellSigned m (obj.object.methods isServer) msg → delivered acts = [] ∧ Reported acts)
  | _ => False

/-- Every enum argument finds a declared variant in its field. -/
def EnumsDeclared (up : Char → String) (p : Protocol) (args : List Arg)
    (fs : List (Field m)) : Prop :=
  List.Forall₂ (fun arg f => ∀ interface w, arg.argType = .enum → arg.interface = some interface →
    f = .scalar .uint w → Declared up p (snakeToPascal up interface) w) args fs

/-- **The condition**: the fields are the declared ones, and so are the enum numbers. -/
def WellFormed (m : Overflow) (up : Char → String) (p : Protocol) (methods : List Method)
    (msg : GenericProtocolMessage) : Prop :=
  ∃ mt, methods[msg.method.toNat]? = some mt ∧ ∃ (seq : UInt32) (fs : List (Field m)),
    msg.dataSpan = .ok (encodeAll (returnField m mt seq ++ fs) ++ [MessageMagic.end_.toU8]) ∧
    Matches mt.args fs ∧ EnumsDeclared up p mt.args fs

/-! ## Signatures -/

theorem Field.tags_ne_nil (f : Field m) : f.tags ≠ [] := by
  cases f <;> simp [Field.tags]

/-- Tags are a prefix code: a field whose tags begin like an argument's has its tags. -/
theorem tags_eq_of_append {f : Field m} {t : ArgType} {xs ys : List MessageMagic}
    (h : f.tags ++ xs = magicForArg t ++ ys) : f.tags = magicForArg t ∧ xs = ys := by
  have hlen : f.tags.length = (magicForArg t).length := by
    cases f with
    | scalar s w => cases t <;> cases s <;> simp_all [Field.tags, magicForArg, Scalar.magic]
    | varchar s => cases t <;> simp_all [Field.tags, magicForArg]
    | scalars s n ws _ _ => cases t <;> simp_all [Field.tags, magicForArg]
    | strings n ss _ _ => cases t <;> simp_all [Field.tags, magicForArg]
    | fds n _ => cases t <;> simp_all [Field.tags, magicForArg]
    | fd => cases t <;> simp_all [Field.tags, magicForArg]
  exact List.append_inj h hlen

theorem matches_of_tags : ∀ {args : List Arg} {fs : List (Field m)},
    tagsAll fs = (args.flatMap fun arg => magicForArg arg.argType) → Matches args fs
  | [], [], _ => .nil
  | [], f :: fs, h => by
    rw [tagsAll_cons, List.flatMap_nil, List.append_eq_nil_iff] at h
    exact absurd h.1 f.tags_ne_nil
  | arg :: args, [], h => by
    rw [tagsAll_nil, List.flatMap_cons] at h
    have hnil := (List.append_eq_nil_iff.mp h.symm).1
    cases harg : arg.argType <;> rw [harg] at hnil <;> cases hnil
  | arg :: args, f :: fs, h => by
    rw [tagsAll_cons, List.flatMap_cons] at h
    obtain ⟨hf, hrest⟩ := tags_eq_of_append h
    exact .cons hf (matches_of_tags hrest)

theorem tags_of_matches {args : List Arg} {fs : List (Field m)} (h : Matches args fs) :
    tagsAll fs = args.flatMap fun arg => magicForArg arg.argType := by
  induction h with
  | nil => rfl
  | cons hf _ ih => rw [tagsAll_cons, List.flatMap_cons, hf, ih]

/-- Fields with a method's signature are its return seq and its arguments. -/
theorem fields_of_signature {mt : Method} {fs : List (Field m)} (h : tagsAll fs = signature mt) :
    ∃ (seq : UInt32) (args : List (Field m)), fs = returnField m mt seq ++ args ∧
      Matches mt.args args := by
  simp only [signature, returnField] at *
  by_cases hret : mt.returns.isSome = true
  · simp only [hret, if_true] at h ⊢
    cases fs with
    | nil => cases h
    | cons f fs =>
      rw [tagsAll_cons] at h
      obtain ⟨seq, rfl⟩ : ∃ seq, f = .scalar .seq seq := by
        cases f with
        | scalar t w => cases t <;> simp [Field.tags, Scalar.magic] at h ⊢
        | _ => simp [Field.tags] at h
      exact ⟨seq, fs, rfl, matches_of_tags (List.append_cancel_left h)⟩
  · simp only [hret, Bool.false_eq_true, if_false] at h ⊢
    exact ⟨0, fs, rfl, matches_of_tags h⟩

theorem wellSigned_of_wellFormed {methods : List Method} {msg : GenericProtocolMessage}
    (h : WellFormed m up p methods msg) : WellSigned m methods msg := by
  obtain ⟨mt, hmt, seq, fs, hspan, hm, -⟩ := h
  refine ⟨mt, hmt, _, hspan, ?_⟩
  have hargs := tags_of_matches hm
  simp only [signature, returnField]
  cases mt.returns with
  | none => exact hargs
  | some returned => exact congrArg (MessageMagic.typeSeq :: ·) hargs

/-! ## Enum numbers -/

/-- The declared fields have values iff the enum numbers do. -/
theorem fieldValue_isSome {arg : Arg} {f : Field m} {fds : List RawFd}
    (htags : f.tags = magicForArg arg.argType) (hslots : fds.length = f.slots)
    (hiface : arg.argType = .enum → arg.interface ≠ none) :
    (fieldValue up p arg f fds).isSome ↔ ∀ interface w, arg.argType = .enum →
      arg.interface = some interface → f = .scalar .uint w →
        Declared up p (snakeToPascal up interface) w := by
  obtain ⟨name, argType, interface⟩ := arg
  simp only at htags hiface ⊢
  by_cases henum : argType = .enum
  · subst henum
    obtain ⟨interface, rfl⟩ := Option.ne_none_iff_exists'.mp (hiface rfl)
    obtain ⟨w, rfl⟩ : ∃ w, f = .scalar .uint w := by
      cases f with
      | scalar t w => cases t <;> simp [Field.tags, Scalar.magic, magicForArg] at htags ⊢
      | _ => simp [Field.tags, magicForArg] at htags
    simp only [fieldValue]
    by_cases hdecl : Declared up p (snakeToPascal up interface) w
    · rw [if_pos hdecl]
      simp only [Option.isSome_some, true_iff]
      rintro _ _ - h₁ h₂
      cases h₁
      cases h₂
      exact hdecl
    · rw [if_neg hdecl]
      simp only [Option.isSome_none, Bool.false_eq_true, false_iff]
      exact fun h => hdecl (h interface w trivial rfl rfl)
  · refine iff_of_true ?_ (fun _ _ h => absurd h henum)
    cases f with
    | scalar t w =>
      cases t <;> cases argType <;> simp [Field.tags, Scalar.magic, magicForArg] at htags <;>
        first | rfl | exact absurd rfl henum
    | varchar s => cases argType <;> simp [Field.tags, magicForArg] at htags; rfl
    | scalars t n ws _ _ =>
      cases t <;> cases argType <;> simp [Field.tags, Scalar.magic, magicForArg] at htags <;> rfl
    | strings n ss _ _ => cases argType <;> simp [Field.tags, magicForArg] at htags; rfl
    | fds n _ => cases argType <;> simp [Field.tags, magicForArg] at htags; rfl
    | fd =>
      obtain ⟨fd, rfl⟩ := List.length_eq_one_iff.mp hslots
      cases argType <;> simp [Field.tags, magicForArg] at htags
      rfl

theorem fieldValues_isSome {args : List Arg} {fs : List (Field m)} (hm : Matches args fs) :
    ∀ {fds : List RawFd}, Parsed args → slotsAll fs ≤ fds.length →
      ((fieldValues up p args fs fds).isSome ↔ EnumsDeclared up p args fs) := by
  induction hm with
  | nil =>
    intro fds _ _
    exact iff_of_true rfl .nil
  | @cons arg f args fs hf _ ih =>
    intro fds hparsed hslots
    rw [slotsAll_cons] at hslots
    have htake : (fds.take f.slots).length = f.slots := by
      rw [List.length_take]
      omega
    have hhead := @fieldValue_isSome m up p arg f (fds.take f.slots) hf htake
      (hparsed arg (List.mem_cons_self ..))
    have hrest := @ih (fds.drop f.slots) (fun a ha => hparsed a (List.mem_cons_of_mem _ ha))
      (by rw [List.length_drop]; omega)
    rw [EnumsDeclared, List.forall₂_cons, ← hhead]
    rw [EnumsDeclared] at hrest
    rw [← hrest]
    simp only [fieldValues]
    cases fieldValue up p arg f (fds.take f.slots) with
    | none => simp
    | some v => cases fieldValues up p args fs (fds.drop f.slots) <;> simp

/-! ## Accepted messages -/

/-- **An accepted payload that is a list of fields took one descriptor for each of their
slots.** The scan of the whole message walked over those very fields. -/
theorem length_fds_of_accepted {data : List UInt8} {fds rest : List RawFd} {offset : Nat}
    {msg : GenericProtocolMessage} (hlen : data.length ≤ isizeMax) (hfds : fds.length ≤ isizeMax)
    (hacc : GenericProtocolMessage.fromBytes m data fds offset = .ok (msg, rest))
    {fs : List (Field m)} (hspan : msg.dataSpan = .ok (encodeAll fs ++ [MessageMagic.end_.toU8])) :
    msg.fds.length = slotsAll fs := by
  simp only [isizeMax] at hlen hfds
  simp only [GenericProtocolMessage.fromBytes, GenericProtocolMessage.finish,
    Outcome.bind_eq_ok] at hacc
  obtain ⟨header, -, s, hscan, len, -, drained, hdrain, stop, -, bytes, hbytes, hmsg⟩ := hacc
  cases hmsg
  obtain ⟨-, hstop, rfl⟩ := slice_eq_ok.mp hbytes
  simp only [GenericProtocolMessage.dataSpan] at hspan
  obtain ⟨h11, hle, hfields⟩ := slice_eq_ok.mp hspan
  rw [List.drop_take, List.drop_drop, List.take_take] at hfields
  have hdrop : data.drop (offset + 11)
      = encodeAll fs ++ MessageMagic.end_.toU8 :: (data.drop (offset + 11)).drop
          (min (len - 11) (stop - offset - 11)) := by
    have h := (List.take_append_drop (min (len - 11) (stop - offset - 11))
      (data.drop (offset + 11))).symm
    rwa [← hfields, List.append_assoc, List.singleton_append] at h
  have hfit := congrArg List.length hdrop
  have hcount := length_le_length_encodeAll fs
  simp only [List.length_drop, List.length_append, List.length_cons] at hfit
  have hscan' := @scanLoop_encode m data _ fds offset (by omega) fs (data.length + 1) ⟨11, 0, []⟩
    (by omega) (Nat.zero_le _) hdrop (by simp only; omega)
  rw [hscan'] at hscan
  by_cases hslots : slotsAll fs ≤ fds.length
  · rw [if_pos (by simpa using hslots)] at hscan
    cases hscan
    simp only [Scan.advance, List.drop_zero, List.nil_append, List.length_take]
    omega
  · rw [if_neg (by simpa using hslots)] at hscan
    cases hscan

theorem length_dataSpan_of_accepted {data : List UInt8} {fds rest : List RawFd} {offset : Nat}
    {msg : GenericProtocolMessage}
    (hacc : GenericProtocolMessage.fromBytes m data fds offset = .ok (msg, rest))
    {span : List UInt8} (hspan : msg.dataSpan = .ok span) : span.length ≤ data.length := by
  simp only [GenericProtocolMessage.fromBytes, GenericProtocolMessage.finish,
    Outcome.bind_eq_ok] at hacc
  obtain ⟨header, -, s, -, len, -, drained, -, stop, -, bytes, hbytes, hmsg⟩ := hacc
  cases hmsg
  obtain ⟨-, -, rfl⟩ := slice_eq_ok.mp hbytes
  obtain ⟨-, -, rfl⟩ := slice_eq_ok.mp hspan
  simp only [List.length_take, List.length_drop]
  omega

/-! ## Who gets what -/

/-- The found branch of `on_generic` reports nothing, whatever the message. -/
theorem not_reported_found {isServer : Bool} {obj : LiveObject O} {event : Option (Event O)}
    {method : UInt32} :
    ¬ Reported (event.toList.map .event ++ destructorActions isServer obj method) := by
  have hmem : ∀ a ∈ event.toList.map Action.event ++ destructorActions isServer obj method,
      (∃ e, a = .event e) ∨ a = .destroyed ∨ a = .destroyObject obj.id := by
    intro a ha
    rcases List.mem_append.mp ha with h | h
    · obtain ⟨e, -, rfl⟩ := List.mem_map.mp h
      exact .inl ⟨e, rfl⟩
    · unfold destructorActions at h
      split at h
      · split at h
        · rcases List.mem_cons.mp h with rfl | h
          · exact .inr (.inl rfl)
          · split at h
            · exact .inr (.inr (List.mem_singleton.mp h))
            · cases h
        · cases h
      · cases h
  rintro (h | ⟨_, _, _, h⟩)
  · rcases hmem _ h with ⟨_, h⟩ | h | h <;> cases h
  · rcases hmem _ h with ⟨_, h⟩ | h | h <;> cases h

theorem delivered_found {isServer : Bool} {obj : LiveObject O} {event : Option (Event O)}
    {method : UInt32} :
    delivered (event.toList.map .event ++ destructorActions isServer obj method)
      = event.toList := by
  have hdestructor : delivered (destructorActions isServer obj method) = [] := by
    unfold destructorActions
    split
    · split
      · split <;> rfl
      · rfl
    · rfl
  rw [delivered] at hdestructor ⊢
  rw [List.filterMap_append, hdestructor, List.append_nil]
  cases event <;> rfl

/-- The found branch over a payload with the declared signature. -/
theorem onGeneric_signed {isServer : Bool} {objects : List (LiveObject O)} {obj : LiveObject O}
    {msg : GenericProtocolMessage}
    (hfind : (objects.find? fun obj => obj.id = msg.object) = some obj)
    (hlistens : obj.listens = true)
    {mt : Method} (hmt : (obj.object.methods isServer)[msg.method.toNat]? = some mt)
    (hparsed : Parsed mt.args) {seq : UInt32}
    (halive : ∀ returned, mt.returns = some returned → isServer = true →
      (obj.createObject returned seq).isSome)
    {fs : List (Field m)} (hm : Matches mt.args fs)
    (hspan : msg.dataSpan = .ok (encodeAll (returnField m mt seq ++ fs) ++ [MessageMagic.end_.toU8]))
    (hfit : (encodeAll (returnField m mt seq ++ fs)).length < 2 ^ 64)
    (hslots : slotsAll fs ≤ msg.fds.length) :
    onGeneric m up p isServer objects msg = match fieldValues up p mt.args fs msg.fds with
      | some vs => .ok ((eventOf isServer obj.createObject msg.method mt seq vs).toList.map .event
          ++ destructorActions isServer obj msg.method)
      | none => .panic .undefined := by
  have hevent := @dispatch_encode m up p O isServer obj.createObject _ msg.method seq mt hmt hparsed
    fs hm [MessageMagic.end_.toU8] msg.fds hfit hslots halive
  simp only [onGeneric, hfind, hspan, hlistens, Outcome.ok_bind, hevent]
  cases fieldValues up p mt.args fs msg.fds <;> rfl

/-- The found branch when nobody listens: the destructor is all that is left. -/
theorem onGeneric_deaf {isServer : Bool} {objects : List (LiveObject O)} {obj : LiveObject O}
    {msg : GenericProtocolMessage}
    (hfind : (objects.find? fun obj => obj.id = msg.object) = some obj)
    (hdeaf : obj.listens = false) {span : List UInt8} (hspan : msg.dataSpan = .ok span) :
    onGeneric m up p isServer objects msg = .ok (destructorActions isServer obj msg.method) := by
  simp only [onGeneric, hfind, hspan, hdeaf, Outcome.ok_bind, dispatch_other]
  rfl

/-- **Where nobody listens, no message gets what it is owed**: a well-signed one makes no event, and
no other is reported. -/
theorem not_validated_deaf {isServer : Bool} {objects : List (LiveObject O)} {obj : LiveObject O}
    {msg : GenericProtocolMessage}
    (hfind : (objects.find? fun obj => obj.id = msg.object) = some obj)
    (hdeaf : obj.listens = false) : ¬ Validated m up p isServer objects obj msg := by
  intro h
  have hnone := @delivered_found O isServer obj none msg.method
  have hquiet := @not_reported_found O isServer obj none msg.method
  rw [Option.toList_none, List.map_nil, List.nil_append] at hnone hquiet
  cases hspan : msg.dataSpan with
  | ok span =>
    rw [Validated, onGeneric_deaf hfind hdeaf hspan] at h
    by_cases hsigned : WellSigned m (obj.object.methods isServer) msg
    · have hone := h.1 hsigned
      rw [hnone] at hone
      cases hone
    · exact hquiet (h.2 hsigned).2
  | err e | panic e | stall =>
    simp only [Validated, onGeneric, hfind, hspan] at h
    exact h

theorem eventOf_isSome {isServer : Bool} {createObject : String → UInt32 → Option O}
    (hlive : ∀ name seq, (createObject name seq).isSome) (method : UInt32) (mt : Method)
    (seq : UInt32) (vs : List Value) :
    (eventOf isServer createObject method mt seq vs).isSome := by
  unfold eventOf
  split
  · rfl
  · split
    · rw [Option.isSome_map]
      exact hlive _ _
    · rfl

/-- **Accepted messages are validated exactly when somebody listens and they are well formed.** For
every object interface, every live object and every message `from_bytes` accepts for it, in either
build: the receiver gets what it is owed iff the state that is dispatched is one the object's data
are for, the payload has the fields the method declares, and every enum number in it is a declared
variant. -/
theorem validated_iff (m : Overflow) (up : Char → String) (p : Protocol) (isServer : Bool)
    {O : Type} {objects : List (LiveObject O)} {obj : LiveObject O}
    (hlive : ∀ name seq, (obj.createObject name seq).isSome)
    (hparsed : ∀ mt ∈ obj.object.methods isServer, Parsed mt.args)
    {data : List UInt8} {fds rest : List RawFd} {offset : Nat} {msg : GenericProtocolMessage}
    (hlen : data.length ≤ isizeMax) (hfds : fds.length ≤ isizeMax)
    (hacc : GenericProtocolMessage.fromBytes m data fds offset = .ok (msg, rest))
    (hfind : (objects.find? fun obj => obj.id = msg.object) = some obj) :
    Validated m up p isServer objects obj msg
      ↔ obj.listens = true ∧ WellFormed m up p (obj.object.methods isServer) msg := by
  have hspanFit := @length_dataSpan_of_accepted m data fds rest offset msg hacc
  constructor
  · intro h
    have hlistens : obj.listens = true := by
      cases hdeaf : obj.listens with
      | true => rfl
      | false => exact absurd h (not_validated_deaf hfind hdeaf)
    refine ⟨hlistens, ?_⟩
    rw [Validated] at h
    by_cases hsigned : WellSigned m (obj.object.methods isServer) msg
    · obtain ⟨mt, hmt, fs, hspan, htags⟩ := hsigned
      obtain ⟨seq, args, rfl, hm⟩ := fields_of_signature htags
      have hpm := hparsed mt (List.mem_of_getElem? hmt)
      have hslots : slotsAll args ≤ msg.fds.length := by
        rw [length_fds_of_accepted hlen hfds hacc hspan, slotsAll_returnField]
      have hfit := hspanFit hspan
      rw [List.length_append] at hfit
      rw [onGeneric_signed hfind hlistens hmt hpm (fun returned _ _ => hlive returned seq) hm hspan
        (by simp only [isizeMax] at hlen; omega) hslots] at h
      refine ⟨mt, hmt, seq, args, hspan, hm, ?_⟩
      rw [← fieldValues_isSome hm hpm hslots]
      cases hv : fieldValues up p mt.args args msg.fds with
      | some vs => rfl
      | none =>
        rw [hv] at h
        exact h.elim
    · -- No error is ever reported, so a message that is owed one is not validated.
      exfalso
      simp only [onGeneric, hfind] at h
      cases hspan : msg.dataSpan with
      | ok span =>
        rw [hspan, Outcome.ok_bind] at h
        cases hd : dispatch m up p isServer obj.listens obj.createObject
            (obj.object.methods isServer) msg.method span msg.fds with
        | ok event =>
          rw [hd, Outcome.ok_bind] at h
          exact not_reported_found (h.2 hsigned).2
        | err e => rw [hd] at h; exact h
        | panic p => rw [hd] at h; exact h
        | stall => rw [hd] at h; exact h
      | err e => rw [hspan] at h; exact h
      | panic p => rw [hspan] at h; exact h
      | stall => rw [hspan] at h; exact h
  · rintro ⟨hlistens, h⟩
    have hsigned := wellSigned_of_wellFormed h
    obtain ⟨mt, hmt, seq, fs, hspan, hm, hdecl⟩ := h
    have hpm := hparsed mt (List.mem_of_getElem? hmt)
    have hslots : slotsAll fs ≤ msg.fds.length := by
      rw [length_fds_of_accepted hlen hfds hacc hspan, slotsAll_returnField]
    have hfit := hspanFit hspan
    rw [List.length_append] at hfit
    obtain ⟨vs, hvs⟩ := Option.isSome_iff_exists.mp ((fieldValues_isSome hm hpm hslots).mpr hdecl)
    rw [Validated, onGeneric_signed hfind hlistens hmt hpm (fun returned _ _ => hlive returned seq)
      hm hspan (by simp only [isizeMax] at hlen; omega) hslots, hvs]
    refine ⟨fun _ => ?_, fun hnot => absurd hsigned hnot⟩
    rw [delivered_found]
    obtain ⟨e, he⟩ := Option.isSome_iff_exists.mp (eventOf_isSome hlive msg.method mt seq vs)
    rw [he]
    rfl

/-! ## A message nobody checks

`set_title` takes a string; the message carries a number in its place. -/

def titledWindow : LiveObject Unit where
  id := 1
  object := ⟨"window", 1, [⟨"set_title", [⟨"title", .varchar, none⟩], none, false⟩], []⟩
  listens := true
  createObject _ _ := some ()

def titledProtocol : Protocol := ⟨"sample", 1, [titledWindow.object], []⟩

/-- `set_title(0x7FFFFFFF)` on object 1, the argument tagged as a number. -/
def untitled : List UInt8 :=
  [100, 0x22, 1, 0, 0, 0, 0x10, 0, 0, 0, 0, 0x10, 0xFF, 0xFF, 0xFF, 0x7F, 0]

def untitledMessage : GenericProtocolMessage where
  dependsOnSeq := 0
  object := 1
  method := 0
  fds := []
  data := untitled
  range := (11, 17)

theorem untitled_accepted :
    GenericProtocolMessage.fromBytes .checked untitled [] 0 = .ok (untitledMessage, []) := by
  decide

/-- The number is accepted, taken for the length of a string, and the slice panics. -/
theorem validated_untitled_false :
    GenericProtocolMessage.fromBytes .checked untitled [] 0 = .ok (untitledMessage, []) ∧
    onGeneric .checked Char.toString titledProtocol true [titledWindow] untitledMessage
      = .panic .sliceOutOfRange ∧
    ¬ Validated .checked Char.toString titledProtocol true [titledWindow] titledWindow
      untitledMessage := by
  have hpanic : onGeneric .checked Char.toString titledProtocol true [titledWindow] untitledMessage
      = .panic .sliceOutOfRange := by decide
  refine ⟨untitled_accepted, hpanic, ?_⟩
  rw [Validated, hpanic]
  exact id

/-- `set_title("ab")` on object 1. -/
def titledMessage : GenericProtocolMessage where
  dependsOnSeq := 0
  object := 1
  method := 0
  fds := []
  data := [100, 0x22, 1, 0, 0, 0, 0x10, 0, 0, 0, 0, 0x20, 2, 97, 98, 0]
  range := (11, 16)

theorem wellFormed_titled :
    WellFormed .checked Char.toString titledProtocol (titledWindow.object.methods true)
      titledMessage :=
  ⟨_, rfl, 0, [.varchar ⟨⟨[2], 2, rfl, by decide⟩, [97, 98], rfl⟩], by decide, .cons rfl .nil,
    .cons nofun .nil⟩

/-- A string in its place makes the event that is owed. -/
theorem validated_iff_titled :
    Validated .checked Char.toString titledProtocol true [titledWindow] titledWindow
      titledMessage := by
  have hacc : GenericProtocolMessage.fromBytes .checked titledMessage.data [] 0
      = .ok (titledMessage, []) := by decide
  have hparsed : ∀ mt ∈ titledWindow.object.methods true, Parsed mt.args := by
    intro mt hmt arg harg henum
    obtain rfl := List.mem_singleton.mp hmt
    obtain rfl := List.mem_singleton.mp harg
    cases henum
  exact (validated_iff .checked Char.toString titledProtocol true (fun _ _ => rfl) hparsed
    (by decide) (by decide) hacc rfl).mpr ⟨rfl, wellFormed_titled⟩

end Hyprwire
