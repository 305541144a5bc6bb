import Hyprwire.Scanner.Parse
import Hyprwire.Wire.Word

/-!
# `Wire/RoundTrip.lean` — from a generated `send_` method to a generated event

Three pieces of code, written apart, have to agree on every method signature: the marshaller
of `call`, the scanner of `from_bytes` and the parse statements the scanner crate prints. They
meet in the grammar. A well-typed value *is* a field (`field_of_value`); the marshaller writes
that field's encoding (`marshalArgs_values`), `from_bytes` takes exactly such encodings, and
the generated decoder reads the value back.
-/

namespace Hyprwire.Scanner

open Rust

variable {m : Overflow} {up : Char → String} {p : Protocol}

/-- `write_send_method`: the call the printed `send_` method makes. The method's result type
is named after the object it returns, and `format_ident!` panics on an empty name: for such a
method nothing is generated. -/
def writeSendMethod (idx : Nat) (mt : Method) : Option (List Value → UInt32 × List CallArg) :=
  if mt.returns = some "" then none
  else some fun vs => (UInt32.ofNat idx, vs.map callArgExpr)

/-! ## Values on the wire -/

/-- The bytes a value is marshalled to. -/
def valueBytes : Value → List UInt8
  | .varchar s => MessageMagic.typeVarchar.toU8 :: marshalStr (Utf8.asBytes s)
  | .fd _ => [MessageMagic.typeFd.toU8]
  | .uint v => MessageMagic.typeUint.toU8 :: Bytes.toLeBytes v
  | .int v => MessageMagic.typeInt.toU8 :: Bytes.toLeBytes v.toUInt32
  | .f32 bits => MessageMagic.typeF32.toU8 :: Bytes.toLeBytes bits
  | .enum _ v => MessageMagic.typeUint.toU8 :: Bytes.toLeBytes v
  | .unit => []
  | .arrayVarchar ss => MessageMagic.typeArray.toU8 :: MessageMagic.typeVarchar.toU8 ::
      (varInt ss.length ++ (ss.map Utf8.asBytes).flatMap marshalStr)
  | .arrayFd fds => MessageMagic.typeArray.toU8 :: MessageMagic.typeFd.toU8 :: varInt fds.length
  | .arrayUint vs => MessageMagic.typeArray.toU8 :: MessageMagic.typeUint.toU8 ::
      (varInt vs.length ++ vs.flatMap Bytes.toLeBytes)
  | .arrayInt vs => MessageMagic.typeArray.toU8 :: MessageMagic.typeInt.toU8 ::
      (varInt vs.length ++ (vs.map Int32.toUInt32).flatMap Bytes.toLeBytes)
  | .arrayF32 vs => MessageMagic.typeArray.toU8 :: MessageMagic.typeF32.toU8 ::
      (varInt vs.length ++ vs.flatMap Bytes.toLeBytes)

/-- The descriptors that go with them. -/
def valueFds : Value → List RawFd
  | .fd fd => [fd]
  | .arrayFd fds => fds
  | _ => []

/-- One turn of the marshalling loop, on an argument of the parameter's type. -/
theorem marshalArgs_value {arg : Arg} {v : Value} (hv : HasType up p arg v)
    (params : List UInt8) (args : List CallArg) :
    marshalArgs ((magicForArg arg.argType).map MessageMagic.toU8 ++ params) (callArgExpr v :: args)
      = marshalArgs params args >>= fun r => .ok (valueBytes v ++ r.1, valueFds v ++ r.2) := by
  cases v <;> simp only [HasType] at hv <;> (try simp only [hv])
  all_goals
    simp only [magicForArg, List.map_cons, List.map_nil, List.cons_append, List.nil_append]
    rw [marshalArgs.eq_def]
    simp only [MessageMagic.tryFrom_toU8, callArgExpr, List.head?_cons, List.tail_cons,
      marshalScalar, marshalArray, Outcome.ok_bind, valueBytes, valueFds, List.length_map,
      List.cons_append, List.nil_append, List.append_assoc]

/-- **The marshaller over typed arguments** writes them one after the other, of any length. -/
theorem marshalArgs_values {args : List Arg} {vs : List Value} (h : Typed up p args vs) :
    marshalArgs ((args.flatMap fun arg => magicForArg arg.argType).map MessageMagic.toU8)
        (vs.map callArgExpr)
      = .ok (vs.flatMap valueBytes, vs.flatMap valueFds) := by
  induction h with
  | nil => rfl
  | @cons arg v args vs hv _ ih =>
    rw [List.flatMap_cons, List.map_append, List.map_cons, marshalArgs_value hv, ih,
      Outcome.ok_bind]
    rfl

/-! ## Values as fields -/

/-- The prefix the marshaller writes, as a prefix of the grammar. -/
theorem lenPrefix_varInt (m : Overflow) {n : Nat} (h : n < 2 ^ 64) :
    (LenPrefix.ofNat m n h).bytes = varInt n := (varInt_eq h).symm

/-- A string the marshaller wrote, as a string of the grammar. -/
def strOf (m : Overflow) (s : String) (h : (Utf8.asBytes s).length < 2 ^ 64) : Str m where
  len := LenPrefix.ofNat m _ h
  payload := Utf8.asBytes s
  length_payload := rfl

theorem strOf_encode (m : Overflow) (s : String) (h : (Utf8.asBytes s).length < 2 ^ 64) :
    (strOf m s h).encode = marshalStr (Utf8.asBytes s) := by
  simp only [Str.encode, strOf, lenPrefix_varInt, marshalStr]

/-- Strings that were written are strings of the grammar. -/
theorem strs_of_strings (m : Overflow) : ∀ (ss : List String),
    ((ss.map Utf8.asBytes).flatMap marshalStr).length < 2 ^ 64 →
      ∃ strs : List (Str m), strs.length = ss.length ∧
        strs.flatMap Str.encode = (ss.map Utf8.asBytes).flatMap marshalStr ∧
        strs.map (fun s => Utf8.fromUtf8Lossy s.payload) = ss
  | [], _ => ⟨[], rfl, rfl, rfl⟩
  | s :: ss, h => by
    simp only [List.map_cons, List.flatMap_cons, List.length_append, marshalStr] at h
    obtain ⟨strs, hlen, henc, hval⟩ := strs_of_strings m ss (by omega)
    refine ⟨strOf m s (by omega) :: strs, by simp [hlen], ?_, ?_⟩
    · rw [List.flatMap_cons, strOf_encode, henc]
      rfl
    · rw [List.map_cons, hval]
      simp [strOf]

/-- **A well-typed value is a field**: with the argument's tags, encoded by the bytes the
marshaller writes, and read back by the generated decoder. -/
theorem field_of_value (m : Overflow) {arg : Arg} {v : Value} (hv : HasType up p arg v)
    (hn : v.count < 10000) (hlen : (valueBytes v).length < 2 ^ 64) :
    ∃ f : Field m, f.tags = magicForArg arg.argType ∧ f.encode = valueBytes v ∧
      f.slots = (valueFds v).length ∧ fieldValue up p arg f (valueFds v) = some v := by
  cases v with
  | varchar s =>
    have hty : arg.argType = .varchar := hv
    simp only [valueBytes, marshalStr, List.length_cons, List.length_append] at hlen
    refine ⟨.varchar (strOf m s (by omega)), by rw [hty]; rfl, ?_, rfl, ?_⟩
    · simp only [Field.encode, strOf_encode, valueBytes]
    · simp only [fieldValue, hty, strOf, Utf8.fromUtf8Lossy_asBytes]
  | fd fd =>
    have hty : arg.argType = .fd := hv
    refine ⟨.fd, by rw [hty]; rfl, rfl, rfl, ?_⟩
    simp only [fieldValue, hty, valueFds, List.head?_cons, Option.map_some]
  | uint w =>
    have hty : arg.argType = .uint := hv
    refine ⟨.scalar .uint w, by rw [hty]; rfl, rfl, rfl, ?_⟩
    simp only [fieldValue, hty]
  | int w =>
    have hty : arg.argType = .int := hv
    refine ⟨.scalar .int w.toUInt32, by rw [hty]; rfl, rfl, rfl, ?_⟩
    simp only [fieldValue, hty]
  | f32 bits =>
    have hty : arg.argType = .f32 := hv
    refine ⟨.scalar .f32 bits, by rw [hty]; rfl, rfl, rfl, ?_⟩
    simp only [fieldValue, hty]
  | enum ident w =>
    obtain ⟨hty, hident, hdecl⟩ := hv
    obtain ⟨interface, hiface, rfl⟩ := Option.map_eq_some_iff.mp hident
    refine ⟨.scalar .uint w, by rw [hty]; rfl, rfl, rfl, ?_⟩
    simp only [fieldValue, hty, hiface]
    rw [if_pos hdecl]
  | unit => exact hv.elim
  | arrayVarchar ss =>
    have hty : arg.argType = .arrayVarchar := hv
    simp only [valueBytes, List.length_cons, List.length_append] at hlen
    obtain ⟨strs, hlen', henc, hval⟩ := strs_of_strings m ss (by omega)
    have hss : ss.length < 2 ^ 64 := by simp only [Value.count] at hn; omega
    refine ⟨.strings (LenPrefix.ofNat m ss.length hss) strs hlen' hn, by rw [hty]; rfl, ?_, rfl, ?_⟩
    · simp only [Field.encode, lenPrefix_varInt, henc, valueBytes]
    · simp only [fieldValue, hty, hval]
  | arrayFd fds =>
    have hty : arg.argType = .arrayFd := hv
    have hss : fds.length < 2 ^ 64 := by simp only [Value.count] at hn; omega
    refine ⟨.fds (LenPrefix.ofNat m fds.length hss) hn, by rw [hty]; rfl, ?_, rfl, ?_⟩
    · simp only [Field.encode, lenPrefix_varInt, valueBytes]
    · simp only [fieldValue, hty, valueFds]
  | arrayUint vs =>
    have hty : arg.argType = .arrayUint := hv
    have hss : vs.length < 2 ^ 64 := by simp only [Value.count] at hn; omega
    refine ⟨.scalars .uint (LenPrefix.ofNat m vs.length hss) vs rfl hn, by rw [hty]; rfl, ?_, rfl, ?_⟩
    · simp only [Field.encode, lenPrefix_varInt, valueBytes, Scalar.magic]
    · simp only [fieldValue, hty]
  | arrayInt vs =>
    have hty : arg.argType = .arrayInt := hv
    have hss : vs.length < 2 ^ 64 := by simp only [Value.count] at hn; omega
    refine ⟨.scalars .int (LenPrefix.ofNat m vs.length hss) (vs.map Int32.toUInt32)
      (List.length_map _) hn, by rw [hty]; rfl, ?_, rfl, ?_⟩
    · simp only [Field.encode, lenPrefix_varInt, valueBytes, Scalar.magic]
    · simp only [fieldValue, hty, List.map_map]
      congr 2
      exact List.map_id'' (fun _ => rfl) vs
  | arrayF32 vs =>
    have hty : arg.argType = .arrayF32 := hv
    have hss : vs.length < 2 ^ 64 := by simp only [Value.count] at hn; omega
    refine ⟨.scalars .f32 (LenPrefix.ofNat m vs.length hss) vs rfl hn, by rw [hty]; rfl, ?_, rfl, ?_⟩
    · simp only [Field.encode, lenPrefix_varInt, valueBytes, Scalar.magic]
    · simp only [fieldValue, hty]

/-- Well-typed arguments are the declared fields. -/
theorem fields_of_values (m : Overflow) {args : List Arg} {vs : List Value}
    (h : WellTyped up p args vs) (hlen : (vs.flatMap valueBytes).length < 2 ^ 64) :
    ∃ fs : List (Field m), Matches args fs ∧ encodeAll fs = vs.flatMap valueBytes ∧
      slotsAll fs = (vs.flatMap valueFds).length ∧
      fieldValues up p args fs (vs.flatMap valueFds) = some vs := by
  induction h with
  | nil => exact ⟨[], .nil, rfl, rfl, rfl⟩
  | @cons arg v args vs hv _ ih =>
    rw [List.flatMap_cons, List.length_append] at hlen
    obtain ⟨f, htags, henc, hslots, hval⟩ := field_of_value m hv.1 hv.2 (by omega)
    obtain ⟨fs, hm, hencs, hslotss, hvals⟩ := ih (by omega)
    refine ⟨f :: fs, .cons htags hm, ?_, ?_, ?_⟩
    · rw [encodeAll_cons, henc, hencs, List.flatMap_cons]
    · rw [slotsAll_cons, hslots, hslotss, List.flatMap_cons, List.length_append]
    · simp only [fieldValues, List.flatMap_cons]
      rw [List.take_left' hslots.symm, List.drop_left' hslots.symm, hval, hvals]
      rfl

/-- Well-typed enum values name their enum. -/
theorem parsed_of_wellTyped {args : List Arg} {vs : List Value} (h : WellTyped up p args vs) :
    Parsed args := by
  induction h with
  | nil =>
    intro arg harg
    cases harg
  | @cons arg v args vs hv _ ih =>
    intro a ha hty
    rcases List.mem_cons.mp ha with rfl | ha
    · intro hnone
      cases v <;> simp only [HasType, hty, hnone, reduceCtorEq, Option.map_none, false_and,
        and_false] at hv
    · exact ih a ha hty

/-! ## The round trip -/

/-- The seq field `call` writes, as a field: it is there iff the method returns an object. -/
theorem callReturn_writeMethodSpec {idx : Nat} {mt : Method} (hret : mt.returns ≠ some "")
    (seq : UInt32) : callReturn (writeMethodSpec idx mt) seq = encodeAll (returnField m mt seq) := by
  obtain ⟨name, args, returns, destructor⟩ := mt
  cases returns with
  | none => rfl
  | some returned =>
    have hne : (writeMethodSpec idx ⟨name, args, some returned, destructor⟩).returnsType ≠ "" :=
      fun he => hret (congrArg some he)
    rw [callReturn, if_pos hne]
    rfl

/-- **What a generated `send_` method puts on the wire**: the receiver's object id, the method's
index, and the arguments, each behind its tags. -/
theorem call_send {methods : List Method} {idx : Nat} {mt : Method}
    (hmt : methods[idx]? = some mt) (hidx : idx < 2 ^ 32) {send : List Value → UInt32 × List CallArg}
    (hsend : writeSendMethod idx mt = some send) {vs : List Value}
    (hvs : Typed up p mt.args vs) {self : Receiver}
    (hself : self.methodsOut = methodSpecs methods)
    (hdir : self.server = true → mt.returns = none) :
    ∃ called, call self (send vs).1 (send vs).2 = .ok called ∧
      called.returnSeq = callReturnSeq self (writeMethodSpec idx mt) ∧
      called.msg.object = 0 ∧
      called.msg.fds = vs.flatMap valueFds ∧
      called.msg.data = callHeader self.id (UInt32.ofNat idx)
        ++ encodeAll (returnField m mt called.returnSeq) ++ vs.flatMap valueBytes
        ++ [MessageMagic.end_.toU8] := by
  have hret : mt.returns ≠ some "" := by
    intro h
    rw [writeSendMethod, if_pos h] at hsend
    cases hsend
  rw [writeSendMethod, if_neg hret] at hsend
  cases hsend
  have hrow : self.methodsOut[(UInt32.ofNat idx).toNat]? = some (writeMethodSpec idx mt) := by
    rw [hself, UInt32.toNat_ofNat', Nat.mod_eq_of_lt hidx, getElem?_methodSpecs, hmt]
    rfl
  have hsince : ¬ self.version < (writeMethodSpec idx mt).since := by
    simp [writeMethodSpec]
  have hserver : ¬ ((writeMethodSpec idx mt).returnsType ≠ "" ∧ self.server = true) := by
    rintro ⟨h₁, h₂⟩
    exact h₁ (by simp [writeMethodSpec, hdir h₂])
  have hargs : marshalArgs (writeMethodSpec idx mt).params (vs.map callArgExpr)
      = .ok (vs.flatMap valueBytes, vs.flatMap valueFds) := marshalArgs_values hvs
  simp only [call, hrow]
  rw [if_neg hsince, if_neg hserver, hargs, Outcome.ok_bind]
  refine ⟨_, rfl, rfl, ?_, ?_, ?_⟩
  · simp only
    split <;> rfl
  · simp only
    split <;> rfl
  · have hr := @callReturn_writeMethodSpec m idx mt hret (callReturnSeq self (writeMethodSpec idx mt))
    simp only [← hr]
    split <;> rfl

/-- What a `send_` method puts on the wire, at once or with the id patched in later, is a word
of the grammar whose fields are the declared ones, with a descriptor for each slot. -/
theorem fields_of_send (m : Overflow) {methods : List Method} {idx : Nat} {mt : Method}
    (hmt : methods[idx]? = some mt) (hidx : idx < 2 ^ 32) {send : List Value → UInt32 × List CallArg}
    (hsend : writeSendMethod idx mt = some send) {vs : List Value}
    (hvs : WellTyped up p mt.args vs) {self : Receiver}
    (hself : self.methodsOut = methodSpecs methods)
    (hdir : self.server = true → mt.returns = none) {called : Called}
    (hcall : call self (send vs).1 (send vs).2 = .ok called)
    (hlen : called.msg.data.length ≤ isizeMax) :
    ∃ fs : List (Field m), Matches mt.args fs ∧ slotsAll fs = called.msg.fds.length ∧
      fieldValues up p mt.args fs called.msg.fds = some vs ∧
      called.msg.data = word self.id (UInt32.ofNat idx) (returnField m mt called.returnSeq ++ fs) ∧
      ∀ id, (called.msg.resolveSeq id).data
        = word id (UInt32.ofNat idx) (returnField m mt called.returnSeq ++ fs) := by
  obtain ⟨called', hcall', -, -, hfds, hdata⟩ :=
    @call_send m up p _ idx mt hmt hidx send hsend vs hvs.typed self hself hdir
  obtain rfl : called' = called := Outcome.ok.inj (hcall'.symm.trans hcall)
  have hshort : (vs.flatMap valueBytes).length < 2 ^ 64 := by
    rw [hdata] at hlen
    simp only [List.length_append, isizeMax] at hlen
    omega
  obtain ⟨fs, hm, henc, hslots, hvals⟩ := fields_of_values m hvs hshort
  refine ⟨fs, hm, by rw [hslots, hfds], by rw [hfds, hvals], ?_, ?_⟩
  · rw [hdata, word, encodeAll_append, henc, ← List.append_assoc]
  · intro id
    rw [List.append_assoc, List.append_assoc] at hdata
    rw [resolveSeq_data hdata id, word, encodeAll_append, henc]
    simp only [List.append_assoc]

/-- **Method calls round trip.** Whatever a generated `send_` method puts on the wire is taken
off it by `from_bytes`, wherever it stands, whatever follows it and whatever descriptors are
queued behind its own: the same bytes, the same descriptors, the same object and method. The
generated `dispatch`, given a state of its type, then hands over the event of that method, with the
values that were sent (behind the object created for the return seq, when there is one; a server whose object is
destroyed creates none, and no event). -/
theorem call_round_trip (m : Overflow) (up : Char → String) (p : Protocol) (o : Object)
    (isServer : Bool) {idx : Nat} {mt : Method} (hmt : (o.methods isServer)[idx]? = some mt)
    (hidx : idx < 2 ^ 32) (hs2c : isServer = false → mt.returns = none)
    {send : List Value → UInt32 × List CallArg} (hsend : writeSendMethod idx mt = some send)
    {vs : List Value} (hvs : WellTyped up p mt.args vs) {self : Receiver}
    (hself : self.methodsOut = methodSpecs (o.methods isServer)) (hpeer : self.server = !isServer) :
    ∃ called, call self (send vs).1 (send vs).2 = .ok called ∧
      ∀ (pre suf : List UInt8) (extra : List RawFd),
        (pre ++ (called.msg.data ++ suf)).length ≤ isizeMax →
        (called.msg.fds ++ extra).length ≤ isizeMax →
        ∃ msg span,
          GenericProtocolMessage.fromBytes m (pre ++ (called.msg.data ++ suf))
              (called.msg.fds ++ extra) pre.length = .ok (msg, extra) ∧
          msg.data = called.msg.data ∧ msg.fds = called.msg.fds ∧
          msg.object = self.id ∧ msg.method.toNat = idx ∧
          msg.dataSpan = .ok span ∧
          ∀ (O : Type) (createObject : String → UInt32 → Option O),
            dispatch m up p isServer true createObject (o.methods isServer) msg.method span msg.fds
              = .ok (match mt.returns with
                | none => some ⟨msg.method, mt.name, vs.map .value⟩
                | some returned => (createObject returned called.returnSeq).map fun obj =>
                  ⟨msg.method, mt.name, .object obj :: vs.map .value⟩) := by
  have hdir : self.server = true → mt.returns = none := by
    intro h
    rw [hpeer] at h
    exact hs2c (by simpa using h)
  obtain ⟨called, hcall, -⟩ :=
    @call_send m up p _ idx mt hmt hidx send hsend vs hvs.typed self hself hdir
  refine ⟨called, hcall, ?_⟩
  intro pre suf extra hlen hlenFds
  have hshort : called.msg.data.length ≤ isizeMax := by
    simp only [List.length_append] at hlen
    omega
  obtain ⟨fs, hm, hfs, hvals, hword, -⟩ :=
    fields_of_send m hmt hidx hsend hvs hself hdir hcall hshort
  have hslots : slotsAll (returnField m mt called.returnSeq ++ fs) = called.msg.fds.length := by
    rw [slotsAll_returnField, hfs]
  have hidx' : (UInt32.ofNat idx).toNat = idx := by
    rw [UInt32.toNat_ofNat', Nat.mod_eq_of_lt hidx]
  have hfit : (encodeAll (returnField m mt called.returnSeq ++ fs)).length < 2 ^ 64 := by
    have h := hlen
    rw [hword] at h
    simp only [List.length_append, length_word, isizeMax] at h
    omega
  have hfrom := @fromBytes_word m (pre ++ (called.msg.data ++ suf)) suf (called.msg.fds ++ extra)
    pre.length self.id (UInt32.ofNat idx) _ (by rw [List.drop_left, ← hword]) (by simp) hlen hlenFds
  rw [hslots, if_pos (by simp), List.take_left, List.drop_left] at hfrom
  refine ⟨_, _, hfrom, hword.symm, rfl, rfl, hidx', dataSpan_received _ _ _ _, ?_⟩
  intro O createObject
  have hrow : (o.methods isServer)[(UInt32.ofNat idx).toNat]? = some mt := by rw [hidx', hmt]
  have hparsed : Parsed mt.args := parsed_of_wellTyped hvs
  simp only [received]
  by_cases hdead : ∃ returned, mt.returns = some returned ∧ isServer = true ∧
      createObject returned called.returnSeq = none
  · obtain ⟨returned, hret, rfl, hnone⟩ := hdead
    rw [encodeAll_append, List.append_assoc, dispatch_destroyed hrow hret hnone, hret]
    simp only [hnone, Option.map_none]
  · have halive : ∀ returned, mt.returns = some returned → isServer = true →
        (createObject returned called.returnSeq).isSome := by
      intro returned hret hserver
      rw [Option.isSome_iff_ne_none]
      exact fun hnone => hdead ⟨returned, hret, hserver, hnone⟩
    rw [dispatch_encode hrow hparsed hm hfit (Nat.le_of_eq hfs) halive, hvals]
    simp only [eventOf]
    cases hret : mt.returns with
    | none => rfl
    | some returned =>
      have hserver : isServer = true := by
        cases isServer with
        | true => rfl
        | false => rw [hs2c rfl] at hret; cases hret
      simp only [hserver, if_true]

/-- A method that takes a string, an enum and descriptors, and returns an object. -/
def sampleMethod : Method where
  name := "open"
  args := [⟨"title", .varchar, none⟩, ⟨"kind", .enum, some "kind"⟩, ⟨"files", .arrayFd, none⟩]
  returns := some "window"
  destructor := false

def sampleObject : Object := ⟨"window", 1, [sampleMethod], []⟩

def sampleProtocol : Protocol := ⟨"sample", 1, [sampleObject], [⟨"kind", [⟨"popup", 2⟩]⟩]⟩

def sampleReceiver : Receiver where
  id := 7
  seq := 3
  version := 1
  server := false
  methodsOut := methodSpecs [sampleMethod]
  freshSeq := some 9

/-- The arguments of `open("ab", popup, [5, 6])`. -/
def sampleValues : List Value :=
  [.varchar "ab", .enum (snakeToPascal (fun c => c.toUpper.toString) "kind") 2, .arrayFd [5, 6]]

/-- The round trip of that call on object 7, at the head of a buffer. -/
theorem call_round_trip_open :
    ∃ called msg, call sampleReceiver 0 (sampleValues.map callArgExpr) = .ok called ∧
      GenericProtocolMessage.fromBytes .checked (called.msg.data ++ [14]) (called.msg.fds ++ [8]) 0
        = .ok (msg, [8]) ∧ msg.object = 7 ∧ msg.fds = [5, 6] := by
  have hvs : WellTyped (fun c => c.toUpper.toString) sampleProtocol sampleMethod.args sampleValues :=
    .cons ⟨rfl, by decide⟩
      (.cons ⟨⟨rfl, rfl, ⟨_, List.mem_singleton.mpr rfl, rfl, _, List.mem_singleton.mpr rfl, rfl⟩⟩,
          by decide⟩
        (.cons ⟨rfl, by decide⟩ .nil))
  obtain ⟨called, hcall, h⟩ := @call_round_trip .checked (fun c => c.toUpper.toString)
    sampleProtocol sampleObject true 0 sampleMethod rfl (by decide) (fun h => by cases h)
    (fun vs => (0, vs.map callArgExpr)) rfl _ hvs sampleReceiver rfl rfl
  have hmsg : called.msg.data.length = 29 ∧ called.msg.fds = [5, 6] := by
    obtain rfl := Outcome.ok.inj (hcall.symm.trans rfl)
    exact ⟨rfl, rfl⟩
  obtain ⟨msg, span, hfrom, -, hfds, hobj, -⟩ := h [] [14] [8]
    (by simp only [isizeMax, List.nil_append, List.length_append, hmsg.1]; decide)
    (by simp only [isizeMax, List.length_append, hmsg.2]; decide)
  exact ⟨called, msg, hcall, hfrom, hobj, hfds.trans hmsg.2⟩

end Hyprwire.Scanner
