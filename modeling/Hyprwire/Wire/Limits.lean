import Hyprwire.Wire.Batch
import Hyprwire.Wire.RoundTrip

/-!
# `Wire/Limits.lean` — what is sent and what the other side refuses

Three limits stand in the decoders alone: a version is not 0, a server advertises fewer than 2048
protocols, an array has fewer than 10000 elements. Nothing on the sending side knows of them. The
version of a bind is compared with the advertised one only, the registered implementations are
written out however many there are, and the marshaller takes an array of any length.

`Operation` lists what can be called, `emit` is what it puts on the wire. `harmless_iff` says for
which calls the other side accepts it: those within the limits.
-/

namespace Hyprwire

open Rust Scanner

variable {m : Overflow} {up : Char → String} {p : Protocol}

/-- A message on the wire: the bytes, the descriptors, and the type it is meant to have. -/
structure Emitted where
  type : MessageType
  data : List UInt8
  fds : List RawFd
  deriving DecidableEq, Repr

/-- A local operation that fails and sends nothing. -/
inductive LocalError
  | protocolNotFound
  | versionOutOfRange (requested max : UInt32)
  | noSpec
  | call (e : Refused)
  deriving DecidableEq, Repr

/-! ## The operations -/

/-- `ClientSocket::bind_protocol`, up to the message it sends. -/
def ClientSocket.bindProtocol (spec : ProtocolSpec) (seq version : UInt32) :
    Outcome LocalError BindProtocol :=
  if spec.specVer < version then .err (.versionOutOfRange version spec.specVer)
  else if spec.objects = [] then .err .noSpec
  else .ok (BindProtocol.new spec.specName seq version)

/-- `Client::bind`: the version of the spec it binds is the one the server advertises. -/
def Client.bindMessage (advertised : List (String × UInt32)) (proto : ProtocolSpec)
    (seq version : UInt32) : Outcome LocalError BindProtocol :=
  match advertised.find? fun spec => spec.1 = proto.specName with
  | none => .err .protocolNotFound
  | some spec => ClientSocket.bindProtocol { proto with specVer := spec.2 } seq version

/-- The names a server answers a `HandshakeAck` with. -/
def protocolNames (impls : List ProtocolSpec) : List String :=
  impls.map fun imp => s!"{imp.specName}@{imp.specVer}"

/-- A local operation. A `send` is a generated method, its number, and its arguments; `id` is the
id its object gets, should it have to wait for one. -/
inductive Operation
  | bind (advertised : List (String × UInt32)) (proto : ProtocolSpec) (seq version : UInt32)
  | advertise (impls : List ProtocolSpec)
  | send (self : Receiver) (idx : Nat) (mt : Method) (vs : List Value) (id : UInt32)

namespace Operation

/-- What is put on the wire. An object of a server reports a refused call to the client, with
`FatalProtocolError`; an object of a client keeps it to itself. -/
def emit : Operation → Outcome LocalError Emitted
  | bind advertised proto seq version => do
    let msg ← Client.bindMessage advertised proto seq version
    .ok ⟨.bindProtocol, msg.data, []⟩
  | advertise impls =>
    .ok ⟨.handshakeProtocols, (HandshakeProtocols.new (protocolNames impls)).data, []⟩
  | send self idx _ vs id =>
    match call self (UInt32.ofNat idx) (vs.map callArgExpr) with
    | .ok called =>
      let msg := if called.deferred then called.msg.resolveSeq id else called.msg
      .ok ⟨.genericProtocolMessage, msg.data, msg.fds⟩
    | .err (.error errorId msg) =>
      if self.server then
        .ok ⟨.fatalProtocolError, (FatalProtocolError.new self.id errorId msg).data, []⟩
      else .err (.call (.error errorId msg))
    | .err .errd => .err (.call .errd)
    | .panic p => .panic p
    | .stall => .stall

/-- A call the typed API allows: the method is one of the object's, there is code for it, and the
arguments are of its types. A version up to the advertised one is what `bind` is called with. -/
def Typed (up : Char → String) (p : Protocol) : Operation → Prop
  | bind .. => True
  | advertise _ => True
  | send self idx mt vs _ => idx < 2 ^ 32 ∧ (writeSendMethod idx mt).isSome ∧
      (∃ methods, self.methodsOut = methodSpecs methods ∧ methods[idx]? = some mt) ∧
      Scanner.Typed up p mt.args vs

/-- What is sent fits in memory. -/
def Fits (op : Operation) : Prop :=
  ∀ e, op.emit = .ok e → e.data.length ≤ isizeMax ∧ e.fds.length ≤ isizeMax

/-- **The condition**: within the limits, or refused on this side. -/
def Within : Operation → Prop
  | bind advertised proto _ version =>
    match advertised.find? fun spec => spec.1 = proto.specName with
    | none => True
    | some _ => version ≠ 0 ∨ proto.objects = []
  | advertise impls => impls.length < 2048
  | send self _ mt vs _ => (∀ v ∈ vs, v.count < 10000) ∨ self.server = true ∧ mt.returns ≠ none

end Operation

/-- The decoder of the other side takes the message, wherever it stands in a batch, and leaves the
descriptors of the messages behind it. -/
def Emitted.Accepted (m : Overflow) (e : Emitted) : Prop :=
  ∀ (pre suf : List UInt8) (extra : List RawFd), (pre ++ (e.data ++ suf)).length ≤ isizeMax →
    (e.fds ++ extra).length ≤ isizeMax →
    ∃ msg, decode m e.type (pre ++ (e.data ++ suf)) (e.fds ++ extra) pre.length = .ok (msg, extra)

/-- **What a local operation owes**: it reports an error and sends nothing, or what it sends is
accepted. -/
def Operation.Harmless (m : Overflow) (op : Operation) : Prop :=
  match op.emit with
  | .ok e => e.Accepted m
  | .err _ => True
  | _ => False

/-! ## What is accepted -/

/-- What the library builds within the limits is accepted. -/
theorem accepted_of_built {data : List UInt8} {fds : List RawFd} {decoded : Decoded}
    (hbuilt : Built m data fds decoded) : Emitted.Accepted m ⟨decoded.messageType, data, fds⟩ := by
  intro pre suf extra hlen hfds
  have hdrop : (pre ++ (data ++ suf)).drop pre.length = data ++ suf := List.drop_left
  exact ⟨decoded, Sent.decode_eq ⟨data, fds, decoded, hbuilt⟩ hdrop (by simp) hlen hfds⟩

/-- A message that its decoder refuses on its own is not accepted. -/
theorem not_accepted {e : Emitted} (hlen : e.data.length ≤ isizeMax) (hfds : e.fds.length ≤ isizeMax)
    (h : ∀ r, decode m e.type e.data e.fds 0 ≠ .ok r) : ¬ e.Accepted m := by
  intro hacc
  obtain ⟨msg, hmsg⟩ := hacc [] [] [] (by simpa using hlen) (by simpa using hfds)
  rw [List.nil_append, List.append_nil, List.append_nil] at hmsg
  exact h _ hmsg

/-! ## Binding -/

theorem accepted_bind {protocol : String} {seq version : UInt32}
    (hlen : (BindProtocol.new protocol seq version).data.length ≤ isizeMax) :
    Emitted.Accepted m ⟨.bindProtocol, (BindProtocol.new protocol seq version).data, []⟩ ↔
      version ≠ 0 := by
  constructor
  · intro hacc hzero
    refine not_accepted hlen (Nat.zero_le _) ?_ hacc
    intro r hr
    simp only [decode] at hr
    rw [BindProtocol.fromBytes_data (List.append_nil _).symm (Nat.zero_le _) hlen, if_pos hzero]
      at hr
    cases hr
  · intro hversion
    exact accepted_of_built (.bindProtocol protocol seq version hversion)

/-! ## Advertising -/

/-- Every string takes a byte at least, for its length. -/
theorem length_le_length_strs {ss : List String} (h : (ss.flatMap encodeStr).length < 2 ^ 64) :
    ss.length ≤ (ss.flatMap encodeStr).length := by
  induction ss with
  | nil => exact Nat.le_refl _
  | cons s ss ih =>
    rw [List.flatMap_cons, List.length_append] at h ⊢
    have hpos : 0 < (encodeStr s).length := by
      simp only [encodeStr, List.length_append] at h ⊢
      have := length_varInt_pos (show (Utf8.asBytes s).length < 2 ^ 64 by omega)
      omega
    have := ih (by omega)
    rw [List.length_cons]
    omega

theorem accepted_advertise {protocols : List String}
    (hlen : (HandshakeProtocols.new protocols).data.length ≤ isizeMax) :
    Emitted.Accepted m ⟨.handshakeProtocols, (HandshakeProtocols.new protocols).data, []⟩ ↔
      protocols.length < 2048 := by
  have hcount : protocols.length < 2 ^ 64 := by
    simp only [HandshakeProtocols.new, List.length_cons, List.length_append, isizeMax] at hlen
    have hstrs := @length_le_length_strs protocols (by omega)
    omega
  constructor
  · intro hacc
    by_contra hmany
    refine not_accepted hlen (Nat.zero_le _) ?_ hacc
    intro r hr
    simp only [decode] at hr
    rw [HandshakeProtocols.fromBytes_data (List.append_nil _).symm (Nat.zero_le _) hlen hcount,
      if_pos (Nat.le_of_not_lt hmany)] at hr
    cases hr
  · intro hfew
    exact accepted_of_built (.handshakeProtocols protocols hfew)

/-! ## Sending -/

/-- The bytes of an array that is too long: its tags, and a count nobody takes. -/
theorem valueBytes_long {v : Value} (hlong : 10000 ≤ v.count) :
    ∃ (t : MessageMagic) (rest : List UInt8),
      valueBytes v = MessageMagic.typeArray.toU8 :: t.toU8 :: (varInt v.count ++ rest) := by
  cases v with
  | arrayVarchar ss => exact ⟨.typeVarchar, _, rfl⟩
  | arrayFd fds => exact ⟨.typeFd, [], by rw [List.append_nil]; rfl⟩
  | arrayUint vs => exact ⟨.typeUint, _, rfl⟩
  | arrayInt vs => exact ⟨.typeInt, _, rfl⟩
  | arrayF32 vs => exact ⟨.typeF32, _, rfl⟩
  | _ => exact absurd hlong (by simp [Value.count])

/-- An array is no longer than what it puts on the wire. -/
theorem count_le (v : Value) (hlen : (valueBytes v).length < 2 ^ 64) :
    v.count ≤ (valueBytes v).length + (valueFds v).length := by
  cases v with
  | arrayVarchar ss =>
    have hstrs : (ss.map Utf8.asBytes).flatMap marshalStr = ss.flatMap encodeStr := by
      rw [List.flatMap_map]
      rfl
    simp only [valueBytes, Value.count, hstrs, List.length_cons, List.length_append] at hlen ⊢
    have := @length_le_length_strs ss (by omega)
    omega
  | arrayFd fds => exact Nat.le_add_left _ _
  | arrayUint vs | arrayF32 vs =>
    simp only [valueBytes, Value.count, List.length_cons, List.length_append,
      length_flatMap_toLeBytes]
    omega
  | arrayInt vs =>
    simp only [valueBytes, Value.count, List.length_cons, List.length_append,
      length_flatMap_toLeBytes, List.length_map]
    omega
  | _ => exact Nat.zero_le _

/-- **Typed arguments are fields, up to the first array that is too long.** -/
theorem fields_or_long (m : Overflow) {args : List Arg} {vs : List Value}
    (h : Scanner.Typed up p args vs)
    (hlen : (vs.flatMap valueBytes).length + (vs.flatMap valueFds).length < 2 ^ 64) :
    (WellTyped up p args vs ∧ ∀ v ∈ vs, v.count < 10000) ∨ (¬ ∀ v ∈ vs, v.count < 10000) ∧
      ∃ (fs : List (Field m)) (t : MessageMagic) (n : Nat) (rest : List UInt8), 10000 ≤ n ∧
        n < 2 ^ 64 ∧ vs.flatMap valueBytes =
          encodeAll fs ++ MessageMagic.typeArray.toU8 :: t.toU8 :: (varInt n ++ rest) := by
  induction h with
  | nil => exact .inl ⟨.nil, nofun⟩
  | @cons arg v args vs hv _ ih =>
    rw [List.flatMap_cons, List.length_append, List.flatMap_cons, List.length_append] at hlen
    by_cases hcount : v.count < 10000
    · rcases ih (by omega) with hfine | ⟨hlong, fs, t, n, rest, hn, hn', hbytes⟩
      · exact .inl ⟨.cons ⟨hv, hcount⟩ hfine.1, List.forall_mem_cons.mpr ⟨hcount, hfine.2⟩⟩
      · obtain ⟨f, -, henc, -, -⟩ := field_of_value m hv hcount (by omega)
        refine .inr ⟨?_, f :: fs, t, n, rest, hn, hn', ?_⟩
        · intro hall
          exact hlong fun v hv => hall v (List.mem_cons_of_mem _ hv)
        · rw [List.flatMap_cons, hbytes, encodeAll_cons, henc, List.append_assoc]
    · obtain ⟨t, rest, hbytes⟩ := valueBytes_long (Nat.le_of_not_lt hcount)
      refine .inr ⟨fun hall => hcount (hall v (List.mem_cons_self ..)), [], t, v.count,
        rest ++ vs.flatMap valueBytes, Nat.le_of_not_lt hcount, ?_, ?_⟩
      · have := count_le v (by omega)
        omega
      · rw [List.flatMap_cons, hbytes]
        simp

/-- The loop of `from_bytes` does not get past such an array. -/
theorem scanLoop_long {data rest : List UInt8} {fds : List RawFd} {offset n : Nat}
    {t : MessageMagic} (hn : 10000 ≤ n) (hn' : n < 2 ^ 64) (hfds : fds.length < 2 ^ 64) :
    ∀ (fs : List (Field m)) (fuel : Nat) (s : Scan), s.fdsCursor ≤ fds.length →
      data.drop (offset + s.i) =
        encodeAll fs ++ MessageMagic.typeArray.toU8 :: t.toU8 :: (varInt n ++ rest) →
      offset + s.i + (encodeAll fs).length + 2 < 2 ^ 64 →
        ∀ r, scanLoop m data fds offset fuel s ≠ .ok r
  | _, 0, _, _, _, _, _ => by simp [scanLoop]
  | [], fuel + 1, s, hcur, hd, hfit, r => by
    rw [encodeAll_nil, List.nil_append] at hd
    have h1 := Bytes.drop_succ_of_drop_eq_cons hd
    have h2 := Bytes.drop_succ_of_drop_eq_cons h1
    have htag : MessageMagic.typeArray.toU8 ≠ MessageMagic.end_.toU8 := by decide
    simp only [encodeAll_nil, List.length_nil] at hfit
    simp only [scanLoop, scanStep]
    rw [uadd_eq (by omega), Outcome.ok_bind, getByte_eq_ok.mpr (Bytes.getElem?_of_drop_eq_cons hd),
      Outcome.ok_bind, if_neg htag, MessageMagic.tryFrom_toU8, Outcome.ok_bind]
    simp only [scanBody]
    rw [uadd_eq (by omega), Outcome.ok_bind, getByte_eq_ok.mpr (Bytes.getElem?_of_drop_eq_cons h1),
      Outcome.ok_bind, MessageMagic.tryFrom_toU8, Outcome.ok_bind, uadd_eq (by omega),
      Outcome.ok_bind, parseVarInt_varInt h2 hn', Outcome.ok_bind]
    simp only []
    cases uadd m 2 (varInt n).length with
    | ok arrMessageLen =>
      rw [Outcome.ok_bind, if_pos hn]
      simp
    | _ => simp
  | f :: fs, fuel + 1, s, hcur, hd, hfit, r => by
    simp only [encodeAll_cons, List.append_assoc, List.length_append] at hd hfit
    simp only [scanLoop]
    rw [scanStep_encode f hd (by omega) hfds hcur]
    by_cases hle : s.fdsCursor + f.slots ≤ fds.length
    · have hd' := Bytes.drop_add_of_drop_eq_append hd
      rw [if_pos hle, Outcome.ok_bind]
      have hat : data.drop (offset + (s.advance fds f.encode.length f.slots).i) =
          encodeAll fs ++ MessageMagic.typeArray.toU8 :: t.toU8 :: (varInt n ++ rest) := by
        rw [Scan.advance_i, ← Nat.add_assoc, hd']
      exact scanLoop_long hn hn' hfds fs fuel _ hle hat (by rw [Scan.advance_i]; omega) r
    · rw [if_neg hle]
      simp

/-- A call is accepted iff none of its arrays is too long. -/
theorem accepted_send {object method : UInt32} {mt : Method} {seq : UInt32} {vs : List Value}
    (hvs : Scanner.Typed up p mt.args vs) {data : List UInt8} {fds : List RawFd}
    (hfds : fds = vs.flatMap valueFds)
    (hdata : data = callHeader object method ++ encodeAll (returnField m mt seq) ++
      vs.flatMap valueBytes ++ [MessageMagic.end_.toU8])
    (hlen : data.length ≤ isizeMax) (hlen' : fds.length ≤ isizeMax) :
    Emitted.Accepted m ⟨.genericProtocolMessage, data, fds⟩ ↔ ∀ v ∈ vs, v.count < 10000 := by
  have hcap : data.length ≤ 2 ^ 63 - 1 := hlen
  have hcap' : fds.length ≤ 2 ^ 63 - 1 := hlen'
  have hsize := congrArg List.length hdata
  simp only [List.length_append, length_callHeader, List.length_singleton] at hsize
  rcases fields_or_long m hvs (by rw [← hfds]; omega) with
    ⟨hwell, hshort⟩ | ⟨hlong, fs, t, n, rest, hn, hn', hbytes⟩
  · obtain ⟨fs, -, henc, hslots, -⟩ := fields_of_values m hwell (by omega)
    have hword : data = word object method (returnField m mt seq ++ fs) := by
      rw [hdata, word, encodeAll_append, henc, ← List.append_assoc]
    have hown : fds.length = slotsAll (returnField m mt seq ++ fs) := by
      rw [slotsAll_returnField, hslots, hfds]
    refine iff_of_true ?_ hshort
    rw [hword]
    exact accepted_of_built (.generic object method (returnField m mt seq ++ fs) fds hown)
  · refine iff_of_false ?_ hlong
    refine not_accepted hlen hlen' ?_
    intro r hr
    simp only [decode, Outcome.bind_eq_ok, GenericProtocolMessage.fromBytes] at hr
    obtain ⟨_, ⟨_, -, s, hloop, -⟩, -⟩ := hr
    have hdrop : data.drop (0 + (⟨11, 0, []⟩ : Scan).i) = encodeAll (returnField m mt seq ++ fs) ++
        MessageMagic.typeArray.toU8 :: t.toU8 :: (varInt n ++ (rest ++ [MessageMagic.end_.toU8])) := by
      rw [hdata, hbytes]
      simp only [List.append_assoc]
      rw [List.drop_left' (by rw [length_callHeader])]
      simp
    refine scanLoop_long hn hn' (by omega) (returnField m mt seq ++ fs) _ _ (Nat.zero_le _) hdrop ?_ s hloop
    rw [hbytes, List.length_append, List.length_cons, List.length_cons] at hsize
    rw [encodeAll_append, List.length_append]
    simp only
    omega

/-! ## The condition -/

/-- A generated method with a result is refused on a server, before anything is marshalled. -/
theorem call_refused {self : Receiver} {methods : List Method} {idx : Nat} {mt : Method}
    (hself : self.methodsOut = methodSpecs methods) (hmt : methods[idx]? = some mt)
    (hidx : idx < 2 ^ 32) (hgen : (writeSendMethod idx mt).isSome) (hserver : self.server = true)
    (hret : mt.returns ≠ none) (args : List CallArg) :
    ∃ msg, call self (UInt32.ofNat idx) args = .err (.error self.id msg) := by
  have hrow : self.methodsOut[(UInt32.ofNat idx).toNat]? = some (writeMethodSpec idx mt) := by
    rw [hself, UInt32.toNat_ofNat', Nat.mod_eq_of_lt hidx, getElem?_methodSpecs, hmt]
    rfl
  have hsince : ¬ self.version < (writeMethodSpec idx mt).since := by
    simp [writeMethodSpec]
  have hreturns : (writeMethodSpec idx mt).returnsType ≠ "" := by
    obtain ⟨returned, hreturned⟩ := Option.ne_none_iff_exists'.mp hret
    intro hempty
    simp only [writeMethodSpec, hreturned, Option.getD_some] at hempty
    rw [writeSendMethod, if_pos (hempty ▸ hreturned)] at hgen
    cases hgen
  simp only [call, hrow]
  rw [if_neg hsince, if_pos ⟨hreturns, hserver⟩]
  exact ⟨_, rfl⟩

theorem harmless_bind (advertised : List (String × UInt32)) (proto : ProtocolSpec)
    (seq version : UInt32) (hfits : (Operation.bind advertised proto seq version).Fits) :
    (Operation.bind advertised proto seq version).Harmless m ↔
      (Operation.bind advertised proto seq version).Within := by
  unfold Operation.Fits at hfits
  unfold Operation.Harmless Operation.Within
  simp only [Operation.emit, Client.bindMessage] at hfits ⊢
  cases hspec : advertised.find? fun spec => spec.1 = proto.specName with
  | none => exact Iff.rfl
  | some spec =>
    simp only [hspec, ClientSocket.bindProtocol] at hfits ⊢
    by_cases hrange : spec.2 < version
    · -- a version that is too large is not 0
      have hne : version ≠ 0 := by
        rintro rfl
        exact UInt32.not_lt_zero hrange
      rw [if_pos hrange]
      exact iff_of_true trivial (.inl hne)
    · by_cases hempty : proto.objects = []
      · rw [if_neg hrange, if_pos hempty]
        exact iff_of_true trivial (.inr hempty)
      · rw [if_neg hrange, if_neg hempty] at hfits ⊢
        rw [or_iff_left hempty]
        exact accepted_bind (hfits _ rfl).1

theorem harmless_send (up : Char → String) (p : Protocol) (self : Receiver) (idx : Nat)
    (mt : Method) (vs : List Value) (id : UInt32)
    (htyped : (Operation.send self idx mt vs id).Typed up p)
    (hfits : (Operation.send self idx mt vs id).Fits) :
    (Operation.send self idx mt vs id).Harmless m ↔ (Operation.send self idx mt vs id).Within := by
  obtain ⟨hidx, hgen, ⟨methods, hself, hmt⟩, hvs⟩ := htyped
  unfold Operation.Fits at hfits
  unfold Operation.Harmless Operation.Within
  simp only [Operation.emit] at hfits ⊢
  by_cases hback : self.server = true ∧ mt.returns ≠ none
  · obtain ⟨msg, hcall⟩ := call_refused hself hmt hidx hgen hback.1 hback.2 (vs.map callArgExpr)
    simp only [hcall]
    rw [if_pos hback.1]
    exact iff_of_true (accepted_of_built (.fatalProtocolError self.id self.id msg)) (.inr hback)
  · have hdir : self.server = true → mt.returns = none := fun hserver => by
      by_contra hret
      exact hback ⟨hserver, hret⟩
    obtain ⟨send, hsend⟩ := Option.isSome_iff_exists.mp hgen
    obtain ⟨called, hcall, -, -, hfds, hdata⟩ :=
      @call_send m up p _ idx mt hmt hidx send hsend vs hvs self hself hdir
    have hsent : send vs = (UInt32.ofNat idx, vs.map callArgExpr) := by
      unfold writeSendMethod at hsend
      split at hsend
      · cases hsend
      · cases hsend
        rfl
    rw [hsent] at hcall
    simp only [hcall] at hfits ⊢
    rw [or_iff_left hback]
    obtain ⟨hlen, hlen'⟩ := hfits _ rfl
    by_cases hdeferred : called.deferred = true
    · -- the id is patched in when the object has one
      simp only [hdeferred, if_true] at hlen hlen' ⊢
      rw [List.append_assoc, List.append_assoc] at hdata
      have hpatched : (called.msg.resolveSeq id).data = callHeader id (UInt32.ofNat idx) ++
          encodeAll (returnField m mt called.returnSeq) ++ vs.flatMap valueBytes ++
            [MessageMagic.end_.toU8] := by
        rw [resolveSeq_data hdata id]
        simp only [List.append_assoc]
      exact accepted_send hvs hfds hpatched hlen hlen'
    · simp only [hdeferred] at hlen hlen' ⊢
      exact accepted_send hvs hfds hdata hlen hlen'

/-- **No local operation sends what the other side refuses**, exactly when it is within the limits
or is refused here. -/
theorem harmless_iff (m : Overflow) (up : Char → String) (p : Protocol) (op : Operation)
    (htyped : op.Typed up p) (hfits : op.Fits) : op.Harmless m ↔ op.Within := by
  cases op with
  | bind advertised proto seq version => exact harmless_bind advertised proto seq version hfits
  | advertise impls =>
    have hlen := (hfits _ rfl).1
    have hnames := @accepted_advertise m (protocolNames impls) hlen
    rwa [protocolNames, List.length_map] at hnames
  | send self idx mt vs id => exact harmless_send up p self idx mt vs id htyped hfits

/-- The advertised version is 1, and version 0 is asked for. -/
def bindZero : Operation := .bind [("shop", 1)] ⟨"shop", 1, [⟨"manager", [], []⟩]⟩ 1 0

theorem bindZero_fits : bindZero.Fits := by
  intro e he
  cases he
  decide

/-- A call with a string, an enum and an array of descriptors. -/
def sendOpen : Operation := .send sampleReceiver 0 sampleMethod sampleValues 0

theorem harmless_iff_open : sendOpen.Harmless .checked ∧ ¬ bindZero.Harmless .checked := by
  have htyped : sendOpen.Typed (fun c => c.toUpper.toString) sampleProtocol := by
    refine ⟨by decide, rfl, ⟨_, rfl, rfl⟩, .cons rfl (.cons ?_ (.cons rfl .nil))⟩
    exact ⟨rfl, rfl, _, List.mem_singleton.mpr rfl, rfl, _, List.mem_singleton.mpr rfl, rfl⟩
  have hfits : sendOpen.Fits := by
    intro e he
    cases he
    decide
  constructor
  · exact (harmless_iff .checked _ sampleProtocol sendOpen htyped hfits).mpr (.inl (by decide))
  · rw [harmless_iff .checked Char.toString ⟨"shop", 1, [], []⟩ bindZero trivial bindZero_fits]
    rintro (hzero | hroot)
    · exact hzero rfl
    · cases hroot

/-- **A bind of version 0 is sent, and refused.** -/
theorem not_always_harmless : ¬ ∀ (m : Overflow) (up : Char → String) (p : Protocol)
    (op : Operation), op.Typed up p → op.Fits → op.Harmless m := by
  intro h
  have hacc : Emitted.Accepted .checked ⟨.bindProtocol, (BindProtocol.new "shop" 1 0).data, []⟩ :=
    h .checked Char.toString ⟨"shop", 1, [], []⟩ bindZero trivial bindZero_fits
  exact (accepted_bind (by decide)).mp hacc rfl

end Hyprwire
