import Hyprwire.System.Receiving
import Hyprwire.Wire.Limits
import Hyprwire.Wire.Send

/-!
# `System/Posting.lean` — what a message is on the wire

`System/Serving.lean` and `System/Receiving.lean` read bytes for the messages of the system model.
This is the way back: the bytes and descriptors that a side writes for a message (`post`).

A generic message is what `WireObject::call` makes of a call. The client and the server of messages
call as that function does, on the wire, into the queue of a handle that waits, and where it refuses
(`Client.call_marshals_method`, `Server.call_marshals_event`). What goes out is read back as the
message that it was, the arguments of a generic one by the code that is generated for its method.
-/

namespace Hyprwire

open Rust

/-- What `WireObject::call` makes of a call on an object with an id. -/
def Generic.post (methods : List MethodSpec) (g : Generic) : Option Outgoing :=
  match methods[g.method]? with
  | none => none
  | some spec =>
    match marshalArgs spec.params g.args with
    | .ok (data, fds) =>
      some {
        data := callHeader (.ofNat g.object) (.ofNat g.method) ++ callReturn spec (.ofNat g.seq) ++ data
          ++ [MessageMagic.end_.toU8]
        fds }
    | _ => none

/-- What a client writes for a message. -/
def Client.post (c : Client) : C2S → Option Outgoing
  | .sup => some ⟨Hello.new.data, []⟩
  | .handshakeAck version => some ⟨(HandshakeAck.new (.ofNat version)).data, []⟩
  | .bindProtocol seq version protocol =>
    some ⟨(BindProtocol.new protocol (.ofNat seq) (.ofNat version)).data, []⟩
  | .generic g => g.post (c.objects g.origin).methodsOut
  | .roundtripRequest seq _ => some ⟨(RoundtripRequest.new (.ofNat seq)).data, []⟩

/-- A protocol as it is advertised. -/
def advertisement (spec : String × Nat) : String := s!"{spec.1}@{spec.2}"

/-- What a server writes for a message. -/
def Server.post (s : Server) : S2C → Option Outgoing
  | .handshakeBegin versions => some ⟨(HandshakeBegin.new (versions.map UInt32.ofNat)).data, []⟩
  | .handshakeProtocols protocols =>
    some ⟨(HandshakeProtocols.new (protocols.map advertisement)).data, []⟩
  | .newObject seq id => some ⟨(NewObject.new (.ofNat seq) (.ofNat id)).data, []⟩
  | .generic g => g.post (s.objects g.origin).methodsOut
  | .fatalProtocolError objectId errorId errorMsg =>
    some ⟨(FatalProtocolError.new (.ofNat objectId) (.ofNat errorId) errorMsg).data, []⟩
  | .roundtripDone seq _ => some ⟨(RoundtripDone.new (.ofNat seq)).data, []⟩

/-- A number that is a `u32` is written as it is. -/
theorem toNat_ofNat_word {n : Nat} (h : n < wordSize) : (UInt32.ofNat n).toNat = n := by
  rw [UInt32.toNat_ofNat', Nat.mod_eq_of_lt (show n < 2 ^ 32 from h)]

/-! ## Calls -/

/-- An object of a client, as `call` sees it. -/
def Client.receiver (c : Client) (h : Nat) : Receiver where
  id := .ofNat (c.objects h).id
  seq := .ofNat (c.objects h).seq
  version := .ofNat (c.objects h).version
  server := false
  methodsOut := (c.objects h).methodsOut
  freshSeq := some (.ofNat c.nextSeq)

/-- An object of a server, as `call` sees it. -/
def Server.receiver (s : Server) (k : Nat) : Receiver where
  id := .ofNat (s.objects k).id
  seq := .ofNat (s.objects k).seq
  version := .ofNat (s.objects k).version
  server := true
  methodsOut := (s.objects k).methodsOut
  freshSeq := none

/-- What `call` does of a method that it finds. -/
theorem call_eq_ok {self : Receiver} {id : UInt32} {args : List CallArg} {called : Called}
    (h : call self id args = .ok called) :
    ∃ spec data fds, self.methodsOut[id.toNat]? = some spec ∧ ¬ self.version < spec.since ∧
      ¬ (spec.returnsType ≠ "" ∧ self.server = true) ∧
      marshalArgs spec.params args = .ok (data, fds) ∧
      called.msg.data = callHeader self.id id ++ callReturn spec (callReturnSeq self spec) ++ data
        ++ [MessageMagic.end_.toU8] ∧
      called.msg.fds = fds ∧ called.returnSeq = callReturnSeq self spec ∧
      called.destructor = spec.destructor ∧
      called.deferred = decide (self.id = 0 ∧ self.server = false) := by
  unfold call at h
  split at h
  · cases h
  · next spec hspec =>
    split at h
    · cases h
    · next hsince =>
      split at h
      · cases h
      · next hserver =>
        obtain ⟨⟨data, fds⟩, hargs, h⟩ := Outcome.bind_eq_ok.mp h
        cases h
        refine ⟨spec, data, fds, hspec, hsince, hserver, hargs, ?_, ?_, rfl, rfl, rfl⟩
        · dsimp only
          split <;> rfl
        · dsimp only
          split <;> rfl

/-- Marshalling fails for want of an array, and says no more than that. -/
theorem marshalArgs_err {params : List UInt8} {args : List CallArg} {e : Refused}
    (h : marshalArgs params args = .err e) : e = .errd := by
  have harray : ∀ {arg : Option CallArg} {e}, marshalArray arg = .err e → e = .errd := by
    intro arg e h
    unfold marshalArray at h
    split at h
    all_goals cases h
    rfl
  fun_induction marshalArgs params args with
  | case3 byte args hbyte byte' params magic hmagic ih =>
    rcases Outcome.bind_eq_err.mp h with h | ⟨⟨bytes, fds⟩, -, h⟩
    · exact harray h
    · rcases Outcome.bind_eq_err.mp h with h | ⟨⟨data, fds'⟩, -, h⟩
      · exact ih h
      · cases h
  | case5 byte params args hbyte ih | case6 byte params args hbyte ih =>
    rcases Outcome.bind_eq_err.mp h with h | ⟨⟨data, fds⟩, -, h⟩
    · exact ih h
    · cases h
  | case10 byte params args magic h₁ h₂ h₃ h₄ h₅ h₆ hbyte ih =>
    rcases Outcome.bind_eq_err.mp h with h | ⟨⟨data, fds⟩, -, h⟩
    · exact ih h
    · cases h
  | _ => cases h

/-- What it refuses, and how it says so; arguments it cannot marshal aside. -/
theorem call_eq_error {self : Receiver} {id objectId : UInt32} {args : List CallArg} {msg : String}
    (h : call self id args = .err (.error objectId msg)) :
    objectId = self.id ∧
      ((self.methodsOut[id.toNat]? = none ∧ msg = s!"invalid method {id} for object {self.id}") ∨
        ∃ spec, self.methodsOut[id.toNat]? = some spec ∧
          ((self.version < spec.since ∧
              msg = s!"method {id} since {spec.since} but has {self.version}") ∨
            (¬ self.version < spec.since ∧ (spec.returnsType ≠ "" ∧ self.server = true) ∧
              msg = s!"invalid method spec {id} for object {self.id} -> server cannot call returnsType methods"))) := by
  unfold call at h
  split at h
  · next hnone =>
    cases h
    exact ⟨rfl, .inl ⟨hnone, rfl⟩⟩
  · next spec hspec =>
    split at h
    · next hsince =>
      cases h
      exact ⟨rfl, .inr ⟨spec, hspec, .inl ⟨hsince, rfl⟩⟩⟩
    · next hsince =>
      split at h
      · next hserver =>
        cases h
        exact ⟨rfl, .inr ⟨spec, hspec, .inr ⟨hsince, hserver, rfl⟩⟩⟩
      · rcases hargs : marshalArgs spec.params args with ⟨data, fds⟩ | e | p | _
        · rw [hargs] at h
          cases h
        · rw [hargs] at h
          cases h
          cases marshalArgs_err hargs
        · rw [hargs] at h
          cases h
        · rw [hargs] at h
          cases h

/-- **The arguments can be marshalled** for the method, if there is one: none of its array parameters
is given anything but an array, and no parameter list ends in an array without a type. Those of the
generated methods can (`marshalArgs_values`); a call by hand that gives no array is an error in the
source, of which nothing is written, and no call of the system model. -/
def Marshals (methods : List MethodSpec) (method : Nat) (args : List CallArg) : Prop :=
  ∀ spec, methods[method]? = some spec → ∃ packet, marshalArgs spec.params args = .ok packet

/-- What can be marshalled is refused with a reason, or called. -/
theorem call_of_marshals {self : Receiver} {id : UInt32} {args : List CallArg}
    (hmarshals : Marshals self.methodsOut id.toNat args) :
    (∃ objectId msg, call self id args = .err (.error objectId msg)) ∨
      ∃ called, call self id args = .ok called := by
  unfold call
  cases hspec : self.methodsOut[id.toNat]? with
  | none => exact .inl ⟨_, _, rfl⟩
  | some spec =>
    dsimp only
    split
    · exact .inl ⟨_, _, rfl⟩
    · split
      · exact .inl ⟨_, _, rfl⟩
      · obtain ⟨packet, hargs⟩ := hmarshals spec hspec
        rw [hargs]
        exact .inr ⟨_, rfl⟩

/-- The bytes of a call are those of the message for it, whatever its id. -/
theorem Generic.post_eq {methods : List MethodSpec} {g : Generic} {spec : MethodSpec}
    {data : List UInt8} {fds : List RawFd} (hspec : methods[g.method]? = some spec)
    (hargs : marshalArgs spec.params g.args = .ok (data, fds)) :
    g.post methods = some {
      data := callHeader (.ofNat g.object) (.ofNat g.method) ++ callReturn spec (.ofNat g.seq) ++ data
        ++ [MessageMagic.end_.toU8]
      fds } := by
  simp only [post, hspec, hargs]

/-- **A call of a client, at its bytes**: it is the call of the method by the client of messages, and
its bytes are those of the message, at once or when an id is patched into them. -/
structure Client.Marshalled (c : Client) (h method : Nat) (args : List CallArg) (called : Called)
    (spec : MethodSpec) : Prop where
  hasMethod : (c.objects h).methodsOut[method]? = some spec
  call : c.call h method args = c.callMethod h method spec args
  leaves : ∃ made, c.Makes h spec made ∧
    (c.call h method args).1 = c.called h method spec args made
  destructor : called.destructor = spec.destructor
  returnSeq : called.returnSeq.toNat = (c.message h method spec args).seq
  deferred : called.deferred = true ↔ (c.objects h).id = 0
  post : (c.message h method spec args).post (c.objects h).methodsOut =
    some ⟨called.msg.data, called.msg.fds⟩
  resolved : ∀ id, { c.message h method spec args with object := id }.post (c.objects h).methodsOut =
    some ⟨(called.msg.resolveSeq (.ofNat id)).data, called.msg.fds⟩

theorem ofNat_lt_iff {n : Nat} (h : n < wordSize) (since : UInt32) :
    UInt32.ofNat n < since ↔ n < since.toNat := by
  rw [UInt32.lt_iff_toNat_lt, toNat_ofNat_word h]

/-- A number of a side is 0 on the wire only when it is 0. -/
theorem ofNat_eq_zero {n : Nat} (h : n < wordSize) : UInt32.ofNat n = 0 ↔ n = 0 := by
  rw [← UInt32.toNat_inj, toNat_ofNat_word h]
  rfl

/-- **A client calls as `WireObject::call` does**, with arguments that can be marshalled: the one
refuses, and nothing comes of the other, or what the one marshals is the message of the other. -/
theorem Client.call_marshals_method (c : Client) {h method : Nat} (args : List CallArg)
    (hmethod : method < wordSize) (hid : (c.objects h).id < wordSize)
    (hversion : (c.objects h).version < wordSize)
    (hmarshals : Marshals (c.objects h).methodsOut method args) :
    (∃ objectId msg, Hyprwire.call (c.receiver h) (.ofNat method) args = .err (.error objectId msg) ∧
      c.call h method args = (c, 0)) ∨
    ∃ called spec, Hyprwire.call (c.receiver h) (.ofNat method) args = .ok called ∧
      c.Marshalled h method args called spec := by
  have hindex : (UInt32.ofNat method).toNat = method := toNat_ofNat_word hmethod
  have hsince : ∀ spec : MethodSpec, (c.receiver h).version < spec.since ↔
      (c.objects h).version < spec.since.toNat := fun spec => ofNat_lt_iff hversion spec.since
  have hmarshals' : Marshals (c.receiver h).methodsOut (UInt32.ofNat method).toNat args :=
    hindex.symm ▸ hmarshals
  rcases call_of_marshals hmarshals' with ⟨objectId, msg, herr⟩ | ⟨called, hcalled⟩
  · refine .inl ⟨objectId, msg, herr, ?_⟩
    obtain ⟨-, ⟨hnone, -⟩ | ⟨spec, hspec, ⟨hlt, -⟩ | ⟨-, hserver, -⟩⟩⟩ := call_eq_error herr
    · rw [hindex] at hnone
      simp only [Client.call, show (c.objects h).methodsOut[method]? = none from hnone]
    · rw [hindex] at hspec
      simp only [Client.call, show (c.objects h).methodsOut[method]? = some spec from hspec]
      rw [if_pos ((hsince spec).mp hlt)]
    · cases hserver.2
  · obtain ⟨spec, data, fds, hspec, hlt, -, hargs, hdata, hfds, hreturn, hdes, hdeferred⟩ :=
      call_eq_ok hcalled
    rw [hindex] at hspec
    have hseq : (callReturnSeq (c.receiver h) spec).toNat = (c.message h method spec args).seq := by
      show (if spec.returnsType ≠ "" then UInt32.ofNat c.nextSeq else 0).toNat =
        if spec.returnsType ≠ "" then c.nextSeq else 0
      split
      · exact toNat_ofNat_word (Nat.mod_lt _ (by decide))
      · rfl
    have hcall : c.call h method args = c.callMethod h method spec args := by
      simp only [Client.call, show (c.objects h).methodsOut[method]? = some spec from hspec]
      rw [if_neg fun hlt' => hlt ((hsince spec).mpr hlt')]
    have hbytes : ∀ id, { c.message h method spec args with object := id }.post
        (c.objects h).methodsOut = some {
          data := callHeader (.ofNat id) (.ofNat method) ++
            callReturn spec (callReturnSeq (c.receiver h) spec) ++ data ++ [MessageMagic.end_.toU8]
          fds } := by
      intro id
      have hnumber : UInt32.ofNat (c.message h method spec args).seq =
          callReturnSeq (c.receiver h) spec := by
        rw [← hseq, UInt32.ofNat_toNat]
      rw [← hnumber]
      exact Generic.post_eq hspec hargs
    obtain ⟨made, hmakes, hleft⟩ := callMethod_eq c h method spec args
    refine .inr ⟨called, spec, hcalled, hspec, hcall, ⟨made, hmakes, by rw [hcall, hleft]⟩, hdes, ?_, ?_,
      ?_, fun id => ?_⟩
    · rw [hreturn, hseq]
    · rw [hdeferred, decide_eq_true_iff]
      exact (and_iff_left rfl).trans (ofNat_eq_zero hid)
    · rw [hdata, hfds]
      exact hbytes (c.objects h).id
    · rw [List.append_assoc, List.append_assoc] at hdata
      rw [hbytes id, resolveSeq_data hdata, hfds, List.append_assoc, List.append_assoc]

/-- A client with a manager. -/
def Client.withManager : Client where
  objects := fun _ => { id := 1, version := 1, protocolName := "shop", spec := some managerSpec }

theorem Client.call_marshals_make :
    withManager.call 0 2 [] = (withManager, 0) ∧ ∃ called spec,
      Hyprwire.call (withManager.receiver 0) (.ofNat 0) [] = .ok called ∧
        withManager.Marshalled 0 0 [] called spec := by
  have hnone : Marshals (withManager.objects 0).methodsOut 2 [] := nofun
  have hmake : Marshals (withManager.objects 0).methodsOut 0 [] := fun _ hspec => by
    cases hspec
    exact ⟨_, rfl⟩
  constructor
  · rcases @call_marshals_method withManager 0 2 [] (by decide) (by decide) (by decide) hnone with
      ⟨-, -, -, hnothing⟩ | ⟨_, _, hcalled, -⟩
    · exact hnothing
    · cases hcalled
  · rcases @call_marshals_method withManager 0 0 [] (by decide) (by decide) (by decide) hmake with
      ⟨_, _, hrefused, -⟩ | hcalled
    · cases hrefused
    · exact hcalled

/-- The message of an event. -/
def Server.message (s : Server) (k method : Nat) (spec : MethodSpec) (args : List CallArg) : Generic :=
  { object := (s.objects k).id, method, seq := 0, args
    origin := k, destructor := spec.destructor, during := s.during }

/-- **A call of a server, at its bytes**: the method is emitted, and the bytes are those of the event. -/
structure Server.Marshalled (s : Server) (k method : Nat) (args : List CallArg) (called : Called)
    (spec : MethodSpec) : Prop where
  hasMethod : (s.objects k).methodsOut[method]? = some spec
  call : s.call k method args = s.emitMethod k method spec args
  leaves : ∃ f, s.call k method args = (s.setObject k f).write (.generic (s.message k method spec args))
  destructor : called.destructor = spec.destructor
  returnSeq : called.returnSeq = 0
  deferred : called.deferred = false
  post : (s.message k method spec args).post (s.objects k).methodsOut =
    some ⟨called.msg.data, called.msg.fds⟩

/-- **A server calls as `WireObject::call` does** on an object that is not destroyed, with arguments
that can be marshalled: the one refuses, and the other reports the same error on the same object, or
what the one marshals is the event of the other. -/
theorem Server.call_marshals_event (s : Server) {k method : Nat} (args : List CallArg)
    (hlive : (s.objects k).destroyed = false) (hmethod : method < wordSize)
    (hid : (s.objects k).id < wordSize) (hversion : (s.objects k).version < wordSize)
    (hmarshals : Marshals (s.objects k).methodsOut method args) :
    (∃ objectId msg, Hyprwire.call (s.receiver k) (.ofNat method) args = .err (.error objectId msg) ∧
      objectId.toNat = (s.objects k).id ∧
        s.call k method args = s.objectError k objectId.toNat msg) ∨
    ∃ called spec, Hyprwire.call (s.receiver k) (.ofNat method) args = .ok called ∧
      s.Marshalled k method args called spec := by
  have hindex : (UInt32.ofNat method).toNat = method := toNat_ofNat_word hmethod
  have hobject : (UInt32.ofNat (s.objects k).id).toNat = (s.objects k).id := toNat_ofNat_word hid
  have hsince : ∀ spec : MethodSpec, (s.receiver k).version < spec.since ↔
      (s.objects k).version < spec.since.toNat := fun spec => ofNat_lt_iff hversion spec.since
  -- a number is printed as it is, whatever its type
  have hprint : ∀ {n : Nat}, n < wordSize → toString (UInt32.ofNat n) = toString n := by
    intro n hn
    show toString (UInt32.ofNat n).toNat = toString n
    rw [toNat_ofNat_word hn]
  have hmarshals' : Marshals (s.receiver k).methodsOut (UInt32.ofNat method).toNat args :=
    hindex.symm ▸ hmarshals
  rcases call_of_marshals hmarshals' with ⟨objectId, msg, herr⟩ | ⟨called, hcalled⟩
  · refine .inl ⟨objectId, msg, herr, ?_⟩
    obtain ⟨rfl, hcases⟩ := call_eq_error herr
    refine ⟨hobject, ?_⟩
    have hsame : (s.receiver k).id.toNat = (s.objects k).id := hobject
    rw [hsame]
    unfold Server.call
    rw [hlive, if_neg (by simp)]
    rcases hcases with ⟨hnone, rfl⟩ | ⟨spec, hspec, ⟨hlt, rfl⟩ | ⟨hle, hret, rfl⟩⟩
    · rw [hindex] at hnone
      simp only [show (s.objects k).methodsOut[method]? = none from hnone]
      rw [hprint hmethod, show toString (s.receiver k).id = _ from hprint hid]
    · rw [hindex] at hspec
      simp only [show (s.objects k).methodsOut[method]? = some spec from hspec]
      rw [if_pos ((hsince spec).mp hlt), hprint hmethod,
        show toString (s.receiver k).version = _ from hprint hversion]
    · rw [hindex] at hspec
      simp only [show (s.objects k).methodsOut[method]? = some spec from hspec]
      rw [if_neg fun hlt => hle ((hsince spec).mpr hlt), if_pos hret.1, hprint hmethod,
        show toString (s.receiver k).id = _ from hprint hid]
  · obtain ⟨spec, data, fds, hspec, hlt, hserver, hargs, hdata, hfds, hreturn, hdes, hdeferred⟩ :=
      call_eq_ok hcalled
    rw [hindex] at hspec
    have hret : spec.returnsType = "" := by
      by_contra hne
      exact hserver ⟨hne, rfl⟩
    have hseq : callReturnSeq (s.receiver k) spec = 0 := if_neg (not_not.mpr hret)
    have hcall : s.call k method args = s.emitMethod k method spec args := by
      unfold Server.call
      rw [hlive, if_neg (by simp)]
      simp only [show (s.objects k).methodsOut[method]? = some spec from hspec]
      rw [if_neg fun hlt' => hlt ((hsince spec).mpr hlt'), if_neg (not_not.mpr hret)]
    refine .inr ⟨called, spec, hcalled, hspec, hcall, ?_, hdes, hreturn.trans hseq, ?_, ?_⟩
    · rw [hcall]
      unfold emitMethod
      by_cases hdestructor : spec.destructor = true
      · refine ⟨fun obj => { obj with destroyed := true }, ?_⟩
        rw [if_pos hdestructor]
        simp only [setObject, if_true, message, hdestructor]
        rfl
      · refine ⟨id, ?_⟩
        rw [if_neg hdestructor]
        simp only [setObject, id, ite_self, message]
    · rw [hdeferred, decide_eq_false_iff_not]
      intro hwaits
      cases hwaits.2
    · rw [hdata, hfds, hseq]
      exact Generic.post_eq hspec hargs

/-- A server with a manager. -/
def Server.withManager : Server where
  objects := fun _ => { id := 1, version := 1, protocolName := "shop", spec := some managerSpec }

theorem Server.call_marshals_tick :
    withManager.call 0 1 [] = withManager.objectError 0 1 "invalid method 1 for object 1" ∧
      ∃ called spec, Hyprwire.call (withManager.receiver 0) (.ofNat 0) [] = .ok called ∧
        withManager.Marshalled 0 0 [] called spec := by
  have hnone : Marshals (withManager.objects 0).methodsOut 1 [] := nofun
  have htick : Marshals (withManager.objects 0).methodsOut 0 [] := fun _ hspec => by
    cases hspec
    exact ⟨_, rfl⟩
  constructor
  · rcases @call_marshals_event withManager 0 1 [] rfl (by decide) (by decide) (by decide) hnone with
      ⟨_, _, hrefused, -, herror⟩ | ⟨_, _, hcalled, -⟩
    · cases hrefused
      exact herror
    · cases hcalled
  · rcases @call_marshals_event withManager 0 0 [] rfl (by decide) (by decide) (by decide) htick with
      ⟨_, _, hrefused, -⟩ | hcalled
    · cases hrefused
    · exact hcalled

/-! ## Reading it back -/

section
variable {m : Overflow} {up : Char → String} {p : Scanner.Protocol}

/-- A call of the generated API: of one of its methods, with arguments of the declared types. -/
def Generic.Typed (up : Char → String) (p : Scanner.Protocol) (methods : List Scanner.Method)
    (g : Generic) (mt : Scanner.Method) (vs : List Scanner.Value) : Prop :=
  methods[g.method]? = some mt ∧ mt.returns ≠ some "" ∧ Scanner.WellTyped up p mt.args vs ∧
    g.args = vs.map Scanner.callArgExpr

/-- Its numbers are `u32`s. -/
def Generic.IsWord (g : Generic) : Prop :=
  g.object < wordSize ∧ g.method < wordSize ∧ g.seq < wordSize

/-- The declared fields of a message on its way. -/
structure Generic.Fields (m : Overflow) (up : Char → String) (p : Scanner.Protocol) (g : Generic)
    (mt : Scanner.Method) (vs : List Scanner.Value) (packet : Outgoing) (fs : List (Field m)) :
    Prop where
  matched : Scanner.Matches mt.args fs
  slots : slotsAll fs = packet.fds.length
  values : Scanner.fieldValues up p mt.args fs packet.fds = some vs
  data : packet.data = word (.ofNat g.object) (.ofNat g.method)
    (Scanner.returnField m mt (.ofNat g.seq) ++ fs)

/-- What is written for a typed call, whose table is generated. -/
theorem Generic.post_typed {methods : List Scanner.Method} {g : Generic} {mt : Scanner.Method}
    {vs : List Scanner.Value} (htyped : g.Typed up p methods mt vs) :
    g.post (Scanner.methodSpecs methods) = some {
      data := callHeader (.ofNat g.object) (.ofNat g.method) ++
        callReturn (Scanner.writeMethodSpec g.method mt) (.ofNat g.seq) ++
          vs.flatMap Scanner.valueBytes ++ [MessageMagic.end_.toU8]
      fds := vs.flatMap Scanner.valueFds } := by
  obtain ⟨hmt, -, hvs, hargs⟩ := htyped
  have hspec : (Scanner.methodSpecs methods)[g.method]? = some (Scanner.writeMethodSpec g.method mt) := by
    rw [Scanner.getElem?_methodSpecs, hmt]
    rfl
  have hmarshal : marshalArgs (Scanner.writeMethodSpec g.method mt).params g.args =
      .ok (vs.flatMap Scanner.valueBytes, vs.flatMap Scanner.valueFds) := by
    rw [hargs]
    exact Scanner.marshalArgs_values hvs.typed
  exact post_eq hspec hmarshal

/-- **What is written for a typed call is a word of the grammar**, whose fields are the declared ones. -/
theorem Generic.exists_fields {methods : List Scanner.Method} {g : Generic} {mt : Scanner.Method}
    {vs : List Scanner.Value} (htyped : g.Typed up p methods mt vs) {packet : Outgoing}
    (hpost : g.post (Scanner.methodSpecs methods) = some packet)
    (hlen : packet.data.length ≤ isizeMax) : ∃ fs, g.Fields m up p mt vs packet fs := by
  rw [post_typed htyped] at hpost
  cases hpost
  obtain ⟨hmt, hret, hvs, hargs⟩ := htyped
  have hshort : (vs.flatMap Scanner.valueBytes).length < 2 ^ 64 := by
    simp only [List.length_append, isizeMax] at hlen
    omega
  obtain ⟨fs, hmatches, hencode, hslots, hvalues⟩ := Scanner.fields_of_values m hvs hshort
  refine ⟨fs, hmatches, hslots, hvalues, ?_⟩
  rw [Scanner.callReturn_writeMethodSpec (m := m) hret, word, encodeAll_append, hencode]
  simp only [List.append_assoc]

/-- The message that is read for it. -/
def Generic.arrival (g : Generic) (mt : Scanner.Method) (packet : Outgoing) (fs : List (Field m)) :
    GenericProtocolMessage :=
  received (.ofNat g.object) (.ofNat g.method) (Scanner.returnField m mt (.ofNat g.seq) ++ fs)
    packet.fds

variable {g : Generic} {mt : Scanner.Method} {vs : List Scanner.Value} {packet : Outgoing}
  {fs : List (Field m)}

theorem Generic.Fields.built (h : g.Fields m up p mt vs packet fs) :
    Built m packet.data packet.fds (.generic (g.arrival mt packet fs)) := by
  rw [h.data]
  refine .generic _ _ _ _ ?_
  rw [Scanner.slotsAll_returnField, h.slots]

/-- The event that generated code makes of a call. An object that the call asks for is made first,
and there is no event when it cannot be. -/
def Scanner.callEvent {O : Type} (createObject : String → UInt32 → Option O) (method seq : UInt32)
    (mt : Scanner.Method) (vs : List Scanner.Value) : Option (Scanner.Event O) :=
  match mt.returns with
  | none => some ⟨method, mt.name, vs.map .value⟩
  | some returned => (createObject returned seq).map fun obj =>
    ⟨method, mt.name, .object obj :: vs.map .value⟩

/-- **Generated code reads what was written for the method**, and hands over the values that were
sent. -/
theorem Generic.Fields.dispatch {O : Type} {isServer : Bool} {methods : List Scanner.Method}
    {createObject : String → UInt32 → Option O} (h : g.Fields m up p mt vs packet fs)
    (htyped : g.Typed up p methods mt vs) (hmethod : g.method < wordSize)
    (hs2c : isServer = false → mt.returns = none) (hlen : packet.data.length ≤ isizeMax) :
    Scanner.dispatch m up p isServer true createObject methods (.ofNat g.method)
        (encodeAll (Scanner.returnField m mt (.ofNat g.seq) ++ fs) ++ [MessageMagic.end_.toU8])
        packet.fds =
      .ok (Scanner.callEvent createObject (.ofNat g.method) (.ofNat g.seq) mt vs) := by
  obtain ⟨hmt, -, hvs, -⟩ := htyped
  have hrow : methods[(UInt32.ofNat g.method).toNat]? = some mt := by
    rw [toNat_ofNat_word hmethod]
    exact hmt
  have hfit : (encodeAll (Scanner.returnField m mt (.ofNat g.seq) ++ fs)).length < 2 ^ 64 := by
    rw [h.data, length_word, isizeMax] at hlen
    omega
  unfold Scanner.callEvent
  by_cases hdead : ∃ returned, mt.returns = some returned ∧ isServer = true ∧
      createObject returned (.ofNat g.seq) = none
  · obtain ⟨returned, hret, rfl, hnone⟩ := hdead
    rw [encodeAll_append, List.append_assoc, Scanner.dispatch_destroyed hrow hret hnone]
    simp only [hret, hnone, Option.map_none]
  · have halive : ∀ returned, mt.returns = some returned → isServer = true →
        (createObject returned (.ofNat g.seq)).isSome := by
      intro returned hret hserver
      rw [Option.isSome_iff_ne_none]
      exact fun hnone => hdead ⟨returned, hret, hserver, hnone⟩
    rw [Scanner.dispatch_encode hrow (Scanner.parsed_of_wellTyped hvs) h.matched hfit
      (Nat.le_of_eq h.slots) halive, h.values]
    simp only [Scanner.eventOf]
    cases hret : mt.returns with
    | none => rfl
    | some returned =>
      have hserver : isServer = true := by
        cases isServer with
        | true => rfl
        | false =>
          rw [hs2c rfl] at hret
          cases hret
      simp only [hserver, if_true]

/-- The number that comes first is the one that was given. -/
theorem Generic.arrival_returnSeq (hret : mt.returns.isSome = true) :
    (g.arrival mt packet fs).returnSeq m = (UInt32.ofNat g.seq).toNat := by
  unfold GenericProtocolMessage.returnSeq arrival
  rw [dataSpan_received, Scanner.returnField, if_pos hret]
  simp only [encodeAll_append, encodeAll_cons, encodeAll_nil, Field.encode, List.append_assoc,
    List.cons_append]
  rw [@Scanner.scalarArg_of_drop m _ _ ⟨0, _⟩ _ (.ofNat g.seq) rfl (by simp)]

end

/-- The result of a method is a name in the tables as it is in the code. -/
theorem Scanner.returnsType_eq {idx : Nat} {mt : Scanner.Method} (hret : mt.returns ≠ some "") :
    (Scanner.writeMethodSpec idx mt).returnsType ≠ "" ↔ mt.returns.isSome = true := by
  simp only [Scanner.writeMethodSpec]
  cases hreturns : mt.returns with
  | none => simp
  | some returned =>
    rw [hreturns] at hret
    simpa using hret

/-! ## What either side may say -/

theorem ClientObject.methodsOut_eq {obj : ClientObject} {o : Scanner.Object}
    (h : obj.spec = some o.spec) : obj.methodsOut = Scanner.methodSpecs o.c2s := by
  rw [methodsOut, h]
  rfl

theorem ServerObject.methodsOut_eq {obj : ServerObject} {o : Scanner.Object}
    (h : obj.spec = some o.spec) : obj.methodsOut = Scanner.methodSpecs o.s2c := by
  rw [methodsOut, h]
  rfl

/-- The code of an interface, and the table that was made with it. -/
def Scanner.IsCode (protocols : List Scanner.Protocol) (protocolName : String)
    (spec : Option ObjectSpec) (p : Scanner.Protocol) (o : Scanner.Object) : Prop :=
  codeOf protocols protocolName spec = some (p, o) ∧ spec = some o.spec

section
variable (up : Char → String) (protocols : List Scanner.Protocol)

/-- **What the generated API lets a client say**: numbers that are `u32`s, no version 0, and calls of
the methods of an object's interface with arguments of the declared types. -/
def Client.Sayable (c : Client) : C2S → Prop
  | .sup => True
  | .handshakeAck version => version < wordSize
  | .bindProtocol seq version _ => seq < wordSize ∧ version < wordSize ∧ version ≠ 0
  | .generic g =>
    g.IsWord ∧ ∃ p o mt vs,
      Scanner.IsCode protocols (c.objects g.origin).protocolName (c.objects g.origin).spec p o ∧
        g.Typed up p o.c2s mt vs
  | .roundtripRequest seq _ => seq < wordSize

/-- … and a server. It offers version 1, and there is a limit to what it advertises. -/
def Server.Sayable (s : Server) : S2C → Prop
  | .handshakeBegin versions => versions = [1]
  | .handshakeProtocols advertised => advertised.length < 2048 ∧ ∀ spec ∈ advertised, spec.2 < wordSize
  | .newObject seq id => seq < wordSize ∧ id < wordSize
  | .generic g =>
    g.IsWord ∧ ∃ p o mt vs,
      Scanner.IsCode protocols (s.objects g.origin).protocolName (s.objects g.origin).spec p o ∧
        g.Typed up p o.s2c mt vs ∧ mt.returns = none
  | .fatalProtocolError objectId errorId _ => objectId < wordSize ∧ errorId < wordSize
  | .roundtripDone seq _ => seq < wordSize

variable (m : Overflow)

/-- What a generic message is read as. A server sends none that asks for an object. -/
def Generic.ReadAs (protocols : List Scanner.Protocol) (protocolName : String)
    (spec : Option ObjectSpec) (isServer : Bool) (g : Generic) (msg : GenericProtocolMessage) : Prop :=
  g.IsWord ∧ ∃ p o mt vs packet fs, Scanner.IsCode protocols protocolName spec p o ∧
    g.Typed up p (o.methods isServer) mt vs ∧ (isServer = false → mt.returns = none) ∧
    packet.data.length ≤ isizeMax ∧ @Generic.Fields m up p g mt vs packet fs ∧
    msg = g.arrival mt packet fs

/-- **What a message of a client is read as.** -/
inductive Client.ReadAs (c : Client) : C2S → Decoded → Prop
  | sup : ReadAs c .sup (.sup .new)
  | handshakeAck (version : Nat) (h : version < wordSize) :
      ReadAs c (.handshakeAck version) (.handshakeAck (.new (.ofNat version)))
  | bindProtocol (seq version : Nat) (protocol : String) (hseq : seq < wordSize)
      (hversion : version < wordSize) (hne : version ≠ 0) :
      ReadAs c (.bindProtocol seq version protocol)
        (.bindProtocol (.new protocol (.ofNat seq) (.ofNat version)))
  | generic (g : Generic) (msg : GenericProtocolMessage)
      (h : g.ReadAs up m protocols (c.objects g.origin).protocolName (c.objects g.origin).spec
        true msg) : ReadAs c (.generic g) (.generic msg)
  | roundtripRequest (seq queue : Nat) (h : seq < wordSize) :
      ReadAs c (.roundtripRequest seq queue) (.roundtripRequest (.new (.ofNat seq)))

/-- **What a message of a server is read as.** -/
inductive Server.ReadAs (s : Server) : S2C → Decoded → Prop
  | handshakeBegin : ReadAs s (.handshakeBegin [1]) (.handshakeBegin (.new [1]))
  | handshakeProtocols (advertised : List (String × Nat)) (h : ∀ spec ∈ advertised, spec.2 < wordSize) :
      ReadAs s (.handshakeProtocols advertised)
        (.handshakeProtocols (.new (advertised.map advertisement)))
  | newObject (seq id : Nat) (hseq : seq < wordSize) (hid : id < wordSize) :
      ReadAs s (.newObject seq id) (.newObject (.new (.ofNat seq) (.ofNat id)))
  | generic (g : Generic) (msg : GenericProtocolMessage)
      (h : g.ReadAs up m protocols (s.objects g.origin).protocolName (s.objects g.origin).spec
        false msg) : ReadAs s (.generic g) (.generic msg)
  | fatalProtocolError (objectId errorId : Nat) (errorMsg : String) (hobject : objectId < wordSize)
      (herror : errorId < wordSize) : ReadAs s (.fatalProtocolError objectId errorId errorMsg)
        (.fatalProtocolError (.new (.ofNat objectId) (.ofNat errorId) errorMsg))
  | roundtripDone (seq request : Nat) (h : seq < wordSize) :
      ReadAs s (.roundtripDone seq request) (.roundtripDone (.new (.ofNat seq)))

end

section
variable {m : Overflow} {up : Char → String} {protocols : List Scanner.Protocol}

/-- What is sayable has bytes. -/
theorem Client.exists_post {c : Client} {msg : C2S} (h : c.Sayable up protocols msg) :
    ∃ packet, c.post msg = some packet := by
  cases msg with
  | generic g =>
    obtain ⟨-, p, o, mt, vs, ⟨-, hspec⟩, htyped⟩ := h
    rw [post, ClientObject.methodsOut_eq hspec]
    exact ⟨_, Generic.post_typed htyped⟩
  | _ => exact ⟨_, rfl⟩

theorem Server.exists_post {s : Server} {msg : S2C} (h : s.Sayable up protocols msg) :
    ∃ packet, s.post msg = some packet := by
  cases msg with
  | generic g =>
    obtain ⟨-, p, o, mt, vs, ⟨-, hspec⟩, htyped, -⟩ := h
    rw [post, ServerObject.methodsOut_eq hspec]
    exact ⟨_, Generic.post_typed htyped⟩
  | _ => exact ⟨_, rfl⟩

/-- **What a client writes can be read as what it said.** -/
theorem Client.exists_sent {c : Client} {msg : C2S} (h : c.Sayable up protocols msg)
    {packet : Outgoing} (hpost : c.post msg = some packet) (hlen : packet.data.length ≤ isizeMax) :
    ∃ x : Hyprwire.Sent m, x.data = packet.data ∧ x.fds = packet.fds ∧
      c.ReadAs up protocols m msg x.decoded := by
  cases msg with
  | sup =>
    cases hpost
    exact ⟨⟨_, _, _, .sup⟩, rfl, rfl, .sup⟩
  | handshakeAck version =>
    cases hpost
    exact ⟨⟨_, _, _, .handshakeAck _⟩, rfl, rfl, .handshakeAck version h⟩
  | bindProtocol seq version protocol =>
    cases hpost
    obtain ⟨hseq, hversion, hne⟩ := h
    have hne' : UInt32.ofNat version ≠ 0 := fun heq => hne ((ofNat_eq_zero hversion).mp heq)
    exact ⟨⟨_, _, _, .bindProtocol _ _ _ hne'⟩, rfl, rfl,
      .bindProtocol seq version protocol hseq hversion hne⟩
  | generic g =>
    obtain ⟨hword, p, o, mt, vs, hcode, htyped⟩ := h
    rw [post, ClientObject.methodsOut_eq hcode.2] at hpost
    obtain ⟨fs, hfields⟩ := @Generic.exists_fields m up p _ _ _ _ htyped _ hpost hlen
    exact ⟨⟨_, _, _, hfields.built⟩, rfl, rfl,
      .generic g _ ⟨hword, p, o, mt, vs, packet, fs, hcode, htyped, by simp, hlen, hfields, rfl⟩⟩
  | roundtripRequest seq queue =>
    cases hpost
    exact ⟨⟨_, _, _, .roundtripRequest _⟩, rfl, rfl, .roundtripRequest seq queue h⟩

/-- **What a server writes can be read as what it said.** -/
theorem Server.exists_sent {s : Server} {msg : S2C} (h : s.Sayable up protocols msg)
    {packet : Outgoing} (hpost : s.post msg = some packet) (hlen : packet.data.length ≤ isizeMax) :
    ∃ x : Hyprwire.Sent m, x.data = packet.data ∧ x.fds = packet.fds ∧
      s.ReadAs up protocols m msg x.decoded := by
  cases msg with
  | handshakeBegin versions =>
    cases hpost
    obtain rfl : versions = [1] := h
    exact ⟨⟨_, _, _, .handshakeBegin _ (by decide)⟩, rfl, rfl, .handshakeBegin⟩
  | handshakeProtocols advertised =>
    cases hpost
    exact ⟨⟨_, _, _, .handshakeProtocols _ (by rw [List.length_map]; exact h.1)⟩, rfl, rfl,
      .handshakeProtocols advertised h.2⟩
  | newObject seq id =>
    cases hpost
    exact ⟨⟨_, _, _, .newObject _ _⟩, rfl, rfl, .newObject seq id h.1 h.2⟩
  | generic g =>
    obtain ⟨hword, p, o, mt, vs, hcode, htyped, hret⟩ := h
    rw [post, ServerObject.methodsOut_eq hcode.2] at hpost
    obtain ⟨fs, hfields⟩ := @Generic.exists_fields m up p _ _ _ _ htyped _ hpost hlen
    exact ⟨⟨_, _, _, hfields.built⟩, rfl, rfl,
      .generic g _ ⟨hword, p, o, mt, vs, packet, fs, hcode, htyped, fun _ => hret, hlen, hfields,
        rfl⟩⟩
  | fatalProtocolError objectId errorId errorMsg =>
    cases hpost
    exact ⟨⟨_, _, _, .fatalProtocolError _ _ _⟩, rfl, rfl,
      .fatalProtocolError objectId errorId errorMsg h.1 h.2⟩
  | roundtripDone seq request =>
    cases hpost
    exact ⟨⟨_, _, _, .roundtripDone _⟩, rfl, rfl, .roundtripDone seq request h⟩

end

end Hyprwire
