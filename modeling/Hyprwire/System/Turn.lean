import Hyprwire.Lib.History
import Hyprwire.System.Server

/-!
# `System/Turn.lean` — what a step of a server is made of

The counterpart of `System/Move.lean`. What handlers do is done on the side (`Aside`): flags are
set and messages written, and nothing that decides where a dispatch stands. A generic message is
delivered in one of four ways (`Delivered`), and every other message does one thing.
-/

namespace Hyprwire.Server

open History

variable {s s' s'' : Server}

/-! ## Writing -/

/-- Writing touches nothing but what is on the wire. -/
theorem write_eq (s : Server) (msg : S2C) : ∃ out, s.write msg = { s with out } := by
  unfold write
  split
  · exact ⟨_, rfl⟩
  · exact ⟨_, rfl⟩

theorem write_out (s : Server) (msg : S2C) :
    (s.write msg).out = if s.shut then s.out else s.out ++ [msg] := by
  unfold write
  split <;> rfl

theorem mem_write {msg msg' : S2C} (h : msg' ∈ (s.write msg).out) : msg' ∈ s.out ∨ msg' = msg := by
  rw [write_out] at h
  split at h
  · exact .inl h
  · rcases List.mem_append.mp h with h | h
    · exact .inl h
    · exact .inr (List.mem_singleton.mp h)

/-- Nothing is said by saying something. -/
theorem out_ne_append {l : List S2C} {msg : S2C} : l ++ [msg] ≠ l := by
  intro h
  have := congrArg List.length h
  simp at this

theorem write_prefix (s : Server) (msg : S2C) : s.out <+: (s.write msg).out := by
  rw [write_out]
  split
  · exact List.prefix_refl _
  · exact List.prefix_append ..

/-! ## What handlers do -/

/-- The same object, but for whether it was destroyed and has its object data. -/
structure SameObject (obj obj' : ServerObject) : Prop where
  id : obj'.id = obj.id
  seq : obj'.seq = obj.seq
  version : obj'.version = obj.version
  protocolName : obj'.protocolName = obj.protocolName
  spec : obj'.spec = obj.spec
  destroyed : obj.destroyed = true → obj'.destroyed = true
  objectData : obj.objectData = true → obj'.objectData = true

theorem SameObject.refl (obj : ServerObject) : SameObject obj obj :=
  ⟨rfl, rfl, rfl, rfl, rfl, fun h => h, fun h => h⟩

theorem SameObject.trans {x y z : ServerObject} (h : SameObject x y) (h' : SameObject y z) :
    SameObject x z :=
  ⟨h'.id.trans h.id, h'.seq.trans h.seq, h'.version.trans h.version,
    h'.protocolName.trans h.protocolName, h'.spec.trans h.spec, fun hd => h'.destroyed (h.destroyed hd),
    fun hd => h'.objectData (h.objectData hd)⟩

theorem SameObject.methodsIn {obj obj' : ServerObject} (h : SameObject obj obj') :
    obj'.methodsIn = obj.methodsIn := by
  rw [ServerObject.methodsIn, ServerObject.methodsIn, h.spec]

theorem SameObject.isDestructor {obj obj' : ServerObject} (h : SameObject obj obj') (method : Nat) :
    isDestructor obj' method = isDestructor obj method := by
  rw [Server.isDestructor, Server.isDestructor, h.methodsIn]

/-- **What handlers do on the side**, wherever the dispatch stands. -/
structure Aside (s s' : Server) : Prop where
  impls : s'.impls = s.impls
  version : s'.version = s.version
  maxId : s'.maxId = s.maxId
  objects : ∀ k, SameObject (s.objects k) (s'.objects k)
  size : s'.size = s.size
  table : s'.table = s.table
  scheduledRoundtripSeq : s'.scheduledRoundtripSeq = s.scheduledRoundtripSeq
  phase : s'.phase = s.phase
  error : s.error = true → s'.error = true
  shut : s'.shut = s.shut
  gone : s'.gone = s.gone
  handled : s'.handled = s.handled
  scheduledRequest : s'.scheduledRequest = s.scheduledRequest
  destructs : s'.destructs = s.destructs
  unknownObject : s'.unknownObject = s.unknownObject

theorem Aside.refl (s : Server) : Aside s s :=
  ⟨rfl, rfl, rfl, fun _ => .refl _, rfl, rfl, rfl, rfl, fun h => h, rfl, rfl, rfl, rfl, rfl, rfl⟩

theorem Aside.write (s : Server) (msg : S2C) : Aside s (s.write msg) := by
  obtain ⟨out, heq⟩ := write_eq s msg
  rw [heq]
  exact { Aside.refl s with }

theorem Aside.trans (h : Aside s s') (h' : Aside s' s'') : Aside s s'' where
  impls := h'.impls.trans h.impls
  version := h'.version.trans h.version
  maxId := h'.maxId.trans h.maxId
  objects k := (h.objects k).trans (h'.objects k)
  size := h'.size.trans h.size
  table := h'.table.trans h.table
  scheduledRoundtripSeq := h'.scheduledRoundtripSeq.trans h.scheduledRoundtripSeq
  phase := h'.phase.trans h.phase
  error he := h'.error (h.error he)
  shut := h'.shut.trans h.shut
  gone := h'.gone.trans h.gone
  handled := h'.handled.trans h.handled
  scheduledRequest := h'.scheduledRequest.trans h.scheduledRequest
  destructs := h'.destructs.trans h.destructs
  unknownObject := h'.unknownObject.trans h.unknownObject

/-- An object is touched in what does not matter. -/
theorem Aside.setObject (s : Server) (k : Nat) {f : ServerObject → ServerObject}
    (hf : ∀ obj, SameObject obj (f obj)) : Aside s (s.setObject k f) where
  __ := Aside.refl s
  objects i := by
    simp only [Server.setObject]
    split
    · exact hf _
    · exact .refl _

theorem Aside.markDestroyed (s : Server) (k : Nat) :
    Aside s (s.setObject k fun obj => { obj with destroyed := true }) :=
  .setObject s k fun _ => ⟨rfl, rfl, rfl, rfl, rfl, fun _ => rfl, fun h => h⟩

theorem Aside.objectError (s : Server) (k errorId : Nat) (errorMsg : String) :
    Aside s (s.objectError k errorId errorMsg) := by
  unfold Server.objectError
  split
  · exact .refl s
  · exact { Aside.write s (.fatalProtocolError (s.objects k).id errorId errorMsg) with
      error := fun _ => rfl }

theorem Aside.emitMethod (s : Server) (k method : Nat) (m : MethodSpec) (args : List CallArg) :
    Aside s (s.emitMethod k method m args) := by
  unfold Server.emitMethod
  split
  · exact (Aside.markDestroyed s k).trans (.write ..)
  · exact .write ..

theorem Aside.call (s : Server) (k method : Nat) (args : List CallArg) :
    Aside s (s.call k method args) := by
  unfold Server.call
  split
  · exact .refl s
  · split
    · exact .objectError ..
    · split
      · exact .objectError ..
      · split
        · exact .objectError ..
        · exact .emitMethod ..

/-! ## How a generic message is delivered -/

/-- Handling the method runs user code. -/
def callsBack (obj : ServerObject) (method : Nat) : Bool :=
  match obj.methodsIn[method]? with
  | some m => obj.objectData && (m.returnsType = "" || !obj.destroyed)
  | none => false

/-- **A generic message is delivered** to nobody, to an object that runs no user code for it, or
to a handler, for which an object may be created first. -/
inductive Delivered (s : Server) (msg : Generic) (rest : List C2S) : Server → Prop
  | unknown (hfind : s.objectForId msg.object = none) :
      Delivered s msg rest
        { s.write (.fatalProtocolError msg.object (wordSize - 1)
            s!"generic message references unknown object {msg.object}") with
          error := true, unknownObject := true, phase := .batch rest }
  | silent (k : Nat) (hfind : s.objectForId msg.object = some k)
      (hquiet : callsBack (s.objects k) msg.method = false) :
      Delivered s msg rest
        { (s.note k msg.method).afterDispatch k msg.method with phase := .batch rest }
  | called (k : Nat) (hfind : s.objectForId msg.object = some k)
      (hcalls : callsBack (s.objects k) msg.method = true) :
      Delivered s msg rest { s.note k msg.method with phase := .callback rest k (some msg.method) }
  | made (k : Nat) (m : MethodSpec) (hfind : s.objectForId msg.object = some k)
      (hcalls : callsBack (s.objects k) msg.method = true)
      (hm : (s.objects k).methodsIn[msg.method]? = some m) (hret : m.returnsType ≠ "") :
      Delivered s msg rest
        { ((s.note k msg.method).createObject (s.objects k).protocolName m.returnsType
              (s.objects k).version msg.seq).setObject s.size
            (fun obj => { obj with objectData := true }) with
          phase := .callback rest k (some msg.method) }

/-- The record of a dispatch touches nothing else. -/
theorem note_eq (s : Server) (k method : Nat) :
    s.note k method =
      { s with destructs :=
          s.destructs ++ if isDestructor (s.objects k) method then [k] else [] } := by
  unfold note
  split
  · rfl
  · rw [List.append_nil]

theorem dispatch_cases (s : Server) (k : Nat) (msg : Generic) (rest : List C2S) :
    (callsBack (s.objects k) msg.method = false ∧
      s.dispatch k msg rest = { s.afterDispatch k msg.method with phase := .batch rest }) ∨
    (callsBack (s.objects k) msg.method = true ∧
      (s.dispatch k msg rest = { s with phase := .callback rest k (some msg.method) } ∨
        ∃ m, (s.objects k).methodsIn[msg.method]? = some m ∧ m.returnsType ≠ "" ∧
          s.dispatch k msg rest =
            { (s.createObject (s.objects k).protocolName m.returnsType (s.objects k).version
                  msg.seq).setObject s.size (fun obj => { obj with objectData := true }) with
              phase := .callback rest k (some msg.method) })) := by
  unfold dispatch
  cases hm : (s.objects k).methodsIn[msg.method]? with
  | none => exact .inl ⟨by simp [callsBack, hm], by simp [hm]⟩
  | some m =>
    by_cases hdata : (s.objects k).objectData = false
    · exact .inl ⟨by simp [callsBack, hm, hdata], by simp [hm, hdata]⟩
    · by_cases hret : m.returnsType = ""
      · exact .inr ⟨by simpa [callsBack, hm, hret] using hdata, .inl (by simp [hm, hdata, hret])⟩
      · cases hdestroyed : (s.objects k).destroyed with
        | true =>
          exact .inl ⟨by simp [callsBack, hm, hret, hdestroyed],
            by simp [hm, hdata, hret, hdestroyed]⟩
        | false =>
          refine .inr ⟨by simpa [callsBack, hm, hret, hdestroyed] using hdata,
            .inr ⟨m, rfl, hret, ?_⟩⟩
          simp only [hm]
          rw [if_neg hdata, if_neg hret, if_neg (by simp [hdestroyed])]

theorem delivered (s : Server) (msg : Generic) (rest : List C2S) :
    Delivered s msg rest (s.onGeneric msg rest) := by
  unfold onGeneric
  cases hfind : s.objectForId msg.object with
  | none => exact .unknown hfind
  | some k =>
    have hobjects : (s.note k msg.method).objects = s.objects := by rw [note_eq]
    have hsize : (s.note k msg.method).size = s.size := by rw [note_eq]
    have hcases := dispatch_cases (s.note k msg.method) k msg rest
    rw [congrFun hobjects k] at hcases
    simp only
    rcases hcases with ⟨hquiet, heq⟩ | ⟨hcalls, heq | ⟨m, hm, hret, heq⟩⟩
    · exact heq ▸ .silent k hfind hquiet
    · exact heq ▸ .called k hfind hcalls
    · rw [hsize] at heq
      exact heq ▸ .made k m hfind hcalls hm hret

/-- What the end of a dispatch does. -/
theorem afterDispatch_eq (s : Server) (k method : Nat) :
    s.afterDispatch k method =
      if isDestructor (s.objects k) method then
        { s.setObject k (fun obj => { obj with destroyed := true }) with
          table :=
            if (s.objects k).id = 0 then s.table
            else s.table.filter fun i => (s.objects i).id ≠ (s.objects k).id }
      else s := by
  unfold afterDispatch isDestructor
  cases hm : (s.objects k).methodsIn[method]? with
  | none => rfl
  | some m =>
    simp only
    split
    · have hid : ∀ i, ((s.setObject k fun obj => { obj with destroyed := true }).objects i).id =
          (s.objects i).id := by
        intro i
        simp only [setObject]
        split <;> rfl
      simp only [hid]
      by_cases hzero : (s.objects k).id = 0
      · simp only [hzero, if_true, ne_eq, not_true_eq_false, if_false]
        rfl
      · simp only [hzero, if_false, ne_eq, not_false_eq_true, if_true, destroyObject, hid]
        rfl
    · rfl

/-- What is off the table has the id of the object that was destroyed. -/
theorem mem_afterDispatch (s : Server) (k method : Nat) {i : Nat} (hin : i ∈ s.table) :
    i ∈ (s.afterDispatch k method).table ∨
      (isDestructor (s.objects k) method = true ∧ (s.objects i).id = (s.objects k).id) := by
  rw [afterDispatch_eq]
  split
  · next hdes =>
    by_cases heq : (s.objects i).id = (s.objects k).id
    · exact .inr ⟨hdes, heq⟩
    · refine .inl ?_
      simp only
      split
      · exact hin
      · exact List.mem_filter.mpr ⟨hin, by simpa using heq⟩
  · exact .inl hin

/-! ## Handling a message -/

/-- The message is taken off the batch. -/
def heard (s : Server) (msg : C2S) (rest : List C2S) : Server :=
  { s with handled := s.handled ++ [msg], phase := .batch rest }

theorem handle_generic (s : Server) (msg : Generic) (rest : List C2S) :
    s.handle (.generic msg) rest = (s.heard (.generic msg) rest).onGeneric msg rest := rfl

/-- The object a creation makes. -/
def created (s : Server) (protocol objectName : String) (version seq : Nat) : ServerObject :=
  let spec := s.findSpec protocol objectName
  { id := s.maxId, seq, version, protocolName := protocol, spec
    objectData := s.bindsHandler protocol spec }

/-- What a creation changes: the counter, the arena, the table and the wire. -/
theorem createObject_eq (s : Server) (protocol objectName : String) (version seq : Nat) :
    s.createObject protocol objectName version seq =
      { s with
        maxId := (s.maxId + 1) % wordSize
        objects := fun i =>
          if i = s.size then s.created protocol objectName version seq else s.objects i
        size := s.size + 1, table := s.table ++ [s.size]
        out := if s.shut then s.out else s.out ++ [.newObject seq s.maxId] } := by
  have hout := write_out s (.newObject seq s.maxId)
  obtain ⟨out, heq⟩ := write_eq s (.newObject seq s.maxId)
  rw [heq] at hout
  unfold createObject
  rw [heq, ← hout]
  rfl

/-- A bind of version 0 is not decoded. -/
theorem handle_bind_zero (s : Server) (seq : Nat) (protocol : String) (rest : List C2S) :
    s.handle (.bindProtocol seq 0 protocol) rest =
      (s.heard (.bindProtocol seq 0 protocol) rest).malformed := rfl

/-- A bind makes an object and calls its handler if it finds one. -/
theorem handle_bind_eq (s : Server) (seq : Nat) {version : Nat} (protocol : String) (rest : List C2S)
    (hversion : version ≠ 0) :
    s.handle (.bindProtocol seq version protocol) rest =
      { (s.heard (.bindProtocol seq version protocol) rest).createObject protocol "" version seq with
        phase :=
          if (s.created protocol "" version seq).objectData then .callback rest s.size none
          else .batch rest } := by
  have heq := createObject_eq (s.heard (.bindProtocol seq version protocol) rest) protocol "" version seq
  have hdata : (((s.heard (.bindProtocol seq version protocol) rest).createObject protocol ""
      version seq).objects s.size).objectData = (s.created protocol "" version seq).objectData := by
    rw [heq]
    exact congrArg ServerObject.objectData (if_pos rfl)
  unfold handle
  simp only [if_neg hversion]
  unfold heard at hdata heq ⊢
  rw [hdata]
  split
  · rfl
  · rw [heq]

theorem handle_bind (s : Server) (seq : Nat) {version : Nat} (protocol : String) (rest : List C2S)
    (hversion : version ≠ 0) :
    ∃ phase, (phase = .batch rest ∨ phase = .callback rest s.size none) ∧
      s.handle (.bindProtocol seq version protocol) rest =
        { (s.heard (.bindProtocol seq version protocol) rest).createObject protocol "" version seq with
          phase } := by
  refine ⟨_, ?_, handle_bind_eq s seq protocol rest hversion⟩
  split
  · exact .inr rfl
  · exact .inl rfl

/-! ## Steps that handle no message -/

/-- The message belongs to the handshake, or announces an object. -/
def introduces : S2C → Bool
  | .handshakeBegin _ | .handshakeProtocols _ | .newObject _ _ => true
  | _ => false

/-- **No message was handled**: objects may be flagged and leave the table, and what is written
introduces nothing. -/
structure Still (s s' : Server) : Prop where
  impls : s'.impls = s.impls
  version : s'.version = s.version
  maxId : s'.maxId = s.maxId
  objects : ∀ k, SameObject (s.objects k) (s'.objects k)
  size : s'.size = s.size
  table : ∃ p : Nat → Bool, s'.table = s.table.filter p
  handled : s'.handled = s.handled
  out : ∃ more, s'.out = s.out ++ more ∧ ∀ msg ∈ more, introduces msg = false

theorem table_same {l l' : List Nat} (h : l' = l) : ∃ p : Nat → Bool, l' = l.filter p :=
  ⟨fun _ => true, by rw [h, List.filter_eq_self.mpr fun _ _ => rfl]⟩

theorem Still.refl (s : Server) : Still s s :=
  ⟨rfl, rfl, rfl, fun _ => .refl _, rfl, table_same rfl, rfl, [], (List.append_nil _).symm, nofun⟩

theorem Still.write (s : Server) {msg : S2C} (h : introduces msg = false) :
    Still s (s.write msg) := by
  have hout := write_out s msg
  obtain ⟨out, heq⟩ := write_eq s msg
  rw [heq] at hout ⊢
  refine { Still.refl s with out := ?_ }
  rw [hout]
  split
  · exact ⟨[], (List.append_nil _).symm, nofun⟩
  · exact ⟨[msg], rfl, fun msg' hmsg' => List.mem_singleton.mp hmsg' ▸ h⟩

theorem Still.trans (h : Still s s') (h' : Still s' s'') : Still s s'' where
  impls := h'.impls.trans h.impls
  version := h'.version.trans h.version
  maxId := h'.maxId.trans h.maxId
  objects k :=
    have ho := h.objects k
    have ho' := h'.objects k
    ⟨ho'.id.trans ho.id, ho'.seq.trans ho.seq, ho'.version.trans ho.version,
      ho'.protocolName.trans ho.protocolName, ho'.spec.trans ho.spec,
      fun hd => ho'.destroyed (ho.destroyed hd), fun hd => ho'.objectData (ho.objectData hd)⟩
  size := h'.size.trans h.size
  table := by
    obtain ⟨p, hp⟩ := h.table
    obtain ⟨p', hp'⟩ := h'.table
    exact ⟨fun k => p' k && p k, by rw [hp', hp, List.filter_filter]⟩
  handled := h'.handled.trans h.handled
  out := by
    obtain ⟨more, hout, hmore⟩ := h.out
    obtain ⟨more', hout', hmore'⟩ := h'.out
    refine ⟨more ++ more', by rw [hout', hout, List.append_assoc], fun msg hmsg => ?_⟩
    rcases List.mem_append.mp hmsg with hmsg | hmsg
    · exact hmore msg hmsg
    · exact hmore' msg hmsg

theorem Still.setObject (s : Server) (k : Nat) {f : ServerObject → ServerObject}
    (hf : ∀ obj, SameObject obj (f obj)) : Still s (s.setObject k f) :=
  { Still.refl s with objects := (Aside.setObject s k hf).objects }

theorem Still.markDestroyed (s : Server) (k : Nat) :
    Still s (s.setObject k fun obj => { obj with destroyed := true }) :=
  .setObject s k fun _ => ⟨rfl, rfl, rfl, rfl, rfl, fun _ => rfl, fun h => h⟩

theorem Still.objectError (s : Server) (k errorId : Nat) (errorMsg : String) :
    Still s (s.objectError k errorId errorMsg) := by
  unfold Server.objectError
  split
  · exact .refl s
  · exact (Still.write s rfl).trans { Still.refl _ with }

theorem Still.call (s : Server) (k method : Nat) (args : List CallArg) :
    Still s (s.call k method args) := by
  unfold Server.call
  split
  · exact .refl s
  · split
    · exact .objectError ..
    · split
      · exact .objectError ..
      · split
        · exact .objectError ..
        · unfold Server.emitMethod
          split
          · exact (Still.markDestroyed s k).trans (.write _ rfl)
          · exact .write _ rfl

theorem Still.afterDispatch (s : Server) (k method : Nat) : Still s (s.afterDispatch k method) := by
  rw [afterDispatch_eq]
  split
  · refine { Still.markDestroyed s k with table := ?_ }
    simp only
    split
    · exact table_same rfl
    · exact ⟨_, rfl⟩
  · exact .refl s

theorem Still.abort (s : Server) (errorMsg : String) : Still s (s.abort errorMsg) :=
  (Still.write s rfl).trans { Still.refl _ with }

theorem step_handle (h : step s .handle = some s') :
    ∃ msg rest, s.phase = .batch (msg :: rest) ∧ s' = s.handle msg rest := by
  simp only [step] at h
  split at h
  · next msg rest hphase => exact ⟨msg, rest, hphase, (Option.some.inj h).symm⟩
  · cases h

theorem still_of_step {a : Action} (h : step s a = some s') (ha : a ≠ .handle) : Still s s' := by
  cases a with
  | emit k method args =>
    simp only [step, Option.ite_none_right_eq_some, Option.some.injEq] at h
    exact h.2 ▸ .call ..
  | error k errorId errorMsg =>
    simp only [step, Option.ite_none_right_eq_some, Option.some.injEq] at h
    exact h.2 ▸ .objectError ..
  | read batch =>
    simp only [step, Option.ite_none_right_eq_some, Option.some.injEq] at h
    exact h.2 ▸ { Still.refl s with }
  | handle => exact absurd rfl ha
  | return_ =>
    simp only [step] at h
    split at h
    · next rest k method hphase =>
      cases h
      unfold Server.returned
      cases method with
      | none => exact { Still.refl s with }
      | some method => exact (Still.afterDispatch s k method).trans { Still.refl _ with }
    · next rest k hphase =>
      cases h
      exact (Still.markDestroyed s k).trans { Still.refl _ with }
    · cases h
  | malformed =>
    simp only [step] at h
    split at h
    · cases h
      exact .abort ..
    · cases h
  | finish =>
    simp only [step] at h
    split at h
    · cases h
      have hack : Still s s.acknowledge := by
        unfold Server.acknowledge
        split
        · exact (Still.write s rfl).trans { Still.refl _ with }
        · exact .refl s
      unfold Server.finish
      simp only
      split
      · exact hack.trans { Still.refl _ with }
      · exact hack.trans { Still.refl _ with }
    · cases h
  | unreadable =>
    simp only [step, Option.ite_none_right_eq_some, Option.some.injEq] at h
    exact h.2 ▸ .abort ..
  | hangup =>
    simp only [step, Option.ite_none_right_eq_some, Option.some.injEq] at h
    exact h.2 ▸ { Still.refl s with }
  | remove =>
    simp only [step, Option.ite_none_right_eq_some, Option.some.injEq] at h
    exact h.2 ▸ { Still.refl s with }
  | visit =>
    simp only [step] at h
    split at h
    · next k rest hphase =>
      cases h
      unfold Server.visit
      split
      · exact { Still.refl s with }
      · simp only
        split
        · exact { Still.refl s with }
        · have hnoted : Still s { s with destructs := s.destructs ++ [k] } := { Still.refl s with }
          exact (hnoted.trans (.markDestroyed _ k)).trans { Still.refl _ with }
    · cases h
      exact { Still.refl s with table := ⟨fun _ => false, by simp [leave]⟩ }
    · cases h

/-- Apart from the object that may be created for it, a generic message leaves things as they
are. -/
theorem onGeneric_still (s : Server) (msg : Generic) (rest : List C2S) :
    Still s (s.onGeneric msg rest) ∨
      ∃ k m, s.objectForId msg.object = some k ∧ callsBack (s.objects k) msg.method = true ∧
        (s.objects k).methodsIn[msg.method]? = some m ∧ m.returnsType ≠ "" ∧
        Still (s.createObject (s.objects k).protocolName m.returnsType (s.objects k).version msg.seq)
          (s.onGeneric msg rest) := by
  have hnote : ∀ k method, Still s (s.note k method) := by
    intro k method
    rw [note_eq]
    exact { Still.refl s with }
  have hdelivered := delivered s msg rest
  generalize s.onGeneric msg rest = t at hdelivered ⊢
  cases hdelivered with
  | unknown hfind => exact .inl ((Still.write s rfl).trans { Still.refl _ with })
  | silent k hfind hquiet =>
    exact .inl (((hnote k msg.method).trans (.afterDispatch ..)).trans { Still.refl _ with })
  | called k hfind hcalls => exact .inl ((hnote k msg.method).trans { Still.refl _ with })
  | made k m hfind hcalls hm hret =>
    refine .inr ⟨k, m, hfind, hcalls, hm, hret, ?_⟩
    have hcreate : Still
        (s.createObject (s.objects k).protocolName m.returnsType (s.objects k).version msg.seq)
        ((s.note k msg.method).createObject (s.objects k).protocolName m.returnsType
          (s.objects k).version msg.seq) := by
      rw [note_eq, createObject_eq, createObject_eq]
      exact { Still.refl _ with }
    refine (hcreate.trans (.setObject _ s.size (f := fun obj => { obj with objectData := true })
      fun _ => ⟨rfl, rfl, rfl, rfl, rfl, fun h => h, fun _ => rfl⟩)).trans ?_
    exact { Still.refl _ with }

/-! ## What a step makes -/

/-- What a message has a server make, and for which seq. -/
def Asks (s : Server) (msg : C2S) (protocol name : String) (seq : Nat) : Prop :=
  match msg with
  | .bindProtocol seq' version protocol' =>
    version ≠ 0 ∧ protocol = protocol' ∧ name = "" ∧ seq = seq'
  | .generic g => ∃ k m, s.objectForId g.object = some k ∧ callsBack (s.objects k) g.method = true ∧
      (s.objects k).methodsIn[g.method]? = some m ∧ m.returnsType ≠ "" ∧
      protocol = (s.objects k).protocolName ∧ name = m.returnsType ∧ seq = g.seq
  | _ => False

/-- **What a step makes**: nothing, or the object that the message it handles asks for. -/
inductive Birth (s s' : Server) : Action → Prop
  | none (a : Action) (hsize : s'.size = s.size) (hmax : s'.maxId = s.maxId)
      (htable : ∀ k ∈ s'.table, k ∈ s.table)
      (hannounced : ∀ seq id, .newObject seq id ∈ s'.out → .newObject seq id ∈ s.out) : Birth s s' a
  | made (msg : C2S) (rest : List C2S) (protocol name : String) (version seq : Nat)
      (hphase : s.phase = .batch (msg :: rest)) (hasks : s.Asks msg protocol name seq)
      (hsize : s'.size = s.size + 1) (hmax : s'.maxId = (s.maxId + 1) % wordSize)
      (hnew : SameObject (s.created protocol name version seq) (s'.objects s.size))
      (htable : ∀ k ∈ s'.table, k ∈ s.table ∨ k = s.size)
      (hannounced : ∀ seq' id, .newObject seq' id ∈ s'.out →
        .newObject seq' id ∈ s.out ∨ (seq' = seq ∧ id = s.maxId))
      (hhandled : s'.handled = s.handled ++ [msg]) : Birth s s' .handle

theorem Still.birth (h : Still s s') (a : Action) : Birth s s' a := by
  refine .none a h.size h.maxId (fun k hk => ?_) fun seq id hin => ?_
  · obtain ⟨p, htable⟩ := h.table
    rw [htable] at hk
    exact (List.mem_filter.mp hk).1
  obtain ⟨more, hout, hmore⟩ := h.out
  rw [hout] at hin
  rcases List.mem_append.mp hin with hin | hin
  · exact hin
  · cases hmore _ hin

/-- An object is made, and what follows is no making. -/
theorem birth_created {msg : C2S} {rest : List C2S} {protocol name : String} {version seq : Nat}
    (hphase : s.phase = .batch (msg :: rest)) (hasks : s.Asks msg protocol name seq)
    (h : Still ((s.heard msg rest).createObject protocol name version seq) s') :
    (∀ k < s.size, SameObject (s.objects k) (s'.objects k)) ∧ s'.impls = s.impls ∧
      Birth s s' .handle := by
  have heq := createObject_eq (s.heard msg rest) protocol name version seq
  obtain ⟨more, hout, hmore⟩ := h.out
  rw [heq] at h hout
  refine ⟨fun k hk => ?_, h.impls, ?_⟩
  · have hsame := h.objects k
    simp only [heard, Nat.ne_of_lt hk, if_false] at hsame
    exact hsame
  · refine .made msg rest protocol name version seq hphase hasks h.size h.maxId ?_ ?_ ?_ h.handled
    · have hsame := h.objects s.size
      simp only [heard, if_true] at hsame
      exact hsame
    · intro k hk
      obtain ⟨p, htable⟩ := h.table
      rw [htable] at hk
      rcases List.mem_append.mp (List.mem_filter.mp hk).1 with hk | hk
      · exact .inl hk
      · exact .inr (List.mem_singleton.mp hk)
    · intro seq' id hin
      rw [hout] at hin
      rcases List.mem_append.mp hin with hin | hin
      · by_cases hshut : (s.heard msg rest).shut = true
        · rw [if_pos hshut] at hin
          exact .inl hin
        · rw [if_neg hshut] at hin
          rcases List.mem_append.mp hin with hin | hin
          · exact .inl hin
          · cases List.mem_singleton.mp hin
            exact .inr ⟨rfl, rfl⟩
      · cases hmore _ hin

/-- What a step does to the objects. -/
theorem birth {a : Action} (h : step s a = some s') :
    (∀ k < s.size, SameObject (s.objects k) (s'.objects k)) ∧ s'.impls = s.impls ∧ Birth s s' a := by
  by_cases ha : a = .handle
  · subst ha
    obtain ⟨msg, rest, hphase, rfl⟩ := step_handle h
    have hwritten : ∀ t : Server, Aside (s.heard msg rest) t →
        (∀ seq id, .newObject seq id ∈ t.out → .newObject seq id ∈ s.out) →
        (∀ k < s.size, SameObject (s.objects k) (t.objects k)) ∧ t.impls = s.impls ∧
          Birth s t .handle :=
      fun t haside hout => ⟨fun k _ => haside.objects k, haside.impls,
        .none _ haside.size haside.maxId (fun k hk => haside.table ▸ hk) hout⟩
    cases msg with
    | sup =>
      refine hwritten _ (Aside.write ..) fun seq id hin => ?_
      exact (mem_write hin).resolve_right nofun
    | handshakeAck version =>
      have haside := Aside.write (s.heard (.handshakeAck version) rest)
        (.handshakeProtocols (s.impls.map fun imp => (imp.specName, imp.specVer.toNat)))
      refine ⟨fun k _ => haside.objects k, haside.impls,
        .none _ haside.size haside.maxId (fun k hk => haside.table ▸ hk) fun seq id hin => ?_⟩
      exact (mem_write (s := s.heard (.handshakeAck version) rest) hin).resolve_right nofun
    | bindProtocol seq version protocol =>
      by_cases hversion : version = 0
      · subst hversion
        have hstill : Still (s.heard (.bindProtocol seq 0 protocol) rest)
            (s.handle (.bindProtocol seq 0 protocol) rest) := Still.abort ..
        refine ⟨fun k _ => hstill.objects k, hstill.impls, ?_⟩
        cases hstill.birth .handle with
        | none _ hsize hmax htable hannounced => exact .none _ hsize hmax htable hannounced
        | made _ _ _ _ _ _ _ _ hsize _ _ _ _ _ =>
          rw [hstill.size] at hsize
          exact absurd hsize (Nat.succ_ne_self _).symm
      · obtain ⟨phase, -, heq⟩ := handle_bind s seq protocol rest hversion
        rw [heq]
        exact birth_created hphase ⟨hversion, rfl, rfl, rfl⟩ { Still.refl _ with }
    | generic g =>
      rw [handle_generic]
      rcases onGeneric_still (s.heard (.generic g) rest) g rest with
        hstill | ⟨k, m, hfind, hcalls, hm, hret, hstill⟩
      · refine ⟨fun k _ => hstill.objects k, hstill.impls, ?_⟩
        cases hstill.birth .handle with
        | none _ hsize hmax htable hannounced => exact .none _ hsize hmax htable hannounced
        | made _ _ _ _ _ _ _ _ hsize _ _ _ _ _ =>
          rw [hstill.size] at hsize
          exact absurd hsize (Nat.succ_ne_self _).symm
      · exact birth_created hphase ⟨k, m, hfind, hcalls, hm, hret, rfl, rfl, rfl⟩ hstill
    | roundtripRequest seq queue =>
      exact ⟨fun k _ => .refl _, rfl, .none _ rfl rfl (fun _ hk => hk) fun _ _ hin => hin⟩
  · have hstill := still_of_step h ha
    exact ⟨fun k _ => hstill.objects k, hstill.impls, hstill.birth a⟩

/-! ## While a dispatch goes on -/

/-- A batch is being handled. -/
def Phase.dispatching : Phase → Bool
  | .batch _ | .callback _ _ _ => true
  | _ => false

/-- The messages that were read and are still to be handled. -/
def Phase.pending : Phase → List C2S
  | .batch rest | .callback rest _ _ => rest
  | _ => []

/-- The objects a client that leaves still has to visit. -/
def Phase.unvisited : Phase → Option (List Nat)
  | .leaving rest | .leavingCallback rest _ => some rest
  | _ => none

/-- The client is leaving, or has left. -/
def Leaves (s : Server) : Prop := s.phase.unvisited.isSome ∨ s.gone = true

theorem onGeneric_phase (s : Server) (msg : Generic) (rest : List C2S) :
    (s.onGeneric msg rest).phase.dispatching = true ∧
      (s.onGeneric msg rest).phase.pending = rest := by
  have hdelivered := delivered s msg rest
  generalize s.onGeneric msg rest = t at hdelivered
  cases hdelivered <;> exact ⟨rfl, rfl⟩

theorem unvisited_of_dispatching {phase : Phase} (h : phase.dispatching = true) :
    phase.unvisited = none := by
  cases phase <;> first | rfl | cases h

/-- A stream that was shut down is not read from again. -/
def Open (s : Server) : Prop :=
  s.shut = true → s.phase.dispatching = false ∧ (s.phase = .idle → s.gone = true)

theorem open_of_leaving {rest : List Nat} (h : s.phase = .leaving rest) : s.Open := by
  intro _
  rw [h]
  exact ⟨rfl, nofun⟩

theorem open_of_shut (h : s.shut = false) : s.Open := by
  intro hshut
  rw [h] at hshut
  cases hshut

theorem Aside.open (h : Aside s s') (ho : s.Open) : s'.Open := by
  intro hshut
  rw [h.phase, h.gone]
  exact ho (h.shut ▸ hshut)

theorem onGeneric_shut (s : Server) (msg : Generic) (rest : List C2S) :
    (s.onGeneric msg rest).shut = s.shut := by
  have hnote : ∀ k method, (s.note k method).shut = s.shut := by
    intro k method
    rw [note_eq]
  have hafter : ∀ (s : Server) k method, (s.afterDispatch k method).shut = s.shut := by
    intro s k method
    rw [afterDispatch_eq]
    split <;> rfl
  have hdelivered := delivered s msg rest
  generalize s.onGeneric msg rest = t at hdelivered
  cases hdelivered with
  | unknown hfind => exact (Aside.write ..).shut
  | silent k hfind hquiet => exact (hafter ..).trans (hnote ..)
  | called k hfind hcalls => exact hnote ..
  | made k m hfind hcalls hm hret =>
    rw [createObject_eq]
    exact hnote ..

theorem handle_open {msg : C2S} {rest : List C2S} (hshut : s.shut = false) :
    (s.handle msg rest).Open := by
  cases msg with
  | sup => exact open_of_shut ((Aside.write (s.heard .sup rest) _).shut.trans hshut)
  | handshakeAck version =>
    exact open_of_shut ((Aside.write (s.heard (.handshakeAck version) rest) _).shut.trans hshut)
  | bindProtocol seq version protocol =>
    by_cases hversion : version = 0
    · subst hversion
      exact open_of_leaving rfl
    · obtain ⟨phase, -, hhandle⟩ := handle_bind s seq protocol rest hversion
      rw [hhandle, createObject_eq]
      exact open_of_shut hshut
  | generic msg =>
    rw [handle_generic]
    exact open_of_shut ((onGeneric_shut ..).trans hshut)
  | roundtripRequest seq queue => exact open_of_shut hshut

theorem Open.step {a : Action} (ho : s.Open) (h : step s a = some s') : s'.Open := by
  have hlive : s.phase.dispatching = true → s.shut = false := by
    intro hphase
    cases hshut : s.shut with
    | false => rfl
    | true => exact absurd hphase (by simp [(ho hshut).1])
  cases a with
  | emit k method args =>
    simp only [Server.step, Option.ite_none_right_eq_some, Option.some.injEq] at h
    exact h.2 ▸ (Aside.call s k method args).open ho
  | error k errorId errorMsg =>
    simp only [Server.step, Option.ite_none_right_eq_some, Option.some.injEq] at h
    exact h.2 ▸ (Aside.objectError s k errorId errorMsg).open ho
  | read batch =>
    simp only [Server.step, Option.ite_none_right_eq_some, Option.some.injEq] at h
    obtain ⟨⟨hphase, hgone, -⟩, rfl⟩ := h
    intro hshut
    have := (ho hshut).2 hphase
    rw [hgone] at this
    cases this
  | handle =>
    simp only [Server.step] at h
    split at h
    · next msg rest hphase =>
      cases h
      exact handle_open (hlive (by rw [hphase]; rfl))
    · cases h
  | return_ =>
    simp only [Server.step] at h
    split at h
    · next rest k method hphase =>
      cases h
      refine open_of_shut (Eq.trans ?_ (hlive (by rw [hphase]; rfl)))
      unfold returned
      cases method with
      | none => rfl
      | some method =>
        simp only [afterDispatch_eq]
        split <;> rfl
    · cases h
      exact open_of_leaving rfl
    · cases h
  | malformed =>
    simp only [Server.step] at h
    split at h
    · cases h
      exact open_of_leaving rfl
    · cases h
  | finish =>
    simp only [Server.step] at h
    split at h
    · next hphase =>
      cases h
      unfold finish
      simp only
      split
      · exact open_of_leaving rfl
      · refine open_of_shut (Eq.trans ?_ (hlive (by rw [hphase]; rfl)))
        unfold acknowledge
        split
        · exact (Aside.write ..).shut
        · rfl
    · cases h
  | unreadable =>
    simp only [Server.step, Option.ite_none_right_eq_some, Option.some.injEq] at h
    exact h.2 ▸ open_of_leaving rfl
  | hangup =>
    simp only [Server.step, Option.ite_none_right_eq_some, Option.some.injEq] at h
    exact h.2 ▸ open_of_leaving rfl
  | remove =>
    simp only [Server.step, Option.ite_none_right_eq_some, Option.some.injEq] at h
    exact h.2 ▸ open_of_leaving rfl
  | visit =>
    simp only [Server.step] at h
    split at h
    · next k rest hphase =>
      cases h
      unfold visit
      split
      · exact open_of_leaving rfl
      · simp only
        split
        · intro _
          exact ⟨rfl, nofun⟩
        · exact open_of_leaving rfl
    · cases h
      intro _
      exact ⟨rfl, fun _ => rfl⟩
    · cases h

/-- **What a step does to the dispatch.** A batch is read, its first message is handled, or nothing
more is read off what was sent. -/
inductive Progress (s s' : Server) : Action → Prop
  | read (batch : List C2S) (hidle : s.phase = .idle) (hopen : s.gone = false)
      (heq : s' = { s with phase := .batch batch }) : Progress s s' (.read batch)
  | handled (msg : C2S) (rest : List C2S) (hbatch : s.phase = .batch (msg :: rest))
      (hhandled : s'.handled = s.handled ++ [msg])
      (hphase : (s'.phase.dispatching = true ∧ s'.phase.pending = rest ∧ s'.gone = s.gone) ∨
        ∃ left, s'.phase = .leaving left) : Progress s s' .handle
  | still (a : Action) (hhandled : s'.handled = s.handled) (hread : ∀ batch, a ≠ .read batch)
      (hhandle : a ≠ .handle)
      (hphase : (s'.phase.pending = s.phase.pending ∧ (s.Leaves → s'.Leaves) ∧
          ∀ rest k method, s'.phase = .callback rest k method → s.phase = .callback rest k method) ∨
        ∃ left, s'.phase = .leaving left) : Progress s s' a

theorem onGeneric_gone (s : Server) (msg : Generic) (rest : List C2S) :
    (s.onGeneric msg rest).gone = s.gone := by
  have hnote : ∀ k method, (s.note k method).gone = s.gone := by
    intro k method
    rw [note_eq]
  have hdelivered := delivered s msg rest
  generalize s.onGeneric msg rest = t at hdelivered
  cases hdelivered with
  | unknown hfind => exact (Aside.write ..).gone
  | silent k hfind hquiet =>
    simp only [afterDispatch_eq]
    split <;> exact hnote ..
  | called k hfind hcalls => exact hnote ..
  | made k m hfind hcalls hm hret =>
    rw [createObject_eq]
    exact hnote ..

theorem progress_handle (s : Server) {msg : C2S} {rest : List C2S}
    (hbatch : s.phase = .batch (msg :: rest)) : Progress s (s.handle msg rest) .handle := by
  have hwrite : ∀ msg', Aside (s.heard msg rest) ((s.heard msg rest).write msg') := Aside.write _
  have hsame : ∀ {t : Server}, Aside (s.heard msg rest) t → t.phase.dispatching = true ∧
      t.phase.pending = rest ∧ t.gone = s.gone := by
    intro t h
    rw [h.phase, h.gone]
    exact ⟨rfl, rfl, rfl⟩
  cases msg with
  | sup => exact .handled _ rest hbatch (hwrite _).handled (.inl (hsame (hwrite _)))
  | handshakeAck version =>
    have hout := hwrite (.handshakeProtocols (s.impls.map fun imp => (imp.specName, imp.specVer.toNat)))
    obtain ⟨hdispatching, hpending, hgone⟩ := hsame hout
    exact .handled _ rest hbatch hout.handled (.inl ⟨hdispatching, hpending, hgone⟩)
  | bindProtocol seq version protocol =>
    by_cases hversion : version = 0
    · subst hversion
      exact .handled _ rest hbatch (Still.abort (s.heard _ rest) _).handled (.inr ⟨_, rfl⟩)
    · obtain ⟨phase, hphase, heq⟩ := handle_bind s seq protocol rest hversion
      rw [heq, createObject_eq]
      refine .handled _ rest hbatch rfl (.inl ?_)
      rcases hphase with rfl | rfl <;> exact ⟨rfl, rfl, rfl⟩
  | generic g =>
    refine .handled _ rest hbatch ?_ (.inl ⟨(onGeneric_phase ..).1, (onGeneric_phase ..).2,
      onGeneric_gone ..⟩)
    rw [handle_generic]
    rcases onGeneric_still (s.heard (.generic g) rest) g rest with h | ⟨k, m, -, -, -, -, h⟩
    · exact h.handled
    · rw [h.handled, createObject_eq]
      rfl
  | roundtripRequest seq queue => exact .handled _ rest hbatch rfl (.inl ⟨rfl, rfl, rfl⟩)

theorem progress {a : Action} (h : step s a = some s') : Progress s s' a := by
  have haside : ∀ {a : Action}, Aside s s' → (∀ batch, a ≠ .read batch) → a ≠ .handle →
      Progress s s' a := fun haside hread hhandle =>
    .still _ haside.handled hread hhandle (.inl ⟨by rw [haside.phase], fun hl => by
      rwa [Leaves, haside.phase, haside.gone], fun _ _ _ hc => haside.phase ▸ hc⟩)
  cases a with
  | emit k method args =>
    simp only [step, Option.ite_none_right_eq_some, Option.some.injEq] at h
    exact haside (h.2 ▸ .call ..) nofun nofun
  | error k errorId errorMsg =>
    simp only [step, Option.ite_none_right_eq_some, Option.some.injEq] at h
    exact haside (h.2 ▸ .objectError ..) nofun nofun
  | read batch =>
    simp only [step, Option.ite_none_right_eq_some, Option.some.injEq] at h
    exact .read batch h.1.1 h.1.2.1 h.2.symm
  | handle =>
    obtain ⟨msg, rest, hphase, rfl⟩ := step_handle h
    exact progress_handle s hphase
  | return_ =>
    have hstill := still_of_step h nofun
    refine .still _ hstill.handled nofun nofun ?_
    simp only [step] at h
    split at h
    · next rest k method hphase =>
      cases h
      refine .inl ⟨?_, fun hl => ?_, fun _ _ _ hc => ?_⟩
      · cases method <;> rw [hphase] <;> rfl
      · rcases hl with hsome | hgone
        · rw [hphase] at hsome
          cases hsome
        · refine .inr ?_
          unfold returned
          cases method with
          | none => exact hgone
          | some method =>
            simp only [afterDispatch_eq]
            split <;> exact hgone
      · cases method <;> cases hc
    · exact .inr ⟨_, congrArg Server.phase (Option.some.inj h).symm⟩
    · cases h
  | malformed =>
    refine .still _ (still_of_step h nofun).handled nofun nofun ?_
    simp only [step] at h
    split at h
    · exact .inr ⟨_, congrArg Server.phase (Option.some.inj h).symm⟩
    · cases h
  | finish =>
    refine .still _ (still_of_step h nofun).handled nofun nofun ?_
    simp only [step] at h
    split at h
    · next hphase =>
      cases h
      unfold finish
      simp only
      split
      · exact .inr ⟨_, rfl⟩
      · refine .inl ⟨by rw [hphase]; rfl, fun hl => ?_, nofun⟩
        rcases hl with hsome | hgone
        · rw [hphase] at hsome
          cases hsome
        · refine .inr (Eq.trans ?_ hgone)
          unfold acknowledge
          split
          · exact (Aside.write ..).gone
          · rfl
    · cases h
  | unreadable =>
    refine .still _ (still_of_step h nofun).handled nofun nofun ?_
    simp only [step, Option.ite_none_right_eq_some, Option.some.injEq] at h
    exact .inr ⟨_, by rw [← h.2]; rfl⟩
  | hangup =>
    refine .still _ (still_of_step h nofun).handled nofun nofun ?_
    simp only [step, Option.ite_none_right_eq_some, Option.some.injEq] at h
    exact .inr ⟨_, by rw [← h.2]; rfl⟩
  | remove =>
    refine .still _ (still_of_step h nofun).handled nofun nofun ?_
    simp only [step, Option.ite_none_right_eq_some, Option.some.injEq] at h
    exact .inr ⟨_, by rw [← h.2]; rfl⟩
  | visit =>
    refine .still _ (still_of_step h nofun).handled nofun nofun ?_
    simp only [step] at h
    split at h
    · next k rest hphase =>
      cases h
      unfold visit
      split
      · exact .inr ⟨_, rfl⟩
      · simp only
        split
        · exact .inl ⟨by rw [hphase]; rfl, fun _ => .inl rfl, nofun⟩
        · exact .inr ⟨_, rfl⟩
    · next hphase =>
      cases h
      exact .inl ⟨by rw [hphase]; rfl, fun _ => .inr rfl, nofun⟩
    · cases h

theorem handled_of_step {a : Action} (h : step s a = some s') : s.handled <+: s'.handled := by
  cases progress h with
  | read batch hidle hopen heq =>
    subst heq
    exact List.prefix_refl _
  | handled msg rest hbatch hhandled hphase =>
    rw [hhandled]
    exact List.prefix_append ..
  | still _ hhandled hread hhandle hphase => exact prefix_of_eq hhandled

/-! ## What a server says -/

/-- **What a step of a server writes**: a fatal error, the event of a handler, a part of the
handshake, the announcement of an object, or the acknowledgement of a roundtrip when a batch is
done. -/
inductive Speaks (s : Server) : Action → S2C → Prop
  | fatal (a : Action) (objectId errorId : Nat) (errorMsg : String) :
      Speaks s a (.fatalProtocolError objectId errorId errorMsg)
  | event (k method : Nat) (m : MethodSpec) (args : List CallArg) (hk : k < s.size)
      (hm : (s.objects k).methodsOut[method]? = some m) (hlive : (s.objects k).destroyed = false) :
      Speaks s (.emit k method args) (.generic
        { object := (s.objects k).id, method, seq := 0, args
          origin := k, destructor := m.destructor, during := s.during })
  | greets (msg : S2C) (hgeneric : msg.generic? = none) (hintro : introduces msg = true)
      (hnew : ∀ seq id, msg ≠ .newObject seq id) : Speaks s .handle msg
  | announces (seq : Nat) : Speaks s .handle (.newObject seq s.maxId)
  | acknowledges (hbatch : s.phase = .batch []) (hpos : 0 < s.scheduledRoundtripSeq) :
      Speaks s .finish (.roundtripDone s.scheduledRoundtripSeq s.scheduledRequest)

/-- Something is written, or nothing. -/
def Adds (s s' : Server) (P : S2C → Prop) : Prop :=
  s'.out = s.out ∨ ∃ msg, P msg ∧ s'.out = s.out ++ [msg]

theorem adds_write {P : S2C → Prop} (s : Server) {msg : S2C} (h : P msg) :
    Adds s (s.write msg) P := by
  rw [Adds, write_out]
  split
  · exact .inl rfl
  · exact .inr ⟨msg, h, rfl⟩

theorem adds_objectError (s : Server) (a : Action) (k errorId : Nat) (errorMsg : String) :
    Adds s (s.objectError k errorId errorMsg) (Speaks s a) := by
  unfold objectError
  split
  · exact .inl rfl
  · exact adds_write s (.fatal a ..)

theorem adds_call (s : Server) {k method : Nat} {args : List CallArg} (hk : k < s.size) :
    Adds s (s.call k method args) (Speaks s (.emit k method args)) := by
  unfold call
  split
  · exact .inl rfl
  · next hlive =>
    split
    · exact adds_objectError ..
    · next m hm =>
      split
      · exact adds_objectError ..
      · split
        · exact adds_objectError ..
        · have hevent := Speaks.event (s := s) k method m args hk hm (by simpa using hlive)
          unfold emitMethod
          split
          · have hid : ((s.setObject k fun obj => { obj with destroyed := true }).objects k).id =
                (s.objects k).id := (Aside.markDestroyed s k).objects k |>.id
            simp only [hid]
            exact adds_write (s.setObject k fun obj => { obj with destroyed := true }) hevent
          · exact adds_write s hevent

theorem adds_abort (s : Server) (a : Action) (errorMsg : String) :
    Adds s (s.abort errorMsg) (Speaks s a) :=
  adds_write s (.fatal a ..)

theorem adds_onGeneric (s : Server) (msg : Generic) (rest : List C2S) :
    Adds s (s.onGeneric msg rest) (Speaks s .handle) := by
  have hnote : ∀ k method, (s.note k method).out = s.out ∧ (s.note k method).shut = s.shut ∧
      (s.note k method).maxId = s.maxId := by
    intro k method
    rw [note_eq]
    exact ⟨rfl, rfl, rfl⟩
  have hdelivered := delivered s msg rest
  generalize s.onGeneric msg rest = t at hdelivered
  cases hdelivered with
  | unknown hfind => exact adds_write s (.fatal ..)
  | silent k hfind hquiet =>
    refine .inl ?_
    simp only [afterDispatch_eq]
    split <;> exact (hnote k msg.method).1
  | called k hfind hcalls => exact .inl (hnote k msg.method).1
  | made k m hfind hcalls hm hret =>
    obtain ⟨hout, hshut, hmax⟩ := hnote k msg.method
    rw [Adds, createObject_eq]
    simp only [setObject, hshut, hout, hmax]
    split
    · exact .inl rfl
    · exact .inr ⟨_, .announces msg.seq, rfl⟩

theorem speaks {a : Action} (h : step s a = some s') : Adds s s' (Speaks s a) := by
  cases a with
  | emit k method args =>
    simp only [step, Option.ite_none_right_eq_some, Option.some.injEq] at h
    exact h.2 ▸ adds_call s h.1
  | error k errorId errorMsg =>
    simp only [step, Option.ite_none_right_eq_some, Option.some.injEq] at h
    exact h.2 ▸ adds_objectError ..
  | read batch =>
    simp only [step, Option.ite_none_right_eq_some, Option.some.injEq] at h
    exact .inl (h.2 ▸ rfl)
  | handle =>
    obtain ⟨msg, rest, hphase, rfl⟩ := step_handle h
    cases msg with
    | sup => exact adds_write (s.heard .sup rest) (.greets _ rfl rfl nofun)
    | handshakeAck version =>
      exact adds_write (s.heard (.handshakeAck version) rest) (.greets _ rfl rfl nofun)
    | bindProtocol seq version protocol =>
      by_cases hversion : version = 0
      · subst hversion
        exact adds_write (s.heard (.bindProtocol seq 0 protocol) rest) (.fatal ..)
      · obtain ⟨phase, -, heq⟩ := handle_bind s seq protocol rest hversion
        rw [Adds, heq, createObject_eq]
        simp only [heard]
        by_cases hshut : s.shut = true
        · exact .inl (if_pos hshut)
        · exact .inr ⟨_, .announces seq, if_neg hshut⟩
    | generic g =>
      rcases adds_onGeneric (s.heard (.generic g) rest) g rest with heq | ⟨msg, hspeaks, heq⟩
      · exact .inl heq
      · refine .inr ⟨msg, ?_, heq⟩
        cases hspeaks with
        | fatal _ objectId errorId errorMsg => exact .fatal ..
        | greets _ hgeneric hintro hnew => exact .greets _ hgeneric hintro hnew
        | announces seq => exact .announces seq
    | roundtripRequest seq queue => exact .inl rfl
  | return_ =>
    refine .inl ?_
    simp only [step] at h
    split at h
    · next rest k method hphase =>
      cases h
      unfold returned
      cases method with
      | none => rfl
      | some method =>
        simp only [afterDispatch_eq]
        split <;> rfl
    · cases h
      rfl
    · cases h
  | malformed =>
    simp only [step] at h
    split at h
    · cases h
      exact adds_abort ..
    · cases h
  | finish =>
    simp only [step] at h
    split at h
    · next hphase =>
      cases h
      have hout : s.finish.out = s.acknowledge.out := by
        unfold finish
        simp only
        split <;> rfl
      rw [Adds, hout]
      unfold acknowledge
      split
      · next hpos => exact adds_write s (.acknowledges hphase hpos)
      · exact .inl rfl
    · cases h
  | unreadable =>
    simp only [step, Option.ite_none_right_eq_some, Option.some.injEq] at h
    exact h.2 ▸ adds_abort ..
  | hangup =>
    simp only [step, Option.ite_none_right_eq_some, Option.some.injEq] at h
    exact .inl (h.2 ▸ rfl)
  | remove =>
    simp only [step, Option.ite_none_right_eq_some, Option.some.injEq] at h
    exact .inl (h.2 ▸ rfl)
  | visit =>
    refine .inl ?_
    simp only [step] at h
    split at h
    · next k rest hphase =>
      cases h
      unfold visit
      split
      · rfl
      · simp only
        split <;> rfl
    · cases h
      rfl
    · cases h

/-- What was written stays written. -/
theorem out_of_step {a : Action} (h : step s a = some s') : s.out <+: s'.out := by
  rcases speaks h with heq | ⟨msg, -, heq⟩
  · exact prefix_of_eq heq
  · rw [heq]
    exact List.prefix_append ..

/-! ## Errors -/

/-- An error stays, and a client leaves with an error only. -/
structure Faults (s s' : Server) : Prop where
  error : s.error = true → s'.error = true
  leaves : s'.Leaves → s.Leaves ∨ s'.error = true

theorem Faults.of_error (h : s'.error = true) : Faults s s' := ⟨fun _ => h, fun _ => .inr h⟩

/-- A dispatch that goes on. -/
theorem Faults.of_none (herror : s.error = true → s'.error = true)
    (hphase : s'.phase.unvisited = none) (hgone : s'.gone = s.gone) : Faults s s' := by
  refine ⟨herror, fun hl => .inl (.inr ?_)⟩
  rcases hl with hsome | hgone'
  · rw [hphase] at hsome
    cases hsome
  · rw [← hgone, hgone']

theorem Aside.faults (h : Aside s s') : Faults s s' where
  error := h.error
  leaves hl := .inl (by rwa [Leaves, h.phase, h.gone] at hl)

/-- A client that leaves goes on leaving. -/
theorem Faults.of_leaving (hleaves : s.Leaves) (herror : s'.error = s.error) : Faults s s' :=
  ⟨fun h => herror.trans h, fun _ => .inl hleaves⟩

theorem onGeneric_error (s : Server) (msg : Generic) (rest : List C2S) (h : s.error = true) :
    (s.onGeneric msg rest).error = true := by
  have hdelivered := delivered s msg rest
  generalize s.onGeneric msg rest = t at hdelivered
  cases hdelivered with
  | unknown hfind => rfl
  | silent k hfind hquiet =>
    simp only [afterDispatch_eq, note_eq]
    split <;> exact h
  | called k hfind hcalls =>
    rw [note_eq]
    exact h
  | made k m hfind hcalls hm hret =>
    rw [createObject_eq, note_eq]
    exact h

theorem faults_handle (s : Server) (msg : C2S) {rest : List C2S}
    (hphase : s.phase = .batch (msg :: rest)) : Faults s (s.handle msg rest) := by
  have hwrite : ∀ msg', Aside (s.heard msg rest) ((s.heard msg rest).write msg') := Aside.write _
  cases msg with
  | sup => exact .of_none (hwrite _).error (congrArg _ (hwrite _).phase) (hwrite _).gone
  | handshakeAck version =>
    exact .of_none (hwrite _).error (congrArg _ (hwrite _).phase) (hwrite _).gone
  | bindProtocol seq version protocol =>
    by_cases hversion : version = 0
    · subst hversion
      exact .of_error rfl
    · obtain ⟨phase, hphase', heq⟩ := handle_bind s seq protocol rest hversion
      rw [createObject_eq] at heq
      rw [heq]
      refine .of_none id ?_ rfl
      rcases hphase' with rfl | rfl <;> rfl
  | generic g =>
    exact .of_none (onGeneric_error (s.heard (.generic g) rest) g rest)
      (unvisited_of_dispatching (onGeneric_phase ..).1)
      (onGeneric_gone (s.heard (.generic g) rest) g rest)
  | roundtripRequest seq queue => exact .of_none id rfl rfl

theorem faults {a : Action} (h : step s a = some s') : Faults s s' := by
  cases a with
  | emit k method args =>
    simp only [step, Option.ite_none_right_eq_some, Option.some.injEq] at h
    exact (h.2 ▸ Aside.call s k method args : Aside s s').faults
  | error k errorId errorMsg =>
    simp only [step, Option.ite_none_right_eq_some, Option.some.injEq] at h
    exact (h.2 ▸ Aside.objectError s k errorId errorMsg : Aside s s').faults
  | read batch =>
    simp only [step, Option.ite_none_right_eq_some, Option.some.injEq] at h
    obtain ⟨-, rfl⟩ := h
    exact .of_none id rfl rfl
  | handle =>
    obtain ⟨msg, rest, hphase, rfl⟩ := step_handle h
    exact faults_handle s msg hphase
  | return_ =>
    simp only [step] at h
    split at h
    · next rest k method hphase =>
      cases h
      unfold returned
      cases method with
      | none => exact .of_none id rfl rfl
      | some method =>
        simp only [afterDispatch_eq]
        split <;> exact .of_none id rfl rfl
    · next rest k hphase =>
      cases h
      exact .of_leaving (.inl (by rw [hphase]; rfl)) rfl
    · cases h
  | malformed =>
    simp only [step] at h
    split at h
    · cases h
      exact .of_error rfl
    · cases h
  | finish =>
    simp only [step] at h
    split at h
    · cases h
      have hacknowledge : s.acknowledge.error = s.error ∧ s.acknowledge.gone = s.gone := by
        unfold acknowledge
        split
        · obtain ⟨out, heq⟩ := write_eq s (.roundtripDone s.scheduledRoundtripSeq s.scheduledRequest)
          rw [heq]
          exact ⟨rfl, rfl⟩
        · exact ⟨rfl, rfl⟩
      unfold finish
      simp only
      split
      · next herror => exact .of_error herror
      · exact .of_none (fun herror => hacknowledge.1.trans herror) rfl hacknowledge.2
    · cases h
  | unreadable =>
    simp only [step, Option.ite_none_right_eq_some, Option.some.injEq] at h
    exact h.2 ▸ .of_error rfl
  | hangup =>
    simp only [step, Option.ite_none_right_eq_some, Option.some.injEq] at h
    exact h.2 ▸ .of_error rfl
  | remove =>
    simp only [step, Option.ite_none_right_eq_some, Option.some.injEq] at h
    exact h.2 ▸ .of_error rfl
  | visit =>
    simp only [step] at h
    split at h
    · next k rest hphase =>
      cases h
      refine .of_leaving (.inl (by rw [hphase]; rfl)) ?_
      unfold visit
      split
      · rfl
      · simp only
        split <;> rfl
    · next hphase =>
      cases h
      exact .of_leaving (.inl (by rw [hphase]; rfl)) rfl
    · cases h

/-- Leaving means being in error. -/
theorem Faults.leaves_error (h : Faults s s') (hs : s.Leaves → s.error = true) :
    s'.Leaves → s'.error = true :=
  fun hl => (h.leaves hl).elim (fun hl => h.error (hs hl)) id

end Hyprwire.Server
