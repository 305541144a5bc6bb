import Hyprwire.System.Turn

/-!
# `System/Credentials.lean` — who has connected

`ServerClient::creds` unwraps the credentials of the peer. They are asked for once, when the first
`Sup` of the client is handled, and stay unset when the socket does not say them. But a handle that
`add_client` returns is there before anything was read, and a client that binds without a greeting
has its handler called all the same. So the credentials are there for everyone who has a handle in
exactly those runs of an accepted client in which every bind that finds a handler comes after a
greeting, and the socket answered (`creds_available_iff`).
-/

namespace Hyprwire

open Rust

/-- `net::UCred`. -/
structure UCred where
  pid : Int
  uid : Nat
  gid : Nat
  deriving DecidableEq, Repr

/-- `OnceLock::set`: a cell that was filled stays as it is. -/
def onceLockSet (cell : Option UCred) (cred : UCred) : Option UCred :=
  match cell with
  | some old => some old
  | none => some cred

/-- `ServerClient::creds`, on the cell that the handles of a client share. -/
def ServerClient.creds (cell : Option UCred) : Outcome Unit UCred :=
  match cell with
  | some cred => .ok cred
  | none => .panic .unwrapNone

/-- A connection with the credentials of its client. `handles` says that someone has a
`ServerClient` of it outside of its callbacks. -/
structure Session where
  server : Server
  creds : Option UCred := none
  firstPollDone : Bool := false
  handles : Bool := false

/-- User code runs for an object of the client. -/
def Server.InCallback (s : Server) : Prop :=
  match s.phase with
  | .callback _ _ _ | .leavingCallback _ _ => True
  | _ => False

namespace Session

/-- `accept_one`. -/
def acceptOne (impls : List ProtocolSpec) : Session := { server := { impls } }

/-- `add_client`, which returns a handle. -/
def addClient (impls : List ProtocolSpec) : Session := { server := { impls }, handles := true }

/-- `dispatch_first_poll`; `peercred` is what the socket answers, `none` an error. -/
def dispatchFirstPoll (peercred : Option UCred) (x : Session) : Session :=
  if x.firstPollDone then x
  else
    let x := { x with firstPollDone := true }
    match peercred with
    | some cred => { x with creds := onceLockSet x.creds cred }
    | none => x

/-- The action handles a `Sup`. -/
def handlesSup (s : Server) : Server.Action → Bool
  | .handle =>
    match s.phase with
    | .batch (.sup :: _) => true
    | _ => false
  | _ => false

inductive Action
  | server (a : Server.Action)
  | client (k : Nat)

/-- A step of the connection, or a call of `client()` on an object that a handler was given: there
is a handle as long as the client is there. -/
def step (peercred : Option UCred) (x : Session) : Action → Option Session
  | .server a =>
    match Server.step x.server a with
    | some server =>
      let x := if handlesSup x.server a then x.dispatchFirstPoll peercred else x
      some { x with server }
    | none => none
  | .client k =>
    if k < x.server.size ∧ (x.server.objects k).objectData = true then
      some (if x.server.gone then x else { x with handles := true })
    else none

/-- **The credentials are available**: `creds` does not panic for a callback that runs, nor for
anyone who has a handle. -/
def Available (x : Session) : Prop :=
  x.server.InCallback ∨ x.handles = true → ∀ p, ServerClient.creds x.creds ≠ .panic p

/-- **The condition**: a bind that finds a handler comes after a greeting, and the socket says who
the peer is. -/
def Introduced (peercred : Option UCred) (x : Session) (a : Action) : Prop :=
  ∀ seq version protocol rest, a = .server .handle →
    x.server.phase = .batch (.bindProtocol seq version protocol :: rest) → version ≠ 0 →
    (rootSpec x.server.impls protocol).isSome → .sup ∈ x.server.handled ∧ peercred.isSome

end Session

/-! ## Who is called -/

namespace Server

variable {s s' s'' : Server}

/-- The same objects have their data. -/
structure SameData (s s' : Server) : Prop where
  data : ∀ k, (s'.objects k).objectData = (s.objects k).objectData

theorem SameData.of_objects (h : s'.objects = s.objects) : SameData s s' :=
  ⟨fun k => by rw [h]⟩

theorem SameData.trans (h : SameData s s') (h' : SameData s' s'') : SameData s s'' :=
  ⟨fun k => (h'.data k).trans (h.data k)⟩

theorem SameData.write (s : Server) (msg : S2C) : SameData s (s.write msg) := by
  obtain ⟨out, heq⟩ := write_eq s msg
  rw [heq]
  exact .of_objects rfl

theorem SameData.markDestroyed (s : Server) (i : Nat) :
    SameData s (s.setObject i fun obj => { obj with destroyed := true }) := by
  refine ⟨fun k => ?_⟩
  simp only [setObject]
  split <;> rfl

theorem SameData.objectError (s : Server) (k errorId : Nat) (errorMsg : String) :
    SameData s (s.objectError k errorId errorMsg) := by
  unfold Server.objectError
  split
  · exact .of_objects rfl
  · exact (SameData.write s _).trans (.of_objects rfl)

theorem SameData.call (s : Server) (k method : Nat) (args : List CallArg) :
    SameData s (s.call k method args) := by
  unfold Server.call
  split
  · exact .of_objects rfl
  · split
    · exact .objectError ..
    · split
      · exact .objectError ..
      · split
        · exact .objectError ..
        · unfold Server.emitMethod
          split
          · exact (SameData.markDestroyed s k).trans (.write ..)
          · exact .write ..

theorem SameData.afterDispatch (s : Server) (k method : Nat) :
    SameData s (s.afterDispatch k method) := by
  rw [afterDispatch_eq]
  split
  · exact (SameData.markDestroyed s k).trans (.of_objects rfl)
  · exact .of_objects rfl

/-- Some handler knows of an object of the client. -/
def Serves (s : Server) : Prop := (∃ k, (s.objects k).objectData = true) ∨ s.InCallback

/-- The action handles a bind for which there is a handler. -/
def BindsHandler (s : Server) (a : Action) : Prop :=
  ∃ seq version protocol rest, a = .handle ∧
    s.phase = .batch (.bindProtocol seq version protocol :: rest) ∧ version ≠ 0 ∧
    (rootSpec s.impls protocol).isSome

theorem SameData.serves (h : SameData s s') (hphase : s'.phase = s.phase) (hs : s'.Serves) :
    s.Serves := by
  rcases hs with ⟨k, hk⟩ | hcallback
  · exact .inl ⟨k, h.data k ▸ hk⟩
  · refine .inr ?_
    rwa [InCallback, hphase] at hcallback

/-- Outside of a callback, whoever is served has an object. -/
theorem Serves.before (hs : s'.Serves) (h : SameData s s') (hquiet : ¬ s'.InCallback) :
    s.Serves := by
  rcases hs with ⟨k, hk⟩ | hcallback
  · exact .inl ⟨k, h.data k ▸ hk⟩
  · exact absurd hcallback hquiet

theorem data_of_callsBack {k method : Nat} (h : callsBack (s.objects k) method = true) :
    (s.objects k).objectData = true := by
  unfold callsBack at h
  split at h
  · exact (Bool.and_eq_true_iff.mp h).1
  · cases h

theorem onGeneric_serves (msg : Generic) (rest : List C2S) (h : (s.onGeneric msg rest).Serves) :
    s.Serves := by
  have hnote : ∀ k method, SameData s (s.note k method) := by
    intro k method
    rw [note_eq]
    exact .of_objects rfl
  have hdelivered := delivered s msg rest
  generalize s.onGeneric msg rest = t at hdelivered h
  cases hdelivered with
  | unknown hfind =>
    exact h.before ((SameData.write s _).trans (.of_objects rfl)) (fun hc => hc)
  | silent k hfind hquiet =>
    have hafter := (hnote k msg.method).trans (.afterDispatch _ k msg.method)
    exact h.before (hafter.trans (.of_objects rfl)) (fun hc => hc)
  | called k hfind hcalls => exact .inl ⟨k, data_of_callsBack hcalls⟩
  | made k m hfind hcalls hm hret => exact .inl ⟨k, data_of_callsBack hcalls⟩

/-- The root object of a protocol has a handler. -/
theorem created_data (s : Server) (protocol : String) (version seq : Nat) :
    (s.created protocol "" version seq).objectData = (rootSpec s.impls protocol).isSome := by
  unfold created bindsHandler findSpec
  simp only [if_true]
  cases rootSpec s.impls protocol with
  | none => rfl
  | some root => simp

theorem createObject_data (s : Server) (protocol : String) (version seq k : Nat) :
    ((s.createObject protocol "" version seq).objects k).objectData =
      if k = s.size then (rootSpec s.impls protocol).isSome else (s.objects k).objectData := by
  rw [createObject_eq, ← created_data s protocol version seq]
  simp only
  split <;> rfl

/-- **A handler comes to know of a first object** by a bind alone. -/
theorem serves_of_step {a : Action} (h : step s a = some s') (hs : s'.Serves) :
    s.Serves ∨ BindsHandler s a := by
  cases a with
  | emit k method args =>
    simp only [step, Option.ite_none_right_eq_some, Option.some.injEq] at h
    obtain ⟨-, rfl⟩ := h
    exact .inl ((SameData.call s k method args).serves (Aside.call ..).phase hs)
  | error k errorId errorMsg =>
    simp only [step, Option.ite_none_right_eq_some, Option.some.injEq] at h
    obtain ⟨-, rfl⟩ := h
    exact .inl ((SameData.objectError s k errorId errorMsg).serves (Aside.objectError ..).phase hs)
  | read batch =>
    simp only [step, Option.ite_none_right_eq_some, Option.some.injEq] at h
    obtain ⟨-, rfl⟩ := h
    exact .inl (hs.before (.of_objects rfl) fun hc => hc)
  | handle =>
    obtain ⟨msg, rest, hphase, rfl⟩ := step_handle h
    have hheard : SameData s (s.heard msg rest) := .of_objects rfl
    cases msg with
    | sup =>
      have hwrite := SameData.write (s.heard .sup rest) (.handshakeBegin [1])
      refine .inl (hs.before (hheard.trans hwrite) fun hc => ?_)
      have hquiet : (s.handle .sup rest).phase = .batch rest :=
        (Aside.write (s.heard .sup rest) (.handshakeBegin [1])).phase
      rwa [InCallback, hquiet] at hc
    | handshakeAck version =>
      let answer : S2C := .handshakeProtocols
        (s.impls.map fun imp => (imp.specName, imp.specVer.toNat))
      have hwrite := SameData.write (s.heard (.handshakeAck version) rest) answer
      refine .inl (hs.before ((hheard.trans hwrite).trans (.of_objects rfl)) fun hc => ?_)
      have hquiet : (s.handle (.handshakeAck version) rest).phase = .batch rest :=
        (Aside.write (s.heard (.handshakeAck version) rest) answer).phase
      rwa [InCallback, hquiet] at hc
    | bindProtocol seq version protocol =>
      by_cases hversion : version = 0
      · subst hversion
        have habort := (SameData.write (s.heard (.bindProtocol seq 0 protocol) rest)
          (.fatalProtocolError 0 (wordSize - 1) "fatal: failed to handle message on wire"))
        exact .inl (hs.before ((hheard.trans habort).trans (.of_objects rfl)) fun hc => hc)
      · cases hroot : (rootSpec s.impls protocol).isSome with
        | true => exact .inr ⟨seq, version, protocol, rest, rfl, hphase, hversion, hroot⟩
        | false =>
          -- The object that is made has no handler: nobody new is served.
          rw [handle_bind_eq s seq protocol rest hversion, created_data, hroot] at hs
          rcases hs with ⟨k, hk⟩ | hcallback
          · have hdata := createObject_data (s.heard (.bindProtocol seq version protocol) rest)
              protocol version seq k
            rw [show (rootSpec (s.heard _ rest).impls protocol).isSome = false from hroot] at hdata
            split at hdata
            · cases hdata.symm.trans hk
            · exact .inl (.inl ⟨k, hdata.symm.trans hk⟩)
          · exact hcallback.elim
    | generic g =>
      rw [handle_generic] at hs
      have hserves := onGeneric_serves g rest hs
      exact .inl (hserves.before hheard fun hc => hc)
    | roundtripRequest seq queue =>
      exact .inl (hs.before (hheard.trans (.of_objects rfl)) fun hc => hc)
  | return_ =>
    refine .inl (.inr ?_)
    simp only [step] at h
    split at h
    · next hphase =>
      rw [InCallback, hphase]
      trivial
    · next hphase =>
      rw [InCallback, hphase]
      trivial
    · cases h
  | malformed =>
    simp only [step] at h
    split at h
    · cases h
      exact .inl (hs.before ((SameData.write s _).trans (.of_objects rfl)) fun hc => hc)
    · cases h
  | finish =>
    simp only [step] at h
    split at h
    · cases h
      have hack : SameData s s.acknowledge := by
        unfold acknowledge
        split
        · exact (SameData.write s _).trans (.of_objects rfl)
        · exact .of_objects rfl
      unfold finish at hs
      simp only at hs
      split at hs
      · exact .inl (hs.before (hack.trans (.of_objects rfl)) fun hc => hc)
      · exact .inl (hs.before (hack.trans (.of_objects rfl)) fun hc => hc)
    · cases h
  | unreadable =>
    simp only [step, Option.ite_none_right_eq_some, Option.some.injEq] at h
    obtain ⟨-, rfl⟩ := h
    exact .inl (hs.before ((SameData.write s _).trans (.of_objects rfl)) fun hc => hc)
  | hangup =>
    simp only [step, Option.ite_none_right_eq_some, Option.some.injEq] at h
    obtain ⟨-, rfl⟩ := h
    exact .inl (hs.before (.of_objects rfl) fun hc => hc)
  | remove =>
    simp only [step, Option.ite_none_right_eq_some, Option.some.injEq] at h
    obtain ⟨-, rfl⟩ := h
    exact .inl (hs.before (.of_objects rfl) fun hc => hc)
  | visit =>
    simp only [step] at h
    split at h
    · next k rest hphase =>
      cases h
      unfold visit at hs
      split at hs
      · exact .inl (hs.before (.of_objects rfl) fun hc => hc)
      · simp only at hs
        split at hs
        · next hdata => exact .inl (.inl ⟨k, hdata⟩)
        · have hnoted : SameData s { s with destructs := s.destructs ++ [k] } := .of_objects rfl
          have hdestroyed := hnoted.trans (.markDestroyed _ k)
          exact .inl (hs.before (hdestroyed.trans (.of_objects rfl)) fun hc => hc)
    · cases h
      exact .inl (hs.before (.of_objects rfl) fun hc => hc)
    · cases h

/-- … which calls it. -/
theorem BindsHandler.calls {a : Action} (hbinds : BindsHandler s a) (h : step s a = some s') :
    s'.InCallback := by
  obtain ⟨seq, version, protocol, rest, rfl, hphase, hversion, hroot⟩ := hbinds
  obtain ⟨msg, rest', hphase', rfl⟩ := step_handle h
  rw [hphase] at hphase'
  cases hphase'
  rw [handle_bind_eq s seq protocol rest hversion, created_data, hroot]
  trivial

end Server

/-! ## The cell -/

namespace Session

variable {peercred : Option UCred} {x x' : Session} {a : Action}

/-- The cell was filled by the first `Sup`, if the socket answered. -/
structure Polled (peercred : Option UCred) (x : Session) : Prop where
  done : x.firstPollDone = true ↔ .sup ∈ x.server.handled
  unset : .sup ∉ x.server.handled → x.creds = none
  set : .sup ∈ x.server.handled → x.creds = peercred

/-- What the proof carries: whoever can ask for the credentials has them. -/
structure Known (peercred : Option UCred) (x : Session) : Prop where
  polled : Polled peercred x
  serves : x.server.Serves → x.creds.isSome
  handles : x.handles = true → x.creds.isSome

theorem available_iff :
    Available x ↔ (x.server.InCallback ∨ x.handles = true → x.creds.isSome) := by
  have hcreds : (∀ p, ServerClient.creds x.creds ≠ .panic p) ↔ x.creds.isSome := by
    cases x.creds with
    | none => exact ⟨fun h => absurd rfl (h .unwrapNone), nofun⟩
    | some cred => exact ⟨fun _ => rfl, fun _ _ => nofun⟩
  rw [Available, hcreds]

/-- What was handled says whether the first poll was done. -/
theorem handled_sup {s s' : Server} {a : Server.Action} (h : Server.step s a = some s') :
    .sup ∈ s'.handled ↔ .sup ∈ s.handled ∨ handlesSup s a = true := by
  cases Server.progress h with
  | read batch hidle hopen heq =>
    rw [heq]
    simp [handlesSup]
  | handled msg rest hbatch hhandled hphase =>
    rw [hhandled, List.mem_append, List.mem_singleton, handlesSup, hbatch]
    cases msg <;> simp
  | still _ hhandled hread hhandle hphase =>
    rw [hhandled]
    cases a <;> simp_all [handlesSup]

theorem step_server {b : Server.Action} (h : step peercred x (.server b) = some x') :
    ∃ server, Server.step x.server b = some server ∧
      x' = { (if handlesSup x.server b then x.dispatchFirstPoll peercred else x) with server } := by
  simp only [step] at h
  split at h
  · next server hserver => exact ⟨server, hserver, (Option.some.inj h).symm⟩
  · cases h

/-- The first poll alone asks the socket. -/
theorem Polled.firstPoll (hx : Polled peercred x) :
    (x.dispatchFirstPoll peercred).firstPollDone = true ∧
      (x.dispatchFirstPoll peercred).creds = peercred ∧
      (x.dispatchFirstPoll peercred).handles = x.handles := by
  unfold dispatchFirstPoll
  split
  · next hdone => exact ⟨hdone, hx.set (hx.done.mp hdone), rfl⟩
  · next hdone =>
    have hunset := hx.unset fun hsup => hdone (hx.done.mpr hsup)
    simp only [hunset]
    cases peercred with
    | none => exact ⟨rfl, rfl, rfl⟩
    | some cred => exact ⟨rfl, rfl, rfl⟩

theorem Polled.step (hx : Polled peercred x) (h : Session.step peercred x a = some x') :
    Polled peercred x' := by
  cases a with
  | server b =>
    obtain ⟨server, hserver, rfl⟩ := step_server h
    have hsup := handled_sup hserver
    obtain ⟨hdone, hcreds, -⟩ := hx.firstPoll
    by_cases hgreets : handlesSup x.server b = true
    · have hmem : .sup ∈ server.handled := hsup.mpr (.inr hgreets)
      rw [if_pos hgreets]
      exact ⟨iff_of_true hdone hmem, fun hnot => absurd hmem hnot, fun _ => hcreds⟩
    · rw [or_iff_left hgreets] at hsup
      rw [if_neg hgreets]
      exact ⟨hx.done.trans hsup.symm, fun hnot => hx.unset fun hold => hnot (hsup.mpr hold),
        fun hmem => hx.set (hsup.mp hmem)⟩
  | client k =>
    simp only [Session.step, Option.ite_none_right_eq_some, Option.some.injEq] at h
    obtain ⟨-, rfl⟩ := h
    split
    · exact hx
    · exact ⟨hx.done, hx.unset, hx.set⟩

/-- Credentials that are set stay set. -/
theorem Polled.kept (hx : Polled peercred x) (h : Session.step peercred x a = some x')
    (hset : x.creds.isSome) : x'.creds.isSome := by
  cases a with
  | server b =>
    obtain ⟨server, hserver, rfl⟩ := step_server h
    split
    · have hsup : .sup ∈ x.server.handled := by
        by_contra hnot
        rw [hx.unset hnot] at hset
        cases hset
      rw [hx.set hsup] at hset
      exact (congrArg Option.isSome hx.firstPoll.2.1).trans hset
    · exact hset
  | client k =>
    simp only [Session.step, Option.ite_none_right_eq_some, Option.some.injEq] at h
    obtain ⟨-, rfl⟩ := h
    split <;> exact hset

/-- Who can ask for the credentials behind a step could so before it, or is the handler of a bind. -/
theorem Known.asks (hx : Known peercred x) (h : Session.step peercred x a = some x')
    (hasks : x'.server.Serves ∨ x'.handles = true) :
    x'.creds.isSome ∨ ∃ b, a = .server b ∧ x.server.BindsHandler b := by
  cases a with
  | server b =>
    obtain ⟨server, hserver, heq⟩ := step_server h
    have hhandles : x'.handles = x.handles := by
      rw [heq]
      split
      · exact hx.polled.firstPoll.2.2
      · rfl
    rcases hasks with hserves | hhandle
    · rw [heq] at hserves
      rcases Server.serves_of_step hserver hserves with hbefore | hbinds
      · exact .inl (hx.polled.kept h (hx.serves hbefore))
      · exact .inr ⟨b, rfl, hbinds⟩
    · exact .inl (hx.polled.kept h (hx.handles (hhandles ▸ hhandle)))
  | client k =>
    have hstep := h
    simp only [Session.step, Option.ite_none_right_eq_some, Option.some.injEq] at hstep
    exact .inl (hx.polled.kept h (hx.serves (.inl ⟨k, hstep.1.2⟩)))

theorem Known.available (hx : Known peercred x) : Available x := by
  rw [available_iff]
  rintro (hcallback | hhandle)
  · exact hx.serves (.inr hcallback)
  · exact hx.handles hhandle

/-- Whether the credentials are there is decided where a bind finds a handler. -/
theorem Known.available_iff_introduced (hx : Known peercred x) (h : Session.step peercred x a = some x') :
    Available x' ↔ Introduced peercred x a := by
  constructor
  · intro havailable seq version protocol rest ha hphase hversion hroot
    subst ha
    obtain ⟨server, hserver, rfl⟩ := step_server h
    have hbinds : x.server.BindsHandler .handle :=
      ⟨seq, version, protocol, rest, rfl, hphase, hversion, hroot⟩
    have hgreets : handlesSup x.server .handle = false := by rw [handlesSup, hphase]
    have hset := available_iff.mp havailable (.inl (hbinds.calls hserver))
    rw [if_neg (Bool.eq_false_iff.mp hgreets)] at hset
    have hsup : .sup ∈ x.server.handled := by
      by_contra hnot
      rw [show Session.creds _ = none from hx.polled.unset hnot] at hset
      cases hset
    exact ⟨hsup, (hx.polled.set hsup) ▸ hset⟩
  · intro hcond
    rw [available_iff]
    intro hasks
    have hasks' : x'.server.Serves ∨ x'.handles = true := hasks.imp_left .inr
    rcases hx.asks h hasks' with hset | ⟨b, rfl, seq, version, protocol, rest, rfl, hphase, hversion,
      hroot⟩
    · exact hset
    · obtain ⟨hsup, hpeer⟩ := hcond seq version protocol rest rfl hphase hversion hroot
      exact hx.polled.kept h (hx.polled.set hsup ▸ hpeer)

theorem Known.step (hx : Known peercred x) (h : Session.step peercred x a = some x')
    (havailable : Available x') : Known peercred x' := by
  have hknown : x'.server.Serves ∨ x'.handles = true → x'.creds.isSome := by
    intro hasks
    rcases hx.asks h hasks with hset | ⟨b, rfl, hbinds⟩
    · exact hset
    · obtain ⟨server, hserver, heq⟩ := step_server h
      refine available_iff.mp havailable (.inl ?_)
      rw [heq]
      exact hbinds.calls hserver
  exact ⟨hx.polled.step h, fun hserves => hknown (.inl hserves), fun hhandle => hknown (.inr hhandle)⟩

theorem Known.acceptOne (impls : List ProtocolSpec) : Known peercred (acceptOne impls) where
  polled := ⟨⟨nofun, nofun⟩, fun _ => rfl, nofun⟩
  serves h := by
    rcases h with ⟨k, hk⟩ | hcallback
    · cases hk
    · exact hcallback.elim
  handles := nofun

/-- A client before anything was read from it; `added` is one that came by `add_client`. -/
def start (impls : List ProtocolSpec) (added : Bool) : Session :=
  if added then addClient impls else .acceptOne impls

/-- **The credentials are available in every state** of exactly those runs in which the client was
accepted from the listener and every bind that finds a handler comes after a greeting, with the
socket answering. -/
theorem creds_available_iff (peercred : Option UCred) (impls : List ProtocolSpec) (added : Bool)
    {acts : List Action} {x : Session}
    (hrun : Run.run (step peercred) (start impls added) acts = some x) :
    (∀ before y, before <+: acts → Run.run (step peercred) (start impls added) before = some y →
        Available y) ↔
      added = false ∧ Run.Meets (step peercred) (Introduced peercred) (start impls added) acts := by
  cases added with
  | true =>
    refine iff_of_false (fun hall => ?_) nofun
    have hnow := hall [] (start impls true) (List.nil_prefix) rfl
    exact hnow (.inr rfl) .unwrapNone rfl
  | false =>
    rw [and_iff_right rfl]
    exact Run.reached_iff_meets (fun _ hx => hx.available)
      (fun _ _ _ hx h => hx.available_iff_introduced h) (fun _ _ _ hx h hgood => hx.step h hgood)
      (Known.acceptOne impls) hrun

/-- A client greets, binds and is served. -/
def served : List Action :=
  [.server (.read [.sup, .bindProtocol 1 1 "shop"]), .server .handle, .server .handle, .client 0]

theorem creds_available_iff_served : ∃ x,
    Run.run (step (some ⟨42, 0, 0⟩)) (start [shopProtocol] false) served = some x ∧
      x.handles = true ∧ x.creds = some ⟨42, 0, 0⟩ ∧
      ∀ before y, before <+: served →
        Run.run (step (some ⟨42, 0, 0⟩)) (start [shopProtocol] false) before = some y →
          Available y := by
  refine ⟨_, rfl, rfl, rfl, (creds_available_iff _ _ false rfl).mpr ⟨rfl, ?_⟩⟩
  refine Run.meets_cons ?_ rfl (Run.meets_cons ?_ rfl (Run.meets_cons ?_ rfl
    (Run.meets_cons ?_ rfl trivial)))
  · exact nofun
  · intro seq version protocol rest _ hphase
    cases hphase
  · intro seq version protocol rest _ hphase _ _
    cases hphase
    exact ⟨by decide, rfl⟩
  · exact nofun

/-- A bind is handled without a greeting, and its handler asks who has bound. -/
theorem not_always_available :
    ¬ ∀ (peercred : Option UCred) (impls : List ProtocolSpec) (added : Bool) (acts : List Action)
        (x : Session), Run.run (step peercred) (start impls added) acts = some x → Available x := by
  intro hall
  have hnow := hall (some ⟨42, 0, 0⟩) [shopProtocol] false
    [.server (.read [.bindProtocol 1 1 "shop"]), .server .handle] _ rfl
  exact hnow (.inl trivial) .unwrapNone rfl

end Session

end Hyprwire
