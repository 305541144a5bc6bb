import Hyprwire.System.Phases
import Hyprwire.System.Turn

/-!
# `System/Connection.lean` — a client and a server, and what is between them

Both are made from one list of protocols, and the client binds the protocols it has registered.
What one side has written is the channel to the other, which reads it from the front, any number
of messages at a time. Either side can break off at any time; whole messages are never malformed.

What holds of the channels whatever is done (`Transit`): what was read was written, and the server
has handled a front part of what its client wrote.
-/

namespace Hyprwire

/-- A client and a server, and how much each has read of what the other wrote. -/
structure Connection where
  client : Client
  server : Server
  toServer : Nat := 0
  toClient : Nat := 0

namespace Connection

open History

/-- Both sides as they begin. -/
def start (impls : List ProtocolSpec) : Connection := { client := { impls }, server := { impls } }

inductive Action
  | bind (q : Nat) (protocol : String) (version : Nat)
  | client (a : Client.Action)
  | clientReads (q count : Nat)
  | server (a : Server.Action)
  | serverReads (count : Nat)

/-- What a client does by itself. -/
def clientAlone : Client.Action → Bool
  | .bind _ _ _ | .read _ _ | .malformed _ => false
  | _ => true

/-- What a server does by itself. -/
def serverAlone : Server.Action → Bool
  | .read _ | .malformed => false
  | _ => true

/-- **The connection.** -/
def step (x : Connection) : Action → Option Connection
  | .bind q protocol version =>
    match x.client.impls.find? fun imp => imp.specName = protocol with
    | some proto => (x.client.step (.bind q proto version)).map fun client => { x with client }
    | none => none
  | .client a =>
    if clientAlone a then (x.client.step a).map fun client => { x with client } else none
  | .clientReads q count =>
    let batch := (x.server.out.drop x.toClient).take count
    (x.client.step (.read q batch)).map fun client =>
      { x with client, toClient := x.toClient + batch.length }
  | .server a =>
    if serverAlone a then (x.server.step a).map fun server => { x with server } else none
  | .serverReads count =>
    let batch := (x.client.out.drop x.toServer).take count
    (x.server.step (.read batch)).map fun server =>
      { x with server, toServer := x.toServer + batch.length }

variable {x x' : Connection}

/-- What a step of the client is, on a connection. -/
structure ByClient (x : Connection) (a : Client.Action) (x' : Connection) : Prop where
  step : x.client.step a = some x'.client
  server : x'.server = x.server
  toServer : x'.toServer = x.toServer
  read : (∃ q batch, a = .read q batch ∧ batch.IsPrefix (x.server.out.drop x.toClient) ∧
      x'.toClient = x.toClient + batch.length) ∨
    ((∀ q batch, a ≠ .read q batch) ∧ x'.toClient = x.toClient)
  bind : ∀ q proto version, a = .bind q proto version →
    x.client.impls.find? (fun imp => imp.specName = proto.specName) = some proto
  whole : ∀ q, a ≠ .malformed q

/-- What is bound is one of the implementations. -/
theorem ByClient.binds {a : Client.Action} {impls : List ProtocolSpec} (hb : ByClient x a x')
    (himpls : x.client.impls = impls) : ∀ q proto version, a = .bind q proto version →
      impls.find? (fun imp => imp.specName = proto.specName) = some proto := by
  intro q proto version heq
  rw [← himpls]
  exact hb.bind q proto version heq

/-- What a step of the server is. -/
structure ByServer (x : Connection) (a : Server.Action) (x' : Connection) : Prop where
  step : x.server.step a = some x'.server
  client : x'.client = x.client
  toClient : x'.toClient = x.toClient
  read : (∃ batch, a = .read batch ∧ batch.IsPrefix (x.client.out.drop x.toServer) ∧
      x'.toServer = x.toServer + batch.length) ∨
    ((∀ batch, a ≠ .read batch) ∧ x'.toServer = x.toServer)
  whole : a ≠ .malformed

/-- **A step of the connection is one of either side.** -/
theorem step_cases {a : Action} (h : step x a = some x') :
    (∃ b, ByClient x b x' ∧ (a = .client b ∨
      (∃ q protocol version proto, a = .bind q protocol version ∧ b = .bind q proto version) ∨
      ∃ q count, a = .clientReads q count ∧
        b = .read q ((x.server.out.drop x.toClient).take count))) ∨
    ∃ b, ByServer x b x' ∧ (a = .server b ∨
      ∃ count, a = .serverReads count ∧ b = .read ((x.client.out.drop x.toServer).take count)) := by
  cases a with
  | bind q protocol version =>
    simp only [step] at h
    split at h
    · next proto hfind =>
      obtain ⟨c, hc, rfl⟩ := Option.map_eq_some_iff.mp h
      refine .inl ⟨_, ⟨hc, rfl, rfl, .inr ⟨nofun, rfl⟩, ?_, nofun⟩,
        .inr (.inl ⟨q, protocol, version, proto, rfl, rfl⟩)⟩
      rintro q' proto' version' ⟨⟩
      have hname : proto.specName = protocol := by simpa using List.find?_some hfind
      rw [hname]
      exact hfind
    · cases h
  | client b =>
    simp only [step, Option.ite_none_right_eq_some] at h
    obtain ⟨halone, h⟩ := h
    obtain ⟨c, hc, rfl⟩ := Option.map_eq_some_iff.mp h
    refine .inl ⟨b, ⟨hc, rfl, rfl, .inr ⟨?_, rfl⟩, ?_, ?_⟩, .inl rfl⟩
    · rintro q batch rfl
      cases halone
    · rintro q proto version rfl
      cases halone
    · rintro q rfl
      cases halone
  | clientReads q count =>
    obtain ⟨c, hc, rfl⟩ := Option.map_eq_some_iff.mp h
    exact .inl ⟨_, ⟨hc, rfl, rfl, .inl ⟨q, _, rfl, List.take_prefix .., rfl⟩, nofun, nofun⟩,
      .inr (.inr ⟨q, count, rfl, rfl⟩)⟩
  | server b =>
    simp only [step, Option.ite_none_right_eq_some] at h
    obtain ⟨halone, h⟩ := h
    obtain ⟨s, hs, rfl⟩ := Option.map_eq_some_iff.mp h
    refine .inr ⟨b, ⟨hs, rfl, rfl, .inr ⟨?_, rfl⟩, ?_⟩, .inl rfl⟩
    · rintro batch rfl
      cases halone
    · rintro rfl
      cases halone
  | serverReads count =>
    obtain ⟨s, hs, rfl⟩ := Option.map_eq_some_iff.mp h
    exact .inr ⟨_, ⟨hs, rfl, rfl, .inl ⟨_, rfl, List.take_prefix .., rfl⟩, nofun⟩,
      .inr ⟨count, rfl, rfl⟩⟩

/-! ## The channels -/

/-- **What was read was written**, and the server handles what its client wrote in order. -/
structure Transit (x : Connection) : Prop where
  ledger : x.client.Ledger
  toServer : x.toServer ≤ x.client.out.length
  toClient : x.toClient ≤ x.server.out.length
  served : x.server.handled ++ x.server.phase.pending <+: x.client.out
  reads : ¬ x.server.Leaves →
    x.server.handled ++ x.server.phase.pending = x.client.out.take x.toServer
  heard : ∀ msg ∈ x.client.handled, msg ∈ x.server.out
  waiting : ∀ q, ∀ msg ∈ (x.client.queues q).phase.pending, msg ∈ x.server.out

theorem Transit.start (impls : List ProtocolSpec) : Transit (start impls) where
  ledger := .init impls
  toServer := Nat.zero_le _
  toClient := Nat.zero_le _
  served := List.nil_prefix
  reads _ := rfl
  heard _ h := by cases h
  waiting _ _ h := by cases h

theorem take_of_front {α : Type} {l l' : List α} (h : l <+: l') {n : Nat} (hn : n ≤ l.length) :
    l'.take n = l.take n := by
  obtain ⟨t, rfl⟩ := h
  exact List.take_append_of_le_length hn

/-- What is pending was pending, or was read just now. -/
theorem pending_of_step {c c' : Client} {a : Client.Action} (h : c.step a = some c') {q : Nat}
    {msg : S2C} (hmsg : msg ∈ (c'.queues q).phase.pending) :
    msg ∈ (c.queues q).phase.pending ∨ ∃ batch, a = .read q batch ∧ msg ∈ batch := by
  have hprogress := Client.progress h
  cases hprogress with
  | read q₀ batch hidle hopen hphase hothers hhandled =>
    by_cases hq : q = q₀
    · subst hq
      rw [hphase] at hmsg
      exact .inr ⟨batch, rfl, hmsg⟩
    · exact .inl (hothers q hq ▸ hmsg)
  | handled q₀ msg₀ rest hbatch hphase hothers hhandled =>
    by_cases hq : q = q₀
    · subst hq
      rw [hbatch]
      rcases hphase with hphase | ⟨h, method, hphase⟩ | ⟨hphase, -⟩
      · rw [hphase] at hmsg
        exact .inl (List.mem_cons_of_mem msg₀ hmsg)
      · rw [hphase] at hmsg
        exact .inl (List.mem_cons_of_mem msg₀ hmsg)
      · rw [hphase] at hmsg
        cases hmsg
    · exact .inl (hothers q hq ▸ hmsg)
  | returned q₀ rest h method hcallback hphase hothers hhandled =>
    by_cases hq : q = q₀
    · subst hq
      rw [hphase] at hmsg
      rw [hcallback]
      exact .inl hmsg
    · exact .inl (hothers q hq ▸ hmsg)
  | gaveUp _ q₀ hphase herror hothers hhandled =>
    by_cases hq : q = q₀
    · subst hq
      rw [hphase] at hmsg
      cases hmsg
    · exact .inl (hothers q hq ▸ hmsg)
  | finished q₀ hbatch hphase hothers hhandled =>
    by_cases hq : q = q₀
    · subst hq
      rw [hphase] at hmsg
      cases hmsg
    · exact .inl (hothers q hq ▸ hmsg)
  | still _ hphase hhandled hread hhandle => exact .inl (hphase q ▸ hmsg)

/-- What was handled was handled before, or was pending. -/
theorem handled_of_step {c c' : Client} {a : Client.Action} (h : c.step a = some c') {msg : S2C}
    (hmsg : msg ∈ c'.handled) :
    msg ∈ c.handled ∨ ∃ q, a = .handle q ∧ msg ∈ (c.queues q).phase.pending := by
  rcases Client.heads_of_step h hmsg with hold | ⟨q, rest, ha, hphase⟩
  · exact .inl hold
  · refine .inr ⟨q, ha, ?_⟩
    rw [hphase]
    exact List.mem_cons_self ..

theorem Transit.byClient {a : Client.Action} (hx : Transit x) (h : ByClient x a x') :
    Transit x' := by
  have hlater := hx.ledger.later h.step
  refine ⟨hx.ledger.step h.step, ?_, ?_, ?_, fun hstays => ?_, fun msg hmsg => ?_,
    fun q msg hmsg => ?_⟩
  · rw [h.toServer]
    exact Nat.le_trans hx.toServer hlater.out.length_le
  · rw [h.server]
    rcases h.read with ⟨q, batch, -, hfront, heq⟩ | ⟨-, heq⟩
    · rw [heq]
      have hle := hfront.length_le
      rw [List.length_drop] at hle
      have := hx.toClient
      omega
    · rw [heq]
      exact hx.toClient
  · rw [h.server]
    exact hx.served.trans hlater.out
  · rw [h.server] at hstays ⊢
    rw [hx.reads hstays, h.toServer, take_of_front hlater.out hx.toServer]
  · rw [h.server]
    rcases handled_of_step h.step hmsg with hold | ⟨q, -, hpending⟩
    · exact hx.heard msg hold
    · exact hx.waiting q msg hpending
  · rw [h.server]
    rcases pending_of_step h.step hmsg with hold | ⟨batch, rfl, hin⟩
    · exact hx.waiting q msg hold
    · rcases h.read with ⟨q', batch', heq, hfront, -⟩ | ⟨hnot, -⟩
      · cases heq
        exact List.mem_of_mem_drop (hfront.subset hin)
      · exact absurd rfl (hnot q batch)

theorem Transit.byServer {a : Server.Action} (hx : Transit x) (h : ByServer x a x') :
    Transit x' := by
  have hout := Server.out_of_step h.step
  have hin : ∀ msg, msg ∈ x.server.out → msg ∈ x'.server.out := fun _ hm => hout.subset hm
  refine ⟨h.client ▸ hx.ledger, ?_, ?_, ?_, fun hstays => ?_, fun msg hmsg => ?_,
    fun q msg hmsg => ?_⟩
  · rw [h.client]
    rcases h.read with ⟨batch, -, hfront, heq⟩ | ⟨-, heq⟩
    · rw [heq]
      have hle := hfront.length_le
      rw [List.length_drop] at hle
      have := hx.toServer
      omega
    · rw [heq]
      exact hx.toServer
  · rw [h.toClient]
    exact Nat.le_trans hx.toClient hout.length_le
  · rw [h.client]
    have hserved := hx.served
    have hprogress := Server.progress h.step
    cases hprogress with
    | read batch hidle hopen heq =>
      rcases h.read with ⟨batch', hbatch, hfront, -⟩ | ⟨hnot, -⟩
      · cases hbatch
        have hreads : x.server.handled = x.client.out.take x.toServer := by
          have := hx.reads (by simp [Server.Leaves, hidle, hopen, Server.Phase.unvisited])
          rwa [hidle, show Server.Phase.idle.pending = [] from rfl, List.append_nil] at this
        rw [heq]
        show x.server.handled ++ batch <+: x.client.out
        obtain ⟨rest, hrest⟩ := hfront
        refine ⟨rest, ?_⟩
        rw [hreads, List.append_assoc, hrest, List.take_append_drop]
      · exact absurd rfl (hnot batch)
    | handled msg rest hbatch hhandled hphase =>
      rw [hbatch] at hserved
      rw [hhandled]
      rcases hphase with ⟨-, hpending, -⟩ | ⟨left, hleft⟩
      · rw [hpending, List.append_assoc]
        exact hserved
      · rw [hleft]
        refine List.IsPrefix.trans ?_ hserved
        rw [show (Server.Phase.leaving left).pending = [] from rfl, List.append_nil]
        exact ⟨rest, by rw [List.append_assoc]; rfl⟩
    | still _ hhandled hread hhandle hphase =>
      rw [hhandled]
      rcases hphase with ⟨hpending, -, -⟩ | ⟨left, hleft⟩
      · rw [hpending]
        exact hserved
      · rw [hleft, show (Server.Phase.leaving left).pending = [] from rfl, List.append_nil]
        exact (List.prefix_append ..).trans hserved
  · rw [h.client]
    have hprogress := Server.progress h.step
    have hnotleaving : ∀ left, x'.server.phase ≠ .leaving left :=
      fun left hleft => hstays (.inl (by rw [hleft]; rfl))
    cases hprogress with
    | read batch hidle hopen heq =>
      rcases h.read with ⟨batch', hbatch, hfront, hto⟩ | ⟨hnot, -⟩
      · cases hbatch
        have hreads := hx.reads (by simp [Server.Leaves, hidle, hopen, Server.Phase.unvisited])
        rw [hidle, show Server.Phase.idle.pending = [] from rfl, List.append_nil] at hreads
        rw [heq, hto]
        show x.server.handled ++ batch = _
        rw [hreads, List.take_add, List.prefix_iff_eq_take.mp hfront]
        simp
      · exact absurd rfl (hnot batch)
    | handled msg rest hbatch hhandled hphase =>
      have hto : x'.toServer = x.toServer := by
        rcases h.read with ⟨batch, heq, -⟩ | ⟨-, hto⟩
        · cases heq
        · exact hto
      rcases hphase with ⟨-, hpending, hgone⟩ | ⟨left, hleft⟩
      · have hreads := hx.reads (fun hl => hstays (hl.elim (fun hs => by
          rw [hbatch] at hs
          cases hs) fun hg => .inr (hgone.trans hg)))
        rw [hbatch] at hreads
        rw [hhandled, hpending, hto, ← hreads, List.append_assoc]
        rfl
      · exact absurd hleft (hnotleaving left)
    | still _ hhandled hread hhandle hphase =>
      have hto : x'.toServer = x.toServer := by
        rcases h.read with ⟨batch, heq, -⟩ | ⟨-, hto⟩
        · exact absurd heq (hread batch)
        · exact hto
      rcases hphase with ⟨hpending, hleaves, -⟩ | ⟨left, hleft⟩
      · rw [hhandled, hpending, hto]
        exact hx.reads fun hl => hstays (hleaves hl)
      · exact absurd hleft (hnotleaving left)
  · exact hin msg (hx.heard msg (h.client ▸ hmsg))
  · exact hin msg (hx.waiting q msg (h.client ▸ hmsg))

theorem Transit.step {a : Action} (hx : Transit x) (h : step x a = some x') : Transit x' := by
  rcases step_cases h with ⟨b, hb, -⟩ | ⟨b, hb, -⟩
  · exact hx.byClient hb
  · exact hx.byServer hb

/-! ## How the runs that are shown begin -/

/-- The two sides shake hands. -/
def greeting : List Action :=
  [.serverReads 1, .server .handle, .server .finish, .clientReads 0 1, .client (.handle 0),
    .client (.finish 0), .serverReads 1, .server .handle, .server .finish, .clientReads 0 1,
    .client (.handle 0), .client (.finish 0)]

/-- A handle of the root object is bound. -/
def binding : List Action :=
  greeting ++ [.bind 0 "shop" 1, .serverReads 1, .server .handle, .server .return_, .server .finish,
    .clientReads 0 1, .client (.handle 0), .client (.finish 0)]

end Connection

end Hyprwire
