import Hyprwire.System.Freshness
import Hyprwire.System.Lifecycle
import Hyprwire.System.Polling

/-!
# `System/Clients.lean` — a server and its clients

`ServerSocket` dispatches its clients one after the other, the handlers of one may emit on the
objects of another, and clients come and go in between. `System/Server.lean` has one connection
and everything that is proved there is about one. Nothing is lost by that: what the socket does,
looked at from one of its clients, is a run of that client alone (`Lone`), whoever else is there.

A dispatch is one call of `dispatch_client` (`Whole`): the client reads, handles what it has read,
and comes to one of the four ends the function has. Between two passes a client stands idle
(`Standing`); one that was found in error has its objects still to be visited (`Doomed`) and is
gone before the pass returns.
-/

namespace Hyprwire

open Rust

/-! ## A dispatch, from the client's side -/

namespace Server

/-- What a client does in the middle of its dispatch. -/
def Action.within : Action → Bool
  | .emit _ _ _ | .error _ _ _ | .read _ | .handle | .return_ => true
  | _ => false

/-- How its dispatch ends. -/
def Action.closes : Action → Bool
  | .malformed | .finish | .unreadable | .hangup => true
  | _ => false

/-- The client waits for what comes next. -/
def Standing (s : Server) : Prop := s.phase = .idle ∧ s.gone = false

/-- The client is about to leave, and none of its objects was visited. -/
def Doomed (s : Server) : Prop := s.phase = .leaving s.table.reverse ∧ s.gone = false

/-- **A state that a connection of its own comes to.** -/
def Lone (impls : List ProtocolSpec) (s : Server) : Prop :=
  ∃ as, Run.run step { impls } as = some s

variable {s s' : Server} {a : Action}

theorem Lone.run {impls : List ProtocolSpec} (h : Lone impls s) {as : List Action}
    (hrun : Run.run step s as = some s') : Lone impls s' := by
  obtain ⟨before, hbefore⟩ := h
  exact ⟨before ++ as, Run.run_append.mpr ⟨s, hbefore, hrun⟩⟩

theorem aside_of_onSide (h : step s a = some s') (ha : a.onSide = true) : Aside s s' := by
  cases a with
  | emit k method args =>
    simp only [step, Option.ite_none_right_eq_some, Option.some.injEq] at h
    exact h.2 ▸ .call ..
  | error k errorId errorMsg =>
    simp only [step, Option.ite_none_right_eq_some, Option.some.injEq] at h
    exact h.2 ▸ .objectError ..
  | _ => cases ha

theorem Standing.aside (h : s.Standing) (hs : Aside s s') : s'.Standing :=
  ⟨hs.phase.trans h.1, hs.gone.trans h.2⟩

theorem Doomed.aside (h : s.Doomed) (hs : Aside s s') : s'.Doomed := by
  refine ⟨?_, hs.gone.trans h.2⟩
  rw [hs.phase, hs.table]
  exact h.1

/-- What is done on the side, all of it. -/
theorem aside_of_run {as : List Action} (h : Run.run step s as = some s')
    (hall : ∀ a ∈ as, a.onSide = true) : Aside s s' := by
  induction as generalizing s with
  | nil =>
    cases h
    exact .refl _
  | cons a as ih =>
    obtain ⟨t, hstep, hrun⟩ := Run.run_cons.mp h
    have hfirst := aside_of_onSide hstep (hall a (List.mem_cons_self ..))
    exact hfirst.trans (ih hrun fun b hb => hall b (List.mem_cons_of_mem a hb))

theorem out_of_run {as : List Action} (h : Run.run step s as = some s') : s.out <+: s'.out := by
  apply @Run.run_induction _ _ step (fun t => s.out <+: t.out) ?_ _ _ _ (List.prefix_refl _) h
  intro t a t' ht hstep
  exact ht.trans (out_of_step hstep)

/-- Only the last visit takes a client away. -/
theorem stays_of_step (h : step s a = some s') (ha : a ≠ .visit) : s'.gone = s.gone := by
  have habort : ∀ (t : Server) (errorMsg : String), (t.abort errorMsg).gone = t.gone := by
    intro t errorMsg
    exact (Aside.write t _).gone
  cases a with
  | emit k method args => exact (aside_of_onSide h rfl).gone
  | error k errorId errorMsg => exact (aside_of_onSide h rfl).gone
  | read batch =>
    simp only [step, Option.ite_none_right_eq_some, Option.some.injEq] at h
    obtain ⟨-, rfl⟩ := h
    rfl
  | handle =>
    obtain ⟨msg, rest, hphase, rfl⟩ := step_handle h
    cases msg with
    | sup => exact (Aside.write (s.heard .sup rest) _).gone
    | handshakeAck version => exact (Aside.write (s.heard (.handshakeAck version) rest) _).gone
    | bindProtocol seq version protocol =>
      by_cases hversion : version = 0
      · subst hversion
        exact habort (s.heard (.bindProtocol seq 0 protocol) rest) _
      · rw [handle_bind_eq s seq protocol rest hversion, createObject_eq]
        rfl
    | generic g => exact onGeneric_gone (s.heard (.generic g) rest) g rest
    | roundtripRequest seq queue => rfl
  | return_ =>
    simp only [step] at h
    split at h
    · cases h
      unfold returned
      split
      · simp only [afterDispatch_eq]
        split <;> rfl
      · rfl
    · cases h
      rfl
    · cases h
  | malformed =>
    simp only [step] at h
    split at h
    · cases h
      exact habort s _
    · cases h
  | finish =>
    simp only [step] at h
    split at h
    · cases h
      have hack : s.acknowledge.gone = s.gone := by
        unfold acknowledge
        split
        · exact (Aside.write ..).gone
        · rfl
      unfold finish
      simp only
      split <;> exact hack
    · cases h
  | unreadable =>
    simp only [step, Option.ite_none_right_eq_some, Option.some.injEq] at h
    exact h.2 ▸ habort s _
  | hangup =>
    simp only [step, Option.ite_none_right_eq_some, Option.some.injEq] at h
    obtain ⟨-, rfl⟩ := h
    rfl
  | remove =>
    simp only [step, Option.ite_none_right_eq_some, Option.some.injEq] at h
    obtain ⟨-, rfl⟩ := h
    rfl
  | visit => exact absurd rfl ha

theorem stays_of_run {as : List Action} (h : Run.run step s as = some s')
    (hall : ∀ a ∈ as, a.within = true) : s'.gone = s.gone := by
  induction as generalizing s with
  | nil =>
    cases h
    rfl
  | cons a as ih =>
    obtain ⟨t, hstep, hrun⟩ := Run.run_cons.mp h
    refine (ih hrun fun b hb => hall b (List.mem_cons_of_mem a hb)).trans (stays_of_step hstep ?_)
    intro hvisit
    subst hvisit
    cases hall _ (List.mem_cons_self ..)

/-- **The end of a dispatch**: the client is in no error and waits, or it is to leave. -/
theorem closed_of_step (h : step s a = some s') (ha : a.closes = true) (hgone : s.gone = false) :
    s'.Standing ∧ s'.error = false ∨ s'.Doomed ∧ s'.error = true := by
  have hleft : s'.gone = false := by
    refine (stays_of_step h ?_).trans hgone
    intro hvisit
    subst hvisit
    cases ha
  have habort : ∀ (t : Server) (errorMsg : String), (t.abort errorMsg).phase =
      .leaving (t.abort errorMsg).table.reverse := fun _ _ => rfl
  cases a with
  | malformed =>
    simp only [step] at h
    split at h
    · cases h
      exact .inr ⟨⟨habort s _, hleft⟩, rfl⟩
    · cases h
  | finish =>
    simp only [step] at h
    split at h
    · cases h
      cases herror : s.acknowledge.error with
      | true =>
        have hend : s.finish = s.acknowledge.startLeaving := by simp only [finish, herror, if_true]
        rw [hend] at hleft ⊢
        exact .inr ⟨⟨rfl, hleft⟩, herror⟩
      | false =>
        have hend : s.finish = { s.acknowledge with phase := .idle } := by
          simp only [finish, herror, Bool.false_eq_true, if_false]
        rw [hend] at hleft ⊢
        exact .inl ⟨⟨rfl, hleft⟩, herror⟩
    · cases h
  | unreadable =>
    simp only [step, Option.ite_none_right_eq_some, Option.some.injEq] at h
    obtain ⟨-, rfl⟩ := h
    exact .inr ⟨⟨habort s _, hleft⟩, rfl⟩
  | hangup =>
    simp only [step, Option.ite_none_right_eq_some, Option.some.injEq] at h
    obtain ⟨-, rfl⟩ := h
    exact .inr ⟨⟨rfl, hleft⟩, rfl⟩
  | _ => cases ha

/-- **A client that is to leave** comes to have left, by itself. -/
theorem Doomed.left {impls : List ProtocolSpec} (h : s.Doomed) (hlone : Lone impls s) :
    Lone impls s.destroyObjectsForDisconnect := by
  obtain ⟨as, hrun⟩ := run_startLeaving s
  have hsame : s.startLeaving = s := by
    unfold startLeaving
    rw [← h.1]
  rw [hsame] at hrun
  exact hlone.run hrun

/-- … and so does one that is removed by the server's user. -/
theorem Standing.removed {impls : List ProtocolSpec} (h : s.Standing) (hlone : Lone impls s) :
    Lone impls s.close.destroyObjectsForDisconnect := by
  have hstep : step s .remove = some s.close := by
    simp only [step, h.1, h.2, and_self, if_true]
  have hclosed : Lone impls s.close := hlone.run (Run.run_cons.mpr ⟨_, hstep, Run.run_nil _⟩)
  have hdoomed : s.close.Doomed := ⟨rfl, h.2⟩
  exact hdoomed.left hclosed

end Server

/-! ## A dispatch, from the socket's side -/

namespace ServerSocket

/-- What was done for the client of a stream, among all that was done. -/
def doneFor (conn : Nat) (acts : List (Nat × Server.Action)) : List Server.Action :=
  (acts.filter fun i => i.1 = conn).map Prod.snd

/-- **One call of `dispatch_client`**: the client is in the middle of its dispatch up to the last
thing that is done, and that is one of its ends. -/
def wholeDispatch (conn : Nat) (acts : List (Nat × Server.Action)) : Bool :=
  match acts.getLast? with
  | some i => i.1 = conn && i.2.closes && acts.dropLast.all fun i => i.1 ≠ conn || i.2.within
  | none => false

/-- The event of a stream comes with a whole dispatch. -/
def wholeEvent (ev : Ready) : Bool :=
  match ev.source with
  | .listener => true
  | .stream conn => wholeDispatch conn ev.acts

/-- … and so do all events of a pass. -/
def Op.whole : Op → Bool
  | .pass evs => evs.all wholeEvent
  | _ => true

variable {m : Overflow} {s s' : ServerSocket} {impls : List ProtocolSpec}

theorem doneFor_cons (conn : Nat) (i : Nat × Server.Action) (acts : List (Nat × Server.Action)) :
    doneFor conn (i :: acts) = if i.1 = conn then i.2 :: doneFor conn acts else doneFor conn acts := by
  unfold doneFor
  rw [List.filter_cons]
  by_cases h : i.1 = conn
  · rw [if_pos (decide_eq_true h), if_pos h, List.map_cons]
  · rw [if_neg (by simpa using h), if_neg h]

theorem doneFor_append (conn : Nat) (xs ys : List (Nat × Server.Action)) :
    doneFor conn (xs ++ ys) = doneFor conn xs ++ doneFor conn ys := by
  simp only [doneFor, List.filter_append, List.map_append]

/-- A step of the socket for one client, seen from each of them. -/
theorem act_seen {i : Nat × Server.Action} (hn : (s.names.map Prod.snd).Nodup)
    (h : s.act i = some s') : ∀ c' ∈ s'.clients, ∃ c ∈ s.clients, c'.id = c.id ∧ c'.conn = c.conn ∧
      Run.run Server.step c.state (doneFor c.conn [i]) = some c'.state := by
  unfold act at h
  cases hfind : s.clients.find? fun c => c.conn = i.1 with
  | none =>
    rw [hfind] at h
    cases h
  | some c₀ =>
    rw [hfind] at h
    obtain ⟨state, hstep, rfl⟩ := Option.map_eq_some_iff.mp h
    have hc₀ := List.mem_of_find?_eq_some hfind
    have hconn₀ : c₀.conn = i.1 := by simpa using List.find?_some hfind
    intro c' hc'
    obtain ⟨c, hc, rfl⟩ := List.mem_map.mp hc'
    by_cases hconn : c.conn = i.1
    · -- streams are not shared, so it is the client that was found
      have hsame : c = c₀ := by
        have hnodup : (s.clients.map fun c => c.conn).Nodup := by
          rwa [names, List.map_map] at hn
        exact List.inj_on_of_nodup_map hnodup hc hc₀ (hconn.trans hconn₀.symm)
      subst hsame
      refine ⟨c, hc, ?_, ?_, ?_⟩
      · rw [if_pos hconn]
      · rw [if_pos hconn]
      · rw [if_pos hconn, doneFor_cons, if_pos hconn.symm]
        exact Run.run_cons.mpr ⟨state, hstep, Run.run_nil _⟩
    · refine ⟨c, hc, ?_, ?_, ?_⟩
      · rw [if_neg hconn]
      · rw [if_neg hconn]
      · rw [if_neg hconn, doneFor_cons, if_neg fun heq => hconn heq.symm]
        exact Run.run_nil _

/-- **What was done to a client** is what was done for its stream, in that order. -/
theorem run_seen {acts : List (Nat × Server.Action)} (hn : (s.names.map Prod.snd).Nodup)
    (h : Run.run act s acts = some s') : ∀ c' ∈ s'.clients, ∃ c ∈ s.clients, c'.id = c.id ∧
      c'.conn = c.conn ∧ Run.run Server.step c.state (doneFor c.conn acts) = some c'.state := by
  induction acts generalizing s with
  | nil =>
    cases h
    intro c hc
    exact ⟨c, hc, rfl, rfl, Run.run_nil _⟩
  | cons i acts ih =>
    obtain ⟨t, hact, hrun⟩ := Run.run_cons.mp h
    have hnames : t.names = s.names := (act_beside hact).1.names
    intro c' hc'
    obtain ⟨c₁, hc₁, hid₁, hconn₁, hrun₁⟩ := ih (by rwa [hnames]) hrun c' hc'
    obtain ⟨c, hc, hid, hconn, hfirst⟩ := act_seen hn hact c₁ hc₁
    refine ⟨c, hc, hid₁.trans hid, hconn₁.trans hconn, ?_⟩
    rw [← List.singleton_append, doneFor_append]
    rw [hconn] at hrun₁
    exact Run.run_append.mpr ⟨c₁.state, hfirst, hrun₁⟩

/-- A whole dispatch, from its client's side. -/
theorem doneFor_whole {conn : Nat} {acts : List (Nat × Server.Action)}
    (h : wholeDispatch conn acts = true) : ∃ before last, doneFor conn acts = before ++ [last] ∧
      last.closes = true ∧ ∀ a ∈ before, a.within = true := by
  unfold wholeDispatch at h
  cases hlast : acts.getLast? with
  | none =>
    rw [hlast] at h
    cases h
  | some i =>
    rw [hlast] at h
    simp only [Bool.and_eq_true, decide_eq_true_eq] at h
    obtain ⟨⟨hconn, hcloses⟩, hwithin⟩ := h
    have hsplit : acts = acts.dropLast ++ [i] := (List.dropLast_append_getLast? i hlast).symm
    refine ⟨doneFor conn acts.dropLast, i.2, ?_, hcloses, ?_⟩
    · have hone : doneFor conn [i] = [i.2] := by
        rw [doneFor_cons, if_pos hconn]
        rfl
      rw [← hone, ← doneFor_append, ← hsplit]
    · intro a ha
      obtain ⟨j, hj, rfl⟩ := List.mem_map.mp ha
      obtain ⟨hj, hjconn⟩ := List.mem_filter.mp hj
      have hj' := List.all_eq_true.mp hwithin j hj
      have hsame : j.1 = conn := by simpa using hjconn
      simpa [hsame] using hj'

/-! ## The clients of a socket -/

/-- **Every client has come where it would have come alone**: those that are served wait, those
that were found in error are to leave, and those that were removed have left. No stream is in two
places. -/
structure Housed (impls : List ProtocolSpec) (s : ServerSocket) (dead : List Nat) : Prop where
  protocols : s.impls = impls
  lone : ∀ c ∈ s.clients, Server.Lone impls c.state
  standing : ∀ c ∈ s.clients, c.id ∉ dead → c.state.Standing
  doomed : ∀ c ∈ s.clients, c.id ∈ dead → c.state.Doomed
  left : ∀ c ∈ s.removed, Server.Lone impls c.state ∧ c.state.gone = true ∧ c.state.table = []
  streams : (s.names.map Prod.snd ++ s.removed.map (·.conn)).Nodup
  made : ∀ c ∈ s.removed, c.conn < s.conns

variable {dead : List Nat}

theorem Housed.congr (h : Housed impls s dead) (himpls : s'.impls = s.impls)
    (hclients : s'.clients = s.clients) (hremoved : s'.removed = s.removed)
    (hconns : s'.conns = s.conns) : Housed impls s' dead where
  protocols := himpls.trans h.protocols
  lone := hclients ▸ h.lone
  standing := hclients ▸ h.standing
  doomed := hclients ▸ h.doomed
  left := hremoved ▸ h.left
  streams := by
    rw [names, hclients, hremoved]
    exact h.streams
  made := by
    rw [hremoved, hconns]
    exact h.made

theorem act_impls {i : Nat × Server.Action} (h : s.act i = some s') : s'.impls = s.impls := by
  unfold act at h
  split at h
  · cases h
  · obtain ⟨state, -, rfl⟩ := Option.map_eq_some_iff.mp h
    rfl

theorem run_act_impls {acts : List (Nat × Server.Action)} (h : Run.run act s acts = some s') :
    s'.impls = s.impls := by
  apply @Run.run_induction _ _ act (fun t => t.impls = s.impls) ?_ _ _ _ rfl h
  intro t i t' ht hact
  exact (act_impls hact).trans ht

/-- What is done for a client on the side leaves it where it stands. -/
theorem stays_of_side {before after : Server} {as : List Server.Action}
    (h : Run.run Server.step before as = some after) (hside : ∀ a ∈ as, a.onSide = true) :
    (before.Standing → after.Standing) ∧ (before.Doomed → after.Doomed) := by
  have haside := Server.aside_of_run h hside
  exact ⟨fun hs => hs.aside haside, fun hd => hd.aside haside⟩

/-- A handler does something on the side. -/
theorem Housed.act {conn : Nat} {a : Server.Action} (h : Housed impls s dead)
    (ha : a.onSide = true) (hact : s.act (conn, a) = some s') : Housed impls s' dead := by
  have hb := (act_beside hact).1
  have hn : (s.names.map Prod.snd).Nodup := (List.nodup_append.mp h.streams).1
  have hside : ∀ conn', ∀ b ∈ doneFor conn' [(conn, a)], b.onSide = true := by
    intro conn' b hb
    obtain ⟨j, hj, rfl⟩ := List.mem_map.mp hb
    rw [List.mem_singleton.mp (List.mem_filter.mp hj).1]
    exact ha
  refine ⟨(act_impls hact).trans h.protocols, ?_, ?_, ?_, hb.removed ▸ h.left, ?_, ?_⟩
  · intro c' hc'
    obtain ⟨c, hc, -, -, hrun⟩ := act_seen hn hact c' hc'
    exact (h.lone c hc).run hrun
  · intro c' hc' halive
    obtain ⟨c, hc, hid, -, hrun⟩ := act_seen hn hact c' hc'
    rw [hid] at halive
    exact (stays_of_side hrun (hside _)).1 (h.standing c hc halive)
  · intro c' hc' hdead
    obtain ⟨c, hc, hid, -, hrun⟩ := act_seen hn hact c' hc'
    rw [hid] at hdead
    exact (stays_of_side hrun (hside _)).2 (h.doomed c hc hdead)
  · rw [hb.names, hb.removed]
    exact h.streams
  · rw [hb.removed, hb.conns]
    exact h.made

/-- What the dispatch of a client makes of the clients. -/
structure Dispatched (impls : List ProtocolSpec) (s : ServerSocket) (dead : List Nat) (conn : Nat)
    (s' : ServerSocket) : Prop where
  protocols : s'.impls = impls
  lone : ∀ c ∈ s'.clients, Server.Lone impls c.state
  others : ∀ c ∈ s'.clients, c.conn ≠ conn →
    (c.id ∉ dead → c.state.Standing) ∧ (c.id ∈ dead → c.state.Doomed)
  own : ∀ c ∈ s'.clients, c.conn = conn →
    c.state.Standing ∧ c.state.error = false ∨ c.state.Doomed ∧ c.state.error = true

theorem Housed.dispatch {c : SocketClient} {acts : List (Nat × Server.Action)}
    (h : Housed impls s dead) (hc : c ∈ s.clients) (halive : c.id ∉ dead)
    (hwhole : wholeDispatch c.conn acts = true) (hd : s.dispatchClient c.conn acts = some s') :
    Dispatched impls s dead c.conn s' := by
  have hn : (s.names.map Prod.snd).Nodup := (List.nodup_append.mp h.streams).1
  have hnodup : (s.clients.map fun c => c.conn).Nodup := by
    rwa [names, List.map_map] at hn
  unfold dispatchClient at hd
  split at hd
  · next hside =>
    obtain ⟨t, hrun, hd⟩ := Option.bind_eq_some_iff.mp hd
    split at hd
    · cases hd
      have hseen := run_seen hn hrun
      refine ⟨(run_act_impls hrun).trans h.protocols, ?_, ?_, ?_⟩
      · intro c' hc'
        obtain ⟨c₀, hc₀, -, -, hrun₀⟩ := hseen c' hc'
        exact (h.lone c₀ hc₀).run hrun₀
      · -- somebody else is only acted upon on the side
        intro c' hc' hother
        obtain ⟨c₀, hc₀, hid, hconn, hrun₀⟩ := hseen c' hc'
        have hstays := stays_of_side hrun₀ (by
          intro a ha
          obtain ⟨j, hj, rfl⟩ := List.mem_map.mp ha
          obtain ⟨hj, hjconn⟩ := List.mem_filter.mp hj
          refine (hside j hj).resolve_left ?_
          intro hown
          have hsame : j.1 = c₀.conn := by simpa using hjconn
          exact hother (hconn.trans (hsame.symm.trans hown)))
        rw [hid]
        exact ⟨fun hstill => hstays.1 (h.standing c₀ hc₀ hstill),
          fun hdead => hstays.2 (h.doomed c₀ hc₀ hdead)⟩
      · intro c' hc' hown
        obtain ⟨c₀, hc₀, -, hconn, hrun₀⟩ := hseen c' hc'
        have hsame : c₀ = c := List.inj_on_of_nodup_map hnodup hc₀ hc (hconn.symm.trans hown)
        subst hsame
        obtain ⟨before, last, hdone, hcloses, hwithin⟩ := doneFor_whole hwhole
        rw [hdone] at hrun₀
        obtain ⟨u, hbefore, hlast⟩ := Run.run_append.mp hrun₀
        obtain ⟨v, hstep, hend⟩ := Run.run_cons.mp hlast
        cases hend
        have hgone : u.gone = false :=
          (Server.stays_of_run hbefore hwithin).trans (h.standing c₀ hc₀ halive).2
        exact Server.closed_of_step hstep hcloses hgone
    · cases hd
  · cases hd

/-! ## A pass -/

variable {ev : Ready} {evs : List Ready} {R : Nat → Prop}

/-- **While the loop goes on**: a client that was found in error has no event left. -/
structure Passing (impls : List ProtocolSpec) (R : Nat → Prop) (s : ServerSocket) (dead : List Nat)
    (evs : List Ready) : Prop extends Housed impls s dead where
  going : Going R s dead evs
  found : ∀ id ∈ dead, ∃ n ∈ s.names, n.1 = id
  spent : ∀ n ∈ s.names, n.1 ∈ dead → ∀ ev ∈ evs, ev.source ≠ .stream n.2

/-- A client is taken in. -/
theorem Housed.newClient (h : Housed impls s dead) (hn : Named s) (hfresh : s.nextClientId ∉ dead)
    (hnew : s.newClient m = some s') : Housed impls s' dead := by
  obtain ⟨next, -, rfl⟩ := Option.map_eq_some_iff.mp hnew
  have hlone : Server.Lone impls { impls := s.impls } := by
    rw [h.protocols]
    exact ⟨[], Run.run_nil _⟩
  refine ⟨h.protocols, ?_, ?_, ?_, h.left, ?_, ?_⟩
  · intro c hc
    rcases List.mem_append.mp hc with hc | hc
    · exact h.lone c hc
    · rw [List.mem_singleton.mp hc]
      exact hlone
  · intro c hc halive
    rcases List.mem_append.mp hc with hc | hc
    · exact h.standing c hc halive
    · rw [List.mem_singleton.mp hc]
      exact ⟨rfl, rfl⟩
  · intro c hc hdead
    rcases List.mem_append.mp hc with hc | hc
    · exact h.doomed c hc hdead
    · rw [List.mem_singleton.mp hc] at hdead
      exact absurd hdead hfresh
  · -- the stream is the next one, and all that were made are before it
    have hnames : ∀ t ∈ s.names.map Prod.snd ++ s.removed.map (·.conn), t ≠ s.conns := by
      intro t ht
      rcases List.mem_append.mp ht with ht | ht
      · obtain ⟨n, hn', rfl⟩ := List.mem_map.mp ht
        exact Nat.ne_of_lt (hn.made n hn')
      · obtain ⟨c, hc, rfl⟩ := List.mem_map.mp ht
        exact Nat.ne_of_lt (h.made c hc)
    have hperm : (s.names.map Prod.snd ++ [s.conns] ++ s.removed.map (·.conn)).Perm
        (s.conns :: (s.names.map Prod.snd ++ s.removed.map (·.conn))) := by
      rw [List.append_assoc, List.singleton_append]
      exact List.perm_middle
    simp only [names, List.map_append, List.map_cons, List.map_nil] at hperm hnames ⊢
    refine hperm.nodup_iff.mpr (List.nodup_cons.mpr ⟨?_, h.streams⟩)
    intro hin
    exact hnames _ hin rfl
  · intro c hc
    exact Nat.lt_succ_of_lt (h.made c hc)

theorem Housed.addClient {added : Bool} (h : Housed impls s []) (hn : Named s)
    (hadd : s.addClient m added = some s') : Housed impls s' [] := by
  unfold ServerSocket.addClient at hadd
  split at hadd
  · cases hadd
    exact { h with made := fun c hc => Nat.lt_succ_of_lt (h.made c hc) }
  · exact h.newClient hn (by simp) hadd

theorem Housed.rearm (h : Housed impls s dead) (source : Source) (key : Nat) (modified : Bool) :
    Housed impls (s.rearm source key modified).1 dead := by
  unfold ServerSocket.rearm
  split
  · exact h.congr rfl rfl rfl rfl
  · exact h

/-- The event of the listener. -/
theorem Housed.lookListener {ok : Bool} (h : Housed impls s dead) (hn : Named s)
    (hfresh : ev.accepted = true → s.nextClientId ∉ dead)
    (hlook : lookListener m s ev = some (s', ok)) : Housed impls s' dead := by
  obtain ⟨⟨s₁, added⟩, hacc, heq⟩ := Option.map_eq_some_iff.mp hlook
  have h₁ : Housed impls s₁ dead := by
    unfold acceptOne at hacc
    split at hacc
    · cases hacc
      exact h
    · split at hacc
      · cases hacc
        exact h
      · next hrefused =>
        split at hacc
        · cases hacc
          exact { h with made := fun c hc => Nat.lt_succ_of_lt (h.made c hc) }
        · obtain ⟨s₂, hnew, heq₂⟩ := Option.map_eq_some_iff.mp hacc
          cases heq₂
          exact h.newClient hn (hfresh (by simpa using hrefused)) hnew
  cases added with
  | false =>
    simp only [if_true] at heq
    cases heq
    exact h₁
  | true =>
    simp only [Bool.true_eq_false, if_false] at heq
    split at heq
    · have hrearmed := h₁.rearm .listener listenerKey ev.modified
      rw [heq] at hrearmed
      exact hrearmed
    · cases heq
      exact h₁

/-- The event of a client. -/
theorem Housed.lookClient {c : SocketClient} {dead' : List Nat} {ok : Bool}
    (h : Housed impls s dead) (hn : Named s) (hc : c ∈ s.clients) (hkey : ev.key = c.id)
    (halive : c.id ∉ dead) (hwhole : wholeDispatch c.conn ev.acts = true)
    (hlook : s.lookClient dead ev c = some (s', dead', ok)) :
    Housed impls s' dead' ∧ (dead' = dead ∨ dead' = dead ++ [c.id]) := by
  obtain ⟨s₁, hdispatch, heq⟩ := Option.map_eq_some_iff.mp hlook
  have hb := (dispatchClient_beside hdispatch).1
  have hd := h.dispatch hc halive hwhole hdispatch
  have hn₁ := hn.beside hb
  have hname : (c.id, c.conn) ∈ s₁.names := hb.names ▸ mem_names hc
  -- the client of the stream is the client of the id
  have hown : ∀ c' ∈ s₁.clients, c'.conn = c.conn ↔ c'.id = c.id := by
    intro c' hc'
    constructor
    · intro hconn
      have hsame := List.inj_on_of_nodup_map hn₁.conns (mem_names hc') hname hconn
      exact (Prod.mk.inj hsame).1
    · intro hid
      have hsame := List.inj_on_of_nodup_map hn₁.ids (mem_names hc') hname hid
      exact (Prod.mk.inj hsame).2
  have hleft : ∀ x ∈ s₁.removed, Server.Lone impls x.state ∧ x.state.gone = true ∧
      x.state.table = [] := hb.removed ▸ h.left
  have hstreams : (s₁.names.map Prod.snd ++ s₁.removed.map (·.conn)).Nodup := by
    rw [hb.names, hb.removed]
    exact h.streams
  have hmade : ∀ x ∈ s₁.removed, x.conn < s₁.conns := by
    rw [hb.removed, hb.conns]
    exact h.made
  split at heq
  · next herror =>
    cases heq
    rw [hkey]
    refine ⟨⟨hd.protocols, hd.lone, ?_, ?_, hleft, hstreams, hmade⟩, .inr rfl⟩
    · intro c' hc' hstill
      rw [List.mem_append, not_or, List.mem_singleton] at hstill
      exact (hd.others c' hc' fun hconn => hstill.2 ((hown c' hc').mp hconn)).1 hstill.1
    · intro c' hc' hdead
      by_cases hconn : c'.conn = c.conn
      · -- the client is in error, so it does not wait
        obtain ⟨c₂, hc₂, hflag⟩ := List.any_eq_true.mp herror
        simp only [Bool.and_eq_true, decide_eq_true_eq] at hflag
        have hsame : c₂ = c' := by
          have hnodup : (s₁.clients.map fun c => c.conn).Nodup := by
            have hconns := hn₁.conns
            rwa [names, List.map_map] at hconns
          exact List.inj_on_of_nodup_map hnodup hc₂ hc' (hflag.1.trans hconn.symm)
        rcases hd.own c' hc' hconn with hstill | hdoomed
        · rw [hsame, hstill.2] at hflag
          cases hflag.2
        · exact hdoomed.1
      · refine (hd.others c' hc' hconn).2 ?_
        rcases List.mem_append.mp hdead with hdead | hdead
        · exact hdead
        · exact absurd ((hown c' hc').mpr (List.mem_singleton.mp hdead)) hconn
  · next hfine =>
    have h₁ : Housed impls s₁ dead := by
      refine ⟨hd.protocols, hd.lone, ?_, ?_, hleft, hstreams, hmade⟩
      · intro c' hc' hstill
        by_cases hconn : c'.conn = c.conn
        · rcases hd.own c' hc' hconn with hstanding | hdoomed
          · exact hstanding.1
          · refine absurd ?_ hfine
            refine List.any_eq_true.mpr ⟨c', hc', ?_⟩
            simp only [hconn, hdoomed.2, decide_true, Bool.and_self]
        · exact (hd.others c' hc' hconn).1 hstill
      · intro c' hc' hdead
        by_cases hconn : c'.conn = c.conn
        · rw [(hown c' hc').mp hconn] at hdead
          exact absurd hdead halive
        · exact (hd.others c' hc' hconn).2 hdead
    cases heq
    exact ⟨h₁.rearm .., .inl rfl⟩

theorem rearm_names (source : Source) (key : Nat) (modified : Bool) :
    (s.rearm source key modified).1.names = s.names := by
  unfold ServerSocket.rearm
  split <;> rfl

/-- The listener's event brings one name at most, and a new one. -/
theorem lookListener_names {ok : Bool} (hlook : lookListener m s ev = some (s', ok)) :
    s'.names = s.names ∨
      ev.accepted = true ∧ s'.names = s.names ++ [(s.nextClientId, s.conns)] := by
  obtain ⟨⟨s₁, added⟩, hacc, heq⟩ := Option.map_eq_some_iff.mp hlook
  have h₁ : s₁.names = s.names ∨
      ev.accepted = true ∧ s₁.names = s.names ++ [(s.nextClientId, s.conns)] := by
    unfold acceptOne at hacc
    split at hacc
    · cases hacc
      exact .inl rfl
    · split at hacc
      · cases hacc
        exact .inl rfl
      · next hrefused =>
        split at hacc
        · cases hacc
          exact .inl rfl
        · obtain ⟨s₂, hnew, heq₂⟩ := Option.map_eq_some_iff.mp hacc
          cases heq₂
          obtain ⟨next, -, rfl⟩ := Option.map_eq_some_iff.mp hnew
          refine .inr ⟨by simpa using hrefused, ?_⟩
          simp only [names, List.map_append, List.map_cons, List.map_nil]
  cases added with
  | false =>
    simp only [if_true] at heq
    cases heq
    exact h₁
  | true =>
    simp only [Bool.true_eq_false, if_false] at heq
    split at heq
    · have hnames := rearm_names (s := s₁) .listener listenerKey ev.modified
      rw [heq] at hnames
      rwa [hnames]
    · cases heq
      exact h₁

theorem lookClient_names {c : SocketClient} {dead' : List Nat} {ok : Bool}
    (hlook : s.lookClient dead ev c = some (s', dead', ok)) : s'.names = s.names := by
  obtain ⟨s₁, hdispatch, heq⟩ := Option.map_eq_some_iff.mp hlook
  have hb := (dispatchClient_beside hdispatch).1
  split at heq
  · cases heq
    exact hb.names
  · cases heq
    exact (rearm_names ..).trans hb.names

/-- An event is looked at. -/
theorem Passing.look {dead' : List Nat} (h : Passing impls R s dead (ev :: evs))
    (hfresh : ev.source = .listener → ev.accepted = true → s.nextClientId ∉ dead)
    (hwhole : wholeEvent ev = true)
    (hgoing : Going R s' dead' evs) (hlook : look m s dead ev = some (s', dead', true)) :
    Passing impls R s' dead' evs := by
  have hn := h.going.toNamed
  unfold ServerSocket.look at hlook
  rcases h.going.pending ev (List.mem_cons_self ..) with ⟨heq, -⟩ | ⟨n, hname, heq⟩
  · obtain ⟨hsource, hkey⟩ := Prod.mk.inj heq
    rw [if_pos hkey] at hlook
    obtain ⟨⟨s₁, ok₁⟩, hlistener, heq₁⟩ := Option.map_eq_some_iff.mp hlook
    cases heq₁
    have hnames := lookListener_names hlistener
    refine { h.toHoused.lookListener hn (hfresh hsource) hlistener with
      going := hgoing, found := ?_, spent := ?_ }
    · intro id hid
      obtain ⟨n, hn', rfl⟩ := h.found id hid
      rcases hnames with hnames | ⟨-, hnames⟩
      · exact ⟨n, hnames ▸ hn', rfl⟩
      · exact ⟨n, hnames ▸ List.mem_append_left _ hn', rfl⟩
    · intro n hn' hdead ev' hev'
      have hold : n ∈ s.names := by
        rcases hnames with hnames | ⟨hacc, hnames⟩
        · exact hnames ▸ hn'
        · rw [hnames] at hn'
          rcases List.mem_append.mp hn' with hn' | hn'
          · exact hn'
          · rw [List.mem_singleton.mp hn'] at hdead
            exact absurd hdead (hfresh hsource hacc)
      exact h.spent n hold hdead ev' (List.mem_cons_of_mem _ hev')
  · obtain ⟨hsource, hkey⟩ := Prod.mk.inj heq
    rw [if_neg (hkey ▸ hn.pos n hname)] at hlook
    obtain ⟨c, hc, hid, hconn, hfind⟩ := hn.find_id hname
    rw [hkey] at hlook
    simp only [hfind] at hlook
    have halive : c.id ∉ dead := by
      intro hdead
      rw [hid] at hdead
      exact h.spent n hname hdead ev (List.mem_cons_self ..) hsource
    have hdispatch : wholeDispatch c.conn ev.acts = true := by
      unfold wholeEvent at hwhole
      rw [hsource] at hwhole
      rw [hconn]
      exact hwhole
    obtain ⟨hhoused, hdead'⟩ := h.toHoused.lookClient hn hc (hkey.trans hid.symm) halive hdispatch hlook
    have hnames : s'.names = s.names := lookClient_names hlook
    refine { hhoused with going := hgoing, found := ?_, spent := ?_ }
    · intro id hin
      rw [hnames]
      rcases hdead' with rfl | rfl
      · exact h.found id hin
      · rcases List.mem_append.mp hin with hin | hin
        · exact h.found id hin
        · exact ⟨n, hname, hid.symm.trans (List.mem_singleton.mp hin).symm⟩
    · intro n' hn' hdead ev' hev'
      rw [hnames] at hn'
      by_cases hold : n'.1 ∈ dead
      · exact h.spent n' hn' hold ev' (List.mem_cons_of_mem _ hev')
      · rcases hdead' with rfl | rfl
        · exact absurd hdead hold
        · -- it is the client of this very event, and a stream has one event
          have hsame : n' = n := by
            have hid' := List.mem_singleton.mp ((List.mem_append.mp hdead).resolve_left hold)
            exact List.inj_on_of_nodup_map hn.ids hn' hname (hid'.trans hid)
          intro hstream
          refine (List.nodup_cons.mp h.going.sources).1 (List.mem_map.mpr ⟨ev', hev', ?_⟩)
          exact hstream.trans (hsame ▸ hsource.symm)

theorem Passing.fresh (h : Passing impls R s dead evs) (hfresh : s.Fresh) :
    s.nextClientId ∉ dead := by
  intro hin
  obtain ⟨n, hn, hid⟩ := h.found _ hin
  obtain ⟨c, hc, rfl⟩ := List.mem_map.mp hn
  exact hfresh.2 c hc hid

/-- **All events are looked at**, where no call of the poller fails. -/
theorem Passing.events {dead' : List Nat} {ok : Bool} (h : Passing impls R s dead evs)
    (hfresh : (∃ ev ∈ evs, ev.source = .listener ∧ ev.accepted = true) → s.Fresh)
    (hcalls : ∀ ev ∈ evs, ev.added = true ∧ ev.modified = true)
    (hwhole : ∀ ev ∈ evs, wholeEvent ev = true)
    (hevents : ServerSocket.events m s dead evs = some (s', dead', ok)) :
    Passing impls R s' dead' [] := by
  induction evs generalizing s dead with
  | nil =>
    cases hevents
    exact h
  | cons ev evs ih =>
    simp only [ServerSocket.events] at hevents
    cases hlook : ServerSocket.look m s dead ev with
    | none =>
      rw [hlook] at hevents
      cases hevents
    | some result =>
      obtain ⟨s₁, dead₁, ok₁⟩ := result
      have hlooked := looked h.going (fun hsource hacc =>
        hfresh ⟨ev, List.mem_cons_self .., hsource, hacc⟩) hlook
      have hev := hcalls ev (List.mem_cons_self ..)
      have hok : ok₁ = true := hlooked.succeeds hev.1 hev.2
      subst hok
      rw [hlook] at hevents
      have h₁ : Passing impls R s₁ dead₁ evs := by
        refine h.look ?_ (hwhole ev (List.mem_cons_self ..)) (hlooked.going rfl) hlook
        intro hsource hacc
        exact h.fresh (hfresh ⟨ev, List.mem_cons_self .., hsource, hacc⟩)
      refine ih h₁ ?_ (fun ev' hev' => hcalls ev' (List.mem_cons_of_mem _ hev'))
        (fun ev' hev' => hwhole ev' (List.mem_cons_of_mem _ hev')) hevents
      intro hacc
      obtain ⟨ev', hev', hsource, hacc⟩ := hacc
      refine hlooked.fresh ?_ (hfresh ⟨ev', List.mem_cons_of_mem _ hev', hsource, hacc⟩)
      intro hlistener
      exact (List.nodup_cons.mp h.going.sources).1
        (List.mem_map.mpr ⟨ev', hev', hsource.trans hlistener.symm⟩)

/-! ## Leaving -/

/-- A client goes from one list to the other. -/
theorem Housed.move {c : SocketClient} {t : Server} (h : Housed impls s dead) (hn : Named s)
    (hc : c ∈ s.clients) (hlone : Server.Lone impls t) (hgone : t.gone = true) (htable : t.table = [])
    (hclients : s'.clients = s.clients.filter fun c' => c'.id ≠ c.id)
    (hremoved : s'.removed = s.removed ++ [{ c with state := t }]) (himpls : s'.impls = s.impls)
    (hconns : s'.conns = s.conns) : Housed impls s' dead := by
  have hsub : ∀ c' ∈ s'.clients, c' ∈ s.clients := by
    intro c' hc'
    rw [hclients] at hc'
    exact (List.mem_filter.mp hc').1
  refine ⟨himpls.trans h.protocols, fun c' hc' => h.lone c' (hsub c' hc'),
    fun c' hc' => h.standing c' (hsub c' hc'), fun c' hc' => h.doomed c' (hsub c' hc'), ?_, ?_, ?_⟩
  · intro c' hc'
    rw [hremoved] at hc'
    rcases List.mem_append.mp hc' with hc' | hc'
    · exact h.left c' hc'
    · rw [List.mem_singleton.mp hc']
      exact ⟨hlone, hgone, htable⟩
  · -- the stream that is added to the one list was taken out of the other
    obtain ⟨hclientsNodup, hremovedNodup, hapart⟩ := List.nodup_append.mp h.streams
    have hmap : s'.names.map Prod.snd = (s'.clients.map fun c => c.conn) := by
      rw [names, List.map_map]
      rfl
    have hold : s.names.map Prod.snd = (s.clients.map fun c => c.conn) := by
      rw [names, List.map_map]
      rfl
    rw [hmap, hremoved, List.map_append]
    rw [hold] at hclientsNodup hapart
    refine List.nodup_append.mpr ⟨?_, List.nodup_append.mpr ⟨hremovedNodup, List.nodup_singleton _, ?_⟩,
      ?_⟩
    · rw [hclients]
      exact hclientsNodup.sublist (List.filter_sublist.map _)
    · intro x hx y hy hxy
      rw [List.mem_singleton.mp hy] at hxy
      exact hapart _ (List.mem_map.mpr ⟨c, hc, rfl⟩) x hx hxy.symm
    · intro x hx y hy hxy
      obtain ⟨c', hc', rfl⟩ := List.mem_map.mp hx
      rcases List.mem_append.mp hy with hy | hy
      · exact hapart _ (List.mem_map.mpr ⟨c', hsub c' hc', rfl⟩) y hy hxy
      · have hconn : c'.conn = c.conn := hxy.trans (List.mem_singleton.mp hy)
        have hsame := List.inj_on_of_nodup_map hclientsNodup (hsub c' hc') hc hconn
        rw [hclients] at hc'
        have hne := (List.mem_filter.mp hc').2
        rw [hsame] at hne
        simp at hne
  · intro c' hc'
    rw [hremoved] at hc'
    rw [hconns]
    rcases List.mem_append.mp hc' with hc' | hc'
    · exact h.made c' hc'
    · rw [List.mem_singleton.mp hc']
      exact hn.made _ (mem_names hc)

/-- **The clients found in error leave.** -/
theorem Housed.buryAll {ids : List Nat} (h : Housed impls s dead) (hn : Named s)
    (hids : ∀ id ∈ ids, id ∈ dead) : Housed impls (s.buryAll ids) dead := by
  induction ids generalizing s with
  | nil => exact h
  | cons id ids ih =>
    have hrest : ∀ id' ∈ ids, id' ∈ dead := fun id' hid' => hids id' (List.mem_cons_of_mem _ hid')
    simp only [ServerSocket.buryAll]
    cases hfind : s.clients.find? fun c => c.id = id with
    | none => exact ih h hn hrest
    | some c =>
      have hc := List.mem_of_find?_eq_some hfind
      have hid : c.id = id := by simpa using List.find?_some hfind
      subst hid
      have hnodup : (s.clients.map (·.id)).Nodup := by
        have hids := hn.ids
        rwa [names, List.map_map] at hids
      have hdoomed := h.doomed c hc (hids _ (List.mem_cons_self ..))
      refine ih ?_ ((buried_one hn hc).named hn) hrest
      exact h.move hn hc (hdoomed.left (h.lone c hc)) rfl rfl (eraseP_eq_filter _ hnodup) rfl rfl rfl

theorem filter_id_eq {c : SocketClient} : ∀ {l : List SocketClient}, (l.map (·.id)).Nodup → c ∈ l →
    l.filter (fun c' => c'.id = c.id) = [c] := by
  intro l
  induction l with
  | nil =>
    intro _ hc
    cases hc
  | cons d l ih =>
    intro hnodup hc
    obtain ⟨hd, hl⟩ := List.nodup_cons.mp hnodup
    rcases List.mem_cons.mp hc with rfl | hc
    · have hrest : l.filter (fun c' => c'.id = c.id) = [] := by
        refine List.filter_eq_nil_iff.mpr ?_
        intro c' hc' hsame
        exact hd (List.mem_map.mpr ⟨c', hc', by simpa using hsame⟩)
      rw [List.filter_cons_of_pos (by simp), hrest]
    · have hne : ¬ d.id = c.id := by
        intro hsame
        exact hd (List.mem_map.mpr ⟨c, hc, hsame.symm⟩)
      rw [List.filter_cons_of_neg (by simpa using hne)]
      exact ih hl hc

theorem Housed.removeClient (h : Housed impls s []) (hn : Named s) (id : Nat) :
    Housed impls (s.removeClient id) [] := by
  have hnodup : (s.clients.map (·.id)).Nodup := by
    have hids := hn.ids
    rwa [names, List.map_map] at hids
  unfold ServerSocket.removeClient
  cases hfind : s.clients.find? fun c => c.id = id with
  | none =>
    have hnone : ∀ c ∈ s.clients, c.id ≠ id := by
      intro c hc
      simpa using List.find?_eq_none.mp hfind c hc
    have hleaving : (s.clients.filter fun c => c.id = id) = [] := by
      refine List.filter_eq_nil_iff.mpr ?_
      intro c hc
      simpa using hnone c hc
    have hkept : (s.clients.filter fun c => c.id ≠ id) = s.clients := by
      refine List.filter_eq_self.mpr ?_
      intro c hc
      simpa using hnone c hc
    simp only [hleaving, List.foldl_nil, hkept]
    exact h
  | some c =>
    have hc := List.mem_of_find?_eq_some hfind
    have hid : c.id = id := by simpa using List.find?_some hfind
    subst hid
    have hleaving := filter_id_eq hnodup hc
    simp only [hleaving, List.foldl_cons, List.foldl_nil]
    have hstanding := h.standing c hc (by simp)
    exact h.move hn hc (hstanding.removed (h.lone c hc)) rfl rfl rfl rfl rfl rfl

/-! ## Whole runs -/

theorem Housed.pass {ok : Bool} (h : Housed impls s []) (hs : Steady s)
    (htrusts : Trusts s (.pass evs)) (hwhole : ∀ ev ∈ evs, wholeEvent ev = true)
    (hpass : s.dispatchPending m evs = some (s', ok)) : Housed impls s' [] := by
  obtain ⟨s₁, hwait, hpass⟩ := Option.bind_eq_some_iff.mp hpass
  obtain ⟨⟨s₂, dead, ok₂⟩, hevents, heq⟩ := Option.map_eq_some_iff.mp hpass
  obtain ⟨hgoing, hnames, hnext, hclients⟩ := hs.going hwait
  have hkept : s₁.impls = s.impls ∧ s₁.removed = s.removed ∧ s₁.conns = s.conns := by
    unfold ServerSocket.wait at hwait
    split at hwait
    · cases hwait
      exact ⟨rfl, rfl, rfl⟩
    · cases hwait
  have h₁ : Passing impls (HasEvent s evs) s₁ [] evs := by
    refine { h.congr hkept.1 hclients hkept.2.1 hkept.2.2 with going := hgoing, found := ?_, spent := ?_ }
    · intro id hid
      cases hid
    · intro n hn hdead
      cases hdead
  have hfresh : (∃ ev ∈ evs, ev.source = .listener ∧ ev.accepted = true) → s₁.Fresh := by
    intro hacc
    have hfresh := htrusts.2 hacc
    rw [Fresh, hnext, hclients]
    exact hfresh
  have h₂ := h₁.events hfresh htrusts.1 hwhole hevents
  have hok : ok₂ = true := (events_spec hgoing hfresh hevents).2.2 htrusts.1
  subst hok
  cases heq
  have hend := h₂.toHoused.buryAll h₂.going.toNamed (fun id hid => hid)
  have hnames := (@buryAll_buried dead _ h₂.going.toNamed).names
  -- whoever was found in error is in the list no more
  refine { hend with standing := ?_, doomed := ?_ }
  · intro c hc _
    exact hend.standing c hc ((hnames _).mp (mem_names hc)).2
  · intro c hc hdead
    cases hdead

theorem Housed.step {op : Op} (h : Housed impls s []) (hs : Steady s) (htrusts : Trusts s op)
    (hwhole : op.whole = true) (hstep : ServerSocket.step m s op = some s') : Housed impls s' [] := by
  cases op with
  | pass evs =>
    obtain ⟨⟨t, ok⟩, hpass, rfl⟩ := Option.map_eq_some_iff.mp hstep
    exact h.pass hs htrusts (List.all_eq_true.mp hwhole) hpass
  | add added => exact h.addClient hs.toNamed hstep
  | remove id =>
    cases hstep
    exact h.removeClient hs.toNamed id
  | act conn a =>
    simp only [ServerSocket.step, Option.ite_none_right_eq_some] at hstep
    exact h.act hstep.1 hstep.2

theorem Housed.start (listening : Bool) (impls : List ProtocolSpec) :
    Housed impls (start listening impls) [] where
  protocols := rfl
  lone _ hc := by cases hc
  standing _ hc := by cases hc
  doomed _ hc := by cases hc
  left _ hc := by cases hc
  streams := List.nodup_nil
  made _ hc := by cases hc

/-- What is asked of a step: the poller does as it is told, and a dispatch is a whole one.

The first is needed: a client that is found in error in a pass that breaks off stays among the
clients with its departure begun. The second only says what a step is: the actions that an event comes
with are one call of `dispatch_client` from its read to its end, with what handlers do to other
clients in between. -/
def Orderly (s : ServerSocket) (op : Op) : Prop := Trusts s op ∧ op.whole = true

instance (s : ServerSocket) (op : Op) : Decidable (Orderly s op) :=
  inferInstanceAs (Decidable (_ ∧ _))

theorem housed_of_run {listening : Bool} {ops : List Op}
    (hmeets : Run.Meets (ServerSocket.step m) Orderly (ServerSocket.start listening impls) ops)
    (hrun : Run.run (ServerSocket.step m) (ServerSocket.start listening impls) ops = some s) :
    Steady s ∧ Housed impls s [] := by
  refine @Run.run_meeting _ _ (ServerSocket.step m) (fun s => Steady s ∧ Housed impls s []) _ ?_ _ _ _
    ⟨.start listening impls, .start listening impls⟩ hmeets hrun
  intro s op s' hs horderly hstep
  exact ⟨hs.1.step horderly.1 hstep, hs.2.step hs.1 horderly.1 horderly.2 hstep⟩

/-- **What a socket makes of its clients**: each has come where a connection of its own comes to,
is in one place, and is served or has left with all of its objects. -/
structure Separate (impls : List ProtocolSpec) (s : ServerSocket) : Prop where
  served : ∀ c ∈ s.clients, Server.Lone impls c.state ∧ c.state.Standing
  left : ∀ c ∈ s.removed, Server.Lone impls c.state ∧ c.state.gone = true ∧ c.state.table = []
  once : ((s.clients ++ s.removed).map (·.conn)).Nodup

/-- **Clients do not meet.** -/
theorem clients_separate {listening : Bool} {ops : List Op}
    (hmeets : Run.Meets (ServerSocket.step m) Orderly (ServerSocket.start listening impls) ops)
    (hrun : Run.run (ServerSocket.step m) (ServerSocket.start listening impls) ops = some s) :
    Separate impls s := by
  have h := (housed_of_run hmeets hrun).2
  refine ⟨fun c hc => ⟨h.lone c hc, h.standing c hc (by simp)⟩, h.left, ?_⟩
  have hstreams := h.streams
  rw [names, List.map_map] at hstreams
  rw [List.map_append]
  exact hstreams

theorem clients_separate_serving : ∃ s,
    Run.run (ServerSocket.step .checked) (ServerSocket.start true [shopProtocol]) serving = some s ∧
      Separate [shopProtocol] s :=
  ⟨_, rfl, @clients_separate .checked _ [shopProtocol] true serving (by decide) rfl⟩

/-! ## What is left of the others -/

/-- A client as it was, but for what handlers have done to its objects. -/
def StillThere (c : SocketClient) (s : ServerSocket) : Prop :=
  ∃ c' ∈ s.clients, c'.id = c.id ∧ c'.conn = c.conn ∧ Server.Aside c.state c'.state ∧
    c.state.out <+: c'.state.out

/-- Nothing of this is an event of the client, and nobody removes it. -/
def Op.spares (id : Nat) : Op → Bool
  | .pass evs => evs.all fun ev => ev.key ≠ id
  | .remove id' => id' ≠ id
  | .add _ | .act _ _ => true

variable {c : SocketClient}

theorem StillThere.refl (hc : c ∈ s.clients) : StillThere c s :=
  ⟨c, hc, rfl, rfl, .refl _, List.prefix_refl _⟩

theorem StillThere.mono (h : StillThere c s) (hmem : ∀ c' ∈ s.clients, c'.id = c.id → c' ∈ s'.clients) :
    StillThere c s' := by
  obtain ⟨c', hc', hid, hrest⟩ := h
  exact ⟨c', hmem c' hc' hid, hid, hrest⟩

/-- What is done on the side leaves a client there. -/
theorem StillThere.run {acts : List (Nat × Server.Action)} (h : StillThere c s) (hn : Named s)
    (hrun : Run.run act s acts = some s') (hnames : s'.names = s.names)
    (hside : ∀ a ∈ doneFor c.conn acts, a.onSide = true) : StillThere c s' := by
  obtain ⟨c₁, hc₁, hid, hconn, haside, hout⟩ := h
  have hname : (c₁.id, c₁.conn) ∈ s'.names := hnames ▸ mem_names hc₁
  obtain ⟨c', hc', hname'⟩ := List.mem_map.mp hname
  obtain ⟨hid', hconn'⟩ := Prod.mk.inj hname'
  obtain ⟨c₀, hc₀, hid₀, hconn₀, hrun₀⟩ := run_seen hn.conns hrun c' hc'
  have hsame : c₀ = c₁ := by
    have hnodup : (s.clients.map fun c => c.conn).Nodup := by
      have hconns := hn.conns
      rwa [names, List.map_map] at hconns
    exact List.inj_on_of_nodup_map hnodup hc₀ hc₁ (hconn₀.symm.trans hconn')
  subst hsame
  rw [hconn] at hrun₀
  exact ⟨c', hc', hid'.trans hid, hconn'.trans hconn, haside.trans (Server.aside_of_run hrun₀ hside),
    hout.trans (Server.out_of_run hrun₀)⟩

theorem StillThere.act {conn : Nat} {a : Server.Action} (h : StillThere c s) (hn : Named s)
    (ha : a.onSide = true) (hact : s.act (conn, a) = some s') : StillThere c s' := by
  refine h.run hn (Run.run_cons.mpr ⟨s', hact, Run.run_nil _⟩) (act_beside hact).1.names ?_
  intro b hb
  obtain ⟨j, hj, rfl⟩ := List.mem_map.mp hb
  rw [List.mem_singleton.mp (List.mem_filter.mp hj).1]
  exact ha

theorem StillThere.dispatch {c₀ : SocketClient} {acts : List (Nat × Server.Action)}
    (h : StillThere c s) (hn : Named s) (hc₀ : c₀ ∈ s.clients) (hother : c₀.id ≠ c.id)
    (hd : s.dispatchClient c₀.conn acts = some s') : StillThere c s' := by
  have hconn : c₀.conn ≠ c.conn := by
    intro hsame
    obtain ⟨c₁, hc₁, hid, hconn, -⟩ := h
    have heq := List.inj_on_of_nodup_map hn.conns (mem_names hc₀) (mem_names hc₁) (hsame.trans hconn.symm)
    exact hother ((Prod.mk.inj heq).1.trans hid)
  unfold dispatchClient at hd
  split at hd
  · next hside =>
    obtain ⟨t, hrun, hd⟩ := Option.bind_eq_some_iff.mp hd
    have hnames : t.names = s.names := by
      apply @Run.run_induction _ _ ServerSocket.act (fun t => t.names = s.names) ?_ _ _ _ rfl hrun
      intro u i v hu hact
      exact (act_beside hact).1.names.trans hu
    split at hd
    · cases hd
      refine (h.run hn hrun hnames ?_).mono fun c' hc' _ => hc'
      intro a ha
      obtain ⟨j, hj, rfl⟩ := List.mem_map.mp ha
      obtain ⟨hj, hjconn⟩ := List.mem_filter.mp hj
      refine (hside j hj).resolve_left ?_
      intro hown
      have hsame : j.1 = c.conn := by simpa using hjconn
      exact hconn (hown.symm.trans hsame)
    · cases hd
  · cases hd

theorem rearm_clients (source : Source) (key : Nat) (modified : Bool) :
    (s.rearm source key modified).1.clients = s.clients := by
  unfold ServerSocket.rearm
  split <;> rfl

theorem lookListener_clients {ok : Bool} (hlook : lookListener m s ev = some (s', ok)) :
    ∀ c ∈ s.clients, c ∈ s'.clients := by
  obtain ⟨⟨s₁, added⟩, hacc, heq⟩ := Option.map_eq_some_iff.mp hlook
  have h₁ : ∀ c ∈ s.clients, c ∈ s₁.clients := by
    intro c hc
    unfold acceptOne at hacc
    split at hacc
    · cases hacc
      exact hc
    · split at hacc
      · cases hacc
        exact hc
      · split at hacc
        · cases hacc
          exact hc
        · obtain ⟨s₂, hnew, heq₂⟩ := Option.map_eq_some_iff.mp hacc
          cases heq₂
          obtain ⟨next, -, rfl⟩ := Option.map_eq_some_iff.mp hnew
          exact List.mem_append_left _ hc
  cases added with
  | false =>
    simp only [if_true] at heq
    cases heq
    exact h₁
  | true =>
    simp only [Bool.true_eq_false, if_false] at heq
    split at heq
    · have hclients := rearm_clients (s := s₁) .listener listenerKey ev.modified
      rw [heq] at hclients
      rwa [hclients]
    · cases heq
      exact h₁

/-- The event of somebody else. -/
theorem StillThere.look {dead' : List Nat} {ok : Bool} (h : StillThere c s)
    (hgoing : Going R s dead (ev :: evs)) (hother : ev.key ≠ c.id)
    (hlook : ServerSocket.look m s dead ev = some (s', dead', ok)) :
    StillThere c s' ∧ (dead' = dead ∨ dead' = dead ++ [ev.key]) := by
  have hn := hgoing.toNamed
  unfold ServerSocket.look at hlook
  split at hlook
  · obtain ⟨⟨s₁, ok₁⟩, hlistener, heq⟩ := Option.map_eq_some_iff.mp hlook
    cases heq
    exact ⟨h.mono fun c' hc' _ => lookListener_clients hlistener c' hc', .inl rfl⟩
  · split at hlook
    · cases hlook
      exact ⟨h, .inl rfl⟩
    · next c₀ hfind =>
      have hid : c₀.id = ev.key := by simpa using List.find?_some hfind
      obtain ⟨s₁, hdispatch, heq⟩ := Option.map_eq_some_iff.mp hlook
      have h₁ := h.dispatch hn (List.mem_of_find?_eq_some hfind) (hid ▸ hother) hdispatch
      split at heq
      · cases heq
        exact ⟨h₁.mono fun c' hc' _ => hc', .inr rfl⟩
      · cases heq
        refine ⟨h₁.mono ?_, .inl rfl⟩
        intro c' hc' _
        show c' ∈ (s₁.rearm (.stream c₀.conn) ev.key ev.modified).1.clients
        rw [rearm_clients]
        exact hc'

theorem StillThere.events {dead' : List Nat} {ok : Bool} (h : StillThere c s)
    (hgoing : Going R s dead evs)
    (hfresh : (∃ ev ∈ evs, ev.source = .listener ∧ ev.accepted = true) → s.Fresh)
    (hothers : ∀ ev ∈ evs, ev.key ≠ c.id) (halive : c.id ∉ dead)
    (hevents : ServerSocket.events m s dead evs = some (s', dead', ok)) :
    StillThere c s' ∧ c.id ∉ dead' := by
  induction evs generalizing s dead with
  | nil =>
    cases hevents
    exact ⟨h, halive⟩
  | cons ev evs ih =>
    simp only [ServerSocket.events] at hevents
    cases hlook : ServerSocket.look m s dead ev with
    | none =>
      rw [hlook] at hevents
      cases hevents
    | some result =>
      obtain ⟨s₁, dead₁, ok₁⟩ := result
      have hlooked := looked hgoing (fun hsource hacc =>
        hfresh ⟨ev, List.mem_cons_self .., hsource, hacc⟩) hlook
      obtain ⟨h₁, hdead₁⟩ := h.look hgoing (hothers ev (List.mem_cons_self ..)) hlook
      have halive₁ : c.id ∉ dead₁ := by
        rcases hdead₁ with rfl | rfl
        · exact halive
        · rw [List.mem_append, List.mem_singleton, not_or]
          exact ⟨halive, fun hsame => hothers ev (List.mem_cons_self ..) hsame.symm⟩
      rw [hlook] at hevents
      cases ok₁ with
      | false =>
        cases hevents
        exact ⟨h₁, halive₁⟩
      | true =>
        refine ih h₁ (hlooked.going rfl) ?_ (fun ev' hev' => hothers ev' (List.mem_cons_of_mem _ hev'))
          halive₁ hevents
        intro hacc
        obtain ⟨ev', hev', hsource, hacc⟩ := hacc
        refine hlooked.fresh ?_ (hfresh ⟨ev', List.mem_cons_of_mem _ hev', hsource, hacc⟩)
        intro hlistener
        exact (List.nodup_cons.mp hgoing.sources).1
          (List.mem_map.mpr ⟨ev', hev', hsource.trans hlistener.symm⟩)

theorem buryAll_spares {ids : List Nat} : ∀ {s : ServerSocket}, c ∈ s.clients → c.id ∉ ids →
    c ∈ (s.buryAll ids).clients := by
  induction ids with
  | nil =>
    intro s hc _
    exact hc
  | cons id ids ih =>
    intro s hc hid
    obtain ⟨hne, hrest⟩ := not_or.mp (fun h => hid (List.mem_cons.mpr h))
    simp only [ServerSocket.buryAll]
    split
    · exact ih hc hrest
    · refine ih ?_ hrest
      exact (List.mem_eraseP_of_neg (by simpa using hne)).mpr hc

theorem StillThere.step {op : Op} (h : StillThere c s) (hs : Steady s) (htrusts : Trusts s op)
    (hspares : op.spares c.id = true) (hstep : ServerSocket.step m s op = some s') :
    StillThere c s' := by
  cases op with
  | pass evs =>
    obtain ⟨⟨t, ok⟩, hpass, rfl⟩ := Option.map_eq_some_iff.mp hstep
    obtain ⟨s₁, hwait, hpass⟩ := Option.bind_eq_some_iff.mp hpass
    obtain ⟨⟨s₂, dead, ok₂⟩, hevents, heq⟩ := Option.map_eq_some_iff.mp hpass
    obtain ⟨hgoing, hnames, hnext, hclients⟩ := hs.going hwait
    have hothers : ∀ ev ∈ evs, ev.key ≠ c.id := by
      intro ev hev
      simpa using List.all_eq_true.mp hspares ev hev
    have h₁ : StillThere c s₁ := h.mono fun c' hc' _ => hclients ▸ hc'
    have hfresh : (∃ ev ∈ evs, ev.source = .listener ∧ ev.accepted = true) → s₁.Fresh := by
      intro hacc
      have hfresh := htrusts.2 hacc
      rw [Fresh, hnext, hclients]
      exact hfresh
    obtain ⟨h₂, halive⟩ := h₁.events hgoing hfresh hothers (by simp) hevents
    cases ok₂ with
    | true =>
      cases heq
      refine h₂.mono fun c' hc' hid => buryAll_spares hc' ?_
      rw [hid]
      exact halive
    | false =>
      cases heq
      exact h₂
  | add added =>
    simp only [ServerSocket.step, ServerSocket.addClient] at hstep
    split at hstep
    · cases hstep
      exact h
    · obtain ⟨next, -, rfl⟩ := Option.map_eq_some_iff.mp hstep
      exact h.mono fun c' hc' _ => List.mem_append_left _ hc'
  | remove id =>
    cases hstep
    refine h.mono fun c' hc' hid => ?_
    have hclients : (s.removeClient id).clients = s.clients.filter fun c => c.id ≠ id :=
      congrArg (List.filter _) (@foldl_bury (s.clients.filter fun c => c.id = id) s).2.2.1
    rw [hclients]
    refine List.mem_filter.mpr ⟨hc', ?_⟩
    have hne : id ≠ c.id := by simpa [Op.spares] using hspares
    rw [hid]
    exact decide_eq_true hne.symm
  | act conn a =>
    simp only [ServerSocket.step, Option.ite_none_right_eq_some] at hstep
    exact h.act hs.toNamed hstep.1 hstep.2

/-- **What the others do reaches a client through handlers alone.** While it has no event and is not
removed, it stays, nothing it sent is read or handled, and no object of it comes or goes; it may
only be spoken to, be flagged, and have objects marked. -/
theorem others_only_emit {listening : Bool} {ops more : List Op}
    (hmeets : Run.Meets (ServerSocket.step m) Orderly (ServerSocket.start listening impls) (ops ++ more))
    (hrun : Run.run (ServerSocket.step m) (ServerSocket.start listening impls) ops = some s)
    (hmore : Run.run (ServerSocket.step m) s more = some s') (hc : c ∈ s.clients)
    (hspares : ∀ op ∈ more, op.spares c.id = true) : StillThere c s' := by
  have hsteady : Steady s := (housed_of_run (Run.meets_append hmeets) hrun).1
  have horderly := Run.meets_drop hrun hmeets
  have hboth : Run.Meets (ServerSocket.step m) (fun s op => Orderly s op ∧ op.spares c.id = true) s more :=
    Run.meets_and horderly (Run.meets_of_forall hspares)
  have hinv := @Run.run_meeting _ _ (ServerSocket.step m) (fun t => Steady t ∧ StillThere c t) _
    (fun t op t' ht hcond hstep =>
      ⟨ht.1.step hcond.1.1 hstep, ht.2.step ht.1 hcond.1.1 hcond.2 hstep⟩)
    _ _ _ ⟨hsteady, .refl hc⟩ hboth hmore
  exact hinv.2

/-- The second client binds the protocol. -/
def binds : Ready where
  source := .stream 1
  key := 2
  acts := [(1, .read [.bindProtocol 1 1 "shop"]), (1, .handle), (1, .return_), (1, .finish)]

/-- The first one hangs up, and a handler tells the second one. -/
def tells : Ready := { hangsUp with acts := [(1, .emit 0 0 []), (0, .hangup)] }

theorem others_only_emit_tells : ∃ s s' c,
    Run.run (ServerSocket.step .checked) (ServerSocket.start true [shopProtocol])
        [.pass [arrives], .pass [greets, arrives], .pass [binds]] = some s ∧
      Run.run (ServerSocket.step .checked) s [.pass [tells]] = some s' ∧
      s'.clients.length = 1 ∧ StillThere c s' :=
  ⟨_, _, _, rfl, rfl, rfl, @others_only_emit .checked _ _ [shopProtocol] _ true
    [.pass [arrives], .pass [greets, arrives], .pass [binds]] [.pass [tells]] (by decide) rfl rfl
    (.tail _ (.head _)) (by decide)⟩

end ServerSocket

end Hyprwire
