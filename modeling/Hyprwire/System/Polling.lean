import Mathlib.Data.List.Nodup
import Hyprwire.Lib.Outcome
import Hyprwire.System.Turn

/-!
# `System/Polling.lean` — the server's event loop

`ServerSocket` with its poller: `dispatch_pending`, `accept_one`, `add_client` and
`remove_client`. A registration is good for one event: `wait` hands the event over and disarms
its source, and `modify` arms it again. What the kernel answers, and what the dispatch of a client
does, stands with the event it happens for (`Ready`); the dispatch itself is made of the steps of
`System/Server.lean`, on the side of which its handlers may act on the objects of other clients.

A pass whose poller calls all succeed leaves everything armed, the clients in error removed and no
ready client behind (`Survives`). The first call that fails leaves through a `?`: its own source
stays disarmed for good, the clients that were found in error stay in the list, and the events
behind it are lost.
-/

namespace Hyprwire

open Rust

/-! ## Leaving, all at once -/

namespace Server

/-- `destroy_for_disconnect`, with the callback. -/
def disconnect (s : Server) (k : Nat) : Server :=
  match disconnectDestructor (s.objects k) with
  | none => s
  | some _ => { s with destructs := s.destructs ++ [k] }.destroy k

/-- `destroy_objects_for_disconnect`. -/
def destroyObjectsForDisconnect (s : Server) : Server :=
  (s.table.reverse.foldl disconnect s).leave

/-- What its handlers may do on a client whose dispatch they are not part of. -/
def Action.onSide : Action → Bool
  | .emit _ _ _ | .error _ _ _ => true
  | _ => false

/-- Going through the objects one by one comes to the same. -/
theorem run_disconnect : ∀ (rest : List Nat) (s : Server), ∃ acts,
    Run.run step { s with phase := .leaving rest } acts = some (rest.foldl disconnect s).leave
  | [], s => ⟨[.visit], rfl⟩
  | k :: rest, s => by
    obtain ⟨acts, hacts⟩ := run_disconnect rest (s.disconnect k)
    cases hfind : disconnectDestructor (s.objects k) with
    | none =>
      have hkeep : s.disconnect k = s := by simp only [disconnect, hfind]
      have hstep : step { s with phase := .leaving (k :: rest) } .visit =
          some { s.disconnect k with phase := .leaving rest } := by
        simp only [step, visit, hfind, hkeep]
      exact ⟨.visit :: acts, Run.run_cons.mpr ⟨_, hstep, hacts⟩⟩
    | some m =>
      have hgo : s.disconnect k = { s with destructs := s.destructs ++ [k] }.destroy k := by
        simp only [disconnect, hfind]
      cases hdata : (s.objects k).objectData with
      | false =>
        have hstep : step { s with phase := .leaving (k :: rest) } .visit =
            some { s.disconnect k with phase := .leaving rest } := by
          simp only [step, visit, hfind, hdata, hgo]
          rfl
        exact ⟨.visit :: acts, Run.run_cons.mpr ⟨_, hstep, hacts⟩⟩
      | true =>
        have hvisit : step { s with phase := .leaving (k :: rest) } .visit =
            some { s with phase := .leavingCallback rest k, destructs := s.destructs ++ [k] } := by
          simp only [step, visit, hfind, hdata, if_true]
        have hreturn : step
            { s with phase := .leavingCallback rest k, destructs := s.destructs ++ [k] } .return_ =
            some { s.disconnect k with phase := .leaving rest } := by
          simp only [step, hgo]
          rfl
        exact ⟨.visit :: .return_ :: acts,
          Run.run_cons.mpr ⟨_, hvisit, Run.run_cons.mpr ⟨_, hreturn, hacts⟩⟩⟩

/-- **A client that leaves** comes to the end of it, and all of its objects with it. -/
theorem run_startLeaving (s : Server) :
    ∃ acts, Run.run step s.startLeaving acts = some s.destroyObjectsForDisconnect :=
  run_disconnect s.table.reverse s

end Server

/-! ## The socket and its poller -/

/-- What the poller watches. A stream is known by its place among the streams that were made. -/
inductive Source
  | listener
  | stream (conn : Nat)
  deriving DecidableEq, Repr

/-- `LISTENER_KEY`. -/
def listenerKey : Nat := 0

/-- A `ServerClientState` in the list of clients: its id, its stream and what it does. -/
structure SocketClient where
  id : Nat
  conn : Nat
  state : Server

/-- `ServerSocket`. The poller is the registrations that are armed, with their keys. The history
has the number of streams, which clients the last pass dispatched and found in error, and the
clients that were removed, as they left. -/
structure ServerSocket where
  listening : Bool := false
  impls : List ProtocolSpec := []
  armed : List (Source × Nat) := []
  clients : List SocketClient := []
  nextClientId : Nat := 1
  -- history
  conns : Nat := 0
  dispatched : List Nat := []
  found : List Nat := []
  removed : List SocketClient := []

/-- An event, and what happens while it is looked at: whether `accept` gives a connection that can
be made non-blocking, whether `add` and `modify` succeed, and what the dispatch does. -/
structure Ready where
  source : Source
  key : Nat
  accepted : Bool := false
  added : Bool := true
  modified : Bool := true
  acts : List (Nat × Server.Action) := []

namespace ServerSocket

/-- `Poller::add` and `Poller::modify`. -/
def arm (s : ServerSocket) (source : Source) (key : Nat) : ServerSocket :=
  { s with armed := (source, key) :: s.armed.filter fun r => r.1 ≠ source }

/-- `Poller::delete`. -/
def disarm (s : ServerSocket) (source : Source) : ServerSocket :=
  { s with armed := s.armed.filter fun r => r.1 ≠ source }

/-- `Poller::wait`: an event disarms its source. -/
def wait (s : ServerSocket) (evs : List Ready) : Option ServerSocket :=
  if (evs.map (·.source)).Nodup ∧ ∀ ev ∈ evs, (ev.source, ev.key) ∈ s.armed then
    some { s with
      armed := s.armed.filter fun r => r.1 ∉ evs.map (·.source)
      dispatched := [], found := [] }
  else none

/-! ### Dispatching -/

/-- A client takes a step. -/
def act (s : ServerSocket) (i : Nat × Server.Action) : Option ServerSocket :=
  match s.clients.find? fun c => c.conn = i.1 with
  | none => none
  | some c => (Server.step c.state i.2).map fun state =>
    { s with clients := s.clients.map fun c => if c.conn = i.1 then { c with state } else c }

/-- The client's flag. -/
def inError (s : ServerSocket) (conn : Nat) : Bool :=
  s.clients.any fun c => c.conn = conn && c.state.error

/-- Its dispatch is at an end. -/
def settled (s : ServerSocket) (conn : Nat) : Bool :=
  s.clients.all fun c => c.conn ≠ conn || !c.state.phase.dispatching

/-- `dispatch_client`. -/
def dispatchClient (s : ServerSocket) (conn : Nat) (acts : List (Nat × Server.Action)) :
    Option ServerSocket :=
  if ∀ i ∈ acts, i.1 = conn ∨ i.2.onSide = true then
    (Run.run act s acts).bind fun s =>
      if s.settled conn then some { s with dispatched := s.dispatched ++ [conn] } else none
  else none

/-! ### The loop -/

/-- `self.next_client_id += 1`. -/
def nextId (m : Overflow) (id : Nat) : Option Nat :=
  if id + 1 < wordSize then some (id + 1)
  else
    match m with
    | .checked => none
    | .wrapping => some 0

/-- A client for a stream whose registration succeeds. -/
def newClient (m : Overflow) (s : ServerSocket) : Option ServerSocket :=
  (nextId m s.nextClientId).map fun nextClientId =>
    { s.arm (.stream s.conns) s.nextClientId with
      nextClientId
      conns := s.conns + 1
      clients := s.clients ++ [⟨s.nextClientId, s.conns, { impls := s.impls }⟩] }

/-- `accept_one`; `false` is the error of `add`. -/
def acceptOne (m : Overflow) (s : ServerSocket) (ev : Ready) : Option (ServerSocket × Bool) :=
  if s.listening = false then some (s, true)
  else if ev.accepted = false then some (s, true)
  else if ev.added = false then some ({ s with conns := s.conns + 1 }, false)
  else (s.newClient m).map fun s => (s, true)

/-- `modify`; `false` is its error. -/
def rearm (s : ServerSocket) (source : Source) (key : Nat) (modified : Bool) :
    ServerSocket × Bool :=
  if modified then (s.arm source key, true) else (s, false)

/-- The event of the listener. -/
def lookListener (m : Overflow) (s : ServerSocket) (ev : Ready) : Option (ServerSocket × Bool) :=
  (acceptOne m s ev).map fun (s, ok) =>
    if ok = false then (s, false)
    else if s.listening then s.rearm .listener listenerKey ev.modified
    else (s, true)

/-- The event of a client: the clients found in error gather in `dead`. -/
def lookClient (s : ServerSocket) (dead : List Nat) (ev : Ready) (c : SocketClient) :
    Option (ServerSocket × List Nat × Bool) :=
  (s.dispatchClient c.conn ev.acts).map fun s =>
    if s.inError c.conn then ({ s with found := s.found ++ [c.conn] }, dead ++ [ev.key], true)
    else
      let (s, ok) := s.rearm (.stream c.conn) ev.key ev.modified
      (s, dead, ok)

/-- The body of the loop; `false` is a `?` that leaves the function. -/
def look (m : Overflow) (s : ServerSocket) (dead : List Nat) (ev : Ready) :
    Option (ServerSocket × List Nat × Bool) :=
  if ev.key = listenerKey then (lookListener m s ev).map fun (s, ok) => (s, dead, ok)
  else
    match s.clients.find? fun c => c.id = ev.key with
    | none => some (s, dead, true)
    | some c => s.lookClient dead ev c

/-- `for ev in events.iter()`. -/
def events (m : Overflow) (s : ServerSocket) (dead : List Nat) :
    List Ready → Option (ServerSocket × List Nat × Bool)
  | [] => some (s, dead, true)
  | ev :: evs =>
    match look m s dead ev with
    | none => none
    | some (s, dead, false) => some (s, dead, false)
    | some (s, dead, true) => events m s dead evs

/-- A client is removed: its objects are destroyed and its stream is no longer watched. -/
def bury (s : ServerSocket) (c : SocketClient) : ServerSocket :=
  { s.disarm (.stream c.conn) with
    removed := s.removed ++ [{ c with state := c.state.destroyObjectsForDisconnect }] }

/-- `for id in dead`. -/
def buryAll (s : ServerSocket) : List Nat → ServerSocket
  | [] => s
  | id :: dead =>
    match s.clients.find? fun c => c.id = id with
    | none => s.buryAll dead
    | some c => { s.bury c with clients := s.clients.eraseP fun c => c.id = id }.buryAll dead

/-- **`dispatch_pending`**, with whether it returns `Ok`. -/
def dispatchPending (m : Overflow) (s : ServerSocket) (evs : List Ready) :
    Option (ServerSocket × Bool) :=
  (s.wait evs).bind fun s => (events m s [] evs).map fun (s, dead, ok) =>
    if ok then (s.buryAll dead, true) else (s, false)

/-! ### Whole runs -/

/-- `add_client`, whose registration may fail. -/
def addClient (m : Overflow) (s : ServerSocket) (added : Bool) : Option ServerSocket :=
  if added = false then some { s with conns := s.conns + 1 } else s.newClient m

/-- `remove_client`. -/
def removeClient (s : ServerSocket) (id : Nat) : ServerSocket :=
  let leaving := s.clients.filter fun c => c.id = id
  let s := leaving.foldl (fun s c => s.bury { c with state := c.state.close }) s
  { s with clients := s.clients.filter fun c => c.id ≠ id }

inductive Op
  | pass (evs : List Ready)
  | add (added : Bool)
  | remove (id : Nat)
  | act (conn : Nat) (a : Server.Action)

/-- **The socket.** `dispatch_events` is a number of passes, and what the handlers of a client that
leaves do to others counts as done behind the pass. A `wait` that fails changes nothing. -/
def step (m : Overflow) (s : ServerSocket) : Op → Option ServerSocket
  | .pass evs => (s.dispatchPending m evs).map Prod.fst
  | .add added => s.addClient m added
  | .remove id => some (s.removeClient id)
  | .act conn a => if a.onSide then s.act (conn, a) else none

/-- `ServerSocket::bind` and `ServerSocket::detached`. -/
def start (listening : Bool) (impls : List ProtocolSpec) : ServerSocket :=
  { listening, impls, armed := if listening then [(.listener, listenerKey)] else [] }

/-! ## What a pass owes -/

/-- **A pass is survived**: everything is armed, what was found in error is gone with its objects,
and no client that was ready was passed by. -/
structure Survives (s : ServerSocket) (evs : List Ready) (s' : ServerSocket) : Prop where
  listener : s'.listening = true → (.listener, listenerKey) ∈ s'.armed
  clients : ∀ c ∈ s'.clients, (.stream c.conn, c.id) ∈ s'.armed
  dead : ∀ conn ∈ s'.found, (∀ c ∈ s'.clients, c.conn ≠ conn) ∧
    ∃ c ∈ s'.removed, c.conn = conn ∧ c.state.gone = true ∧ c.state.table = []
  ready : ∀ c ∈ s.clients, ∀ ev ∈ evs, ev.source = .stream c.conn → c.conn ∈ s'.dispatched

/-- The id that is given next is neither the listener's key nor a client's. -/
def Fresh (s : ServerSocket) : Prop :=
  s.nextClientId ≠ listenerKey ∧ ∀ c ∈ s.clients, c.id ≠ s.nextClientId

/-- **The condition** on a step: in a pass every call of the poller succeeds, and a client that is
taken in gets an id of its own.

A `modify` that fails ends a pass where it stands, with the errors of the clients before it found but
not yet seen to, and an `add` that fails leaves the listener disarmed; ids come round after 2^32
clients, and the poller does not take two streams under one key. Which events a pass has, in which
order, what clients sent and what handlers do is left open. -/
def Trusts (s : ServerSocket) : Op → Prop
  | .pass evs =>
    (∀ ev ∈ evs, ev.added = true ∧ ev.modified = true) ∧
    ((∃ ev ∈ evs, ev.source = .listener ∧ ev.accepted = true) → s.Fresh)
  | .add added => added = true → s.Fresh
  | _ => True

variable {m : Overflow} {s s' : ServerSocket} {dead dead' : List Nat} {ev : Ready}
  {evs : List Ready}

instance (s : ServerSocket) : Decidable s.Fresh :=
  inferInstanceAs (Decidable (_ ∧ _))

instance (s : ServerSocket) : ∀ op, Decidable (Trusts s op)
  | .pass _ => inferInstanceAs (Decidable (_ ∧ (_ → _)))
  | .add _ => inferInstanceAs (Decidable (_ → _))
  | .remove _ | .act _ _ => .isTrue trivial

/-! ## Ids and streams -/

/-- The clients, by what the poller knows of them. -/
def names (s : ServerSocket) : List (Nat × Nat) := s.clients.map fun c => (c.id, c.conn)

theorem mem_names {c : SocketClient} (h : c ∈ s.clients) : (c.id, c.conn) ∈ s.names :=
  List.mem_map.mpr ⟨c, h, rfl⟩

/-- Nobody shares an id or a stream, and the poller watches the listener and the clients. -/
structure Named (s : ServerSocket) : Prop where
  ids : (s.names.map Prod.fst).Nodup
  conns : (s.names.map Prod.snd).Nodup
  pos : ∀ n ∈ s.names, n.1 ≠ listenerKey
  made : ∀ n ∈ s.names, n.2 < s.conns
  known : ∀ r ∈ s.armed, (r = (.listener, listenerKey) ∧ s.listening = true) ∨
    ∃ n ∈ s.names, r = (.stream n.2, n.1)

/-- The client that is found under an id is the one of that name. -/
theorem Named.find_id (h : Named s) {id conn : Nat} (hn : (id, conn) ∈ s.names) :
    ∃ c ∈ s.clients, c.id = id ∧ c.conn = conn ∧
      (s.clients.find? fun c => c.id = id) = some c := by
  obtain ⟨c, hc, hname⟩ := List.mem_map.mp hn
  cases hname
  cases hfind : s.clients.find? fun c' => c'.id = c.id with
  | none =>
    have hnone := List.find?_eq_none.mp hfind c hc
    simp at hnone
  | some c' =>
    have hin := List.mem_of_find?_eq_some hfind
    have hid : c'.id = c.id := by simpa using List.find?_some hfind
    have hsame := List.inj_on_of_nodup_map h.ids (mem_names hin) hn hid
    exact ⟨c', hin, hid, (Prod.mk.inj hsame).2, rfl⟩

theorem mem_arm {source : Source} {key : Nat} {r : Source × Nat} :
    r ∈ (s.arm source key).armed ↔ r = (source, key) ∨ r ∈ s.armed ∧ r.1 ≠ source := by
  simp only [arm, List.mem_cons, List.mem_filter, decide_eq_true_eq]

/-- Arming what is there keeps the names. -/
theorem Named.arm (h : Named s) {source : Source} {key : Nat}
    (hsource : ((source, key) = (.listener, listenerKey) ∧ s.listening = true) ∨
      ∃ n ∈ s.names, (source, key) = (.stream n.2, n.1)) : Named (s.arm source key) where
  ids := h.ids
  conns := h.conns
  pos := h.pos
  made := h.made
  known r hr := by
    rcases mem_arm.mp hr with rfl | ⟨hr, -⟩
    · exact hsource
    · exact h.known r hr

/-- A new client is armed, and changes nothing for the others. -/
structure Taken (s s' : ServerSocket) : Prop where
  listening : s'.listening = s.listening
  names : s'.names = s.names ++ [(s.nextClientId, s.conns)]
  armed : ∀ r, r ∈ s'.armed ↔ r = (.stream s.conns, s.nextClientId) ∨ r ∈ s.armed
  conns : s'.conns = s.conns + 1
  found : s'.found = s.found
  dispatched : s'.dispatched = s.dispatched

theorem Named.taken (h : Named s) (hnew : s.newClient m = some s') : Taken s s' := by
  obtain ⟨next, -, rfl⟩ := Option.map_eq_some_iff.mp hnew
  refine ⟨rfl, ?_, ?_, rfl, rfl, rfl⟩
  · simp only [names, List.map_append, List.map_cons, List.map_nil]
  · intro r
    rw [show r ∈ _ ↔ _ from mem_arm]
    refine or_congr_right (and_iff_left_of_imp ?_)
    -- The stream is new, so nothing of it was armed.
    intro hr hsame
    rcases h.known r hr with ⟨rfl, -⟩ | ⟨n, hn, rfl⟩
    · cases hsame
    · exact absurd (h.made n hn) (Source.stream.inj hsame ▸ Nat.lt_irrefl _)

theorem Taken.cases (h : Taken s s') {n : Nat × Nat} (hn : n ∈ s'.names) :
    n ∈ s.names ∨ n = (s.nextClientId, s.conns) := by
  rw [h.names, List.mem_append, List.mem_singleton] at hn
  exact hn

theorem Taken.old (h : Taken s s') {n : Nat × Nat} (hn : n ∈ s.names) : n ∈ s'.names := by
  rw [h.names]
  exact List.mem_append.mpr (.inl hn)

/-- A stream that is new to the poller comes with a name that is new. -/
theorem Named.newClient (h : Named s) (hfresh : s.Fresh) (ht : Taken s s') : Named s' := by
  have hids : ∀ n ∈ s.names, n.1 ≠ s.nextClientId := by
    intro n hn
    obtain ⟨c, hc, rfl⟩ := List.mem_map.mp hn
    exact hfresh.2 c hc
  refine ⟨?_, ?_, ?_, ?_, ?_⟩
  · rw [ht.names, List.map_append]
    refine List.nodup_append.mpr ⟨h.ids, List.nodup_cons.mpr ⟨nofun, List.nodup_nil⟩, ?_⟩
    intro id hid id' hid'
    obtain ⟨n, hn, rfl⟩ := List.mem_map.mp hid
    rw [List.mem_singleton.mp hid']
    exact hids n hn
  · rw [ht.names, List.map_append]
    refine List.nodup_append.mpr ⟨h.conns, List.nodup_cons.mpr ⟨nofun, List.nodup_nil⟩, ?_⟩
    intro conn hconn conn' hconn'
    obtain ⟨n, hn, rfl⟩ := List.mem_map.mp hconn
    rw [List.mem_singleton.mp hconn']
    exact Nat.ne_of_lt (h.made n hn)
  · intro n hn
    rcases ht.cases hn with hn | rfl
    · exact h.pos n hn
    · exact hfresh.1
  · intro n hn
    rw [ht.conns]
    rcases ht.cases hn with hn | rfl
    · exact Nat.lt_succ_of_lt (h.made n hn)
    · exact Nat.lt_succ_self _
  · intro r hr
    rw [ht.listening]
    rcases (ht.armed r).mp hr with rfl | hr
    · exact .inr ⟨_, ht.names ▸ List.mem_append.mpr (.inr (List.mem_singleton_self _)), rfl⟩
    · refine (h.known r hr).imp id ?_
      intro hn
      obtain ⟨n, hn, heq⟩ := hn
      exact ⟨n, ht.old hn, heq⟩

/-! ## Dispatching -/

/-- What a dispatch leaves alone. -/
structure Beside (s s' : ServerSocket) : Prop where
  listening : s'.listening = s.listening
  armed : s'.armed = s.armed
  names : s'.names = s.names
  nextClientId : s'.nextClientId = s.nextClientId
  conns : s'.conns = s.conns
  found : s'.found = s.found
  removed : s'.removed = s.removed

theorem Beside.trans {s'' : ServerSocket} (h : Beside s s') (h' : Beside s' s'') : Beside s s'' where
  listening := h'.listening.trans h.listening
  armed := h'.armed.trans h.armed
  names := h'.names.trans h.names
  nextClientId := h'.nextClientId.trans h.nextClientId
  conns := h'.conns.trans h.conns
  found := h'.found.trans h.found
  removed := h'.removed.trans h.removed

/-- A step of a client changes its state, and no name. -/
theorem act_beside {i : Nat × Server.Action} (h : s.act i = some s') :
    Beside s s' ∧ s'.dispatched = s.dispatched := by
  unfold act at h
  split at h
  · cases h
  · obtain ⟨state, -, rfl⟩ := Option.map_eq_some_iff.mp h
    refine ⟨⟨rfl, rfl, ?_, rfl, rfl, rfl, rfl⟩, rfl⟩
    simp only [ServerSocket.names, List.map_map]
    apply List.map_congr_left
    intro c _
    simp only [Function.comp]
    split <;> rfl

theorem dispatchClient_beside {conn : Nat} {acts : List (Nat × Server.Action)}
    (h : s.dispatchClient conn acts = some s') :
    Beside s s' ∧ s'.dispatched = s.dispatched ++ [conn] := by
  unfold dispatchClient at h
  split at h
  · obtain ⟨t, hrun, h⟩ := Option.bind_eq_some_iff.mp h
    split at h
    · cases h
      have hkept : Beside s t ∧ t.dispatched = s.dispatched := by
        refine @Run.run_induction _ _ act (fun t => Beside s t ∧ t.dispatched = s.dispatched) ?_ _ _ _
          ⟨⟨rfl, rfl, rfl, rfl, rfl, rfl, rfl⟩, rfl⟩ hrun
        intro t i t' ht hact
        have hstep := act_beside hact
        exact ⟨ht.1.trans hstep.1, hstep.2.trans ht.2⟩
      refine ⟨{ hkept.1 with }, ?_⟩
      simp only [hkept.2]
    · cases h
  · cases h

theorem Named.beside (h : Named s) (hb : Beside s s') : Named s' where
  ids := hb.names ▸ h.ids
  conns := hb.names ▸ h.conns
  pos := hb.names ▸ h.pos
  made := by
    rw [hb.names, hb.conns]
    exact h.made
  known := by
    rw [hb.names, hb.armed, hb.listening]
    exact h.known

theorem Fresh.beside (h : s.Fresh) (hb : Beside s s') : s'.Fresh := by
  refine ⟨hb.nextClientId ▸ h.1, ?_⟩
  intro c hc
  have hn := mem_names hc
  rw [hb.names] at hn
  obtain ⟨c', hc', hname⟩ := List.mem_map.mp hn
  rw [hb.nextClientId, ← (Prod.mk.inj hname).1]
  exact h.2 c' hc'

/-! ## One event -/

/-- **While the loop goes on**: what is not armed has an event still to be looked at, or was found
in error. `R` are the streams that were ready when the pass began. -/
structure Going (R : Nat → Prop) (s : ServerSocket) (dead : List Nat) (evs : List Ready) : Prop
    extends Named s where
  sources : (evs.map (·.source)).Nodup
  pending : ∀ ev ∈ evs, ((ev.source, ev.key) = (.listener, listenerKey) ∧ s.listening = true) ∨
    ∃ n ∈ s.names, (ev.source, ev.key) = (.stream n.2, n.1)
  disarmed : ∀ ev ∈ evs, ∀ r ∈ s.armed, r.1 ≠ ev.source
  listener : s.listening = true → (.listener, listenerKey) ∈ s.armed ∨
    ∃ ev ∈ evs, ev.source = .listener
  clients : ∀ n ∈ s.names, (.stream n.2, n.1) ∈ s.armed ∨
    (∃ ev ∈ evs, ev.source = .stream n.2) ∨ n.1 ∈ dead
  found : ∀ conn ∈ s.found, ∃ id ∈ dead, (id, conn) ∈ s.names
  ready : ∀ conn, R conn → conn ∈ s.dispatched ∨ ∃ ev ∈ evs, ev.source = .stream conn

/-- A source that is still there and will not be heard of again. -/
def Stranded (s : ServerSocket) (source : Source) : Prop :=
  ((source = .listener ∧ s.listening = true) ∨ ∃ n ∈ s.names, source = .stream n.2) ∧
    ∀ r ∈ s.armed, r.1 ≠ source

variable {R : Nat → Prop}

theorem Going.stranded (h : Going R s dead (ev :: evs)) : Stranded s ev.source := by
  refine ⟨?_, h.disarmed ev (List.mem_cons_self ..)⟩
  rcases h.pending ev (List.mem_cons_self ..) with ⟨heq, hlisten⟩ | ⟨n, hn, heq⟩
  · exact .inl ⟨(Prod.mk.inj heq).1, hlisten⟩
  · exact .inr ⟨n, hn, (Prod.mk.inj heq).1⟩

theorem Going.beside (h : Going R s dead evs) (hb : Beside s s')
    (hdispatched : ∀ conn ∈ s.dispatched, conn ∈ s'.dispatched) : Going R s' dead evs where
  toNamed := h.toNamed.beside hb
  sources := h.sources
  pending := by
    rw [hb.names, hb.listening]
    exact h.pending
  disarmed := by
    rw [hb.armed]
    exact h.disarmed
  listener := by
    rw [hb.armed, hb.listening]
    exact h.listener
  clients := by
    rw [hb.names, hb.armed]
    exact h.clients
  found := by
    rw [hb.names, hb.found]
    exact h.found
  ready conn hconn := (h.ready conn hconn).imp (hdispatched conn) id

theorem Going.newClient (h : Going R s dead evs) (hfresh : s.Fresh) (ht : Taken s s') :
    Going R s' dead evs := by
  refine ⟨h.toNamed.newClient hfresh ht, h.sources, ?_, ?_, ?_, ?_, ?_, ?_⟩
  · intro ev hev
    rw [ht.listening]
    refine (h.pending ev hev).imp id ?_
    intro hn
    obtain ⟨n, hn, heq⟩ := hn
    exact ⟨n, ht.old hn, heq⟩
  · intro ev hev r hr
    rcases (ht.armed r).mp hr with rfl | hr
    · rcases h.pending ev hev with ⟨heq, -⟩ | ⟨n, hn, heq⟩
      · rw [(Prod.mk.inj heq).1]
        nofun
      · rw [(Prod.mk.inj heq).1]
        intro hsame
        exact absurd (h.made n hn) (Source.stream.inj hsame ▸ Nat.lt_irrefl _)
    · exact h.disarmed ev hev r hr
  · intro hlisten
    rw [ht.listening] at hlisten
    exact (h.listener hlisten).imp (fun hin => (ht.armed _).mpr (.inr hin)) id
  · intro n hn
    rcases ht.cases hn with hn | rfl
    · exact (h.clients n hn).imp (fun hin => (ht.armed _).mpr (.inr hin)) id
    · exact .inl ((ht.armed _).mpr (.inl rfl))
  · intro conn hconn
    rw [ht.found] at hconn
    obtain ⟨id, hid, hn⟩ := h.found conn hconn
    exact ⟨id, hid, ht.old hn⟩
  · intro conn hconn
    rw [ht.dispatched]
    exact h.ready conn hconn

/-- The source of the event is armed again. -/
theorem Going.arm (h : Going R s dead (ev :: evs))
    (hdone : ∀ conn, ev.source = .stream conn → conn ∈ s.dispatched) :
    Going R (s.arm ev.source ev.key) dead evs := by
  have hsources := List.nodup_cons.mp h.sources
  have hpending := h.pending ev (List.mem_cons_self ..)
  have hkeep : ∀ r ∈ s.armed, r ∈ (s.arm ev.source ev.key).armed := by
    intro r hr
    exact mem_arm.mpr (.inr ⟨hr, h.disarmed ev (List.mem_cons_self ..) r hr⟩)
  refine ⟨h.toNamed.arm hpending, hsources.2, ?_, ?_, ?_, ?_, h.found, ?_⟩
  · intro ev' hev'
    exact h.pending ev' (List.mem_cons_of_mem _ hev')
  · intro ev' hev' r hr
    rcases mem_arm.mp hr with rfl | ⟨hr, -⟩
    · intro hsame
      exact hsources.1 (List.mem_map.mpr ⟨ev', hev', hsame.symm⟩)
    · exact h.disarmed ev' (List.mem_cons_of_mem _ hev') r hr
  · intro hlisten
    rcases h.listener hlisten with hin | ⟨ev', hev', hsource⟩
    · exact .inl (hkeep _ hin)
    · rcases List.mem_cons.mp hev' with rfl | hev'
      · refine .inl (mem_arm.mpr (.inl ?_))
        rcases hpending with ⟨heq, -⟩ | ⟨n, -, heq⟩
        · exact heq.symm
        · rw [hsource] at heq
          cases (Prod.mk.inj heq).1
      · exact .inr ⟨ev', hev', hsource⟩
  · intro n hn
    rcases h.clients n hn with hin | ⟨ev', hev', hsource⟩ | hdead
    · exact .inl (hkeep _ hin)
    · rcases List.mem_cons.mp hev' with rfl | hev'
      · refine .inl (mem_arm.mpr (.inl ?_))
        rcases hpending with ⟨heq, -⟩ | ⟨n', hn', heq⟩
        · rw [hsource] at heq
          cases (Prod.mk.inj heq).1
        · have hconn : n'.2 = n.2 := Source.stream.inj ((Prod.mk.inj heq).1.symm.trans hsource)
          rw [heq, List.inj_on_of_nodup_map h.conns hn' hn hconn]
      · exact .inr (.inl ⟨ev', hev', hsource⟩)
    · exact .inr (.inr hdead)
  · intro conn hconn
    rcases h.ready conn hconn with hin | ⟨ev', hev', hsource⟩
    · exact .inl hin
    · rcases List.mem_cons.mp hev' with rfl | hev'
      · exact .inl (hdone conn hsource)
      · exact .inr ⟨ev', hev', hsource⟩

/-- The client of the event was found in error. -/
theorem Going.dies (h : Going R s dead (ev :: evs)) {conn : Nat} (hsource : ev.source = .stream conn)
    (hn : (ev.key, conn) ∈ s.names) (hdone : conn ∈ s.dispatched) :
    Going R { s with found := s.found ++ [conn] } (dead ++ [ev.key]) evs := by
  refine ⟨{ h.toNamed with }, (List.nodup_cons.mp h.sources).2, ?_, ?_, ?_, ?_, ?_, ?_⟩
  · intro ev' hev'
    exact h.pending ev' (List.mem_cons_of_mem _ hev')
  · intro ev' hev'
    exact h.disarmed ev' (List.mem_cons_of_mem _ hev')
  · intro hlisten
    rcases h.listener hlisten with hin | ⟨ev', hev', hlistener⟩
    · exact .inl hin
    · rcases List.mem_cons.mp hev' with rfl | hev'
      · rw [hsource] at hlistener
        cases hlistener
      · exact .inr ⟨ev', hev', hlistener⟩
  · intro n hn'
    rcases h.clients n hn' with hin | ⟨ev', hev', hstream⟩ | hdead
    · exact .inl hin
    · rcases List.mem_cons.mp hev' with rfl | hev'
      · have hconn : n.2 = conn := Source.stream.inj (hstream.symm.trans hsource)
        have hsame := List.inj_on_of_nodup_map h.conns hn' hn hconn
        rw [hsame]
        exact .inr (.inr (List.mem_append.mpr (.inr (List.mem_singleton_self _))))
      · exact .inr (.inl ⟨ev', hev', hstream⟩)
    · exact .inr (.inr (List.mem_append.mpr (.inl hdead)))
  · intro conn' hconn'
    rcases List.mem_append.mp hconn' with hconn' | hconn'
    · obtain ⟨id, hid, hn'⟩ := h.found conn' hconn'
      exact ⟨id, List.mem_append.mpr (.inl hid), hn'⟩
    · rw [List.mem_singleton.mp hconn']
      exact ⟨ev.key, List.mem_append.mpr (.inr (List.mem_singleton_self _)), hn⟩
  · intro conn' hconn'
    rcases h.ready conn' hconn' with hin | ⟨ev', hev', hstream⟩
    · exact .inl hin
    · rcases List.mem_cons.mp hev' with rfl | hev'
      · rw [Source.stream.inj (hstream.symm.trans hsource)]
        exact .inl hdone
      · exact .inr ⟨ev', hev', hstream⟩

/-- **What looking at an event comes to**: the loop goes on, or the source is left behind. The
second takes a call that fails. -/
structure Looked (R : Nat → Prop) (s : ServerSocket) (ev : Ready) (evs : List Ready)
    (s' : ServerSocket) (dead : List Nat) (ok : Bool) : Prop where
  going : ok = true → Going R s' dead evs
  stranded : ok = false → Stranded s' ev.source
  succeeds : ev.added = true → ev.modified = true → ok = true
  fresh : ev.source ≠ .listener → s.Fresh → s'.Fresh

theorem Going.rearm (h : Going R s dead (ev :: evs))
    (hdone : ∀ conn, ev.source = .stream conn → conn ∈ s.dispatched) :
    Looked R s ev evs (s.rearm ev.source ev.key ev.modified).1 dead
      (s.rearm ev.source ev.key ev.modified).2 := by
  unfold ServerSocket.rearm
  cases hmodified : ev.modified with
  | true => exact ⟨fun _ => h.arm hdone, nofun, fun _ _ => rfl, fun _ hfresh => hfresh⟩
  | false =>
    refine ⟨nofun, fun _ => h.stranded, fun _ hm => ?_, fun _ hfresh => hfresh⟩
    rw [hmodified] at hm
    cases hm

/-- The listener's event: a connection may come, and the listener is armed again. -/
theorem looked_listener {ok : Bool} (h : Going R s dead (ev :: evs)) (hsource : ev.source = .listener)
    (hkey : ev.key = listenerKey) (hlisten : s.listening = true)
    (hfresh : ev.accepted = true → s.Fresh) (hlook : lookListener m s ev = some (s', ok)) :
    Looked R s ev evs s' dead ok := by
  obtain ⟨⟨s₁, added⟩, hacc, heq⟩ := Option.map_eq_some_iff.mp hlook
  have hgone : ev.source ≠ .listener → s.Fresh → s'.Fresh := fun hne => absurd hsource hne
  have hdone : ∀ conn, ev.source = .stream conn → conn ∈ s₁.dispatched := by
    intro conn hstream
    rw [hsource] at hstream
    cases hstream
  -- What is left after `accept_one` is to arm the listener.
  have hrest : Going R s₁ dead (ev :: evs) → s₁.listening = true → added = true →
      Looked R s ev evs s' dead ok := by
    intro h₁ hlisten₁ hadded
    simp only [hadded, Bool.true_eq_false, if_false, hlisten₁, if_true] at heq
    have hlooked := h₁.rearm hdone
    rw [hsource, hkey, heq] at hlooked
    exact ⟨hlooked.going, hsource ▸ hlooked.stranded, hlooked.succeeds, hgone⟩
  unfold acceptOne at hacc
  rw [if_neg (by rw [hlisten]; simp)] at hacc
  cases haccepted : ev.accepted with
  | false =>
    rw [if_pos haccepted] at hacc
    cases hacc
    exact hrest h hlisten rfl
  | true =>
    rw [if_neg (by rw [haccepted]; simp)] at hacc
    cases hadded : ev.added with
    | false =>
      rw [if_pos hadded] at hacc
      cases hacc
      simp only [if_true] at heq
      cases heq
      refine ⟨by simp, fun _ => h.stranded, fun hadd => ?_, hgone⟩
      rw [hadded] at hadd
      cases hadd
    | true =>
      rw [if_neg (by rw [hadded]; simp)] at hacc
      obtain ⟨s₂, hnew, heq₂⟩ := Option.map_eq_some_iff.mp hacc
      cases heq₂
      have ht := h.toNamed.taken hnew
      exact hrest (h.newClient (hfresh haccepted) ht) (ht.listening.trans hlisten) rfl

/-- A client's event: it is dispatched, and armed again or found in error. -/
theorem looked_client {c : SocketClient} {ok : Bool} (h : Going R s dead (ev :: evs))
    (hsource : ev.source = .stream c.conn) (hn : (ev.key, c.conn) ∈ s.names)
    (hlook : s.lookClient dead ev c = some (s', dead', ok)) : Looked R s ev evs s' dead' ok := by
  obtain ⟨s₁, hdispatch, heq⟩ := Option.map_eq_some_iff.mp hlook
  obtain ⟨hb, hdispatched⟩ := dispatchClient_beside hdispatch
  have h₁ : Going R s₁ dead (ev :: evs) := by
    refine h.beside hb ?_
    intro conn hconn
    rw [hdispatched]
    exact List.mem_append.mpr (.inl hconn)
  have hin : c.conn ∈ s₁.dispatched := by
    rw [hdispatched]
    exact List.mem_append.mpr (.inr (List.mem_singleton_self _))
  split at heq
  · cases heq
    refine ⟨fun _ => h₁.dies hsource (hb.names ▸ hn) hin, nofun, fun _ _ => rfl, ?_⟩
    intro _ hfresh
    have hkept : s₁.Fresh := hfresh.beside hb
    exact hkept
  · have hlooked := h₁.rearm (by
      intro conn hstream
      rw [hsource] at hstream
      rw [← Source.stream.inj hstream]
      exact hin)
    rw [hsource] at hlooked
    cases heq
    exact ⟨hlooked.going, hsource ▸ hlooked.stranded, hlooked.succeeds,
      fun hne hfresh => hlooked.fresh hne (hfresh.beside hb)⟩

theorem looked {ok : Bool} (h : Going R s dead (ev :: evs))
    (hfresh : ev.source = .listener → ev.accepted = true → s.Fresh)
    (hlook : look m s dead ev = some (s', dead', ok)) : Looked R s ev evs s' dead' ok := by
  unfold look at hlook
  rcases h.pending ev (List.mem_cons_self ..) with ⟨heq, hlisten⟩ | ⟨n, hn, heq⟩
  · obtain ⟨hsource, hkey⟩ := Prod.mk.inj heq
    rw [if_pos hkey] at hlook
    obtain ⟨⟨s₁, ok₁⟩, hlistener, heq₁⟩ := Option.map_eq_some_iff.mp hlook
    cases heq₁
    exact looked_listener h hsource hkey hlisten (hfresh hsource) hlistener
  · obtain ⟨hsource, hkey⟩ := Prod.mk.inj heq
    rw [if_neg (hkey ▸ h.pos n hn)] at hlook
    obtain ⟨c, -, hid, hconn, hfind⟩ := h.toNamed.find_id hn
    rw [hkey] at hlook
    simp only [hfind] at hlook
    exact looked_client h (hconn ▸ hsource) (hkey ▸ hconn ▸ hn) hlook

/-! ## The loop -/

/-- **The loop** ends with every event looked at, or at a call that fails. -/
theorem events_spec {ok : Bool} : ∀ {evs : List Ready} {s : ServerSocket} {dead : List Nat},
    Going R s dead evs → ((∃ ev ∈ evs, ev.source = .listener ∧ ev.accepted = true) → s.Fresh) →
    events m s dead evs = some (s', dead', ok) →
    (ok = true → Going R s' dead' []) ∧ (ok = false → ∃ source, Stranded s' source) ∧
      ((∀ ev ∈ evs, ev.added = true ∧ ev.modified = true) → ok = true)
  | [], s, dead, h, _, heq => by
    cases heq
    exact ⟨fun _ => h, by simp, fun _ => rfl⟩
  | ev :: evs, s, dead, h, hfresh, heq => by
    simp only [events] at heq
    cases hlook : look m s dead ev with
    | none =>
      rw [hlook] at heq
      cases heq
    | some result =>
      obtain ⟨s₁, dead₁, ok₁⟩ := result
      have hlooked := looked h (fun hsource hacc =>
        hfresh ⟨ev, List.mem_cons_self .., hsource, hacc⟩) hlook
      rw [hlook] at heq
      cases ok₁ with
      | false =>
        cases heq
        refine ⟨by simp, fun _ => ⟨_, hlooked.stranded rfl⟩, ?_⟩
        intro hall
        have hev := hall ev (List.mem_cons_self ..)
        exact hlooked.succeeds hev.1 hev.2
      | true =>
        have hrest := events_spec (hlooked.going rfl) ?_ heq
        · refine ⟨hrest.1, hrest.2.1, ?_⟩
          intro hall
          exact hrest.2.2 fun ev' hev' => hall ev' (List.mem_cons_of_mem _ hev')
        · -- The listener has one event at most.
          intro hacc
          obtain ⟨ev', hev', hsource, hacc⟩ := hacc
          refine hlooked.fresh ?_ (hfresh ⟨ev', List.mem_cons_of_mem _ hev', hsource, hacc⟩)
          intro hlistener
          exact (List.nodup_cons.mp h.sources).1
            (List.mem_map.mpr ⟨ev', hev', hsource.trans hlistener.symm⟩)

/-! ## Removing -/

/-- With ids that differ, the first client of an id is the only one. -/
theorem eraseP_eq_filter (id : Nat) : ∀ {l : List SocketClient}, (l.map (·.id)).Nodup →
    (l.eraseP fun c => c.id = id) = l.filter fun c => c.id ≠ id
  | [], _ => rfl
  | c :: l, h => by
    obtain ⟨hc, hl⟩ := List.nodup_cons.mp h
    by_cases hid : c.id = id
    · rw [List.eraseP_cons_of_pos (by simpa using hid), List.filter_cons_of_neg (by simpa using hid)]
      refine (List.filter_eq_self.mpr ?_).symm
      intro c' hc'
      have hne : c'.id ≠ id := by
        intro hsame
        exact hc (List.mem_map.mpr ⟨c', hc', hsame.trans hid.symm⟩)
      simpa using hne
    · rw [List.eraseP_cons_of_neg (by simpa using hid), List.filter_cons_of_pos (by simpa using hid),
        eraseP_eq_filter id hl]

/-- A part of the clients goes, and with them what the poller knew of them. -/
structure Buried (s : ServerSocket) (gone : Nat → Prop) (s' : ServerSocket) : Prop where
  listening : s'.listening = s.listening
  found : s'.found = s.found
  dispatched : s'.dispatched = s.dispatched
  conns : s'.conns = s.conns
  ids : (s'.names.map Prod.fst).Nodup
  streams : (s'.names.map Prod.snd).Nodup
  names : ∀ n, n ∈ s'.names ↔ n ∈ s.names ∧ ¬ gone n.1
  armed : ∀ r, r ∈ s'.armed ↔ r ∈ s.armed ∧ ∀ n ∈ s.names, gone n.1 → r.1 ≠ .stream n.2
  removed : ∀ c ∈ s.removed, c ∈ s'.removed
  buried : ∀ n ∈ s.names, gone n.1 →
    ∃ c ∈ s'.removed, c.conn = n.2 ∧ c.state.gone = true ∧ c.state.table = []

theorem Buried.named {gone : Nat → Prop} (h : Buried s gone s') (hn : Named s) : Named s' where
  ids := h.ids
  conns := h.streams
  pos n hn' := hn.pos n ((h.names n).mp hn').1
  made n hn' := by
    rw [h.conns]
    exact hn.made n ((h.names n).mp hn').1
  known r hr := by
    obtain ⟨hr, hkept⟩ := (h.armed r).mp hr
    rw [h.listening]
    refine (hn.known r hr).imp id ?_
    intro hstream
    obtain ⟨n, hn', heq⟩ := hstream
    refine ⟨n, (h.names n).mpr ⟨hn', fun hgone => hkept n hn' hgone ?_⟩, heq⟩
    rw [heq]

/-- One client is buried. -/
theorem buried_one {c : SocketClient} (hn : Named s) (hc : c ∈ s.clients) :
    Buried s (· = c.id) { s.bury c with clients := s.clients.eraseP fun c' => c'.id = c.id } := by
  have hids : (s.clients.map (·.id)).Nodup := by
    have h := hn.ids
    rwa [names, List.map_map] at h
  have heq := eraseP_eq_filter c.id hids
  have hsub : (names { s.bury c with clients := s.clients.eraseP fun c' => c'.id = c.id }).Sublist
      s.names := List.Sublist.map _ (List.eraseP_sublist ..)
  refine ⟨rfl, rfl, rfl, rfl, hn.ids.sublist (hsub.map _), hn.conns.sublist (hsub.map _), ?_, ?_, ?_,
    ?_⟩
  · intro n
    simp only [names, heq, List.mem_map, List.mem_filter, decide_eq_true_eq]
    constructor
    · intro h
      obtain ⟨c', ⟨hc', hne⟩, rfl⟩ := h
      exact ⟨⟨c', hc', rfl⟩, hne⟩
    · intro h
      obtain ⟨⟨c', hc', rfl⟩, hne⟩ := h
      exact ⟨c', ⟨hc', hne⟩, rfl⟩
  · intro r
    simp only [bury, disarm, List.mem_filter, decide_eq_true_eq]
    refine and_congr_right fun _ => ?_
    constructor
    · intro hne n hn' hid
      have hsame := List.inj_on_of_nodup_map hn.ids hn' (mem_names hc) hid
      rw [hsame]
      exact hne
    · intro hall
      exact hall _ (mem_names hc) rfl
  · intro c' hc'
    exact List.mem_append.mpr (.inl hc')
  · intro n hn' hid
    have hsame := List.inj_on_of_nodup_map hn.ids hn' (mem_names hc) hid
    exact ⟨_, List.mem_append.mpr (.inr (List.mem_singleton_self _)), hsame ▸ rfl, rfl, rfl⟩

theorem Buried.trans {s'' : ServerSocket} {gone gone' : Nat → Prop} (h : Buried s gone s')
    (h' : Buried s' gone' s'') : Buried s (fun id => gone id ∨ gone' id) s'' := by
  refine ⟨h'.listening.trans h.listening, h'.found.trans h.found, h'.dispatched.trans h.dispatched,
    h'.conns.trans h.conns, h'.ids, h'.streams, ?_, ?_, ?_, ?_⟩
  · intro n
    rw [h'.names, h.names, not_or, and_assoc]
  · intro r
    rw [h'.armed, h.armed, and_assoc]
    refine and_congr_right fun _ => ?_
    constructor
    · intro hboth n hn hgone
      by_cases hfirst : gone n.1
      · exact hboth.1 n hn hfirst
      · exact hboth.2 n ((h.names n).mpr ⟨hn, hfirst⟩) (hgone.resolve_left hfirst)
    · intro hall
      refine ⟨fun n hn hgone => hall n hn (.inl hgone), fun n hn hgone => ?_⟩
      exact hall n ((h.names n).mp hn).1 (.inr hgone)
  · intro c hc
    exact h'.removed c (h.removed c hc)
  · intro n hn hgone
    by_cases hfirst : gone n.1
    · obtain ⟨c, hc, hleft⟩ := h.buried n hn hfirst
      exact ⟨c, h'.removed c hc, hleft⟩
    · exact h'.buried n ((h.names n).mpr ⟨hn, hfirst⟩) (hgone.resolve_left hfirst)

theorem Buried.congr {gone gone' : Nat → Prop} (h : Buried s gone s')
    (hiff : ∀ n ∈ s.names, gone n.1 ↔ gone' n.1) : Buried s gone' s' where
  __ := h
  names n := by
    rw [h.names]
    refine and_congr_right fun hn => ?_
    rw [hiff n hn]
  armed r := by
    rw [h.armed]
    refine and_congr_right fun _ => forall_congr' fun n => ?_
    refine forall_congr' fun hn => ?_
    rw [hiff n hn]
  buried n hn hgone := h.buried n hn ((hiff n hn).mpr hgone)

theorem Buried.refl (hn : Named s) : Buried s (fun _ => False) s := by
  refine ⟨rfl, rfl, rfl, rfl, hn.ids, hn.conns, ?_, ?_, fun _ hc => hc, fun _ _ h => h.elim⟩
  · intro n
    rw [not_false_eq_true, and_true]
  · intro r
    exact ⟨fun hr => ⟨hr, fun _ _ h => h.elim⟩, And.left⟩

/-- **The clients found in error go**, and nobody else. -/
theorem buryAll_buried : ∀ {dead : List Nat} {s : ServerSocket}, Named s →
    Buried s (· ∈ dead) (s.buryAll dead)
  | [], s, hn => (Buried.refl hn).congr fun _ _ => ⟨False.elim, nofun⟩
  | id :: dead, s, hn => by
    simp only [buryAll]
    cases hfind : s.clients.find? fun c => c.id = id with
    | none =>
      refine (buryAll_buried hn).congr ?_
      intro n hn'
      obtain ⟨c, hc, rfl⟩ := List.mem_map.mp hn'
      have hne : c.id ≠ id := by simpa using List.find?_eq_none.mp hfind c hc
      simp [hne]
    | some c =>
      have hid : c.id = id := by simpa using List.find?_some hfind
      subst hid
      have hone := buried_one hn (List.mem_of_find?_eq_some hfind)
      refine (hone.trans (buryAll_buried (hone.named hn))).congr ?_
      intro n _
      exact List.mem_cons.symm

/-! ## A pass -/

/-- Everything is armed. -/
structure Steady (s : ServerSocket) : Prop extends Named s where
  listener : s.listening = true → (.listener, listenerKey) ∈ s.armed
  clients : ∀ n ∈ s.names, (.stream n.2, n.1) ∈ s.armed

/-- The stream belongs to a client with an event. -/
def HasEvent (s : ServerSocket) (evs : List Ready) (conn : Nat) : Prop :=
  (∃ c ∈ s.clients, c.conn = conn) ∧ ∃ ev ∈ evs, ev.source = .stream conn

theorem Steady.going {s₁ : ServerSocket} (h : Steady s) (hwait : s.wait evs = some s₁) :
    Going (HasEvent s evs) s₁ [] evs ∧ s₁.names = s.names ∧ s₁.nextClientId = s.nextClientId ∧
      s₁.clients = s.clients := by
  unfold wait at hwait
  split at hwait
  · next hevs =>
    cases hwait
    refine ⟨⟨⟨h.ids, h.conns, h.pos, h.made, ?_⟩, hevs.1, ?_, ?_, ?_, ?_, nofun, ?_⟩, rfl, rfl, rfl⟩
    · intro r hr
      exact h.known r (List.mem_filter.mp hr).1
    · intro ev hev
      exact h.known _ (hevs.2 ev hev)
    · intro ev hev r hr hsame
      have hout : r.1 ∉ evs.map (·.source) := by simpa using (List.mem_filter.mp hr).2
      exact hout (List.mem_map.mpr ⟨ev, hev, hsame.symm⟩)
    · intro hlisten
      by_cases hin : Source.listener ∈ evs.map (·.source)
      · obtain ⟨ev, hev, hsource⟩ := List.mem_map.mp hin
        exact .inr ⟨ev, hev, hsource⟩
      · exact .inl (List.mem_filter.mpr ⟨h.listener hlisten, decide_eq_true hin⟩)
    · intro n hn
      by_cases hin : Source.stream n.2 ∈ evs.map (·.source)
      · obtain ⟨ev, hev, hsource⟩ := List.mem_map.mp hin
        exact .inr (.inl ⟨ev, hev, hsource⟩)
      · exact .inl (List.mem_filter.mpr ⟨h.clients n hn, decide_eq_true hin⟩)
    · intro conn hconn
      exact .inr hconn.2
  · cases hwait

/-- With every event looked at, and the clients found in error removed, all is armed again. -/
theorem survives_of_going (h : Going (HasEvent s evs) s' dead []) :
    Survives s evs (s'.buryAll dead) ∧ Steady (s'.buryAll dead) := by
  have hb : Buried s' (· ∈ dead) (s'.buryAll dead) := buryAll_buried h.toNamed
  have hlistener : (s'.buryAll dead).listening = true →
      (.listener, listenerKey) ∈ (s'.buryAll dead).armed := by
    intro hlisten
    rw [hb.listening] at hlisten
    have hin := (h.listener hlisten).resolve_right nofun
    exact (hb.armed _).mpr ⟨hin, fun _ _ _ => nofun⟩
  have hclients : ∀ n ∈ (s'.buryAll dead).names, (.stream n.2, n.1) ∈ (s'.buryAll dead).armed := by
    intro n hn
    obtain ⟨hn, halive⟩ := (hb.names n).mp hn
    have hin : (.stream n.2, n.1) ∈ s'.armed := by
      rcases h.clients n hn with hin | ⟨ev, hev, -⟩ | hdead
      · exact hin
      · cases hev
      · exact absurd hdead halive
    refine (hb.armed _).mpr ⟨hin, ?_⟩
    intro n' hn' hdead hsame
    have hconn := List.inj_on_of_nodup_map h.conns hn hn' (Source.stream.inj hsame)
    exact halive (hconn ▸ hdead)
  refine ⟨⟨hlistener, fun c hc => hclients _ (mem_names hc), ?_, ?_⟩,
    { hb.named h.toNamed with listener := hlistener, clients := hclients }⟩
  · intro conn hconn
    rw [hb.found] at hconn
    obtain ⟨id, hdead, hn⟩ := h.found conn hconn
    refine ⟨?_, hb.buried (id, conn) hn hdead⟩
    intro c hc hsame
    obtain ⟨hn', halive⟩ := (hb.names _).mp (mem_names hc)
    have heq := List.inj_on_of_nodup_map h.conns hn' hn hsame
    exact halive ((Prod.mk.inj heq).1 ▸ hdead)
  · intro c hc ev hev hsource
    rw [hb.dispatched]
    exact (h.ready c.conn ⟨⟨c, hc, rfl⟩, ev, hev, hsource⟩).resolve_right nofun

/-- A source left behind is one that is not armed. -/
theorem not_survives_of_stranded {source : Source} (h : Stranded s' source) :
    ¬ Survives s evs s' := by
  intro hs
  obtain ⟨⟨rfl, hlisten⟩ | ⟨n, hn, rfl⟩, hnone⟩ := h
  · exact hnone _ (hs.listener hlisten) rfl
  · obtain ⟨c, hc, rfl⟩ := List.mem_map.mp hn
    exact hnone _ (hs.clients c hc) rfl

/-- **A pass is survived exactly when it returns `Ok`**, and it does when no call fails. -/
theorem survives_iff_ok {ok : Bool} (h : Steady s)
    (hfresh : (∃ ev ∈ evs, ev.source = .listener ∧ ev.accepted = true) → s.Fresh)
    (hpass : s.dispatchPending m evs = some (s', ok)) :
    (Survives s evs s' ↔ ok = true) ∧ (ok = true → Steady s') ∧
      ((∀ ev ∈ evs, ev.added = true ∧ ev.modified = true) → ok = true) := by
  obtain ⟨s₁, hwait, hpass⟩ := Option.bind_eq_some_iff.mp hpass
  obtain ⟨⟨s₂, dead, ok₂⟩, hevents, heq⟩ := Option.map_eq_some_iff.mp hpass
  obtain ⟨hgoing, hnames, hnext, hclients⟩ := h.going hwait
  obtain ⟨hdone, hfailed, hsucceeds⟩ := events_spec hgoing (fun hacc => by
    have hkept := hfresh hacc
    rw [Fresh, hnext, hclients]
    exact hkept) hevents
  cases ok₂ with
  | true =>
    cases heq
    have hend := survives_of_going (hdone rfl)
    exact ⟨iff_of_true hend.1 rfl, fun _ => hend.2, hsucceeds⟩
  | false =>
    cases heq
    obtain ⟨source, hstranded⟩ := hfailed rfl
    exact ⟨iff_of_false (not_survives_of_stranded hstranded) (by simp), by simp, hsucceeds⟩

/-! ## Whole runs -/

theorem Steady.beside (h : Steady s) (hb : Beside s s') : Steady s' where
  toNamed := h.toNamed.beside hb
  listener := by
    rw [hb.armed, hb.listening]
    exact h.listener
  clients := by
    rw [hb.armed, hb.names]
    exact h.clients

theorem Steady.newClient (h : Steady s) (hfresh : s.Fresh) (ht : Taken s s') : Steady s' where
  toNamed := h.toNamed.newClient hfresh ht
  listener hlisten := (ht.armed _).mpr (.inr (h.listener (ht.listening ▸ hlisten)))
  clients n hn := by
    rcases ht.cases hn with hn | rfl
    · exact (ht.armed _).mpr (.inr (h.clients n hn))
    · exact (ht.armed _).mpr (.inl rfl)

/-- Burying disarms the streams of those who are buried. -/
theorem foldl_bury : ∀ {leaving : List SocketClient} {s : ServerSocket},
    let t := leaving.foldl (fun s c => s.bury { c with state := c.state.close }) s
    t.listening = s.listening ∧ t.conns = s.conns ∧ t.clients = s.clients ∧
      ∀ r, r ∈ t.armed ↔ r ∈ s.armed ∧ ∀ c ∈ leaving, r.1 ≠ .stream c.conn
  | [], s => ⟨rfl, rfl, rfl, fun r => ⟨fun hr => ⟨hr, nofun⟩, And.left⟩⟩
  | c :: leaving, s => by
    obtain ⟨hlisten, hconns, hclients, harmed⟩ :=
      @foldl_bury leaving (s.bury { c with state := c.state.close })
    refine ⟨hlisten, hconns, hclients, ?_⟩
    intro r
    refine (harmed r).trans ?_
    simp only [bury, disarm, List.mem_filter, decide_eq_true_eq, List.forall_mem_cons, and_assoc]

theorem Steady.removeClient (h : Steady s) (id : Nat) : Steady (s.removeClient id) := by
  obtain ⟨hlisten, hconns, hclients, harmed⟩ :=
    @foldl_bury (s.clients.filter fun c => c.id = id) s
  have hleft : (s.removeClient id).clients = s.clients.filter fun c => c.id ≠ id :=
    congrArg (List.filter _) hclients
  have hsub : (s.removeClient id).names.Sublist s.names := by
    rw [names, hleft]
    exact List.Sublist.map _ List.filter_sublist
  have hmem : ∀ n ∈ (s.removeClient id).names, n ∈ s.names ∧ n.1 ≠ id := by
    intro n hn
    rw [names, hleft] at hn
    obtain ⟨c, hc, rfl⟩ := List.mem_map.mp hn
    exact ⟨mem_names (List.mem_filter.mp hc).1, by simpa using (List.mem_filter.mp hc).2⟩
  refine ⟨⟨h.ids.sublist (hsub.map _), h.conns.sublist (hsub.map _), ?_, ?_, ?_⟩, ?_, ?_⟩
  · intro n hn
    exact h.pos n (hmem n hn).1
  · intro n hn
    exact hconns ▸ h.made n (hmem n hn).1
  · intro r hr
    obtain ⟨hr, hkept⟩ := (harmed r).mp hr
    refine (h.known r hr).imp (fun hl => ⟨hl.1, hlisten.trans hl.2⟩) ?_
    intro hstream
    obtain ⟨n, hn, rfl⟩ := hstream
    obtain ⟨c, hc, rfl⟩ := List.mem_map.mp hn
    have hne : c.id ≠ id := by
      intro hid
      exact hkept c (List.mem_filter.mpr ⟨hc, decide_eq_true hid⟩) rfl
    refine ⟨_, mem_names (c := c) ?_, rfl⟩
    rw [hleft]
    exact List.mem_filter.mpr ⟨hc, decide_eq_true hne⟩
  · intro hl
    exact (harmed _).mpr ⟨h.listener (hlisten.symm.trans hl), fun _ _ => nofun⟩
  · intro n hn
    obtain ⟨hn, hne⟩ := hmem n hn
    refine (harmed _).mpr ⟨h.clients n hn, ?_⟩
    intro c hc hsame
    obtain ⟨hc, hid⟩ := List.mem_filter.mp hc
    have heq := List.inj_on_of_nodup_map h.conns hn (mem_names hc) (Source.stream.inj hsame)
    exact hne (heq ▸ by simpa using hid)

/-- Between two passes nothing is disarmed. -/
theorem Steady.step {op : Op} (h : Steady s) (htrusts : s.Trusts op) (hstep : step m s op = some s') :
    Steady s' := by
  cases op with
  | pass evs =>
    obtain ⟨⟨t, ok⟩, hpass, rfl⟩ := Option.map_eq_some_iff.mp hstep
    have hspec := survives_iff_ok h htrusts.2 hpass
    exact hspec.2.1 (hspec.2.2 htrusts.1)
  | add added =>
    simp only [ServerSocket.step, addClient] at hstep
    cases added with
    | false =>
      rw [if_pos rfl] at hstep
      cases hstep
      exact { h with made := fun n hn => Nat.lt_succ_of_lt (h.made n hn) }
    | true =>
      rw [if_neg nofun] at hstep
      exact h.newClient (htrusts rfl) (h.toNamed.taken hstep)
  | remove id =>
    cases hstep
    exact h.removeClient id
  | act conn a =>
    simp only [ServerSocket.step, Option.ite_none_right_eq_some] at hstep
    exact h.beside (act_beside hstep.2).1

theorem Steady.start (listening : Bool) (impls : List ProtocolSpec) :
    Steady (start listening impls) where
  ids := List.nodup_nil
  conns := List.nodup_nil
  pos := nofun
  made := nofun
  known r hr := by
    cases listening with
    | false => cases hr
    | true => exact .inl ⟨List.mem_singleton.mp hr, rfl⟩
  listener hlisten := by
    have hl : listening = true := hlisten
    subst hl
    exact List.mem_singleton_self _
  clients := nofun

/-- What a step owes when it is a pass. -/
def Survived (m : Overflow) (s : ServerSocket) (op : Op) : Prop :=
  ∀ evs s', op = .pass evs → step m s op = some s' → Survives s evs s'

/-- **Every pass is survived** in a run whose poller calls do not fail and whose ids do not run
into each other. -/
theorem passes_survive (m : Overflow) (listening : Bool) (impls : List ProtocolSpec) {ops : List Op}
    (htrusts : Run.Meets (step m) Trusts (start listening impls) ops) :
    Run.Meets (step m) (Survived m) (start listening impls) ops := by
  refine Run.meets_meeting (fun s op s' hs htrusts hstep => Steady.step hs htrusts hstep) ?_
    (Steady.start listening impls) htrusts
  intro s op hs htrusts evs s' hop hstep
  subst hop
  obtain ⟨⟨t, ok⟩, hpass, rfl⟩ := Option.map_eq_some_iff.mp hstep
  have hspec := survives_iff_ok hs htrusts.2 hpass
  exact hspec.1.mpr (hspec.2.2 htrusts.1)

/-- A connection comes. -/
def arrives : Ready := { source := .listener, key := listenerKey, accepted := true }

/-- The first client says hello. -/
def greets : Ready where
  source := .stream 0
  key := 1
  acts := [(0, .read [.sup]), (0, .handle), (0, .finish)]

/-- … or hangs up. -/
def hangsUp : Ready := { source := .stream 0, key := 1, acts := [(0, .hangup)] }

/-- The second one does. -/
def greetsToo : Ready where
  source := .stream 1
  key := 2
  acts := [(1, .read [.sup]), (1, .handle), (1, .finish)]

/-- Two clients come; one greets while the other one comes, and then hangs up. -/
def serving : List Op :=
  [.pass [arrives], .pass [greets, arrives], .pass [hangsUp, greetsToo]]

theorem passes_survive_serving :
    (Run.run (step .checked) (start true [shopProtocol]) serving).isSome = true ∧
    Run.Meets (step .checked) (Survived .checked) (start true [shopProtocol]) serving :=
  ⟨by decide, passes_survive .checked true [shopProtocol] (by decide)⟩

/-- The first client hangs up, and the second one cannot be armed again. -/
def failing : List Op :=
  [.pass [arrives], .pass [arrives], .pass [hangsUp, { greetsToo with modified := false }, arrives]]

/-- The first client was found in error and stays, the second one is never heard again, and nobody
else can connect. -/
theorem not_always_survived : ¬ ∀ (m : Overflow) (listening : Bool) (impls : List ProtocolSpec)
    (ops : List Op), Run.Meets (step m) (Survived m) (start listening impls) ops := by
  intro h
  have hsurvived := ((h .checked true [shopProtocol] failing).2 _ rfl).2 _ rfl
  have hlast := hsurvived.1 _ _ rfl rfl
  exact (hlast.dead 0 (List.mem_singleton_self _)).1 _ (List.mem_cons_self ..) rfl

end ServerSocket

end Hyprwire
