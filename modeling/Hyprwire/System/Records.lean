import Hyprwire.System.Phases
import Hyprwire.System.Polling

/-!
# `System/Records.lean` — what either side writes down

A side writes down what it has handled, and for each of its dispatches where it stands; what it wrote
and what it deferred only grow at their ends. Nothing that user code or a message does depends on
more of this than whether a dispatch is going on and how many messages there were: with other records
(`relabel`) it does the same, and leaves the same but for the records. So a side may be compared with
one that took other notes, that stands elsewhere in its batch, or that has flushed already.
-/

namespace Hyprwire

namespace Client

/-- What user code does between two calls and in a callback. -/
def Action.isCall : Action → Bool
  | .send .. | .clone _ | .drop _ | .dropQueue _ => true
  | _ => false

/-- How the records of one client become those of another: what was handled, for every queue its
phase and the acknowledgements that were credited to it, and what else was sent before, or is kept in
front of what a queue has deferred. -/
structure Records where
  log : List S2C → List S2C := id
  phase : Nat → Phase → Phase := fun _ => id
  credited : Nat → List Nat → List Nat := fun _ => id
  sent : List C2S := []
  kept : Nat → List Deferred := fun _ => []

def Records.queue (r : Records) (i : Nat) (queue : EventQueue) : EventQueue :=
  { queue with
    queue := r.kept i ++ queue.queue
    phase := r.phase i queue.phase
    credited := r.credited i queue.credited }

/-- The same client, with other records. -/
def relabel (r : Records) (c : Client) : Client :=
  { c with
    handled := r.log c.handled
    out := r.sent ++ c.out
    queues := fun i => r.queue i (c.queues i) }

variable (r : Records)

theorem relabel_queues (c : Client) (i : Nat) : (c.relabel r).queues i = r.queue i (c.queues i) := rfl

/-- A change of a queue that leaves its records alone. -/
theorem setQueue_relabel (c : Client) (q : Nat) (f : EventQueue → EventQueue)
    (hf : ∀ queue, f (r.queue q queue) = r.queue q (f queue)) :
    (c.relabel r).setQueue q f = (c.setQueue q f).relabel r := by
  unfold setQueue relabel
  congr 1
  funext i
  dsimp only
  split
  · next hi =>
    subst hi
    exact hf _
  · rfl

theorem setPhase_relabel (c : Client) (q : Nat) {phase : Phase} (hphase : r.phase q phase = phase) :
    (c.relabel r).setPhase q phase = (c.setPhase q phase).relabel r :=
  setQueue_relabel r c q (fun queue => { queue with phase }) fun queue => by
    simp only [Records.queue, hphase]

theorem write_relabel (c : Client) (msg : C2S) : (c.relabel r).write msg = (c.write msg).relabel r := by
  show (if c.shut then _ else _) = _
  unfold write
  split
  · rfl
  · exact congrArg (fun out => { c.relabel r with out }) (List.append_assoc ..)

theorem defer_relabel (c : Client) (q : Nat) (entry : Deferred) :
    (c.relabel r).defer q entry = (c.defer q entry).relabel r :=
  setQueue_relabel r c q (fun queue => { queue with queue := queue.queue ++ [entry] }) fun old =>
    congrArg (fun queue => { r.queue q old with queue }) (List.append_assoc ..)

theorem route_relabel (c : Client) (h : Nat) (msg : Generic) :
    (c.relabel r).route h msg = (c.route h msg).relabel r := by
  have hlive : ∀ i, ((c.relabel r).queues i).live = (c.queues i).live := fun _ => rfl
  unfold route
  dsimp only
  rw [hlive]
  show (if (c.objects h).id = 0 then
    if (c.queues (c.objects h).eventQueue).live then _ else _ else _) = _
  split
  · split
    · exact defer_relabel r (c.record _) _ _
    · rfl
  · exact write_relabel r (c.record _) _

theorem makeObject_relabel (c : Client) (protocolName objectName : String) (seq q : Nat) :
    (c.relabel r).makeObject protocolName objectName seq q =
      (c.makeObject protocolName objectName seq q).map (relabel r) := by
  have himpls : (c.relabel r).impls = c.impls := rfl
  unfold makeObject
  rw [himpls]
  cases specFor c.impls protocolName objectName <;> rfl

theorem callMethod_relabel (c : Client) (h method : Nat) (m : MethodSpec) (args : List CallArg) :
    (c.relabel r).callMethod h method m args =
      ((c.callMethod h method m args).1.relabel r, (c.callMethod h method m args).2) := by
  have hmark : (c.relabel r).markDestroyed h m = (c.markDestroyed h m).relabel r := by
    unfold markDestroyed
    split <;> rfl
  have hfetch : ∀ c : Client, (c.relabel r).fetchAdd = c.fetchAdd.relabel r := fun _ => rfl
  have hnext : ∀ c : Client, (c.relabel r).nextSeq = c.nextSeq := fun _ => rfl
  have hready : (if m.returnsType ≠ "" then ((c.markDestroyed h m).relabel r).fetchAdd
      else (c.markDestroyed h m).relabel r) =
      (if m.returnsType ≠ "" then (c.markDestroyed h m).fetchAdd else c.markDestroyed h m).relabel r := by
    split <;> rfl
  have hcalls : ∀ c : Client, (c.relabel r).calls = c.calls := fun _ => rfl
  have hobjects : ∀ c : Client, (c.relabel r).objects = c.objects := fun _ => rfl
  have hlive : ∀ (c : Client) i, ((c.relabel r).queues i).live = (c.queues i).live := fun _ _ => rfl
  unfold callMethod
  dsimp only
  rw [hmark]
  simp only [hnext, hready, hcalls, hobjects, route_relabel, hlive, makeObject_relabel]
  generalize (if m.returnsType ≠ "" then (c.markDestroyed h m).nextSeq else 0) = seq
  generalize (if m.returnsType ≠ "" then (c.markDestroyed h m).fetchAdd
    else c.markDestroyed h m).route h _ = d
  split
  · rfl
  · split
    · cases d.makeObject (c.objects h).protocolName m.returnsType seq (c.objects h).eventQueue <;> rfl
    · rfl

theorem call_relabel (c : Client) (h method : Nat) (args : List CallArg) :
    (c.relabel r).call h method args =
      ((c.call h method args).1.relabel r, (c.call h method args).2) := by
  have hobjects : (c.relabel r).objects = c.objects := rfl
  unfold call
  rw [hobjects]
  split
  · rfl
  · split
    · rfl
    · exact callMethod_relabel ..

theorem dropUnlessHeld_relabel (c : Client) (h : Nat) :
    (c.relabel r).dropUnlessHeld h = (c.dropUnlessHeld h).relabel r := by
  have hobjects : (c.relabel r).objects = c.objects := rfl
  unfold dropUnlessHeld dropObject
  rw [hobjects]
  split
  · rfl
  · cases autoDestructor (c.objects h) with
    | none => rfl
    | some m => exact congrArg Prod.fst (call_relabel ..)

theorem unlink_relabel (c : Client) (gone : Nat → Bool) :
    (c.relabel r).unlink gone = (c.unlink gone).relabel r := by
  have hdrops : ∀ (hs : List Nat) (c : Client),
      hs.foldl dropUnlessHeld (c.relabel r) = (hs.foldl dropUnlessHeld c).relabel r := by
    intro hs
    induction hs with
    | nil => exact fun _ => rfl
    | cons h hs ih =>
      intro c
      rw [List.foldl_cons, dropUnlessHeld_relabel, ih, List.foldl_cons]
  exact hdrops (c.table.filter gone) { c with table := c.table.filter fun h => !gone h }

theorem destroyObject_relabel (c : Client) (id : Nat) :
    (c.relabel r).destroyObject id = (c.destroyObject id).relabel r :=
  unlink_relabel r { c with
    destructed := c.destructed ++ c.table.filter fun h => decide ((c.objects h).id = id) } _

theorem collect_relabel (c : Client) :
    (c.relabel r).collectOrphanedObjects = c.collectOrphanedObjects.relabel r := unlink_relabel ..

theorem release_relabel (c : Client) (h : Nat) :
    (c.relabel r).release h = (c.release h).relabel r := by
  have hset : (c.relabel r).setObject h (fun obj => { obj with handles := obj.handles - 1 }) =
      (c.setObject h fun obj => { obj with handles := obj.handles - 1 }).relabel r := rfl
  unfold release
  dsimp only
  rw [hset]
  generalize (c.setObject h fun obj => { obj with handles := obj.handles - 1 }) = d
  have htable : (d.relabel r).table = d.table := rfl
  rw [htable, dropUnlessHeld_relabel]
  split <;> rfl

theorem send_relabel (c : Client) (h method : Nat) (args : List CallArg) :
    (c.relabel r).send h method args = (c.send h method args).relabel r := by
  have hobjects : (c.relabel r).objects = c.objects := rfl
  have hseq : ∀ (c : Client) seq, (c.relabel r).objectForSeq seq = c.objectForSeq seq := fun _ _ => rfl
  unfold send
  rw [call_relabel, hobjects]
  dsimp only
  rw [hseq]
  split
  · rfl
  · split
    · split <;> rfl
    · split
      · exact release_relabel ..
      · rfl

theorem afterDispatch_relabel (c : Client) (h method : Nat) :
    (c.relabel r).afterDispatch h method = (c.afterDispatch h method).relabel r := by
  have hobjects : ∀ c : Client, (c.relabel r).objects = c.objects := fun _ => rfl
  have hset : (c.relabel r).setObject h (fun obj => { obj with destroyed := true }) =
      (c.setObject h fun obj => { obj with destroyed := true }).relabel r := rfl
  unfold afterDispatch
  rw [hobjects, hset]
  cases (c.objects h).methodsIn[method]? with
  | none => rfl
  | some m =>
    dsimp only
    rw [hobjects, destroyObject_relabel]
    split
    · split <;> rfl
    · rfl

theorem returned_relabel (c : Client) (q : Nat) {rest : List S2C}
    (hphase : r.phase q (.batch rest) = .batch rest) (h method : Nat) :
    (c.relabel r).returned q rest h method = (c.returned q rest h method).relabel r := by
  have hset : ∀ d : Client,
      (d.relabel r).setObject h (fun obj => { obj with borrows := obj.borrows - 1 }) =
        (d.setObject h fun obj => { obj with borrows := obj.borrows - 1 }).relabel r := fun _ => rfl
  have htable : ∀ d : Client, (d.relabel r).table = d.table := fun _ => rfl
  unfold returned
  dsimp only
  rw [afterDispatch_relabel, hset, htable, dropUnlessHeld_relabel]
  split <;> exact setPhase_relabel r _ q hphase

theorem onSeq_relabel (c : Client) (seq id : Nat) :
    (c.relabel r).onSeq seq id = (c.onSeq seq id).relabel r := by
  have hfind : (c.relabel r).objectForSeq seq = c.objectForSeq seq := rfl
  unfold onSeq
  rw [hfind]
  cases c.objectForSeq seq <;> rfl

/-- A flush is the same when nothing was put in front of its queue. -/
theorem flush_relabel (c : Client) {q : Nat} (hkept : r.kept q = []) :
    (c.relabel r).flush q = (c.flush q).relabel r := by
  have hentry : ∀ (c : Client) entry,
      flushEntry q (c.relabel r) entry = (flushEntry q c entry).relabel r := by
    intro c entry
    have hfind : (c.relabel r).objectForSeq entry.dependsOnSeq = c.objectForSeq entry.dependsOnSeq := rfl
    have hobjects : (c.relabel r).objects = c.objects := rfl
    unfold flushEntry
    rw [hfind, hobjects]
    cases c.objectForSeq entry.dependsOnSeq with
    | none => rfl
    | some h =>
      dsimp only
      rw [defer_relabel, write_relabel]
      split <;> rfl
  have hentries : ∀ (entries : List Deferred) (c : Client),
      entries.foldl (flushEntry q) (c.relabel r) = (entries.foldl (flushEntry q) c).relabel r := by
    intro entries
    induction entries with
    | nil => exact fun _ => rfl
    | cons entry entries ih =>
      intro c
      rw [List.foldl_cons, hentry, ih, List.foldl_cons]
  have hqueue : ((c.relabel r).queues q).queue = (c.queues q).queue := by
    rw [relabel_queues, Records.queue, hkept, List.nil_append]
  unfold flush
  rw [setQueue_relabel r c q (fun queue => { queue with queue := [] }) fun _ => by
    simp only [Records.queue, hkept, List.append_nil], hqueue]
  exact hentries ..

/-- **What user code does between two calls and in a callback** it does the same, as long as no
dispatch ends or begins. A queue can be dropped when it does not dispatch, with all it keeps. -/
theorem step_call_relabel {c : Client} (hidle : ∀ i, (r.phase i (c.queues i).phase = .idle) =
    ((c.queues i).phase = .idle)) (hkept : ∀ i, (c.queues i).phase = .idle → r.kept i = [])
    {a : Action} (ha : a.isCall = true) :
    step (c.relabel r) a = (step c a).map (relabel r) := by
  have hphase : ∀ i, (((c.relabel r).queues i).phase = .idle) = ((c.queues i).phase = .idle) := hidle
  cases a with
  | send h method args =>
    have hblocked : (c.relabel r).blocked h = c.blocked h := by
      unfold blocked
      dsimp only
      simp only [ne_eq, hphase]
      rfl
    show (if c.offers h method ∧ ¬ (c.relabel r).blocked h then _ else _) = _
    simp only [step]
    rw [hblocked, send_relabel]
    split <;> rfl
  | clone h =>
    show (if (c.objects h).held then _ else _) = _
    simp only [step]
    split <;> rfl
  | drop h =>
    show (if 0 < (c.objects h).handles then _ else _) = _
    simp only [step]
    rw [release_relabel]
    split <;> rfl
  | dropQueue q =>
    have hround : ∀ i, ((c.relabel r).queues i).inRoundtrip = (c.queues i).inRoundtrip := fun _ => rfl
    have hlive : ∀ i, ((c.relabel r).queues i).live = (c.queues i).live := fun _ => rfl
    simp only [step, hphase, hround, hlive]
    split
    · next h =>
      rw [setQueue_relabel r c q (fun queue => { queue with live := false, queue := [] }) fun _ => by
        simp only [Records.queue, hkept q h.2.1, List.append_nil]]
      rfl
    · rfl
  | _ => cases ha

end Client

namespace Server

/-- How the records of one server become those of another: what was handled, where its dispatch
stands, what else was sent before, and the acknowledgement that is due. -/
structure Records where
  log : List C2S → List C2S := id
  phase : Phase → Phase := id
  sent : List S2C := []
  due : Nat → Nat := id
  request : Nat → Nat := id

/-- The same server, with other records. -/
def relabel (r : Records) (s : Server) : Server :=
  { s with
    handled := r.log s.handled
    phase := r.phase s.phase
    out := r.sent ++ s.out
    scheduledRoundtripSeq := r.due s.scheduledRoundtripSeq
    scheduledRequest := r.request s.scheduledRequest }

variable (r : Records)

theorem write_relabel (s : Server) (msg : S2C) : (s.relabel r).write msg = (s.write msg).relabel r := by
  show (if s.shut then _ else _) = _
  unfold write
  split
  · rfl
  · exact congrArg (fun out => { s.relabel r with out }) (List.append_assoc ..)

theorem objectError_relabel (s : Server) (k errorId : Nat) (errorMsg : String) :
    (s.relabel r).objectError k errorId errorMsg = (s.objectError k errorId errorMsg).relabel r := by
  unfold objectError
  rw [write_relabel]
  show (if (s.objects k).destroyed then _ else _) = _
  split <;> rfl

/-- All that a call makes of the records is which message it is for. -/
theorem call_relabel (s : Server) (h : (s.relabel r).during = s.during) (k method : Nat)
    (args : List CallArg) : (s.relabel r).call k method args = (s.call k method args).relabel r := by
  have hobjects : (s.relabel r).objects = s.objects := rfl
  have hemit : ∀ m : MethodSpec, (s.relabel r).emitMethod k method m args =
      (s.emitMethod k method m args).relabel r := by
    intro m
    have hset : ((s.setObject k fun obj => { obj with destroyed := true }).relabel r).during =
        (s.setObject k fun obj => { obj with destroyed := true }).during := h
    have hcomm : (s.relabel r).setObject k (fun obj => { obj with destroyed := true }) =
        (s.setObject k fun obj => { obj with destroyed := true }).relabel r := rfl
    unfold emitMethod
    split
    · dsimp only
      rw [hcomm, hset, write_relabel]
      rfl
    · dsimp only
      rw [h, write_relabel]
      rfl
  unfold call
  simp only [objectError_relabel, hemit, hobjects]
  split
  · rfl
  · cases (s.objects k).methodsOut[method]? with
    | none => rfl
    | some m =>
      dsimp only
      split
      · rfl
      · split <;> rfl

theorem afterDispatch_relabel (s : Server) (k method : Nat) :
    (s.relabel r).afterDispatch k method = (s.afterDispatch k method).relabel r := by
  have hobjects : (s.relabel r).objects = s.objects := rfl
  rw [afterDispatch_eq, afterDispatch_eq, hobjects]
  split <;> rfl

theorem note_relabel (s : Server) (k method : Nat) :
    (s.relabel r).note k method = (s.note k method).relabel r := by
  rw [note_eq, note_eq]
  rfl

theorem createObject_relabel (s : Server) (protocol name : String) (version seq : Nat) :
    (s.relabel r).createObject protocol name version seq =
      (s.createObject protocol name version seq).relabel r := by
  rw [createObject_eq, createObject_eq]
  unfold relabel
  dsimp only
  congr 1
  split
  · rfl
  · exact List.append_assoc ..

/-- **What a handler does** it does the same wherever the dispatch stands. -/
theorem step_onSide_relabel (s : Server) (h : (s.relabel r).during = s.during) {a : Action}
    (ha : a.onSide = true) : step (s.relabel r) a = (step s a).map (relabel r) := by
  have hsize : (s.relabel r).size = s.size := rfl
  cases a with
  | emit k method args =>
    simp only [step, call_relabel r s h, hsize]
    split <;> rfl
  | error k errorId errorMsg =>
    simp only [step, objectError_relabel, hsize]
    split <;> rfl
  | _ => cases ha

end Server

end Hyprwire
