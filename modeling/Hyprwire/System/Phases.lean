import Hyprwire.System.Ledger

/-!
# `System/Phases.lean` — where a client's dispatches stand

What a step does to the phases of the queues, to the record of what was handled, and to the error
flag (`Progress`). Whatever else an action does, a queue reads when it is idle, handles the first
message of its batch, and is idle again when the batch is done or given up.
-/

namespace Hyprwire.Client

variable {c c' : Client}

/-- The messages that were read and are still to be handled. -/
def Phase.pending : Phase → List S2C
  | .idle => []
  | .batch rest | .callback rest _ _ => rest

/-- A queue that can start to dispatch is alive and idle. -/
theorem dispatches_spec {q : Nat} (h : c.dispatches q = true) :
    (c.queues q).live = true ∧ (c.queues q).phase = .idle := by
  simp only [dispatches, Bool.and_eq_true, decide_eq_true_eq] at h
  exact h.1.1

/-! ## What user code leaves alone -/

theorem Frame.bind (c : Client) (q : Nat) (proto : ProtocolSpec) (version : Nat) :
    Frame c (c.bind q proto version) := by
  unfold Client.bind
  split
  · exact .refl c
  · split
    · exact .refl c
    · next c₁ hbind =>
      obtain ⟨spec, -, rfl⟩ := bindProtocol_eq hbind
      have hfetch : Frame c c.fetchAdd := { Frame.refl c with }
      exact ((hfetch.trans (.push ..)).trans (.write ..)).trans (.setObject ..)

theorem Frame.release (c : Client) (h : Nat) : Frame c (c.release h) := by
  unfold Client.release
  simp only
  split
  · exact .setObject ..
  · exact (Frame.setObject ..).trans (.dropUnlessHeld ..)

theorem Frame.send (c : Client) (h method : Nat) (args : List CallArg) :
    Frame c (c.send h method args) := by
  have hcall := Frame.call c h method args
  unfold Client.send
  simp only
  split
  · exact hcall
  · split
    · split
      · exact hcall.trans (.setObject ..)
      · exact hcall
    · split
      · exact hcall.trans (.release ..)
      · exact hcall

theorem Frame.destroyObject (c : Client) (id : Nat) : Frame c (c.destroyObject id) := by
  unfold Client.destroyObject
  have hrecord : Frame c { c with
      destructed := c.destructed ++ c.table.filter fun h => decide ((c.objects h).id = id) } :=
    { Frame.refl c with }
  exact hrecord.trans (.unlink ..)

theorem Frame.afterDispatch (c : Client) (h method : Nat) : Frame c (c.afterDispatch h method) := by
  unfold Client.afterDispatch
  split
  · exact .refl c
  · split
    · simp only
      split
      · exact (Frame.setObject ..).trans (.destroyObject ..)
      · exact .setObject ..
    · exact .refl c

theorem Frame.onSeq (c : Client) (seq id : Nat) : Frame c (c.onSeq seq id) := by
  obtain ⟨f, -, h, heq⟩ := onSeq_eq c seq id
  rw [heq]
  exact .setObject ..

theorem Frame.collect (c : Client) : Frame c c.collectOrphanedObjects := .unlink ..

theorem Frame.flush (c : Client) (q : Nat) : Frame c (c.flush q) := by
  rw [flush_eq]
  have hqueue := Frame.setQueue c q (f := fun queue => { queue with
    queue := queue.queue.filter c.waits }) fun _ => ⟨rfl, rfl, rfl⟩
  exact { hqueue with }

/-- Asking for an acknowledgement puts nothing in error. -/
theorem ask_error (c : Client) (q : Nat) : (c.ask q).error = c.error := (Frame.write ..).error

theorem ask_shut (c : Client) (q : Nat) : (c.ask q).shut = c.shut := (Frame.write ..).shut

/-! ## Steps -/

/-- The other queues stand where they stood. -/
def Others (q : Nat) (c c' : Client) : Prop :=
  ∀ i, i ≠ q → (c'.queues i).phase = (c.queues i).phase

/-- **What a step does to the dispatches.** -/
inductive Progress (c c' : Client) : Action → Prop
  | read (q : Nat) (batch : List S2C) (hidle : (c.queues q).phase = .idle)
      (hopen : c.error = false) (hphase : (c'.queues q).phase = .batch batch)
      (hothers : Others q c c') (hhandled : c'.handled = c.handled) : Progress c c' (.read q batch)
  | handled (q : Nat) (msg : S2C) (rest : List S2C)
      (hbatch : (c.queues q).phase = .batch (msg :: rest))
      (hphase : (c'.queues q).phase = .batch rest ∨
        (∃ h method, (c'.queues q).phase = .callback rest h method) ∨
        ((c'.queues q).phase = .idle ∧ c'.error = true))
      (hothers : Others q c c') (hhandled : c'.handled = c.handled ++ [msg]) :
      Progress c c' (.handle q)
  | returned (q : Nat) (rest : List S2C) (h method : Nat)
      (hcallback : (c.queues q).phase = .callback rest h method)
      (hphase : (c'.queues q).phase = .batch rest) (hothers : Others q c c')
      (hhandled : c'.handled = c.handled) : Progress c c' (.return_ q)
  | gaveUp (a : Action) (q : Nat) (hphase : (c'.queues q).phase = .idle) (herror : c'.error = true)
      (hothers : Others q c c') (hhandled : c'.handled = c.handled)
      (hquiet : (c.queues q).phase = .idle ∨ ∃ rest, (c.queues q).phase = .batch rest) :
      Progress c c' a
  | finished (q : Nat) (hbatch : (c.queues q).phase = .batch [])
      (hphase : (c'.queues q).phase = .idle) (hothers : Others q c c')
      (hhandled : c'.handled = c.handled) : Progress c c' (.finish q)
  | still (a : Action) (hphase : ∀ q, (c'.queues q).phase = (c.queues q).phase)
      (hhandled : c'.handled = c.handled) (hread : ∀ q batch, a ≠ .read q batch)
      (hhandle : ∀ q, a ≠ .handle q) : Progress c c' a

theorem Frame.still (h : Frame c c') {a : Action} (hread : ∀ q batch, a ≠ .read q batch)
    (hhandle : ∀ q, a ≠ .handle q) : Progress c c' a :=
  .still a h.phase h.handled hread hhandle

/-- A change of a queue that leaves its phase alone. -/
theorem still_setQueue (h : Frame c c') (q : Nat) {f : EventQueue → EventQueue}
    (hf : ∀ queue, (f queue).phase = queue.phase) {a : Action} (hread : ∀ q batch, a ≠ .read q batch)
    (hhandle : ∀ q, a ≠ .handle q) : Progress c (c'.setQueue q f) a := by
  refine .still a (fun i => ?_) h.handled hread hhandle
  rw [← h.phase i]
  simp only [setQueue]
  split
  · exact hf _
  · rfl

theorem setPhase_phase (c : Client) (q : Nat) (phase : Phase) :
    ((c.setPhase q phase).queues q).phase = phase := by
  simp [setPhase, setQueue]

theorem setPhase_others (c : Client) (q : Nat) (phase : Phase) : Others q c (c.setPhase q phase) := by
  intro i hi
  simp [setPhase, setQueue, hi]

theorem Frame.others (h : Frame c c') (q : Nat) : Others q c c' := fun i _ => h.phase i

theorem Others.trans {c'' : Client} {q : Nat} (h : Others q c c') (h' : Others q c' c'') :
    Others q c c'' := fun i hi => (h' i hi).trans (h i hi)

/-- A change of what does not matter and then of the phase. -/
theorem Frame.setPhase_others (h : Frame c c') (q : Nat) (phase : Phase) :
    Others q c (c'.setPhase q phase) :=
  (h.others q).trans (Client.setPhase_others c' q phase)

theorem progress_handle (c : Client) {q : Nat} {msg : S2C} {rest : List S2C}
    (hbatch : (c.queues q).phase = .batch (msg :: rest)) :
    Progress c (c.handle q msg rest) (.handle q) := by
  let c₁ : Client := { c with handled := c.handled ++ [msg] }
  have hothers₁ : Others q c c₁ := fun _ _ => rfl
  -- what is heard first, then something that leaves the dispatches alone, then the phase
  have hdone : ∀ {c₂ : Client} {phase : Phase}, Frame c₁ c₂ →
      (phase = .batch rest ∨ ∃ h method, phase = .callback rest h method) →
      Progress c (c₂.setPhase q phase) (.handle q) := by
    intro c₂ phase hframe hphase
    refine .handled q msg rest hbatch ?_ (hothers₁.trans (hframe.setPhase_others q phase))
      hframe.handled
    rw [setPhase_phase]
    rcases hphase with hphase | hphase
    · exact .inl hphase
    · exact .inr (.inl hphase)
  have hset : ∀ (c₂ : Client), c₂.queues = c₁.queues → c₂.handled = c₁.handled →
      Progress c (c₂.setPhase q (.batch rest)) (.handle q) := by
    intro c₂ hqueues hhandled
    refine .handled q msg rest hbatch (.inl (setPhase_phase ..)) (fun i hi => ?_) hhandled
    rw [setPhase_others c₂ q _ i hi, hqueues]
  unfold handle
  cases msg with
  | handshakeBegin versions =>
    simp only
    split
    · exact hdone (.write c₁ _) (.inl rfl)
    · refine .handled q _ rest hbatch (.inr (.inr ⟨?_, rfl⟩)) (fun i hi => ?_) rfl
      · simp [abort, setQueue]
      · simp [abort, setQueue, hi, disconnectOnError]
  | handshakeProtocols protocols => exact hset _ rfl rfl
  | newObject seq id => exact hdone (.onSeq c₁ seq id) (.inl rfl)
  | generic g =>
    simp only [onGeneric]
    split
    · exact hset _ rfl rfl
    · next h hfind =>
      split
      · exact hdone (.setObject c₁ ..) (.inr ⟨h, g.method, rfl⟩)
      · exact hdone (.afterDispatch c₁ ..) (.inl rfl)
  | fatalProtocolError objectId errorId errorMsg => exact hset _ rfl rfl
  | roundtripDone seq request =>
    refine .handled q _ rest hbatch (.inl ?_) (fun i hi => ?_) rfl
    · simp [setQueue]
    · simp [setQueue, hi]

theorem handle_handled (c : Client) (q : Nat) (msg : S2C) (rest : List S2C) :
    (c.handle q msg rest).handled = c.handled ++ [msg] := by
  unfold handle
  cases msg with
  | handshakeBegin versions =>
    simp only
    split
    · exact (Frame.write ..).handled
    · rfl
  | handshakeProtocols _ | fatalProtocolError _ _ _ | roundtripDone _ _ => rfl
  | newObject seq id => exact (Frame.onSeq ..).handled
  | generic g =>
    simp only [onGeneric]
    split
    · rfl
    · split
      · rfl
      · exact (Frame.afterDispatch ..).handled

/-- A callback that comes back leaves the rest of the batch to be handled. -/
theorem returned_eq (c : Client) (q : Nat) (rest : List S2C) (obj method : Nat) :
    ∃ t, Frame c t ∧ c.returned q rest obj method = t.setPhase q (.batch rest) := by
  refine ⟨_, ?_, rfl⟩
  have hset := (Frame.afterDispatch c obj method).trans (.setObject _ obj fun o =>
    { o with borrows := o.borrows - 1 })
  split
  · exact hset
  · exact hset.trans (.dropUnlessHeld ..)

/-- **Every step is one of these.** -/
theorem progress {a : Action} (h : step c a = some c') : Progress c c' a := by
  cases a with
  | bind q proto version =>
    simp only [step, Option.ite_none_right_eq_some, Option.some.injEq] at h
    exact h.2 ▸ (Frame.bind ..).still (by simp) (by simp)
  | send obj method args =>
    simp only [step, Option.ite_none_right_eq_some, Option.some.injEq] at h
    exact h.2 ▸ (Frame.send ..).still (by simp) (by simp)
  | clone obj =>
    simp only [step, Option.ite_none_right_eq_some, Option.some.injEq] at h
    exact h.2 ▸ (Frame.setObject ..).still (by simp) (by simp)
  | drop obj =>
    simp only [step, Option.ite_none_right_eq_some, Option.some.injEq] at h
    exact h.2 ▸ (Frame.release ..).still (by simp) (by simp)
  | dropQueue q =>
    simp only [step, Option.ite_none_right_eq_some, Option.some.injEq] at h
    obtain ⟨-, rfl⟩ := h
    refine still_setQueue (.refl c) q ?_ (by simp) (by simp)
    exact fun _ => rfl
  | roundtrip q =>
    simp only [step, Option.ite_none_right_eq_some, Option.some.injEq] at h
    obtain ⟨-, rfl⟩ := h
    have hwrite := Frame.write (c.setQueue q fun queue => { queue with
      lastSent := ((c.queues q).lastSent + 1) % wordSize
      inRoundtrip := true, marked := c.out.length })
      (.roundtripRequest (((c.queues q).lastSent + 1) % wordSize) q)
    refine .still _ (fun i => (hwrite.phase i).trans ?_) hwrite.handled (by simp) (by simp)
    simp only [setQueue]
    split <;> rfl
  | roundtripReturn q =>
    simp only [step, Option.ite_none_right_eq_some, Option.some.injEq] at h
    obtain ⟨-, rfl⟩ := h
    refine still_setQueue (.refl c) q ?_ (by simp) (by simp)
    exact fun _ => rfl
  | roundtripFail q =>
    simp only [step, Option.ite_none_right_eq_some, Option.some.injEq] at h
    obtain ⟨-, rfl⟩ := h
    have hframe : Frame c (if c.error then c else c.collectOrphanedObjects) := by
      split
      · exact .refl c
      · exact .collect c
    refine still_setQueue hframe q ?_ (by simp) (by simp)
    exact fun _ => rfl
  | poll q =>
    simp only [step, Option.ite_none_right_eq_some, Option.some.injEq] at h
    exact h.2 ▸ (Frame.collect c).still (by simp) (by simp)
  | unreadable q =>
    simp only [step, Option.ite_none_right_eq_some, Option.some.injEq] at h
    obtain ⟨hdispatches, rfl⟩ := h
    simp only [dispatches, Bool.and_eq_true, decide_eq_true_eq, Bool.not_eq_true'] at hdispatches
    refine .gaveUp _ q ?_ rfl (fun i hi => ?_) (Frame.collect c).handled (.inl hdispatches.1.1.2)
    · simp [abort, setQueue]
    · simpa [abort, setQueue, hi, disconnectOnError] using (Frame.collect c).phase i
  | read q batch =>
    simp only [step, Option.ite_none_right_eq_some, Option.some.injEq] at h
    obtain ⟨⟨hdispatches, -⟩, rfl⟩ := h
    simp only [dispatches, Bool.and_eq_true, decide_eq_true_eq, Bool.not_eq_true'] at hdispatches
    exact .read q batch hdispatches.1.1.2 hdispatches.1.2 (setPhase_phase ..)
      ((Frame.collect c).setPhase_others q _) (Frame.collect c).handled
  | handle q =>
    obtain ⟨msg, rest, hphase, rfl⟩ := step_handles h
    exact progress_handle c hphase
  | return_ q =>
    obtain ⟨rest, obj, method, hphase, rfl⟩ := step_returns h
    obtain ⟨t, hframe, heq⟩ := returned_eq c q rest obj method
    rw [heq]
    exact .returned q rest obj method hphase (setPhase_phase ..) (hframe.setPhase_others q _)
      hframe.handled
  | malformed q =>
    simp only [step] at h
    split at h
    · next rest hbatch =>
      cases h
      refine .gaveUp _ q ?_ rfl (fun i hi => ?_) rfl (.inr ⟨rest, hbatch⟩)
      · simp [abort, setQueue]
      · simp [abort, setQueue, hi, disconnectOnError]
    · cases h
  | finish q =>
    simp only [step] at h
    split at h
    · next hphase =>
      cases h
      have hframe : Frame c (c.flush q).collectOrphanedObjects :=
        (Frame.flush c q).trans (.collect _)
      refine .finished q hphase ?_ (fun i hi => ?_) hframe.handled
      · simp [Client.finish, setQueue]
      · simpa [Client.finish, setQueue, hi] using hframe.phase i
    · cases h

/-- What is handled was handled before, or heads a batch. -/
theorem heads_of_step {a : Action} (h : step c a = some c') {msg : S2C} (hmsg : msg ∈ c'.handled) :
    msg ∈ c.handled ∨ ∃ q rest, a = .handle q ∧ (c.queues q).phase = .batch (msg :: rest) := by
  cases progress h with
  | handled q msg₀ rest hbatch _ _ hhandled =>
    rw [hhandled] at hmsg
    rcases List.mem_append.mp hmsg with hold | hnew
    · exact .inl hold
    · exact .inr ⟨q, rest, rfl, List.mem_singleton.mp hnew ▸ hbatch⟩
  | read _ _ _ _ _ _ hhandled => exact .inl (hhandled ▸ hmsg)
  | returned _ _ _ _ _ _ _ hhandled => exact .inl (hhandled ▸ hmsg)
  | gaveUp _ _ _ _ _ hhandled => exact .inl (hhandled ▸ hmsg)
  | finished _ _ _ _ hhandled => exact .inl (hhandled ▸ hmsg)
  | still _ _ hhandled _ _ => exact .inl (hhandled ▸ hmsg)

/-! ## Errors -/

/-- An error stays, and a stream is shut down with an error only. -/
structure Faults (c c' : Client) : Prop where
  error : c.error = true → c'.error = true
  shut : c'.shut = true → c.shut = true ∨ c'.error = true

theorem Faults.of_eq (herror : c'.error = c.error) (hshut : c'.shut = c.shut) : Faults c c' :=
  ⟨fun h => herror.trans h, fun h => .inl (hshut ▸ h)⟩

theorem Faults.of_error (h : c'.error = true) : Faults c c' := ⟨fun _ => h, fun _ => .inr h⟩

theorem faults_handle (c : Client) (q : Nat) (msg : S2C) (rest : List S2C) :
    Faults c (c.handle q msg rest) := by
  unfold handle
  cases msg with
  | handshakeBegin versions =>
    simp only
    split
    · have hframe := Frame.write { c with handled := c.handled ++ [.handshakeBegin versions] }
        (.handshakeAck 1)
      exact .of_eq hframe.error hframe.shut
    · exact .of_error rfl
  | handshakeProtocols protocols => exact .of_eq rfl rfl
  | newObject seq id =>
    have hframe := Frame.onSeq { c with handled := c.handled ++ [.newObject seq id] } seq id
    exact .of_eq hframe.error hframe.shut
  | generic g =>
    simp only [onGeneric]
    split
    · exact .of_error rfl
    · next h hfind =>
      split
      · exact .of_eq rfl rfl
      · have hframe := Frame.afterDispatch { c with handled := c.handled ++ [.generic g] } h g.method
        exact .of_eq hframe.error hframe.shut
  | fatalProtocolError objectId errorId errorMsg => exact .of_error rfl
  | roundtripDone seq request => exact .of_eq rfl rfl

/-- What becomes of the flags where no message is handled. -/
inductive Flagged (c c' : Client) : Prop
  | kept (herror : c'.error = c.error) (hshut : c'.shut = c.shut)
      (hunknown : c'.unknownObject = c.unknownObject)
  | gaveUp (herror : c'.error = true) (hunknown : c'.unknownObject = c.unknownObject)

theorem Frame.flagged (h : Frame c c') : Flagged c c' := .kept h.error h.shut h.unknownObject

theorem Flagged.faults (h : Flagged c c') : Faults c c' := by
  cases h with
  | kept herror hshut _ => exact .of_eq herror hshut
  | gaveUp herror _ => exact .of_error herror

theorem Flagged.unknownObject (h : Flagged c c') : c'.unknownObject = c.unknownObject := by
  cases h with
  | kept _ _ hunknown => exact hunknown
  | gaveUp _ hunknown => exact hunknown

/-- **Only the handling of a message changes the flags** in any other way. -/
theorem flagged {a : Action} (ha : ∀ q, a ≠ .handle q) (h : step c a = some c') : Flagged c c' := by
  cases a with
  | bind q proto version =>
    simp only [step, Option.ite_none_right_eq_some, Option.some.injEq] at h
    exact h.2 ▸ (Frame.bind ..).flagged
  | send obj method args =>
    simp only [step, Option.ite_none_right_eq_some, Option.some.injEq] at h
    exact h.2 ▸ (Frame.send ..).flagged
  | clone obj =>
    simp only [step, Option.ite_none_right_eq_some, Option.some.injEq] at h
    exact h.2 ▸ .kept rfl rfl rfl
  | drop obj =>
    simp only [step, Option.ite_none_right_eq_some, Option.some.injEq] at h
    exact h.2 ▸ (Frame.release ..).flagged
  | dropQueue q =>
    simp only [step, Option.ite_none_right_eq_some, Option.some.injEq] at h
    exact h.2 ▸ .kept rfl rfl rfl
  | roundtrip q =>
    simp only [step, Option.ite_none_right_eq_some, Option.some.injEq] at h
    exact h.2 ▸ .kept (ask_error c q) (ask_shut c q) (Frame.write ..).unknownObject
  | roundtripReturn q =>
    simp only [step, Option.ite_none_right_eq_some, Option.some.injEq] at h
    exact h.2 ▸ .kept rfl rfl rfl
  | roundtripFail q =>
    simp only [step, Option.ite_none_right_eq_some, Option.some.injEq] at h
    obtain ⟨-, rfl⟩ := h
    split
    · exact .kept rfl rfl rfl
    · exact .kept (Frame.collect c).error (Frame.collect c).shut (Frame.collect c).unknownObject
  | poll q =>
    simp only [step, Option.ite_none_right_eq_some, Option.some.injEq] at h
    exact h.2 ▸ (Frame.collect c).flagged
  | unreadable q =>
    simp only [step, Option.ite_none_right_eq_some, Option.some.injEq] at h
    exact h.2 ▸ .gaveUp rfl (Frame.collect c).unknownObject
  | read q batch =>
    simp only [step, Option.ite_none_right_eq_some, Option.some.injEq] at h
    exact h.2 ▸ .kept (Frame.collect c).error (Frame.collect c).shut (Frame.collect c).unknownObject
  | handle q => exact absurd rfl (ha q)
  | return_ q =>
    obtain ⟨rest, obj, method, hphase, rfl⟩ := step_returns h
    obtain ⟨t, hframe, heq⟩ := returned_eq c q rest obj method
    rw [heq]
    exact .kept hframe.error hframe.shut hframe.unknownObject
  | malformed q =>
    simp only [step] at h
    split at h
    · cases h
      exact .gaveUp rfl rfl
    · cases h
  | finish q =>
    simp only [step] at h
    split at h
    · cases h
      have hframe := (Frame.flush c q).trans (.collect _)
      exact .kept hframe.error hframe.shut hframe.unknownObject
    · cases h

theorem faults {a : Action} (h : step c a = some c') : Faults c c' := by
  by_cases ha : ∃ q, a = .handle q
  · obtain ⟨q, rfl⟩ := ha
    obtain ⟨msg, rest, -, rfl⟩ := step_handles h
    exact faults_handle ..
  · exact (flagged (fun q heq => ha ⟨q, heq⟩) h).faults

end Hyprwire.Client
