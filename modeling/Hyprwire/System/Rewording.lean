import Hyprwire.System.Receiving

/-!
# `System/Rewording.lean` — the same message in other words

What a decoder makes of a message is less than what was said: the arguments go to a callback and the
history is not on the wire. A side that is told the same (`SaysSame`) does the same, user code in its
callbacks included, and what it leaves differs in what it has noted down alone.
-/

namespace Hyprwire

namespace Server

/-- The same server, with other notes of what it has handled. -/
def noting (s : Server) (log : List C2S) : Server := s.relabel { log := fun _ => log }

/-- A server does the same on both messages. The number in a message is looked at when the method
makes an object. -/
def SaysSame (s : Server) : C2S → C2S → Prop
  | .sup, .sup => True
  | .handshakeAck version, .handshakeAck version' => version = version'
  | .bindProtocol seq version protocol, .bindProtocol seq' version' protocol' =>
    seq = seq' ∧ version = version' ∧ protocol = protocol'
  | .generic g, .generic g' =>
    g.object = g'.object ∧ g.method = g'.method ∧
      ∀ k spec, s.objectForId g.object = some k → (s.objects k).methodsIn[g.method]? = some spec →
        spec.returnsType ≠ "" → g.seq = g'.seq
  | .roundtripRequest seq _, .roundtripRequest seq' _ => seq = seq'
  | _, _ => False

section
variable {s t : Server} {req msg : C2S} {log : List C2S}

theorem dispatch_noting {g g' : Generic} {k : Nat} {rest : List C2S} (hmethod : g.method = g'.method)
    (hseq : ∀ spec, (s.objects k).methodsIn[g.method]? = some spec → spec.returnsType ≠ "" →
      g.seq = g'.seq) : (s.noting log).dispatch k g' rest = (s.dispatch k g rest).noting log := by
  have hobjects : (s.noting log).objects = s.objects := rfl
  have hsize : (s.noting log).size = s.size := rfl
  have hafter : ({ (s.noting log).afterDispatch k g'.method with phase := .batch rest } : Server) =
      ({ s.afterDispatch k g.method with phase := .batch rest } : Server).noting log := by
    rw [noting, afterDispatch_relabel, hmethod]
    rfl
  unfold dispatch
  dsimp only
  rw [hobjects, hsize, hafter, hmethod]
  cases hm : (s.objects k).methodsIn[g'.method]? with
  | none => rfl
  | some spec =>
    dsimp only
    split
    · rfl
    · split
      · rfl
      · next hret =>
        split
        · rfl
        · rw [noting, createObject_relabel, ← hseq spec (hmethod ▸ hm) hret]
          rfl

/-- **A server that is told the same does the same**, but for its notes. -/
theorem handle_noting (h : s.SaysSame req msg) (hlength : log.length = s.handled.length)
    (rest : List C2S) :
    (s.noting log).handle msg rest = (s.handle req rest).noting (log ++ [msg]) := by
  have hheard : (s.noting log).heard msg rest = (s.heard req rest).noting (log ++ [msg]) := rfl
  have hwrite : ∀ answer, ((s.noting log).heard msg rest).write answer =
      ((s.heard req rest).write answer).noting (log ++ [msg]) := by
    intro answer
    rw [hheard]
    exact write_relabel ..
  cases req with
  | sup =>
    cases msg with
    | sup => exact hwrite _
    | _ => cases h
  | handshakeAck version =>
    cases msg with
    | handshakeAck version' =>
      obtain rfl : version = version' := h
      show ({ ((s.noting log).heard _ rest).write _ with version } : Server) = _
      rw [hwrite]
      rfl
    | _ => cases h
  | bindProtocol seq version protocol =>
    cases msg with
    | bindProtocol seq' version' protocol' =>
      obtain ⟨rfl, rfl, rfl⟩ := h
      by_cases hversion : version = 0
      · subst hversion
        show ((s.noting log).heard _ rest).malformed = _
        rw [malformed, abort, hwrite]
        rfl
      · rw [handle_bind_eq _ _ _ _ hversion, handle_bind_eq _ _ _ _ hversion, hheard, noting,
          createObject_relabel]
        rfl
    | _ => cases h
  | generic g =>
    cases msg with
    | generic g' =>
      obtain ⟨hobject, hmethod, hseq⟩ := h
      rw [handle_generic, handle_generic, hheard]
      unfold onGeneric
      have hfind : ((s.heard (.generic g) rest).noting (log ++ [.generic g'])).objectForId g'.object =
          s.objectForId g.object := by
        rw [hobject]
        rfl
      rw [hfind, show (s.heard (.generic g) rest).objectForId g.object = s.objectForId g.object from rfl]
      cases hk : s.objectForId g.object with
      | none =>
        dsimp only
        rw [← hobject, noting, write_relabel]
        rfl
      | some k =>
        dsimp only
        rw [← hmethod, noting, note_relabel]
        refine dispatch_noting hmethod fun spec hspec hret => hseq k spec hk ?_ hret
        rw [note_eq] at hspec
        exact hspec
    | _ => cases h
  | roundtripRequest seq queue =>
    cases msg with
    | roundtripRequest seq' queue' =>
      obtain rfl : seq = seq' := h
      have hplace : (log ++ [C2S.roundtripRequest seq queue']).length - 1 =
          (s.handled ++ [C2S.roundtripRequest seq queue]).length - 1 := by
        rw [List.length_append, List.length_append, hlength]
        rfl
      show ({ (s.noting log).heard (.roundtripRequest seq queue') rest with
        scheduledRoundtripSeq := seq
        scheduledRequest := (log ++ [C2S.roundtripRequest seq queue']).length - 1 } : Server) = _
      rw [hplace]
      rfl
    | _ => cases h

/-- What is done in the course of a message it does the same, whatever it has noted down. -/
theorem step_inside_noting (hlength : log.length = s.handled.length) {a : Action}
    (ha : a.inside = true) : step (s.noting log) a = (step s a).map fun t => t.noting log := by
  have hduring : (s.noting log).during = s.during := by
    simp only [during, noting, relabel, hlength, id]
  cases a with
  | emit k method args => exact step_onSide_relabel _ s hduring rfl
  | error k errorId errorMsg => exact step_onSide_relabel _ s hduring rfl
  | return_ =>
    have hphase : (s.noting log).phase = s.phase := rfl
    simp only [step, hphase]
    split
    · next rest k method hcall =>
      cases method with
      | none => rfl
      | some method =>
        show some (((s.noting log).afterDispatch k method).inPhase (.batch rest)) = _
        rw [noting, afterDispatch_relabel]
        rfl
    · rfl
    · rfl
  | _ => cases ha

theorem handled_of_inside {a : Action} (ha : a.inside = true) (h : step s a = some t) :
    t.handled = s.handled := by
  cases progress h with
  | read batch hidle hopen heq => cases ha
  | handled msg rest hbatch hhandled hphase => cases ha
  | still _ hhandled hread hhandle hphase => exact hhandled

theorem run_inside_noting {as : List Action} (has : ∀ a ∈ as, a.inside = true)
    (hlength : log.length = s.handled.length) (hrun : Run.run step s as = some t) :
    Run.run step (s.noting log) as = some (t.noting log) ∧ t.handled = s.handled := by
  induction as generalizing s with
  | nil =>
    cases hrun
    exact ⟨rfl, rfl⟩
  | cons a as ih =>
    obtain ⟨u, hstep, hrun⟩ := Run.run_cons.mp hrun
    obtain ⟨ha, has⟩ := List.forall_mem_cons.mp has
    have hkept := handled_of_inside ha hstep
    obtain ⟨hnoted, hhandled⟩ := ih has (hlength.trans (congrArg List.length hkept.symm)) hrun
    refine ⟨Run.run_cons.mpr ⟨u.noting log, ?_, hnoted⟩, hhandled.trans hkept⟩
    rw [step_inside_noting hlength ha, hstep]
    rfl

theorem handle_handled (s : Server) (req : C2S) (rest : List C2S) :
    (s.handle req rest).handled = s.handled ++ [req] := by
  have hstep : step (s.inPhase (.batch (req :: rest))) .handle = some (s.handle req rest) := rfl
  cases progress hstep with
  | handled msg rest' hbatch hhandled hphase =>
    cases hbatch
    exact hhandled
  | still _ hhandled hread hhandle hphase => exact absurd rfl hhandle

/-- **A message in other words** is handled alike, and so is what its handler does. -/
theorem Handles.noting (h : Handles s req t) (hsame : s.SaysSame req msg)
    (hlength : log.length = s.handled.length) :
    Handles (s.noting log) msg (t.noting (log ++ [msg])) := by
  refine ⟨h.1, fun rest => ?_⟩
  obtain ⟨as, has, hrun⟩ := h.2 rest
  have hplace : (log ++ [msg]).length = (s.handle req rest).handled.length := by
    rw [handle_handled, List.length_append, List.length_append, hlength]
    rfl
  obtain ⟨hnoted, -⟩ := run_inside_noting has hplace hrun
  refine ⟨as, has, ?_⟩
  rw [handle_noting hsame hlength]
  exact hnoted

theorem Handles.handled (h : Handles s req t) : t.handled = s.handled ++ [req] := by
  obtain ⟨as, has, hrun⟩ := h.2 []
  obtain ⟨-, hkept⟩ := @run_inside_noting _ _ (s.handle req []).handled _ has rfl hrun
  exact hkept.trans (handle_handled s req [])

end

end Server

namespace Client

/-- The same client, with other notes of what it has handled, and of whose requests were credited to
a queue. -/
def noting (c : Client) (q : Nat) (log : List S2C) (credited : List Nat) : Client :=
  c.relabel { log := fun _ => log, credited := fun i old => if i = q then credited else old }

/-- A client does the same on both messages. -/
def SaysSame : S2C → S2C → Prop
  | .handshakeBegin versions, .handshakeBegin versions' => versions = versions'
  | .handshakeProtocols protocols, .handshakeProtocols protocols' => protocols = protocols'
  | .newObject seq id, .newObject seq' id' => seq = seq' ∧ id = id'
  | .generic g, .generic g' => g.object = g'.object ∧ g.method = g'.method
  | .fatalProtocolError .., .fatalProtocolError .. => True
  | .roundtripDone seq _, .roundtripDone seq' _ => seq = seq'
  | _, _ => False

/-- The request that a message is the answer to. -/
def credit : S2C → List Nat
  | .roundtripDone _ request => [request]
  | _ => []

section
variable {c t : Client} {q : Nat} {told msg : S2C} {log : List S2C} {credited : List Nat}

theorem setPhase_noting (c : Client) (q : Nat) (log : List S2C) (credited : List Nat) (q' : Nat)
    (phase : Phase) :
    (c.noting q log credited).setPhase q' phase = (c.setPhase q' phase).noting q log credited :=
  setPhase_relabel _ c q' rfl

/-- An acknowledgement is credited to another request. -/
theorem acknowledged_noting (c : Client) (seq request request' : Nat) (rest : List S2C) :
    ((c.noting q log credited).setQueue q fun queue =>
      { queue with
        lastAckd := seq, phase := .batch rest, credited := queue.credited ++ [request'] }) =
    (c.setQueue q fun queue =>
      { queue with
        lastAckd := seq, phase := .batch rest, credited := queue.credited ++ [request] }).noting q log
      (credited ++ [request']) := by
  unfold noting relabel setQueue
  congr 1
  funext i
  simp only [Records.queue, id]
  split <;> rfl

/-- **A client that is told the same does the same**, but for its notes. -/
theorem handle_noting (h : SaysSame told msg) (rest : List S2C) :
    (c.noting q log credited).handle q msg rest =
      (c.handle q told rest).noting q (log ++ [msg]) (credited ++ credit msg) := by
  have hheard : (c.noting q log credited).heard msg =
      (c.heard told).noting q (log ++ [msg]) credited := rfl
  cases told with
  | handshakeBegin versions =>
    cases msg with
    | handshakeBegin versions' =>
      obtain rfl : versions = versions' := h
      show (if 1 ∈ versions then (((c.noting q log credited).heard _).write (.handshakeAck 1)).setPhase q
        (.batch rest) else ((c.noting q log credited).heard _).abort q) =
        (if 1 ∈ versions then ((c.heard _).write (.handshakeAck 1)).setPhase q (.batch rest)
          else (c.heard _).abort q).noting q _ (credited ++ [])
      rw [hheard, List.append_nil]
      split
      · rw [noting, write_relabel, ← noting, setPhase_noting]
      · exact setQueue_relabel _ (c.heard _).disconnectOnError q
          (fun queue => { queue with phase := .idle, inRoundtrip := false }) fun _ => rfl
    | _ => cases h
  | handshakeProtocols protocols =>
    cases msg with
    | handshakeProtocols protocols' =>
      obtain rfl : protocols = protocols' := h
      show _ = Client.noting _ q _ (credited ++ [])
      rw [List.append_nil]
      exact setPhase_noting ({ c.heard (.handshakeProtocols protocols) with
        serverSpecs := c.serverSpecs ++ protocols, handshakeDone := true }) q
          (log ++ [.handshakeProtocols protocols]) credited q (.batch rest)
    | _ => cases h
  | newObject seq id =>
    cases msg with
    | newObject seq' id' =>
      obtain ⟨rfl, rfl⟩ := h
      show (((c.noting q log credited).heard _).onSeq seq id).setPhase q (.batch rest) =
        (((c.heard _).onSeq seq id).setPhase q (.batch rest)).noting q _ (credited ++ [])
      rw [hheard, List.append_nil, noting, onSeq_relabel, ← noting, setPhase_noting]
    | _ => cases h
  | generic g =>
    cases msg with
    | generic g' =>
      obtain ⟨hobject, hmethod⟩ := h
      show ((c.noting q log credited).heard _).onGeneric q g' rest =
        ((c.heard _).onGeneric q g rest).noting q _ (credited ++ [])
      rw [hheard, List.append_nil]
      unfold onGeneric
      have hfind : ((c.heard (.generic g)).noting q (log ++ [.generic g']) credited).objectForId
          g'.object = c.objectForId g.object := by
        rw [hobject]
        rfl
      rw [hfind, show (c.heard (.generic g)).objectForId g.object = c.objectForId g.object from rfl]
      cases hk : c.objectForId g.object with
      | none => exact setPhase_noting { c.heard _ with unknownObject := true }.disconnectOnError ..
      | some k =>
        dsimp only
        rw [← hmethod]
        have hobjects : ((c.heard (.generic g)).noting q (log ++ [.generic g']) credited).objects =
          (c.heard (.generic g)).objects := rfl
        rw [hobjects]
        by_cases hcalls : ((c.heard (.generic g)).objects k).objectData = true ∧
            g.method < ((c.heard (.generic g)).objects k).methodsIn.length
        · rw [if_pos hcalls, if_pos hcalls]
          exact setPhase_noting ((c.heard (.generic g)).setObject k fun obj =>
            { obj with borrows := obj.borrows + 1 }) ..
        · rw [if_neg hcalls, if_neg hcalls, noting, afterDispatch_relabel, ← noting, setPhase_noting]
    | _ => cases h
  | fatalProtocolError objectId errorId errorMsg =>
    cases msg with
    | fatalProtocolError objectId' errorId' errorMsg' =>
      show _ = Client.noting _ q _ (credited ++ [])
      rw [List.append_nil]
      exact setPhase_noting { c.heard (.fatalProtocolError objectId errorId errorMsg) with error := true }
        q (log ++ [.fatalProtocolError objectId' errorId' errorMsg']) credited q (.batch rest)
    | _ => cases h
  | roundtripDone seq request =>
    cases msg with
    | roundtripDone seq' request' =>
      obtain rfl : seq = seq' := h
      exact @acknowledged_noting q (log ++ [.roundtripDone seq request']) credited
        (c.heard (.roundtripDone seq request)) seq request request' rest
    | _ => cases h

/-- What is done in the course of a message it does the same, whatever it has noted down. -/
theorem step_inside_noting {a : Action} (ha : a.inside q = true) :
    step (c.noting q log credited) a = (step c a).map fun t => t.noting q log credited := by
  cases a with
  | send h method args => exact step_call_relabel _ (fun _ => rfl) (fun _ _ => rfl) rfl
  | clone h => exact step_call_relabel _ (fun _ => rfl) (fun _ _ => rfl) rfl
  | drop h => exact step_call_relabel _ (fun _ => rfl) (fun _ _ => rfl) rfl
  | dropQueue i => exact step_call_relabel _ (fun _ => rfl) (fun _ _ => rfl) rfl
  | return_ i =>
    have hphase : ((c.noting q log credited).queues i).phase = (c.queues i).phase := rfl
    simp only [step, hphase]
    split
    · exact congrArg some (returned_relabel _ c i rfl _ _)
    · rfl
  | _ => cases ha

theorem handled_of_inside {a : Action} (ha : a.inside q = true) (h : step c a = some t) :
    t.handled = c.handled := by
  cases progress h with
  | read _ _ _ _ _ _ hhandled => exact hhandled
  | handled i _ _ _ _ _ _ => cases ha
  | returned _ _ _ _ _ _ _ hhandled => exact hhandled
  | gaveUp _ _ _ _ _ hhandled _ => exact hhandled
  | finished _ _ _ _ hhandled => exact hhandled
  | still _ _ hhandled _ _ => exact hhandled

theorem run_inside_noting {as : List Action} (has : ∀ a ∈ as, a.inside q = true)
    (hrun : Run.run step c as = some t) :
    Run.run step (c.noting q log credited) as = some (t.noting q log credited) ∧
      t.handled = c.handled := by
  induction as generalizing c with
  | nil =>
    cases hrun
    exact ⟨rfl, rfl⟩
  | cons a as ih =>
    obtain ⟨u, hstep, hrun⟩ := Run.run_cons.mp hrun
    obtain ⟨ha, has⟩ := List.forall_mem_cons.mp has
    obtain ⟨hnoted, hhandled⟩ := ih has hrun
    refine ⟨Run.run_cons.mpr ⟨u.noting q log credited, ?_, hnoted⟩,
      hhandled.trans (handled_of_inside ha hstep)⟩
    rw [step_inside_noting ha, hstep]
    rfl

/-- It makes no difference to a message what is left of the batch it is from. -/
theorem handle_setPhase (c : Client) (q : Nat) (phase : Phase) (msg : S2C) (rest : List S2C) :
    (c.setPhase q phase).handle q msg rest = c.handle q msg rest := by
  have hheard : (c.setPhase q phase).heard msg = (c.heard msg).setPhase q phase := rfl
  cases msg with
  | handshakeBegin versions =>
    show (if 1 ∈ versions then (((c.setPhase q phase).heard _).write (.handshakeAck 1)).setPhase q _
      else ((c.setPhase q phase).heard _).abort q) =
      if 1 ∈ versions then ((c.heard _).write (.handshakeAck 1)).setPhase q _ else (c.heard _).abort q
    rw [hheard, write_setPhase, setPhase_setPhase, abort_setPhase]
  | handshakeProtocols protocols =>
    exact setPhase_setPhase { c.heard (.handshakeProtocols protocols) with
      serverSpecs := c.serverSpecs ++ protocols, handshakeDone := true } q phase (.batch rest)
  | newObject seq id =>
    show (((c.setPhase q phase).heard _).onSeq seq id).setPhase q _ = ((c.heard _).onSeq seq id).setPhase q _
    rw [hheard, onSeq_setPhase, setPhase_setPhase]
  | generic g =>
    show ((c.setPhase q phase).heard _).onGeneric q g rest = (c.heard _).onGeneric q g rest
    rw [hheard]
    cases hfind : (c.heard (.generic g)).objectForId g.object with
    | none =>
      unfold onGeneric
      rw [show ((c.heard (.generic g)).setPhase q phase).objectForId g.object = none from hfind, hfind]
      exact setPhase_setPhase { c.heard (.generic g) with unknownObject := true }.disconnectOnError ..
    | some h =>
      have hown := onGeneric_eq q ((c.heard (.generic g)).queues q).phase rest hfind
      rw [setPhase_self rfl] at hown
      rw [onGeneric_eq q phase rest hfind, hown]
  | fatalProtocolError objectId errorId errorMsg =>
    exact setPhase_setPhase { c.heard (.fatalProtocolError objectId errorId errorMsg) with error := true }
      q phase (.batch rest)
  | roundtripDone seq request =>
    exact setQueue_setQueue (c.heard (.roundtripDone seq request)) q (fun queue => { queue with phase })
      fun queue =>
        { queue with
          lastAckd := seq, phase := .batch rest, credited := queue.credited ++ [request] }

/-- **A message in other words** is handled alike, and so is what user code does in its callback. -/
theorem Handles.noting (h : Handles q c told t) (hsame : SaysSame told msg) :
    Handles q (c.noting q log credited) msg (t.noting q (log ++ [msg]) (credited ++ credit msg)) := by
  refine ⟨⟨h.1.phase, h.1.live, h.1.inRoundtrip⟩, fun rest => ?_⟩
  obtain ⟨as, has, hrun⟩ := h.2 rest
  obtain ⟨hnoted, -⟩ := @run_inside_noting _ _ q (log ++ [msg]) (credited ++ credit msg) _ has hrun
  refine ⟨as, has, ?_⟩
  rw [handle_setPhase] at hnoted ⊢
  rw [handle_noting hsame, hnoted, setPhase_noting]

theorem Handles.handled (h : Handles q c told t) : t.handled = c.handled ++ [told] := by
  obtain ⟨as, has, hrun⟩ := h.2 []
  obtain ⟨-, hkept⟩ := @run_inside_noting _ _ q [] [] _ has hrun
  rw [handle_setPhase, handle_handled] at hkept
  exact hkept

end

end Client

end Hyprwire
