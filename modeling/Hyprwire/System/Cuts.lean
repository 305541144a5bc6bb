import Hyprwire.System.Receiving
import Hyprwire.Wire.Stream

/-!
# `System/Cuts.lean` — the two sides, read by read

`Wire/Stream.lean` on the server and on the client of bytes. What a server does between two reads
(it acknowledges a roundtrip) changes nothing of what it handles next, so that it does not matter
how the messages of a stream are shared out among the reads. A client collects its orphaned objects
there, and an event for one of them that is still on its way ends the connection: for a client it
does not matter as long as no orphan waits to be collected where a read ends.
-/

namespace Hyprwire

open Rust

namespace Server

section
variable (m : Overflow) (up : Char → String) (protocols : List Scanner.Protocol) (h : Handlers)

/-- `dispatch_client`, taken apart: what it does around the loop of `handle_message`. -/
def listener : Listener Server where
  toHandler := handler m up protocols h
  failed := error
  begins s := s.inPhase (.batch [])
  ends := finish
  closed := close
  refuse := malformed

/-- What a server goes by when it handles a message: all but what it wrote, the acknowledgement that
is due and where its dispatch stands. -/
def hush (s : Server) : Server :=
  { s with out := [], scheduledRoundtripSeq := 0, scheduledRequest := 0, phase := .idle }

/-- The rest of it, but for where the dispatch stands. -/
def notes (s : Server) : Records where
  sent := s.out
  due _ := s.scheduledRoundtripSeq
  request _ := s.scheduledRequest

end

theorem relabel_notes (s : Server) : s.hush.relabel s.notes = s.inPhase .idle := by
  unfold relabel hush notes
  rw [List.append_nil]
  rfl

section
variable {m : Overflow} {up : Char → String} {protocols : List Scanner.Protocol} {h : Handlers}

/-- **One read of a server** is one of its dispatches. -/
theorem dispatchClient_eq {s : Server} (hopen : s.error = false) (log : List Decoded)
    (raw : SocketRawParsedMessage) :
    s.dispatchClient m up protocols h (.done raw) =
      (receive m serverAccepts (listener m up protocols h) [raw] ⟨s, false, log⟩).state := by
  have hlive : (listener m up protocols h).down ⟨s, false, log⟩ = false := hopen
  unfold dispatchClient
  by_cases hdata : raw.data = []
  · rw [receive, hlive, if_neg Bool.false_ne_true, if_pos hdata]
    dsimp only
    rw [if_pos hdata]
    rfl
  · rw [@receive_one m _ _ serverAccepts _ _ hlive hdata]
    dsimp only
    rw [if_neg hdata]
    rfl

/-! ### What is handled next -/

theorem event_relabel (s n : Server) (k method : Nat) (e : Scanner.Event (String × UInt32)) :
    (s.relabel n.notes).event h k method e = (s.event h k method e).relabel n.notes := by
  have hobjects : (s.relabel n.notes).objects = s.objects := rfl
  have hcalls : ∀ t : Server,
      (((t.relabel n.notes).inPhase (.callback [] k (some method))).perform
        (h.onMessage s.handled.length)) =
      ((t.inPhase (.callback [] k (some method))).perform
        (h.onMessage s.handled.length)).relabel n.notes := fun t =>
    perform_relabel n.notes (t.inPhase (.callback [] k (some method))) rfl _
  unfold event
  rw [hobjects]
  cases hfield : e.fields.head? with
  | none => exact hcalls s
  | some field =>
    cases field with
    | object made =>
      dsimp only
      rw [createObject_relabel]
      exact hcalls ((s.createObject (s.objects k).protocolName made.1 (s.objects k).version
        made.2.toNat).setObject s.size fun obj => { obj with objectData := true })
    | _ => exact hcalls s

theorem onGenericMessage_relabel (s n : Server) (msg : GenericProtocolMessage) :
    (s.relabel n.notes).onGenericMessage m up protocols h msg =
      ((s.onGenericMessage m up protocols h msg).1.relabel n.notes,
        (s.onGenericMessage m up protocols h msg).2) := by
  have hfind : (s.relabel n.notes).objectForId msg.object.toNat = s.objectForId msg.object.toNat := rfl
  unfold onGenericMessage
  rw [hfind]
  cases s.objectForId msg.object.toNat with
  | none =>
    dsimp only
    rw [write_relabel]
    rfl
  | some k =>
    have hobjects : ∀ t : Server, (t.relabel n.notes).objects = t.objects := fun _ => rfl
    dsimp only
    rw [note_relabel, hobjects]
    cases generated m up protocols ((s.note k msg.method.toNat).objects k) msg with
    | ok e =>
      cases e with
      | none => exact congrArg (fun t : Server => (t.inPhase (.batch []), _)) (afterDispatch_relabel ..)
      | some e =>
        dsimp only
        rw [event_relabel, afterDispatch_relabel]
        rfl
    | err e | panic e | stall => rfl

theorem onBind_relabel (s n : Server) (k : Nat) :
    (s.relabel n.notes).onBind h k = (s.onBind h k).relabel n.notes := by
  unfold onBind
  show (if (s.objects k).objectData then _ else _) = _
  split
  · exact congrArg (fun t : Server => t.inPhase (.batch []))
      (perform_relabel n.notes (s.inPhase (.callback [] k none)) rfl _)
  · rfl

/-- A message is handled alike whatever was written and whichever acknowledgement is due. -/
theorem handleDecoded_hush (s : Server) (msg : Decoded) :
    (s.handleDecoded m up protocols h msg).1.hush =
        (s.hush.handleDecoded m up protocols h msg).1.hush ∧
      (s.handleDecoded m up protocols h msg).2 = (s.hush.handleDecoded m up protocols h msg).2 := by
  let next := s.hush.heard (msg.request m) []
  -- The notes are hushed before the message is noted down, or after: only the order differs.
  have hnotes : s.heard (msg.request m) [] = next.relabel s.notes := by
    show (s.inPhase .idle).heard (msg.request m) [] = _
    rw [← relabel_notes]
    rfl
  have hhush : ∀ t : Server, (t.relabel s.notes).hush = t.hush := fun _ => rfl
  cases msg with
  | sup _ =>
    show ((s.heard _ []).write _).hush = (next.write _).hush ∧ _
    rw [hnotes, write_relabel]
    exact ⟨hhush _, rfl⟩
  | handshakeAck msg =>
    show ({ (s.heard _ []).write _ with version := _ } : Server).hush =
      ({ next.write _ with version := _ } : Server).hush ∧ _
    rw [hnotes, write_relabel]
    exact ⟨rfl, rfl⟩
  | bindProtocol msg =>
    show (((s.heard _ []).createObject _ _ _ _).onBind h _).hush =
      ((next.createObject _ _ _ _).onBind h _).hush ∧ _
    rw [hnotes, createObject_relabel, onBind_relabel]
    exact ⟨hhush _, rfl⟩
  | generic msg =>
    show ((s.heard _ []).onGenericMessage m up protocols h msg).1.hush =
      (next.onGenericMessage m up protocols h msg).1.hush ∧
      ((s.heard _ []).onGenericMessage m up protocols h msg).2 = _
    rw [hnotes, onGenericMessage_relabel]
    exact ⟨hhush _, rfl⟩
  | _ => exact ⟨rfl, rfl⟩

theorem finish_hush (s : Server) : s.finish.hush = s.hush ∧ s.finish.error = s.error := by
  have hack : s.acknowledge.hush = s.hush ∧ s.acknowledge.error = s.error := by
    unfold acknowledge
    split
    · obtain ⟨out, heq⟩ := write_eq s (.roundtripDone s.scheduledRoundtripSeq s.scheduledRequest)
      rw [heq]
      exact ⟨rfl, rfl⟩
    · exact ⟨rfl, rfl⟩
  unfold finish
  dsimp only
  split <;> exact hack

/-! ### An error stays -/

theorem afterDispatch_error (s : Server) (k method : Nat) :
    (s.afterDispatch k method).error = s.error := by
  rw [afterDispatch_eq]
  split <;> rfl

theorem event_error (s : Server) (k method : Nat) (e : Scanner.Event (String × UInt32))
    (herror : s.error = true) : (s.event h k method e).error = true := by
  unfold event
  refine (aside_perform _ _).error ?_
  split
  · rw [createObject_eq]
    exact herror
  · exact herror

theorem handleDecoded_error (s : Server) (msg : Decoded) (herror : s.error = true) :
    (s.handleDecoded m up protocols h msg).1.error = true := by
  have hwrite : ∀ msg' : S2C, ((s.heard (msg.request m) []).write msg').error = true :=
    fun msg' => (Aside.write _ msg').error herror
  cases msg with
  | sup _ => exact hwrite _
  | handshakeAck _ => exact hwrite _
  | bindProtocol msg =>
    let made := (s.heard (.bindProtocol msg.seq.toNat msg.version.toNat msg.protocol) []).createObject
      msg.protocol "" msg.version.toNat msg.seq.toNat
    have hmade : made.error = true := by
      show (createObject _ _ _ _ _).error = true
      rw [createObject_eq]
      exact herror
    show (made.onBind h s.size).error = true
    unfold onBind
    split
    · exact (aside_perform (made.inPhase (.callback [] s.size none)) _).error hmade
    · exact hmade
  | generic msg =>
    let t := s.heard (.generic (msg.request m)) []
    have hnote : ∀ k method, (t.note k method).error = true := fun k method => by
      rw [note_eq]
      exact herror
    show (t.onGenericMessage m up protocols h msg).1.error = true
    unfold onGenericMessage
    cases t.objectForId msg.object.toNat with
    | none => rfl
    | some k =>
      dsimp only
      generalize generated m up protocols _ msg = result
      obtain ⟨e⟩ | e | e | _ := result
      · cases e with
        | none => exact (afterDispatch_error ..).trans (hnote ..)
        | some e => exact (afterDispatch_error ..).trans (event_error _ _ _ e (hnote ..))
      all_goals exact hnote ..
  | _ => exact herror

/-- **What a server does between two reads** changes nothing of what it handles next. -/
theorem listener_steady : (listener m up protocols h).Steady (fun s t => s.hush = t.hush)
    (fun _ => True) where
  opens _ := rfl
  between s t hsame _ _ := by
    show s.finish.hush = t.hush
    rw [(finish_hush s).1, hsame]
  state s t msg hsame := by
    show (s.handleDecoded m up protocols h msg).1.hush = (t.handleDecoded m up protocols h msg).1.hush
    rw [(handleDecoded_hush s msg).1, hsame, ← (handleDecoded_hush t msg).1]
  answer s t msg hsame := by
    show (s.handleDecoded m up protocols h msg).2 = (t.handleDecoded m up protocols h msg).2
    rw [(handleDecoded_hush s msg).2, hsame, ← (handleDecoded_hush t msg).2]
  failed s t hsame := show s.hush.error = t.hush.error from congrArg error hsame
  stays s msg herror := handleDecoded_error s msg herror
  refuse _ := rfl
  begins _ := rfl
  ends s := (finish_hush s).2

/-- **Read after read**, what a server receives is what it dispatches. -/
theorem dispatchEach_eq (reads : List SocketRawParsedMessage) (s : Server) (log : List Decoded) :
    dispatchEach error (fun s raw => s.dispatchClient m up protocols h (.done raw)) reads s =
      (receive m serverAccepts (listener m up protocols h) reads ⟨s, false, log⟩).state :=
  listener_steady.dispatchEach_eq (fun _ log raw hopen => dispatchClient_eq hopen log raw) reads s log

end

end Server

namespace Client

section
variable (m : Overflow) (up : Char → String) (protocols : List Scanner.Protocol) (handlers : Handlers)
  (q : Nat)

/-- `dispatch_events_inner`, taken apart: what it does around the loop of `handle_message`. -/
def listener : Listener Client where
  toHandler := handler m up protocols handlers q
  failed := error
  begins c := c.collectOrphanedObjects.setPhase q (.batch [])
  ends c := c.finish q
  closed := collectOrphanedObjects
  refuse c := c.abort q

/-- What a client goes by when it handles a message: all but what it wrote, and what the queue that
reads has deferred. -/
def hush (c : Client) : Client :=
  { c with
    out := []
    queues := fun i => if i = q then { c.queues i with queue := [] } else c.queues i }

/-- The rest of it. -/
def notes (c : Client) : Records where
  sent := c.out
  kept i := if i = q then (c.queues q).queue else []

/-- Two clients in a batch that go by the same. -/
def Alike (c d : Client) : Prop := c.hush q = d.hush q ∧ (d.queues q).phase = .batch []

end

/-- **No orphans wait to be collected**: somebody holds every object that has its id. -/
def Calm (c : Client) : Prop := ∀ h ∈ c.table, c.orphaned h = false

theorem relabel_notes (c : Client) (q : Nat) : (c.hush q).relabel (c.notes q) = c := by
  have hqueues : (fun i => (c.notes q).queue i ((c.hush q).queues i)) = c.queues := by
    funext i
    simp only [Records.queue, hush, notes, id]
    split
    · next hi =>
      subst hi
      rw [List.append_nil]
    · rfl
  unfold relabel
  rw [hqueues]
  show { c with out := c.out ++ [] } = c
  rw [List.append_nil]

/-- A client that has nothing to collect is left as it is. -/
theorem Calm.collect {c : Client} (h : c.Calm) : c.collectOrphanedObjects = c := by
  have hnone : c.table.filter c.orphaned = [] :=
    List.filter_eq_nil_iff.mpr fun i hi => by rw [h i hi]; exact Bool.false_ne_true
  have hall : (c.table.filter fun i => !c.orphaned i) = c.table :=
    List.filter_eq_self.mpr fun i hi => by rw [h i hi]; rfl
  unfold collectOrphanedObjects unlink
  rw [hnone, hall]
  rfl

section
variable {m : Overflow} {up : Char → String} {protocols : List Scanner.Protocol} {handlers : Handlers}
  {q : Nat}

/-- **One read of a client** is one of its dispatches. -/
theorem dispatchRead_eq {c : Client} (hopen : c.error = false) (log : List Decoded)
    (raw : SocketRawParsedMessage) :
    (c.collectOrphanedObjects.dispatchRead m up protocols handlers q (.done raw)).map Prod.fst =
      (receive m clientAccepts (listener m up protocols handlers q) [raw] ⟨c, false, log⟩).state := by
  have hlive : (listener m up protocols handlers q).down ⟨c, false, log⟩ = false := hopen
  unfold dispatchRead
  by_cases hdata : raw.data = []
  · rw [receive, hlive, if_neg Bool.false_ne_true, if_pos hdata]
    dsimp only
    rw [if_pos hdata]
    rfl
  · rw [@receive_one m _ _ clientAccepts _ _ hlive hdata]
    dsimp only
    rw [if_neg hdata]
    show Option.map Prod.fst _ = _
    unfold ClientSocket.handleMessage
    rw [show handleMessage m clientAccepts (listener m up protocols handlers q).toHandler raw.data
      raw.fds ((listener m up protocols handlers q).begins c) = handleMessage m clientAccepts
        (handler m up protocols handlers q) raw.data raw.fds
          (c.collectOrphanedObjects.setPhase q (.batch [])) from rfl]
    generalize handleMessage m clientAccepts (handler m up protocols handlers q) raw.data raw.fds
      (c.collectOrphanedObjects.setPhase q (.batch [])) = result
    cases result.outcome <;> rfl

/-! ### What is handled next -/

/-- A callback does the same whatever was written and deferred. -/
theorem onGenericMessage_relabel (c n : Client) (msg : GenericProtocolMessage) :
    (c.relabel (n.notes q)).onGenericMessage m up protocols handlers q msg =
      ((c.onGenericMessage m up protocols handlers q msg).1.relabel (n.notes q),
        (c.onGenericMessage m up protocols handlers q msg).2) := by
  have hfind : (c.relabel (n.notes q)).objectForId msg.object.toNat = c.objectForId msg.object.toNat := rfl
  have hobjects : (c.relabel (n.notes q)).objects = c.objects := rfl
  unfold onGenericMessage
  rw [hfind]
  cases c.objectForId msg.object.toNat with
  | none => rfl
  | some h =>
    dsimp only
    rw [hobjects, afterDispatch_relabel]
    cases generated m up protocols (c.objects h) msg with
    | ok e =>
      cases e with
      | none => rfl
      | some e =>
        have hphase : ((c.calling q h msg.method.toNat).queues q).phase =
            .callback [] h msg.method.toNat := setPhase_phase ..
        have hcalling : (c.relabel (n.notes q)).calling q h msg.method.toNat =
            (c.calling q h msg.method.toNat).relabel (n.notes q) :=
          setPhase_relabel (n.notes q) (c.setObject h fun obj => { obj with borrows := obj.borrows + 1 }) q rfl
        -- A callback may drop a queue with all it keeps, but not the one that it runs in.
        have hkept : ∀ i, ((c.calling q h msg.method.toNat).queues i).phase = .idle →
            (n.notes q).kept i = [] := by
          intro i hidle
          have hi : i ≠ q := fun hi => by
            rw [hi, hphase] at hidle
            cases hidle
          exact if_neg hi
        dsimp only
        rw [hcalling, perform_relabel (n.notes q) (fun _ => rfl) hkept, returned_relabel (n.notes q) _ q rfl]
        rfl
    | err e | panic e | stall => rfl

/-- … and so is a message handled. -/
theorem handleDecoded_relabel (c n : Client) (msg : Decoded) :
    (c.relabel (n.notes q)).handleDecoded m up protocols handlers q msg =
      ((c.handleDecoded m up protocols handlers q msg).1.relabel (n.notes q),
        (c.handleDecoded m up protocols handlers q msg).2) := by
  have hheard : (c.relabel (n.notes q)).heard msg.told = (c.heard msg.told).relabel (n.notes q) := rfl
  cases msg with
  | handshakeBegin msg =>
    show (if 1 ∈ msg.versions then (((c.relabel (n.notes q)).heard _).write _, _) else _) =
      (Client.relabel _ (if 1 ∈ msg.versions then ((c.heard _).write _, _) else _ :
        Client × Outcome Error Unit).1, (if 1 ∈ msg.versions then _ else _ :
        Client × Outcome Error Unit).2)
    rw [hheard, write_relabel]
    split <;> rfl
  | handshakeProtocols msg =>
    unfold handleDecoded
    dsimp only
    cases ClientSocket.serverSpecs [] msg.protocols <;> rfl
  | newObject msg =>
    exact congrArg (fun d : Client => (d, Outcome.ok ())) (onSeq_relabel (n.notes q) (c.heard _) ..)
  | generic msg => exact onGenericMessage_relabel (c.heard _) n msg
  | roundtripDone msg =>
    exact congrArg (fun d : Client => (d, Outcome.ok ()))
      (setQueue_relabel (n.notes q) (c.heard _) q _ fun _ => rfl)
  | _ => rfl

theorem hush_relabel (c n : Client) : (c.relabel (n.notes q)).hush q = c.hush q := by
  unfold hush relabel
  congr 1
  funext i
  dsimp only
  split
  · rfl
  · next hi =>
    show ({ c.queues i with queue := (if i = q then _ else []) ++ (c.queues i).queue } : EventQueue) = _
    rw [if_neg hi]
    rfl

theorem handleDecoded_hush (c : Client) (msg : Decoded) :
    (c.handleDecoded m up protocols handlers q msg).1.hush q =
        ((c.hush q).handleDecoded m up protocols handlers q msg).1.hush q ∧
      (c.handleDecoded m up protocols handlers q msg).2 =
        ((c.hush q).handleDecoded m up protocols handlers q msg).2 := by
  have hsame := @handleDecoded_relabel m up protocols handlers q (c.hush q) c msg
  rw [relabel_notes] at hsame
  rw [hsame]
  exact ⟨hush_relabel .., rfl⟩

theorem onGenericMessage_stands (c : Client) (msg : GenericProtocolMessage) :
    let d := (c.onGenericMessage m up protocols handlers q msg).1
    ((d.queues q).phase = (c.queues q).phase ∨ (d.queues q).phase = .batch []) ∧
      (c.error = true → d.error = true) := by
  unfold onGenericMessage
  cases c.objectForId msg.object.toNat with
  | none => exact ⟨.inl rfl, fun _ => rfl⟩
  | some h =>
    dsimp only
    generalize generated m up protocols (c.objects h) msg = result
    obtain ⟨e⟩ | e | e | _ := result
    · cases e with
      | none =>
        have hframe := Frame.afterDispatch c h msg.method.toNat
        exact ⟨.inl (hframe.phase q), fun herror => hframe.error.trans herror⟩
      | some e =>
        obtain ⟨d, hd, heq⟩ := returned_eq
          ((c.calling q h msg.method.toNat).perform (handlers c.handled.length)) q [] h msg.method.toNat
        dsimp only
        rw [heq]
        exact ⟨.inr (setPhase_phase ..), fun herror => hd.error.trans ((perform_error ..).trans herror)⟩
    all_goals exact ⟨.inl rfl, id⟩

/-- A message leaves the dispatch where it stands, and an error stays. -/
theorem handleDecoded_stands (c : Client) (msg : Decoded) :
    let d := (c.handleDecoded m up protocols handlers q msg).1
    ((d.queues q).phase = (c.queues q).phase ∨ (d.queues q).phase = .batch []) ∧
      (c.error = true → d.error = true) := by
  have hframe : ∀ {d : Client}, Frame (c.heard msg.told) d →
      ((d.queues q).phase = (c.queues q).phase ∨ (d.queues q).phase = .batch []) ∧
        (c.error = true → d.error = true) :=
    fun h => ⟨.inl (h.phase q), fun herror => h.error.trans herror⟩
  cases msg with
  | handshakeBegin msg =>
    unfold handleDecoded
    dsimp only
    split
    · exact hframe (.write ..)
    · exact ⟨.inl rfl, fun _ => rfl⟩
  | handshakeProtocols msg =>
    unfold handleDecoded
    dsimp only
    cases ClientSocket.serverSpecs [] msg.protocols <;> exact ⟨.inl rfl, id⟩
  | newObject msg => exact hframe (.onSeq ..)
  | generic msg => exact onGenericMessage_stands (c.heard _) msg
  | fatalProtocolError msg => exact ⟨.inl rfl, fun _ => rfl⟩
  | roundtripDone msg =>
    exact hframe (.setQueue _ q (f := fun queue => { queue with
      lastAckd := msg.seq.toNat, credited := queue.credited ++ [0] }) fun _ => ⟨rfl, rfl, rfl⟩)
  | _ => exact ⟨.inl rfl, id⟩

/-- Between two batches of a calm client that is not in error nothing happens but that deferred calls
are sent. -/
theorem finish_hush {c : Client} (hcalm : c.Calm) (hopen : c.error = false) :
    ((c.finish q).collectOrphanedObjects.setPhase q (.batch [])).hush q =
      (c.setPhase q (.batch [])).hush q := by
  have hflush : (c.flush q).Calm ∧ (c.flush q).error = false := by
    rw [flush_eq]
    exact ⟨hcalm, hopen⟩
  have hfinish : c.finish q = (c.flush q).setQueue q fun queue => { queue with phase := .idle } := by
    unfold finish
    rw [hflush.1.collect]
    unfold setQueue
    simp only [hflush.2, Bool.not_false, Bool.and_true]
  have hquiet : (c.finish q).Calm := by
    rw [hfinish]
    exact hflush.1
  -- Neither the end of the dispatch nor the start of the next one finds anything to collect.
  rw [hquiet.collect, hfinish, flush_eq]
  unfold hush setPhase setQueue
  congr 1
  funext i
  dsimp only
  split <;> rfl

/-- **What a calm client does between two reads** changes nothing of what it handles next. -/
theorem listener_steady : (listener m up protocols handlers q).Steady (Alike q) Calm where
  opens c := ⟨rfl, setPhase_phase ..⟩
  between c d hsame hopen hcalm := by
    obtain ⟨hhush, hbatch⟩ := hsame
    have htable : c.table = d.table :=
      show (c.hush q).table = (d.hush q).table from congrArg table hhush
    have hobjects : c.objects = d.objects :=
      show (c.hush q).objects = (d.hush q).objects from congrArg objects hhush
    have herror : c.error = d.error :=
      show (c.hush q).error = (d.hush q).error from congrArg error hhush
    have hquiet : c.Calm := by
      intro i hi
      unfold orphaned
      rw [hobjects]
      exact hcalm i (htable ▸ hi)
    refine ⟨?_, hbatch⟩
    have hphase : ∀ e : Client, (e.setPhase q (.batch [])).hush q = (e.hush q).setPhase q (.batch []) := by
      intro e
      unfold hush setPhase setQueue
      congr 1
      funext i
      dsimp only
      split <;> rfl
    show ((c.finish q).collectOrphanedObjects.setPhase q (.batch [])).hush q = _
    rw [finish_hush hquiet (herror.trans hopen), hphase, hhush, ← hphase, setPhase_self hbatch]
  state c d msg hsame := by
    refine ⟨?_, ?_⟩
    · show (c.handleDecoded m up protocols handlers q msg).1.hush q = _
      rw [(handleDecoded_hush c msg).1, hsame.1, ← (handleDecoded_hush d msg).1]
      rfl
    · rcases (@handleDecoded_stands m up protocols handlers q d msg).1 with hphase | hphase
      · exact hphase.trans hsame.2
      · exact hphase
  answer c d msg hsame := by
    show (c.handleDecoded m up protocols handlers q msg).2 = _
    rw [(handleDecoded_hush c msg).2, hsame.1, ← (handleDecoded_hush d msg).2]
    rfl
  failed c d hsame := show (c.hush q).error = (d.hush q).error from congrArg error hsame.1
  stays c msg herror := (handleDecoded_stands c msg).2 herror
  refuse _ := rfl
  begins c := (Frame.collect c).error
  ends c := ((Frame.flush c q).trans (.collect _)).error

/-- **Read after read**, what a client receives is what it dispatches. -/
theorem dispatchEach_eq (reads : List SocketRawParsedMessage) (c : Client) (log : List Decoded) :
    dispatchEach error (fun c raw =>
        (c.collectOrphanedObjects.dispatchRead m up protocols handlers q (.done raw)).map Prod.fst) reads c =
      (receive m clientAccepts (listener m up protocols handlers q) reads ⟨c, false, log⟩).state :=
  listener_steady.dispatchEach_eq (fun _ log raw hopen => dispatchRead_eq hopen log raw) reads c log

end

end Client

/-! ## Both sides -/

/-- **It does not matter how a stream is cut between its messages**, and a cut inside a message is
refused. A client has to be calm where it is cut. -/
theorem cut_independent (m : Overflow) (up : Char → String) (protocols : List Scanner.Protocol)
    (h : Server.Handlers) (handlers : Client.Handlers) (q : Nat) :
    let server := Server.listener m up protocols h
    let client := Client.listener m up protocols handlers q
    (∀ (p : Peer Server) (stream : List (Sent m)) (reads₁ reads₂ : List (List (Sent m))),
      Cut serverAccepts stream reads₁ → Cut serverAccepts stream reads₂ →
        Agree server (stream.map Sent.decoded) p (receive m serverAccepts server (reads₁.map rawOf) p)
          (receive m serverAccepts server (reads₂.map rawOf) p)) ∧
    (∀ (p : Peer Client) (stream : List (Sent m)) (reads₁ reads₂ : List (List (Sent m))),
      Cut clientAccepts stream reads₁ → Cut clientAccepts stream reads₂ →
      Calm client Client.Calm reads₁ (client.begun p) →
      Calm client Client.Calm reads₂ (client.begun p) →
        Agree client (stream.map Sent.decoded) p (receive m clientAccepts client (reads₁.map rawOf) p)
          (receive m clientAccepts client (reads₂.map rawOf) p)) ∧
    ∀ (batch : List (Sent m)) (x : Sent m) (raw : SocketRawParsedMessage)
      (reads : List SocketRawParsedMessage),
      (∀ p : Peer Server, EndsInside serverAccepts batch x raw →
        GivenUp server (batch.map Sent.decoded) p (receive m serverAccepts server (raw :: reads) p)) ∧
      ∀ p : Peer Client, EndsInside clientAccepts batch x raw →
        GivenUp client (batch.map Sent.decoded) p (receive m clientAccepts client (raw :: reads) p) := by
  refine ⟨fun p stream reads₁ reads₂ hcut₁ hcut₂ => ?_,
    fun p stream reads₁ reads₂ hcut₁ hcut₂ hcalm₁ hcalm₂ => ?_,
    fun batch x raw reads => ⟨fun p hinside => ?_, fun p hinside => ?_⟩⟩
  · exact Server.listener_steady.agree hcut₁ hcut₂ (fun _ _ _ _ _ _ => trivial) fun _ _ _ _ _ _ => trivial
  · exact Client.listener_steady.agree hcut₁ hcut₂ hcalm₁ hcalm₂
  · exact Server.listener_steady.refused hinside reads p
  · exact Client.listener_steady.refused hinside reads p

/-! ### The shop, read by read -/

namespace Cuts

/-- The shop's server, whose handler ticks when an item is made. -/
def shop : Peer Server where
  app := { impls := [Server.shop].map Scanner.Protocol.spec }

def ticking : Server.Handlers := ⟨fun n => if n = 2 then [.emit 0 0 []] else [], fun _ => []⟩

def shopkeeper : Listener Server :=
  Server.listener .checked Char.toString [Server.shop] ticking

/-- The manager is bound, an item is made, and the manager is pinged. -/
def bound : Sent .checked := ⟨_, [], _, .bindProtocol "shop" 1 1 (by decide)⟩
def made : Sent .checked := ⟨_, [], _, .generic 1 0 [.scalar .seq 2] [] rfl⟩
def pinged : Sent .checked := ⟨_, [], _, .generic 1 1 [] [] rfl⟩

/-- A customer who has bound the manager, and has asked it for an item. -/
def customer : Client :=
  (Run.run Client.step { impls := [Server.shop].map Scanner.Protocol.spec }
    [.read 0 [.handshakeProtocols [("shop", 1)]], .handle 0, .finish 0,
      .bind 0 Server.shop.spec 1, .send 0 0 []]).getD {}

/-- The customer pings the manager when it ticks. -/
def buying : Listener Client :=
  Client.listener .checked Char.toString [Server.shop] (fun n => if n = 3 then [.send 0 1 []] else []) 0

/-- The manager gets its id, ticks, and makes the item. -/
def named : Sent .checked := ⟨_, [], _, .newObject 1 1⟩
def ticked : Sent .checked := ⟨_, [], _, .generic 1 0 [] [] rfl⟩
def answered : Sent .checked := ⟨_, [], _, .newObject 2 2⟩

/-- Two reads are seen to be calm where the first one ends. -/
theorem calm_of_orphaned {first second : List (Sent .checked)} {p : Peer Client}
    (hnone : ∀ h ∈ (readOneByOne buying [first] p).app.table,
      (readOneByOne buying [first] p).app.orphaned h = false) :
    Calm buying Client.Calm [first, second] p := by
  intro front back hsplit hfront hback _
  obtain _ | ⟨x, _ | ⟨y, front⟩⟩ := front
  · exact absurd rfl hfront
  · obtain ⟨rfl, -⟩ := List.cons.inj hsplit
    exact hnone
  · obtain ⟨-, hrest⟩ := List.cons.inj hsplit
    exact absurd (List.append_eq_nil_iff.mp (List.cons.inj hrest).2).2 hback

/-- A greeting in two halves. -/
def firstHalf : SocketRawParsedMessage := ⟨Hello.new.data.take 2, []⟩
def secondHalf : SocketRawParsedMessage := ⟨Hello.new.data.drop 2, []⟩

theorem endsInside_half : EndsInside serverAccepts [] greeted firstHalf where
  data := ⟨Hello.new.data.take 2, Hello.new.data.drop 2, by decide, by decide, by decide, rfl⟩
  fds := ⟨[], rfl⟩
  accepted := nofun
  build := nofun
  fits := by decide

end Cuts

open Cuts

theorem cut_independent_shop :
    Agree shopkeeper ([bound, made, pinged, asked].map Sent.decoded) shop
      (receive .checked serverAccepts shopkeeper ([[bound, made], [pinged, asked]].map rawOf) shop)
      (receive .checked serverAccepts shopkeeper ([[bound], [made, pinged, asked]].map rawOf) shop) ∧
    Agree buying ([named, ticked, answered].map Sent.decoded) { app := customer }
      (receive .checked clientAccepts buying ([[named, ticked], [answered]].map rawOf)
        { app := customer })
      (receive .checked clientAccepts buying ([[named], [ticked, answered]].map rawOf)
        { app := customer }) ∧
    GivenUp shopkeeper [] shop (receive .checked serverAccepts shopkeeper [firstHalf, secondHalf] shop) :=
  have h := cut_independent .checked Char.toString [Server.shop] ticking
    (fun n => if n = 3 then [.send 0 1 []] else []) 0
  ⟨h.1 shop [bound, made, pinged, asked] [[bound, made], [pinged, asked]] [[bound], [made, pinged, asked]]
      ⟨rfl, by decide, by decide, by decide, by decide⟩ ⟨rfl, by decide, by decide, by decide, by decide⟩,
    h.2.1 { app := customer } [named, ticked, answered] [[named, ticked], [answered]]
      [[named], [ticked, answered]] ⟨rfl, by decide, by decide, by decide, by decide⟩
      ⟨rfl, by decide, by decide, by decide, by decide⟩ (calm_of_orphaned (by decide +kernel))
      (calm_of_orphaned (by decide +kernel)),
    (h.2.2 [] greeted firstHalf [secondHalf]).1 shop endsInside_half⟩

/-- A customer who has let go of the manager before it got its id. -/
def Cuts.leaving : Client :=
  (Run.run Client.step { impls := [Server.shop].map Scanner.Protocol.spec }
    [.read 0 [.handshakeProtocols [("shop", 1)]], .handle 0, .finish 0,
      .bind 0 Server.shop.spec 1, .drop 0]).getD {}

/-- **A greeting that arrives in two reads is refused**, and an event that arrives behind the read that
names its object does not find the object any more. -/
theorem not_always_cut_independent :
    (¬ ∀ (stream : List (Sent .checked)) (reads₁ reads₂ : List SocketRawParsedMessage),
      (∀ x ∈ stream, serverAccepts x.decoded.messageType = true) →
      reads₁.flatMap SocketRawParsedMessage.data = stream.flatMap Sent.data →
      reads₂.flatMap SocketRawParsedMessage.data = stream.flatMap Sent.data →
      reads₁.flatMap SocketRawParsedMessage.fds = stream.flatMap Sent.fds →
      reads₂.flatMap SocketRawParsedMessage.fds = stream.flatMap Sent.fds →
        (receive .checked serverAccepts shopkeeper reads₁ shop).handled =
            (receive .checked serverAccepts shopkeeper reads₂ shop).handled ∧
          shopkeeper.down (receive .checked serverAccepts shopkeeper reads₁ shop) =
            shopkeeper.down (receive .checked serverAccepts shopkeeper reads₂ shop)) ∧
    ¬ ∀ (p : Peer Client) (stream : List (Sent .checked)) (reads₁ reads₂ : List (List (Sent .checked))),
      Cut clientAccepts stream reads₁ → Cut clientAccepts stream reads₂ →
        buying.down (receive .checked clientAccepts buying (reads₁.map rawOf) p) =
          buying.down (receive .checked clientAccepts buying (reads₂.map rawOf) p) := by
  constructor
  · intro h
    have hsame := (h [greeted] [rawOf [greeted]] [firstHalf, secondHalf] (by decide) rfl rfl rfl rfl).2
    have hwhole : shopkeeper.down (receive .checked serverAccepts shopkeeper [rawOf [greeted]] shop) =
        false := by decide +kernel
    have hbroken : shopkeeper.down (receive .checked serverAccepts shopkeeper [firstHalf, secondHalf] shop) =
        true := by decide +kernel
    rw [hwhole, hbroken] at hsame
    cases hsame
  · intro h
    have hsame := h { app := leaving } [named, ticked] [[named, ticked]] [[named], [ticked]]
      ⟨rfl, by decide, by decide, by decide, by decide⟩ ⟨rfl, by decide, by decide, by decide, by decide⟩
    have hwhole : buying.down (receive .checked clientAccepts buying ([[named, ticked]].map rawOf)
        { app := leaving }) = false := by decide +kernel
    have hbroken : buying.down (receive .checked clientAccepts buying ([[named], [ticked]].map rawOf)
        { app := leaving }) = true := by decide +kernel
    rw [hwhole, hbroken] at hsame
    cases hsame

end Hyprwire
