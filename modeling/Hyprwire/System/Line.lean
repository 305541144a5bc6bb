import Hyprwire.System.Agreement
import Hyprwire.System.Posting
import Hyprwire.System.Rewording

/-!
# `System/Line.lean` — a connection at its bytes

The two sides of `System/Connection.lean`, with a line between them that carries bytes and
descriptors. What either side says is written as it is marshalled (`System/Posting.lean`), and
read by the code that reads whatever comes (`System/Serving.lean`, `System/Receiving.lean`), which
knows nothing of what was meant, with the handlers and callbacks of those modules. Only the notes of
the two sides are kept by the line.

**The bytes carry the messages** (`wire_refines`): what is done over the line is a run of the
connection of whole messages. A read that refines a batch of messages is not enough for that; they
have to be those that the other side wrote. They are since the two sides agree on their objects: the
code that is generated for the object that is found is that of the object that was meant, and it is
there for arguments of the types that were sent.
-/

namespace Hyprwire

open Rust

/-! ## Messages that arrive -/

theorem Generic.ReadAs.object_toNat {m : Overflow} {up : Char → String}
    {protocols : List Scanner.Protocol} {protocolName : String} {spec : Option ObjectSpec}
    {isServer : Bool} {g : Generic} {msg : GenericProtocolMessage}
    (hread : g.ReadAs up m protocols protocolName spec isServer msg) : msg.object.toNat = g.object := by
  obtain ⟨hword, p, o, mt, vs, packet, fs, -, -, -, -, -, rfl⟩ := hread
  exact toNat_ofNat_word hword.1

namespace Server

section
variable {m : Overflow} {up : Char → String} {protocols : List Scanner.Protocol}

/-- **The arguments arrive**: on an object of the interface that was meant, the generated code
reads the values that were sent. -/
theorem generated_arrival {obj : ServerObject} {g : Generic} {msg : GenericProtocolMessage}
    (hread : g.ReadAs up m protocols obj.protocolName obj.spec true msg) :
    ∃ p o mt vs, interface protocols obj = some (p, o) ∧ o.c2s[g.method]? = some mt ∧
      g.args = vs.map Scanner.callArgExpr ∧
      generated m up protocols obj msg = .ok (if obj.objectData then
        Scanner.callEvent (fun name seq => if obj.destroyed then none else some (name, seq))
          (.ofNat g.method) (.ofNat g.seq) mt vs else none) := by
  obtain ⟨hword, p, o, mt, vs, packet, fs, hcode, htyped, hs2c, hlen, hfields, rfl⟩ := hread
  refine ⟨p, o, mt, vs, hcode.1, htyped.1, htyped.2.2.2, ?_⟩
  unfold generated
  rw [show (g.arrival mt packet fs).dataSpan = _ from dataSpan_received .., Outcome.ok_bind,
    show interface protocols obj = some (p, o) from hcode.1]
  cases hdata : obj.objectData with
  | false => rfl
  | true => exact hfields.dispatch htyped hword.2.1 hs2c hlen

variable {s : Server} {c : Client} {req : C2S} {msg : Decoded}

/-- What a client says is of the types that a server accepts. -/
theorem accepts_arrival (hread : c.ReadAs up protocols m req msg) :
    serverAccepts msg.messageType = true ∧ ∀ bind, msg = .bindProtocol bind → bind.version ≠ 0 := by
  cases hread with
  | bindProtocol seq version protocol hseq hversion hne =>
    refine ⟨rfl, fun bind heq => ?_⟩
    cases heq
    exact fun hzero => hne ((ofNat_eq_zero hversion).mp hzero)
  | _ => exact ⟨rfl, fun bind heq => by cases heq⟩

/-- It is read as what was said, where the object that is found is of the interface that was meant. -/
theorem saysSame_arrival (hread : c.ReadAs up protocols m req msg)
    (htwin : ∀ g, req = .generic g → ∀ k, s.objectForId g.object = some k →
      Connection.Twins (c.objects g.origin) (s.objects k)) :
    s.SaysSame (msg.request m) req := by
  cases hread with
  | sup => trivial
  | handshakeAck version h => exact toNat_ofNat_word h
  | bindProtocol seq version protocol hseq hversion hne =>
    exact ⟨toNat_ofNat_word hseq, toNat_ofNat_word hversion, rfl⟩
  | generic g msg h =>
    obtain ⟨hword, p, o, mt, vs, packet, fs, hcode, htyped, hs2c, hlen, hfields, rfl⟩ := h
    have hobject : (UInt32.ofNat g.object).toNat = g.object := toNat_ofNat_word hword.1
    have hmethod : (UInt32.ofNat g.method).toNat = g.method := toNat_ofNat_word hword.2.1
    refine ⟨hobject, hmethod, fun k spec hk hspec hret => ?_⟩
    rw [show ((g.arrival mt packet fs).request m).object = g.object from hobject] at hk
    rw [show ((g.arrival mt packet fs).request m).method = g.method from hmethod] at hspec
    have htable : (s.objects k).methodsIn = Scanner.methodSpecs o.c2s := by
      rw [← (htwin g rfl k hk).methods, ClientObject.methodsOut_eq hcode.2]
    rw [htable, Scanner.getElem?_methodSpecs, show o.c2s[g.method]? = some mt from htyped.1] at hspec
    cases hspec
    have hreturns := (Scanner.returnsType_eq htyped.2.1).mp hret
    exact (Generic.arrival_returnSeq hreturns).trans (toNat_ofNat_word hword.2.2)
  | roundtripRequest seq queue h => exact toNat_ofNat_word h

/-- **What is read as it was meant is handled.** -/
theorem handleDecoded_arrival (h : Handlers) (hread : c.ReadAs up protocols m req msg)
    (htwin : ∀ g, req = .generic g → ∀ k, s.objectForId g.object = some k →
      Connection.Twins (c.objects g.origin) (s.objects k)) :
    ∃ t, s.handleDecoded m up protocols h msg = (t, .ok ()) := by
  cases hread with
  | generic g msg hread =>
    have hobject := hread.object_toNat
    let u := s.heard (.generic (msg.request m)) []
    show ∃ t, u.onGenericMessage m up protocols h msg = (t, .ok ())
    unfold onGenericMessage
    cases hfind : s.objectForId g.object with
    | none =>
      rw [hobject, show u.objectForId g.object = none from hfind]
      exact ⟨_, rfl⟩
    | some k =>
      rw [hobject, show u.objectForId g.object = some k from hfind]
      have htwins := htwin g rfl k hfind
      rw [← htwins.protocolName, ← htwins.spec] at hread
      obtain ⟨event, hgen⟩ : ∃ event, generated m up protocols (s.objects k) msg = .ok event := by
        obtain ⟨p, o, mt, vs, -, -, -, hgen⟩ := generated_arrival hread
        exact ⟨_, hgen⟩
      dsimp only
      rw [show (u.note k msg.method.toNat).objects k = s.objects k by rw [note_eq]; rfl, hgen]
      cases event with
      | none => exact ⟨_, rfl⟩
      | some event => exact ⟨_, rfl⟩
  | _ => exact ⟨_, rfl⟩

end

/-- What closes a batch makes no use of the notes. -/
theorem finish_noting (s : Server) (log : List C2S) : (s.noting log).finish = s.finish.noting log := by
  have hack : (s.noting log).acknowledge = s.acknowledge.noting log := by
    show (if 0 < s.scheduledRoundtripSeq then
      ({ (s.noting log).write (.roundtripDone s.scheduledRoundtripSeq s.scheduledRequest) with
        scheduledRoundtripSeq := 0 } : Server) else s.noting log) = _
    unfold acknowledge
    split
    · rw [noting, write_relabel]
      rfl
    · rfl
  unfold finish
  dsimp only
  rw [hack]
  show (if s.acknowledge.error then _ else _) = _
  split <;> rfl

end Server

namespace Client

section
variable {m : Overflow} {up : Char → String} {protocols : List Scanner.Protocol}

/-- The arguments of an event arrive. -/
theorem generated_arrival {obj : ClientObject} {g : Generic} {msg : GenericProtocolMessage}
    (hread : g.ReadAs up m protocols obj.protocolName obj.spec false msg) :
    ∃ p o mt vs, interface protocols obj = some (p, o) ∧ o.s2c[g.method]? = some mt ∧
      g.args = vs.map Scanner.callArgExpr ∧
      generated m up protocols obj msg = .ok (if obj.objectData then
        Scanner.callEvent (fun _ _ => none) (.ofNat g.method) (.ofNat g.seq) mt vs else none) := by
  obtain ⟨hword, p, o, mt, vs, packet, fs, hcode, htyped, hs2c, hlen, hfields, rfl⟩ := hread
  refine ⟨p, o, mt, vs, hcode.1, htyped.1, htyped.2.2.2, ?_⟩
  unfold generated
  rw [show (g.arrival mt packet fs).dataSpan = _ from dataSpan_received .., Outcome.ok_bind,
    show interface protocols obj = some (p, o) from hcode.1]
  cases hdata : obj.objectData with
  | false => rfl
  | true => exact hfields.dispatch htyped hword.2.1 hs2c hlen

/-- What a server advertises is read as it was meant. -/
theorem serverSpecs_advertised {advertised : List (String × Nat)}
    (h : ∀ spec ∈ advertised, spec.2 < wordSize) :
    ∃ specs, ClientSocket.serverSpecs []
        (HandshakeProtocols.new (advertised.map advertisement)).protocols = .ok specs ∧
      ClientSocket.pairs specs = advertised := by
  let impls : List ProtocolSpec := advertised.map fun spec => ⟨spec.1, .ofNat spec.2, []⟩
  have hnames : protocolNames impls = advertised.map advertisement := by
    rw [protocolNames, List.map_map]
    refine List.map_congr_left fun spec hspec => ?_
    show s!"{spec.1}@{UInt32.ofNat spec.2}" = s!"{spec.1}@{spec.2}"
    rw [show toString (UInt32.ofNat spec.2) = toString (UInt32.ofNat spec.2).toNat from rfl,
      toNat_ofNat_word (h spec hspec)]
  refine ⟨impls.map ClientSocket.advertised, ?_, ?_⟩
  · show ClientSocket.serverSpecs [] (advertised.map advertisement) = _
    rw [← hnames]
    exact ClientSocket.serverSpecs_protocolNames impls []
  · rw [ClientSocket.pairs, List.map_map, List.map_map]
    refine (List.map_congr_left fun spec hspec => ?_).trans (List.map_id advertised)
    show (spec.1, (UInt32.ofNat spec.2).toNat) = spec
    rw [toNat_ofNat_word (h spec hspec)]

/-- A client with its own notes. -/
theorem noting_self (c : Client) (q : Nat) : c.noting q c.handled (c.queues q).credited = c := by
  have hqueues : (fun i => ({ c.queues i with
      credited := if i = q then (c.queues q).credited else (c.queues i).credited } : EventQueue)) =
      c.queues := by
    funext i
    split
    · next hi => rw [hi]
    · rfl
  show { c with queues := _ } = c
  exact congrArg (fun queues => { c with queues }) hqueues

/-- What closes a batch makes no use of the notes. -/
theorem finish_noting (c : Client) (q : Nat) (log : List S2C) (credited : List Nat) :
    (c.noting q log credited).finish q = (c.finish q).noting q log credited := by
  have hclosed : ((c.noting q log credited).flush q).collectOrphanedObjects =
      ((c.flush q).collectOrphanedObjects).noting q log credited := by
    rw [noting, flush_relabel _ c rfl, collect_relabel]
    rfl
  unfold finish
  dsimp only
  rw [hclosed]
  exact setQueue_relabel _ (c.flush q).collectOrphanedObjects q (fun queue => { queue with
    phase := .idle, inRoundtrip := queue.inRoundtrip && !(c.flush q).collectOrphanedObjects.error })
      fun _ => rfl

/-- Collecting the orphans makes no note. -/
theorem noting_collect {c : Client} {q : Nat} (hc : Ledger c) (hopen : c.dispatches q = true) :
    c.collectOrphanedObjects.noting q c.handled (c.queues q).credited = c.collectOrphanedObjects := by
  have hpoll : step c (.poll q) = some c.collectOrphanedObjects := if_pos hopen
  have hcredited : (c.collectOrphanedObjects.queues q).credited = (c.queues q).credited := by
    rcases acks_or_not hc hpoll with ⟨_, _, _, _, ha, -⟩ | ⟨-, hunacked⟩
    · cases ha
    · exact (hunacked q).2
  rw [← hcredited, ← (Frame.collect c).handled]
  exact noting_self ..

theorem run_issued {c d : Client} {as : List Action} (hc : Ledger c) (h : Run.run step c as = some d) :
    c.issued ≤ d.issued :=
  Run.run_le (fun _ _ _ hc hstep => hc.step hstep) (fun _ _ _ hc hstep => (hc.later hstep).issued) hc h

/-- What is handled in a batch gives out numbers, and keeps the rest in order. -/
theorem HandlesAll.issued {registered : String → Bool} {q : Nat} {d e : Client} {msgs : List S2C}
    (hall : HandlesAll protocols q d msgs e) (hd : Implemented protocols registered d)
    (hphase : (d.queues q).phase = .batch []) :
    Implemented protocols registered e ∧ (e.queues q).phase = .batch [] ∧ d.issued ≤ e.issued := by
  obtain ⟨as, has, hrun⟩ := hall.2 []
  have hdone := (hall.1.phase q).trans hphase
  have hbatch := hd.setPhase (q := q) (.batch (msgs ++ []))
  have he := hbatch.run has hrun
  rw [setPhase_self hdone] at he
  have hissued := run_issued hbatch.ledger hrun
  exact ⟨he, hdone, hissued⟩

/-- A read gives out no fewer numbers than a front part of it does. -/
theorem issued_le_dispatchRead {registered : String → Bool} {handlers : Handlers} {q : Nat}
    {c d t : Client} {reply : Reply} {raw : SocketRawParsedMessage} {front : List (Hyprwire.Sent m)}
    {rest : List UInt8} {more : List RawFd}
    (hchain : Frame.Chain (fun c (y : Hyprwire.Sent m) t =>
      c.handleDecoded m up protocols handlers q y.decoded = (t, .ok ())) (c.setPhase q (.batch [])) front d)
    (hd : Implemented protocols registered d) (hphase : (d.queues q).phase = .batch [])
    (haccepts : ∀ y ∈ front, clientAccepts y.decoded.messageType = true)
    (hdata : raw.data = front.flatMap Hyprwire.Sent.data ++ rest)
    (hfds : raw.fds = front.flatMap Hyprwire.Sent.fds ++ more)
    (hlen : raw.data.length ≤ isizeMax) (hlen' : raw.fds.length ≤ isizeMax) (hbytes : raw.data ≠ [])
    (ht : c.dispatchRead m up protocols handlers q (.done raw) = some (t, reply)) :
    d.issued ≤ t.issued := by
  have hcount : front.length ≤ raw.data.length := by
    rw [hdata, List.length_append]
    exact Nat.le_trans (length_le_length_data front) (Nat.le_add_right ..)
  obtain ⟨fuel, hfuel⟩ := Nat.exists_eq_add_of_le hcount
  have hloop := @loop_front m _ clientAccepts (handler m up protocols handlers q) raw.data hlen front
    haccepts _ d hchain 0 fuel rest more (Nat.zero_le _) hdata (hfds ▸ hlen')
  rw [← hfuel, ← hfds] at hloop
  unfold dispatchRead at ht
  dsimp only at ht
  rw [if_neg hbytes, ClientSocket.handleMessage, Hyprwire.handleMessage, hloop] at ht
  generalize hr : Frame.loop (handleTurn m clientAccepts (handler m up protocols handlers q) raw.data)
    raw.data.length fuel d more (0 + (front.flatMap Hyprwire.Sent.data).length) = r at ht
  dsimp only at ht
  have hhandled := fun hreturns => handled_loop hd hphase hr hreturns
  cases hout : r.outcome with
  | ok u =>
    rw [hout, Outcome.ok_bind] at ht
    obtain ⟨msgs, e, hall, ⟨-, hstate, -⟩ | ⟨⟨e', he'⟩, -⟩⟩ := hhandled (by rw [hout]; trivial)
    · obtain ⟨he, hdone, hissued⟩ := hall.issued hd hphase
      by_cases hqueue : r.queue = []
      · rw [if_neg (not_not.mpr hqueue), hstate] at ht
        simp only [Option.some.injEq, Prod.mk.injEq] at ht
        have hfinish : step e (.finish q) = some (e.finish q) := by simp only [step, hdone]
        rw [← ht.1]
        exact Nat.le_trans hissued (he.ledger.later hfinish).issued
      · rw [if_pos hqueue, hstate] at ht
        simp only [Option.some.injEq, Prod.mk.injEq] at ht
        rw [← ht.1]
        exact hissued
    · rw [hout] at he'
      cases he'
  | err e =>
    rw [hout, Outcome.err_bind] at ht
    simp only [Option.some.injEq, Prod.mk.injEq] at ht
    obtain ⟨msgs, e, hall, ⟨hok, -, -⟩ | ⟨-, hgives⟩⟩ := hhandled (by rw [hout]; trivial)
    · rw [hout] at hok
      cases hok
    · obtain ⟨-, -, hissued⟩ := hall.issued hd hphase
      rw [← ht.1]
      generalize r.state = s at hgives
      cases hgives with
      | kept | flagged | refused _ => exact hissued
  | panic p =>
    rw [hout, Outcome.panic_bind] at ht
    cases ht
  | stall =>
    rw [hout, Outcome.stall_bind] at ht
    cases ht

/-- **The callbacks of a read use the numbers up**: after some turns of its loop a client that reads
has none left. -/
def UsesUp (m : Overflow) (up : Char → String) (protocols : List Scanner.Protocol) (handlers : Handlers)
    (q : Nat) (c : Client) (raw : SocketRawParsedMessage) : Prop :=
  ∃ turns, ¬ (Frame.loop (handleTurn m clientAccepts (handler m up protocols handlers q) raw.data)
    raw.data.length turns (c.setPhase q (.batch [])) raw.fds 0).state.issued + 1 < wordSize

/-- A read that is through after some turns, and had numbers left all along, is seen not to use them
up. -/
def spares (m : Overflow) (up : Char → String) (protocols : List Scanner.Protocol) (handlers : Handlers)
    (q n : Nat) (c : Client) (raw : SocketRawParsedMessage) : Bool :=
  let read turns := Frame.loop (handleTurn m clientAccepts (handler m up protocols handlers q) raw.data)
    raw.data.length turns (c.setPhase q (.batch [])) raw.fds 0
  decide ((read n).outcome = .ok ()) &&
    (List.range (n + 1)).all fun turns => decide ((read turns).state.issued + 1 < wordSize)

theorem not_usesUp_of_spares {handlers : Handlers} {q n : Nat} {c : Client}
    {raw : SocketRawParsedMessage} (h : c.spares m up protocols handlers q n raw = true) :
    ¬ c.UsesUp m up protocols handlers q raw := by
  obtain ⟨hthrough, hleft⟩ := Bool.and_eq_true_iff.mp h
  have hleft : ∀ turns ≤ n, _ := fun turns hle => of_decide_eq_true
    (List.all_eq_true.mp hleft turns (List.mem_range.mpr (Nat.lt_succ_of_le hle)))
  rintro ⟨turns, hspent⟩
  rcases Nat.le_total turns n with hle | hle
  · exact hspent (hleft turns hle)
  · -- the turns after the last one change nothing
    rw [Frame.loop_mono (by rw [of_decide_eq_true hthrough]; exact fun h => by cases h) hle] at hspent
    exact hspent (hleft n (Nat.le_refl n))

variable {c : Client} {s : Server} {told : S2C} {msg : Decoded}

theorem accepts_arrival (hread : s.ReadAs up protocols m told msg) :
    clientAccepts msg.messageType = true := by
  cases hread <;> rfl

/-- A message of the server is read as what it said. -/
theorem saysSame_arrival (hread : s.ReadAs up protocols m told msg) : SaysSame msg.told told := by
  cases hread with
  | handshakeBegin => rfl
  | handshakeProtocols advertised h =>
    obtain ⟨specs, hspecs, hpairs⟩ := serverSpecs_advertised h
    simp only [Decoded.told, hspecs]
    exact hpairs
  | newObject seq id hseq hid => exact ⟨toNat_ofNat_word hseq, toNat_ofNat_word hid⟩
  | generic g msg h =>
    obtain ⟨hword, p, o, mt, vs, packet, fs, -, -, -, -, -, rfl⟩ := h
    exact ⟨toNat_ofNat_word hword.1, toNat_ofNat_word hword.2.1⟩
  | fatalProtocolError objectId errorId errorMsg hobject herror => trivial
  | roundtripDone seq request h => exact toNat_ofNat_word h

/-- **What is read as it was meant is handled.** -/
theorem handleDecoded_arrival (handlers : Handlers) (q : Nat)
    (hread : s.ReadAs up protocols m told msg)
    (htwin : ∀ g, told = .generic g → ∀ h, c.objectForId g.object = some h →
      Connection.Twins (c.objects h) (s.objects g.origin)) :
    ∃ t, c.handleDecoded m up protocols handlers q msg = (t, .ok ()) := by
  cases hread with
  | handshakeProtocols advertised h =>
    obtain ⟨specs, hspecs, -⟩ := serverSpecs_advertised h
    simp only [handleDecoded, hspecs]
    exact ⟨_, rfl⟩
  | generic g msg hread =>
    have hobject := hread.object_toNat
    let d := c.heard (.generic msg.event)
    show ∃ t, d.onGenericMessage m up protocols handlers q msg = (t, .ok ())
    unfold onGenericMessage
    cases hfind : c.objectForId g.object with
    | none =>
      rw [hobject, show d.objectForId g.object = none from hfind]
      exact ⟨_, rfl⟩
    | some h =>
      rw [hobject, show d.objectForId g.object = some h from hfind]
      have htwins := htwin g rfl h hfind
      rw [htwins.protocolName, htwins.spec] at hread
      obtain ⟨event, hgen⟩ : ∃ event, generated m up protocols (c.objects h) msg = .ok event := by
        obtain ⟨p, o, mt, vs, -, -, -, hgen⟩ := generated_arrival hread
        exact ⟨_, hgen⟩
      dsimp only
      rw [show d.objects h = c.objects h from rfl, hgen]
      cases event with
      | none => exact ⟨_, rfl⟩
      | some event => exact ⟨_, rfl⟩
  | _ => exact ⟨_, rfl⟩

end

end Client

/-! ## A batch on the line -/

/-- A number of messages, written one behind the other. -/
def posted {μ : Type} (post : μ → Option Outgoing) : List μ → Option SocketRawParsedMessage
  | [] => some ⟨[], []⟩
  | msg :: batch => do
    let packet ← post msg
    let more ← posted post batch
    some ⟨packet.data ++ more.data, packet.fds ++ more.fds⟩

theorem exists_posted {μ : Type} {post : μ → Option Outgoing} {batch : List μ}
    (h : ∀ msg ∈ batch, ∃ packet, post msg = some packet) : ∃ raw, posted post batch = some raw := by
  induction batch with
  | nil => exact ⟨_, rfl⟩
  | cons msg batch ih =>
    obtain ⟨⟨packet, hpacket⟩, hbatch⟩ := List.forall_mem_cons.mp h
    obtain ⟨more, hmore⟩ := ih hbatch
    refine ⟨⟨packet.data ++ more.data, packet.fds ++ more.fds⟩, ?_⟩
    exact Option.bind_eq_some_iff.mpr ⟨packet, hpacket, Option.bind_eq_some_iff.mpr ⟨more, hmore, rfl⟩⟩

/-- It can be taken apart again. -/
theorem sents_of_posted {m : Overflow} {μ : Type} {post : μ → Option Outgoing}
    {reads : μ → Decoded → Prop} {batch : List μ} {raw : SocketRawParsedMessage}
    (hsent : ∀ msg ∈ batch, ∀ packet, post msg = some packet → packet.data.length ≤ isizeMax →
      ∃ x : Sent m, x.data = packet.data ∧ x.fds = packet.fds ∧ reads msg x.decoded)
    (h : posted post batch = some raw) (hlen : raw.data.length ≤ isizeMax) :
    ∃ sents : List (Sent m), List.Forall₂ (fun x msg => reads msg x.decoded) sents batch ∧
      raw.data = sents.flatMap Sent.data ∧ raw.fds = sents.flatMap Sent.fds := by
  induction batch generalizing raw with
  | nil =>
    cases h
    exact ⟨[], .nil, rfl, rfl⟩
  | cons msg batch ih =>
    obtain ⟨packet, hpacket, h⟩ := Option.bind_eq_some_iff.mp h
    obtain ⟨more, hmore, h⟩ := Option.bind_eq_some_iff.mp h
    cases h
    rw [List.length_append] at hlen
    obtain ⟨hmsg, hbatch⟩ := List.forall_mem_cons.mp hsent
    obtain ⟨x, hdata, hfds, hread⟩ := hmsg packet hpacket (Nat.le_trans (Nat.le_add_right ..) hlen)
    obtain ⟨sents, hreads, hdata', hfds'⟩ := ih hbatch hmore (Nat.le_trans (Nat.le_add_left ..) hlen)
    refine ⟨x :: sents, .cons hread hreads, ?_, ?_⟩
    · rw [List.flatMap_cons, hdata, ← hdata']
    · rw [List.flatMap_cons, hfds, ← hfds']

/-- What is said is not nothing on the wire. -/
theorem data_ne_nil_of_reads {m : Overflow} {μ : Type} {reads : Sent m → μ → Prop}
    {sents : List (Sent m)} {batch : List μ} (h : List.Forall₂ reads sents batch) (hne : batch ≠ []) :
    sents.flatMap Sent.data ≠ [] := by
  cases h with
  | nil => exact absurd rfl hne
  | @cons y _ _ _ _ _ =>
    obtain ⟨tail, htail⟩ := y.data_eq_cons
    rw [List.flatMap_cons, htail, List.cons_append]
    exact List.cons_ne_nil _ _

namespace Connection

variable {x x' : Connection}

/-- A client by itself, on a connection. -/
theorem run_client {as : List Client.Action} {c : Client} (has : ∀ a ∈ as, clientAlone a = true)
    (h : Run.run Client.step x.client as = some c) :
    Run.run step x (as.map .client) = some { x with client := c } := by
  refine Run.run_part Connection.client (fun x c => { x with client := c }) (fun x a c ha hstep => ?_)
    (fun _ _ => rfl) (fun _ => rfl) (fun _ _ _ => rfl) has h
  simp only [step, ha, if_true, hstep, Option.map_some]

/-- … and a server. -/
theorem run_server {as : List Server.Action} {s : Server} (has : ∀ a ∈ as, serverAlone a = true)
    (h : Run.run Server.step x.server as = some s) :
    Run.run step x (as.map .server) = some { x with server := s } := by
  refine Run.run_part Connection.server (fun x s => { x with server := s }) (fun x a s ha hstep => ?_)
    (fun _ _ => rfl) (fun _ => rfl) (fun _ _ _ => rfl) has h
  simp only [step, ha, if_true, hstep, Option.map_some]

theorem Paired.run {impls : List ProtocolSpec} {as : List Action} (hx : Paired impls x)
    (h : Run.run Connection.step x as = some x') : Paired impls x' :=
  Run.run_induction (fun _ _ _ hy hstep => hy.step hstep) hx h

theorem alone_of_inside {a : Server.Action} (h : a.inside = true) : serverAlone a = true := by
  cases a with
  | emit _ _ _ | error _ _ _ | return_ => rfl
  | _ => cases h

theorem clientAlone_of_inside {q : Nat} {a : Client.Action} (h : a.inside q = true) :
    clientAlone a = true := by
  cases a with
  | send _ _ _ | clone _ | drop _ | dropQueue _ | return_ _ => rfl
  | _ => cases h

/-! ## A server reads -/

section
variable {m : Overflow} {up : Char → String} {protocols : List Scanner.Protocol}
  {impls : List ProtocolSpec}

/-- **A server takes what its client said**, message by message, as the server of messages does
beside it. The induction is on the messages; each finds the object that was meant, since the sides
agree wherever the batch stands. -/
theorem server_takes (hnamed : Server.Named protocols) {h : Server.Handlers} {c : Client}
    {sents : List (Sent m)} {msgs : List C2S} (hreads : List.Forall₂
      (fun y msg => c.ReadAs up protocols m msg y.decoded) sents msgs)
    (hx : Paired impls x) (hbound : x.client.issued + 1 < wordSize) (hclient : x.client = c)
    (hout : ∀ msg ∈ msgs, msg ∈ c.out) {s : Server} {log : List C2S}
    (hs : Server.Implemented protocols s) (hphase : s.phase = .batch [])
    (hlength : log.length = s.handled.length)
    (hserver : x.server = (s.noting log).inPhase (.batch msgs)) :
    ∃ t as, Frame.Chain (fun s (y : Sent m) t =>
        s.handleDecoded m up protocols h y.decoded = (t, .ok ())) s sents t ∧
      t.phase = .batch [] ∧
      Run.run Connection.step x as = some { x with server := t.noting (log ++ msgs) } := by
  induction hreads generalizing x s log with
  | nil =>
    refine ⟨s, [], .nil s, hphase, ?_⟩
    have hnow : (s.noting log).inPhase (.batch []) = s.noting log := Server.inPhase_self hphase
    rw [hnow] at hserver
    rw [Run.run_nil, List.append_nil, ← hserver]
  | @cons y msg sents msgs hread _ ih =>
    obtain ⟨hmsg, hout⟩ := List.forall_mem_cons.mp hout
    have htwin : ∀ g, msg = .generic g → ∀ k, s.objectForId g.object = some k →
        Twins (c.objects g.origin) (s.objects k) := by
      intro g heq k hk
      subst heq hclient
      have htwins := (hx.joined hbound).agrees.toServer g hmsg k (by rw [hserver]; exact hk)
      rwa [hserver] at htwins
    obtain ⟨u, hhandled⟩ := Server.handleDecoded_arrival h hread htwin
    obtain ⟨haccepts, hversion⟩ := Server.accepts_arrival hread
    have hfirst := Server.handles_decoded hnamed hs haccepts hversion hhandled
    have hnoted := hfirst.noting (Server.saysSame_arrival hread htwin) hlength
    obtain ⟨as, has, hrun⟩ := hnoted.2 msgs
    have halone : ∀ a ∈ Server.Action.handle :: as, serverAlone a = true :=
      List.forall_mem_cons.mpr ⟨rfl, fun a ha => alone_of_inside (has a ha)⟩
    have hline := run_server halone (x := x) (Run.run_cons.mpr ⟨_, by rw [hserver]; rfl, hrun⟩)
    have hlength' : (log ++ [msg]).length = u.handled.length := by
      rw [hfirst.handled, List.length_append, List.length_append, hlength]
      rfl
    obtain ⟨t, bs, hchain, hdone, hrest⟩ := ih (hx.run hline) hbound hclient hout (hfirst.implemented hs)
      hfirst.1 hlength' rfl
    rw [List.append_assoc] at hrest
    exact ⟨t, _, .cons hhandled hchain, hdone, Run.run_append.mpr ⟨_, hline, hrest⟩⟩

/-- **A read of the server** goes through: whatever handlers emit, it is what the server of messages
does with the messages that were written. -/
theorem server_reads (hnamed : Server.Named protocols) (hx : Paired impls x)
    (hs : Server.Implemented protocols x.server) (hbound : x.client.issued + 1 < wordSize)
    (hsay : ∀ msg ∈ x.client.out, x.client.Sayable up protocols msg)
    (hidle : x.server.phase = .idle) (hopen : x.server.gone = false) {count : Nat} {batch : List C2S}
    (hbatch : (x.client.out.drop x.toServer).take count = batch) (hne : batch ≠ [])
    {raw : SocketRawParsedMessage} (hraw : posted x.client.post batch = some raw)
    (hdata : raw.data.length ≤ isizeMax) (hfds : raw.fds.length ≤ isizeMax) (h : Server.Handlers) :
    ∃ t as, x.server.dispatchClient m up protocols h (.done raw) = some t ∧
      Run.run Connection.step x as = some { x with
        server := t.noting (x.server.handled ++ batch), toServer := x.toServer + batch.length } := by
  have hin : ∀ msg ∈ batch, msg ∈ x.client.out := by
    intro msg hmsg
    rw [← hbatch] at hmsg
    exact List.mem_of_mem_drop (List.mem_of_mem_take hmsg)
  obtain ⟨sents, hreads, hsent, hsentFds⟩ := sents_of_posted (m := m)
    (fun msg hmsg packet hpost hlen => Client.exists_sent (hsay msg (hin msg hmsg)) hpost hlen) hraw hdata
  have hread : Connection.step x (.serverReads count) = some { x with
      server := x.server.inPhase (.batch batch), toServer := x.toServer + batch.length } := by
    show (x.server.step (.read ((x.client.out.drop x.toServer).take count))).map _ = _
    rw [hbatch, show x.server.step (.read batch) = some (x.server.inPhase (.batch batch)) from
      if_pos ⟨hidle, hopen, hne⟩]
    rfl
  have hlength : x.server.handled.length = (x.server.inPhase (.batch [])).handled.length := rfl
  obtain ⟨t, as, hchain, hphase, hrun⟩ := server_takes (h := h) hnamed hreads (hx.step hread) hbound
    rfl hin (hs.inPhase (.batch [])) rfl hlength rfl
  have haccepts : ∀ y ∈ sents, serverAccepts y.decoded.messageType = true :=
    ((List.forall₂_and_left sents batch).mp
      (hreads.imp fun _ _ hread => ⟨(Server.accepts_arrival hread).1, hread⟩)).1
  have hloop := @handleMessage_chain m _ serverAccepts (Server.handler m up protocols h) sents
    haccepts _ t hchain (hsent ▸ hdata) (hsentFds ▸ hfds)
  have hbytes : raw.data ≠ [] := hsent ▸ data_ne_nil_of_reads hreads hne
  refine ⟨t.finish, .serverReads count :: (as ++ [.server .finish]), ?_, ?_⟩
  · unfold Server.dispatchClient
    dsimp only
    rw [if_neg hbytes, ServerClientState.handleMessage, hsent, hsentFds, hloop]
  · refine Run.run_cons.mpr ⟨_, hread, Run.run_append.mpr ⟨_, hrun, Run.run_cons.mpr ⟨_, ?_, rfl⟩⟩⟩
    have hfinish : (t.noting (x.server.handled ++ batch)).step .finish =
        some (t.finish.noting (x.server.handled ++ batch)) := by
      have hphase' : (t.noting (x.server.handled ++ batch)).phase = .batch [] := hphase
      simp only [Server.step, hphase', Server.finish_noting]
    show (Server.step (t.noting (x.server.handled ++ batch)) .finish).map _ = _
    rw [hfinish]
    rfl

/-! ## A client reads -/

variable {registered : String → Bool} {q : Nat}

/-- **A client takes what its server said**, as far as its numbers go: its callbacks may ask for objects,
and the sides agree while there are numbers left. -/
theorem client_takes {handlers : Client.Handlers} {s : Server} {sents : List (Sent m)} {msgs : List S2C}
    (hreads : List.Forall₂ (fun y msg => s.ReadAs up protocols m msg y.decoded) sents msgs)
    (hx : Paired impls x) (hserver : x.server = s) (hout : ∀ msg ∈ msgs, msg ∈ s.out) {c : Client}
    {log : List S2C} {credited : List Nat} (hc : Client.Implemented protocols registered c)
    (hphase : (c.queues q).phase = .batch [])
    (hclient : x.client = (c.noting q log credited).setPhase q (.batch msgs)) :
    ∃ front back done left t as, sents = front ++ back ∧ msgs = done ++ left ∧
      Frame.Chain (fun c (y : Sent m) t =>
        c.handleDecoded m up protocols handlers q y.decoded = (t, .ok ())) c front t ∧
      Client.Implemented protocols registered t ∧ (t.queues q).phase = .batch [] ∧
      Run.run Connection.step x as = some { x with client :=
        (t.noting q (log ++ done) (credited ++ done.flatMap Client.credit)).setPhase q (.batch left) } ∧
      ((back = [] ∧ left = []) ∨ ¬ t.issued + 1 < wordSize) := by
  induction hreads generalizing x c log credited with
  | nil =>
    refine ⟨[], [], [], [], c, [], rfl, rfl, .nil c, hc, hphase, ?_, .inl ⟨rfl, rfl⟩⟩
    rw [Run.run_nil, List.append_nil, List.flatMap_nil, List.append_nil, ← hclient]
  | @cons y msg sents msgs hread _ ih =>
    by_cases hbound : c.issued + 1 < wordSize
    · -- the sides still agree, so the event finds the object that it was meant for
      obtain ⟨hmsg, hout⟩ := List.forall_mem_cons.mp hout
      have hissued : x.client.issued = c.issued := by rw [hclient]; rfl
      have htwin : ∀ g, msg = .generic g → ∀ h, c.objectForId g.object = some h →
          Twins (c.objects h) (s.objects g.origin) := by
        intro g heq h hh
        subst heq hserver
        have htwins := (hx.joined (hissued.symm ▸ hbound)).agrees.toClient g hmsg h
          (by rw [hclient]; exact hh)
        rwa [hclient] at htwins
      obtain ⟨u, hhandled⟩ := Client.handleDecoded_arrival handlers q hread htwin
      have hfirst := Client.handles_decoded hc hphase (Client.accepts_arrival hread) hhandled
      have hnoted := @Client.Handles.noting c u q _ msg log credited hfirst
        (Client.saysSame_arrival hread)
      obtain ⟨as, has, hrun⟩ := hnoted.2 msgs
      have halone : ∀ a ∈ Client.Action.handle q :: as, clientAlone a = true :=
        List.forall_mem_cons.mpr ⟨rfl, fun a ha => clientAlone_of_inside (has a ha)⟩
      have hline := run_client halone (x := x) (Run.run_cons.mpr
        ⟨_, by rw [hclient]; exact Client.step_handle_setPhase msgs, hrun⟩)
      obtain ⟨front, back, done, left, t, bs, rfl, rfl, hchain, ht, hdone, hrest, hend⟩ :=
        ih (hx.run hline) hserver hout (hfirst.implemented hphase hc) ((hfirst.1.phase q).trans hphase)
          rfl
      rw [List.append_assoc, List.append_assoc] at hrest
      exact ⟨y :: front, back, msg :: done, left, t, _, rfl, rfl, .cons hhandled hchain, ht, hdone,
        Run.run_append.mpr ⟨_, hline, hrest⟩, hend⟩
    · -- the callbacks before have asked until there were no numbers left
      refine ⟨[], y :: sents, [], msg :: msgs, c, [], rfl, rfl, .nil c, hc, hphase, ?_, .inr hbound⟩
      rw [Run.run_nil, List.append_nil, List.flatMap_nil, List.append_nil, ← hclient]

/-- **A read of a client** goes through, and is what the client of messages does with the messages that
were written; or its callbacks have asked for so much that the numbers have run out. -/
theorem client_reads (hx : Paired impls x) (hc : Client.Implemented protocols registered x.client)
    (hsay : ∀ msg ∈ x.server.out, x.server.Sayable up protocols msg)
    (hopen : x.client.dispatches q = true) {count : Nat} {batch : List S2C}
    (hbatch : (x.server.out.drop x.toClient).take count = batch) (hne : batch ≠ [])
    {raw : SocketRawParsedMessage} (hraw : posted x.server.post batch = some raw)
    (hdata : raw.data.length ≤ isizeMax) (hfds : raw.fds.length ≤ isizeMax) (handlers : Client.Handlers) :
    (∃ t reply as, x.client.collectOrphanedObjects.dispatchRead m up protocols handlers q (.done raw) =
        some (t, reply) ∧
      Run.run Connection.step x as = some { x with
        client := t.noting q (x.client.handled ++ batch)
          ((x.client.queues q).credited ++ batch.flatMap Client.credit)
        toClient := x.toClient + batch.length }) ∨
    x.client.collectOrphanedObjects.UsesUp m up protocols handlers q raw ∧
      ∀ t reply, x.client.collectOrphanedObjects.dispatchRead m up protocols handlers q (.done raw) =
        some (t, reply) → ¬ t.issued + 1 < wordSize := by
  have hin : ∀ msg ∈ batch, msg ∈ x.server.out := by
    intro msg hmsg
    rw [← hbatch] at hmsg
    exact List.mem_of_mem_drop (List.mem_of_mem_take hmsg)
  obtain ⟨sents, hreads, hsent, hsentFds⟩ := sents_of_posted (m := m)
    (fun msg hmsg packet hpost hlen => Server.exists_sent (hsay msg (hin msg hmsg)) hpost hlen) hraw hdata
  have hread : Connection.step x (.clientReads q count) = some { x with
      client := x.client.collectOrphanedObjects.setPhase q (.batch batch)
      toClient := x.toClient + batch.length } := by
    show (x.client.step (.read q ((x.server.out.drop x.toClient).take count))).map _ = _
    rw [hbatch, show x.client.step (.read q batch) =
      some (x.client.collectOrphanedObjects.setPhase q (.batch batch)) from if_pos ⟨hopen, hne⟩]
    rfl
  have hcollected := hc.step (a := .poll q) trivial (if_pos hopen)
  have hnoted := Client.noting_collect hc.ledger hopen
  generalize x.client.collectOrphanedObjects = c at *
  have hbegins : c.setPhase q (.batch batch) =
      ((c.setPhase q (.batch [])).noting q x.client.handled (x.client.queues q).credited).setPhase q
        (.batch batch) := by
    rw [← Client.setPhase_noting, hnoted, Client.setPhase_setPhase]
  obtain ⟨front, back, done, left, t, as, hsplit, hmsgs, hchain, ht, hphase, hrun, hend⟩ :=
    @client_takes _ m up protocols _ _ q handlers _ _ _ hreads (hx.step hread) rfl hin _ _ _
      (hcollected.setPhase _) (Client.setPhase_phase ..) hbegins
  have haccepts : ∀ y ∈ sents, clientAccepts y.decoded.messageType = true :=
    ((List.forall₂_and_left sents batch).mp
      (hreads.imp fun _ _ hread => ⟨Client.accepts_arrival hread, hread⟩)).1
  have hbytes : raw.data ≠ [] := hsent ▸ data_ne_nil_of_reads hreads hne
  rcases hend with ⟨rfl, rfl⟩ | hspent
  · rw [List.append_nil] at hsplit hmsgs
    subst hsplit hmsgs
    have hloop := @handleMessage_chain m _ clientAccepts (Client.handler m up protocols handlers q) sents
      haccepts _ t hchain (hsent ▸ hdata) (hsentFds ▸ hfds)
    refine .inl ⟨t.finish q, if (t.finish q).error then .error .connectionClosed else .ok (),
      .clientReads q count :: (as ++ [.client (.finish q)]), ?_, ?_⟩
    · unfold Client.dispatchRead
      dsimp only
      rw [if_neg hbytes, ClientSocket.handleMessage, hsent, hsentFds, hloop]
    · refine Run.run_cons.mpr ⟨_, hread, Run.run_append.mpr ⟨_, hrun, Run.run_cons.mpr ⟨_, ?_, rfl⟩⟩⟩
      have hnow : ((t.noting q (x.client.handled ++ batch)
          ((x.client.queues q).credited ++ batch.flatMap Client.credit)).queues q).phase = .batch [] := hphase
      rw [Client.setPhase_self hnow]
      have hfinish : (t.noting q (x.client.handled ++ batch)
          ((x.client.queues q).credited ++ batch.flatMap Client.credit)).step (.finish q) =
          some ((t.finish q).noting q (x.client.handled ++ batch)
            ((x.client.queues q).credited ++ batch.flatMap Client.credit)) := by
        simp only [Client.step, hnow, Client.finish_noting]
      show (Client.step _ (.finish q)).map _ = _
      rw [hfinish]
      rfl
  · rw [hsplit] at haccepts hsent hsentFds
    rw [List.flatMap_append] at hsent hsentFds
    have hfront : ∀ y ∈ front, clientAccepts y.decoded.messageType = true :=
      fun y hy => haccepts y (List.mem_append_left _ hy)
    -- The numbers were gone when the messages in front had been handled, and are at the end.
    refine .inr ⟨⟨front.length, ?_⟩, fun u reply hu hleft => ?_⟩
    · have hloop := @loop_front m _ clientAccepts (Client.handler m up protocols handlers q) raw.data
        hdata front hfront _ t hchain 0 0 _ _ (Nat.zero_le _) hsent (hsentFds ▸ hfds)
      rw [← hsentFds, Nat.add_zero] at hloop
      rw [hloop]
      exact hspent
    · have hissued : t.issued ≤ u.issued :=
        Client.issued_le_dispatchRead hchain ht hphase hfront hsent hsentFds hdata hfds hbytes hu
      exact hspent (Nat.lt_of_le_of_lt (Nat.succ_le_succ hissued) hleft)

end

/-! ## The line -/

/-- What can be in one read: a `Vec` is not longer than `isize::MAX`. -/
def transmitted {μ : Type} (post : μ → Option Outgoing) (batch : List μ) :
    Option SocketRawParsedMessage :=
  (posted post batch).filter fun raw => raw.data.length ≤ isizeMax ∧ raw.fds.length ≤ isizeMax

/-- The two reads. -/
def Action.reads : Action → Bool
  | .clientReads _ _ | .serverReads _ => true
  | _ => false

/-- What happens on a line: a side does something by itself, or reads some of what was written. -/
inductive Input
  | alone (a : Action)
  | clientReads (q count : Nat) (handlers : Client.Handlers)
  | serverReads (count : Nat) (handlers : Server.Handlers)

section
variable (m : Overflow) (up : Char → String) (protocols : List Scanner.Protocol)

/-- **The connection at its bytes.** What a side says is marshalled, and the other side decodes it. -/
def wire (x : Connection) : Input → Option Connection
  | .alone a => if a.reads then none else step x a
  | .clientReads q count handlers =>
    let batch := (x.server.out.drop x.toClient).take count
    if x.client.dispatches q ∧ batch ≠ [] then
      (transmitted x.server.post batch).bind fun raw =>
        (x.client.collectOrphanedObjects.dispatchRead m up protocols handlers q (.done raw)).map fun r =>
          { x with
            client := r.1.noting q (x.client.handled ++ batch)
              ((x.client.queues q).credited ++ batch.flatMap Client.credit)
            toClient := x.toClient + batch.length }
    else none
  | .serverReads count handlers =>
    let batch := (x.client.out.drop x.toServer).take count
    if x.server.phase = .idle ∧ x.server.gone = false ∧ batch ≠ [] then
      (transmitted x.client.post batch).bind fun raw =>
        (x.server.dispatchClient m up protocols handlers (.done raw)).map fun server =>
          { x with
            server := server.noting (x.server.handled ++ batch)
            toServer := x.toServer + batch.length }
    else none

/-- All that was said can be said with the generated API, and there are numbers left.

The calls of `System/Client.lean` take any arguments; the generated methods take those of the types
that the protocol declares, so that there is a payload for each of them and the other side's code
reads it back. The numbers go by 32 bits and come round: a result that is asked for with the number of
another one that is still on its way would be named in its stead. Nothing is asked of the order in
which the sides speak, of handlers and callbacks, or of how much is read at once. -/
structure Sayable (x : Connection) : Prop where
  client : ∀ msg ∈ x.client.out, x.client.Sayable up protocols msg
  server : ∀ msg ∈ x.server.out, x.server.Sayable up protocols msg
  issued : x.client.issued + 1 < wordSize

end

section
variable {m : Overflow} {up : Char → String} {protocols : List Scanner.Protocol}
  {impls : List ProtocolSpec}

theorem transmitted_spec {μ : Type} {post : μ → Option Outgoing} {batch : List μ}
    {raw : SocketRawParsedMessage} (h : transmitted post batch = some raw) :
    posted post batch = some raw ∧ raw.data.length ≤ isizeMax ∧ raw.fds.length ≤ isizeMax := by
  obtain ⟨hposted, hfits⟩ := Option.filter_eq_some_iff.mp h
  exact ⟨hposted, of_decide_eq_true hfits⟩

/-- **The code of either side is that of its tables.** Each side has all the protocols. -/
structure Coded (protocols : List Scanner.Protocol) (x : Connection) : Prop where
  client : Client.Implemented protocols (fun _ => true) x.client
  server : Server.Implemented protocols x.server

theorem Coded.start (protocols : List Scanner.Protocol) :
    Coded protocols (start (protocols.map Scanner.Protocol.spec)) where
  client := by
    have hall : Client.registrations protocols (fun _ => true) = protocols.map Scanner.Protocol.spec := by
      rw [Client.registrations, List.filter_true]
    rw [Connection.start, ← hall]
    exact .init protocols _
  server := .init protocols

theorem Coded.step {a : Action} (hx : Coded protocols x) (h : Connection.step x a = some x') :
    Coded protocols x' := by
  rcases step_cases h with ⟨b, hb, -⟩ | ⟨b, hb, -⟩
  · refine ⟨hx.client.step ?_ hb.step, hb.server ▸ hx.server⟩
    cases b with
    | bind q proto version =>
      have hfind := hb.binds hx.client.impls q proto version rfl
      exact Client.find_registrations hfind
    | _ => trivial
  · exact ⟨hb.client ▸ hx.client, hx.server.step hb.step⟩

/-- **A step over the line** is a run of the connection of messages. -/
theorem wire_step (hnamed : Server.Named protocols) (hx : Paired impls x) (hcoded : Coded protocols x)
    (hsay : x.Sayable up protocols) (hbound : x'.client.issued + 1 < wordSize) {input : Input}
    (h : wire m up protocols x input = some x') : ∃ as, Run.run Connection.step x as = some x' := by
  cases input with
  | alone a =>
    simp only [wire] at h
    split at h
    · cases h
    · exact ⟨[a], Run.run_cons.mpr ⟨x', h, Run.run_nil _⟩⟩
  | clientReads q count handlers =>
    simp only [wire, Option.ite_none_right_eq_some] at h
    obtain ⟨⟨hopen, hne⟩, h⟩ := h
    obtain ⟨raw, hraw, h⟩ := Option.bind_eq_some_iff.mp h
    obtain ⟨hposted, hdata, hfds⟩ := transmitted_spec hraw
    obtain ⟨⟨t, reply⟩, ht, rfl⟩ := Option.map_eq_some_iff.mp h
    rcases client_reads hx hcoded.client hsay.server hopen rfl hne hposted hdata hfds handlers with
      ⟨t', reply', as, ht', hrun⟩ | ⟨-, hspent⟩
    · rw [ht] at ht'
      cases ht'
      exact ⟨as, hrun⟩
    · exact absurd hbound (hspent t reply ht)
  | serverReads count handlers =>
    simp only [wire, Option.ite_none_right_eq_some] at h
    obtain ⟨⟨hidle, hopen, hne⟩, h⟩ := h
    obtain ⟨raw, hraw, h⟩ := Option.bind_eq_some_iff.mp h
    obtain ⟨hposted, hdata, hfds⟩ := transmitted_spec hraw
    obtain ⟨t, ht, rfl⟩ := Option.map_eq_some_iff.mp h
    obtain ⟨t', as, ht', hrun⟩ := server_reads hnamed hx hcoded.server hsay.issued hsay.client hidle hopen
      rfl hne hposted hdata hfds handlers
    rw [ht] at ht'
    cases ht'
    exact ⟨as, hrun⟩

/-- What is reached by whole messages. -/
def Reached (protocols : List Scanner.Protocol) (x : Connection) : Prop :=
  ∃ as, Run.run Connection.step (start (protocols.map Scanner.Protocol.spec)) as = some x

theorem Reached.spec (hx : Reached protocols x) :
    Paired (protocols.map Scanner.Protocol.spec) x ∧ Coded protocols x := by
  obtain ⟨as, hrun⟩ := hx
  exact ⟨(Paired.start _).run hrun,
    Run.run_induction (fun _ _ _ hy hstep => hy.step hstep) (.start protocols)
    hrun⟩

theorem Sayable.start : (start impls).Sayable up protocols where
  client msg hmsg := by
    cases List.mem_singleton.mp hmsg
    trivial
  server msg hmsg := by cases hmsg
  issued := show 0 + 1 < wordSize by decide

/-- **The bytes carry the messages**: as long as each side says what the generated API lets it say,
all that is done over the line is done by whole messages, whatever handlers emit and callbacks call,
however the two sides are interleaved and wherever what they write is cut between messages. -/
theorem wire_refines (hnamed : Server.Named protocols) {inputs : List Input}
    (hsay : Run.Meets (wire m up protocols)
      (fun x input => ∀ y, wire m up protocols x input = some y → y.Sayable up protocols)
      (start (protocols.map Scanner.Protocol.spec)) inputs)
    (hrun : Run.run (wire m up protocols) (start (protocols.map Scanner.Protocol.spec)) inputs = some x) :
    ∃ as, Run.run Connection.step (start (protocols.map Scanner.Protocol.spec)) as = some x := by
  have hinv := @Run.run_meeting _ _ (wire m up protocols)
    (fun x => Reached protocols x ∧ x.Sayable up protocols) _ ?_ _ _ _
    ⟨⟨[], Run.run_nil _⟩, .start⟩ hsay hrun
  · exact hinv.1
  · intro x input y hx hcond hstep
    obtain ⟨hpaired, hcoded⟩ := hx.1.spec
    have hy := hcond y hstep
    obtain ⟨as, hfrom⟩ := hx.1
    obtain ⟨bs, hmore⟩ := wire_step hnamed hpaired hcoded hx.2 hy.issued hstep
    exact ⟨⟨as ++ bs, Run.run_append.mpr ⟨x, hfrom, hmore⟩⟩, hy⟩

/-- **What was written can be read**, in every state that is reached: the bytes are there, no decoder
refuses them and nothing panics, whatever handlers emit and callbacks call. A client that reads may
run out of numbers before it is through, when its callbacks ask for so much in this very read. -/
theorem wire_goes_on (hnamed : Server.Named protocols) {as : List Action}
    (hrun : Run.run Connection.step (start (protocols.map Scanner.Protocol.spec)) as = some x)
    (hsay : x.Sayable up protocols) (count : Nat) :
    (∃ raw, posted x.client.post ((x.client.out.drop x.toServer).take count) = some raw ∧
      ∀ handlers, (x.client.out.drop x.toServer).take count ≠ [] → x.server.phase = .idle →
        x.server.gone = false → raw.data.length ≤ isizeMax → raw.fds.length ≤ isizeMax →
        ∃ y bs, wire m up protocols x (.serverReads count handlers) = some y ∧
          Run.run Connection.step x bs = some y) ∧
    ∃ raw, posted x.server.post ((x.server.out.drop x.toClient).take count) = some raw ∧
      ∀ q handlers, (x.server.out.drop x.toClient).take count ≠ [] → x.client.dispatches q = true →
        raw.data.length ≤ isizeMax → raw.fds.length ≤ isizeMax →
        (∃ y bs, wire m up protocols x (.clientReads q count handlers) = some y ∧
          Run.run Connection.step x bs = some y) ∨
        x.client.collectOrphanedObjects.UsesUp m up protocols handlers q raw := by
  obtain ⟨hpaired, hcoded⟩ := Reached.spec ⟨as, hrun⟩
  have hfits : ∀ {μ : Type} {post : μ → Option Outgoing} {batch : List μ} {raw : SocketRawParsedMessage},
      posted post batch = some raw → raw.data.length ≤ isizeMax → raw.fds.length ≤ isizeMax →
      transmitted post batch = some raw := by
    intro μ post batch raw hraw hdata hfds
    exact Option.filter_eq_some_iff.mpr ⟨hraw, decide_eq_true ⟨hdata, hfds⟩⟩
  constructor
  · have hposts : ∀ msg ∈ (x.client.out.drop x.toServer).take count, ∃ packet,
        x.client.post msg = some packet := fun msg hmsg =>
      Client.exists_post (hsay.client msg (List.mem_of_mem_drop (List.mem_of_mem_take hmsg)))
    obtain ⟨raw, hraw⟩ := exists_posted hposts
    refine ⟨raw, hraw, fun handlers hne hidle hopen hdata hfds => ?_⟩
    obtain ⟨t, bs, ht, hreads⟩ := server_reads (m := m) hnamed hpaired hcoded.server hsay.issued
      hsay.client hidle hopen rfl hne hraw hdata hfds handlers
    refine ⟨_, bs, ?_, hreads⟩
    simp only [wire, hidle, hopen, hne, hfits hraw hdata hfds, ht, ne_eq, not_false_eq_true, and_self,
      if_true, Option.bind_some, Option.map_some]
  · have hposts : ∀ msg ∈ (x.server.out.drop x.toClient).take count, ∃ packet,
        x.server.post msg = some packet := fun msg hmsg =>
      Server.exists_post (hsay.server msg (List.mem_of_mem_drop (List.mem_of_mem_take hmsg)))
    obtain ⟨raw, hraw⟩ := exists_posted hposts
    refine ⟨raw, hraw, fun q handlers hne hopen hdata hfds => ?_⟩
    rcases client_reads (m := m) hpaired hcoded.client hsay.server hopen rfl hne hraw hdata hfds
      handlers with
      ⟨t, reply, bs, ht, hreads⟩ | ⟨hspent, -⟩
    · refine .inl ⟨_, bs, ?_, hreads⟩
      simp only [wire, hopen, hne, hfits hraw hdata hfds, ht, ne_eq, not_false_eq_true, and_self,
        if_true, Option.bind_some, Option.map_some]
    · exact .inr hspent

/-- **The arguments arrive**, in every state that is reached: the call that a client has written is
decoded, and the code that is generated for the object that the server finds under its id makes of it
the event of the method that was called, with the values that were sent. Only an object whose data was
dropped makes none, and one that is destroyed none for a method with a result. Likewise for an event. -/
theorem arguments_arrive {as : List Action}
    (hrun : Run.run Connection.step (start (protocols.map Scanner.Protocol.spec)) as = some x)
    (hsay : x.Sayable up protocols) (g : Generic) {packet : Outgoing}
    (hdata : packet.data.length ≤ isizeMax) (hfds : packet.fds.length ≤ isizeMax) :
    (.generic g ∈ x.client.out → x.client.post (.generic g) = some packet →
      ∃ msg, decode m .genericProtocolMessage packet.data packet.fds 0 = .ok (.generic msg, []) ∧
        ∀ k, x.server.objectForId g.object = some k → ∃ p o mt vs,
          Server.interface protocols (x.server.objects k) = some (p, o) ∧ o.c2s[g.method]? = some mt ∧
          g.args = vs.map Scanner.callArgExpr ∧
          Server.generated m up protocols (x.server.objects k) msg =
            .ok (if (x.server.objects k).objectData then
              Scanner.callEvent (fun name seq =>
                if (x.server.objects k).destroyed then none else some (name, seq))
                (.ofNat g.method) (.ofNat g.seq) mt vs else none)) ∧
    (.generic g ∈ x.server.out → x.server.post (.generic g) = some packet →
      ∃ msg, decode m .genericProtocolMessage packet.data packet.fds 0 = .ok (.generic msg, []) ∧
        ∀ h, x.client.objectForId g.object = some h → ∃ p o mt vs,
          Client.interface protocols (x.client.objects h) = some (p, o) ∧ o.s2c[g.method]? = some mt ∧
          g.args = vs.map Scanner.callArgExpr ∧
          Client.generated m up protocols (x.client.objects h) msg =
            .ok (if (x.client.objects h).objectData then
              Scanner.callEvent (fun _ _ => none) (.ofNat g.method) (.ofNat g.seq) mt vs else none)) := by
  have hagrees := ((Reached.spec ⟨as, hrun⟩).1.joined hsay.issued).agrees
  have hdecode : ∀ (y : Sent m) (msg : GenericProtocolMessage), y.data = packet.data →
      y.fds = packet.fds → y.decoded = .generic msg →
      decode m .genericProtocolMessage packet.data packet.fds 0 = .ok (.generic msg, []) := by
    intro y msg hbytes hown heq
    have hread := @Sent.decode_eq m y y.data [] [] 0 (List.append_nil _).symm (Nat.zero_le _)
      (hbytes ▸ hdata) (by rw [List.append_nil, hown]; exact hfds)
    rwa [List.append_nil, heq, hbytes, hown] at hread
  constructor
  · intro hg hpost
    obtain ⟨y, hbytes, hown, hread⟩ := Client.exists_sent (m := m) (hsay.client _ hg) hpost hdata
    generalize hmsg : y.decoded = msg at hread
    cases hread with
    | generic _ msg hread =>
      refine ⟨msg, hdecode y msg hbytes hown hmsg, fun k hk => ?_⟩
      have htwins := hagrees.toServer g hg k hk
      rw [← htwins.protocolName, ← htwins.spec] at hread
      exact Server.generated_arrival hread
  · intro hg hpost
    obtain ⟨y, hbytes, hown, hread⟩ := Server.exists_sent (m := m) (hsay.server _ hg) hpost hdata
    generalize hmsg : y.decoded = msg at hread
    cases hread with
    | generic _ msg hread =>
      refine ⟨msg, hdecode y msg hbytes hown hmsg, fun h hh => ?_⟩
      have htwins := hagrees.toClient g hg h hh
      rw [htwins.protocolName, htwins.spec] at hread
      exact Client.generated_arrival hread

/-! ### The shop over a line -/

/-- A call without arguments. -/
def bare (protocols : List Scanner.Protocol) (protocolName : String) (spec : Option ObjectSpec)
    (isServer : Bool) (g : Generic) : Bool :=
  decide (g.object < wordSize ∧ g.method < wordSize ∧ g.seq < wordSize ∧ g.args = []) &&
    match Scanner.codeOf protocols protocolName spec with
    | some (_, o) =>
      decide (spec = some o.spec) &&
        match (o.methods isServer)[g.method]? with
        | some mt =>
          decide (mt.args = [] ∧ mt.returns ≠ some "" ∧ (isServer = false → mt.returns = none))
        | none => false
    | none => false

theorem bare_spec {protocolName : String} {spec : Option ObjectSpec} {isServer : Bool} {g : Generic}
    (h : bare protocols protocolName spec isServer g = true) :
    g.IsWord ∧ ∃ p o mt vs, Scanner.IsCode protocols protocolName spec p o ∧
      g.Typed up p (o.methods isServer) mt vs ∧ (isServer = false → mt.returns = none) := by
  simp only [bare, Bool.and_eq_true, decide_eq_true_eq] at h
  obtain ⟨⟨hobject, hmethod, hseq, hargs⟩, h⟩ := h
  split at h
  · next p o hcode =>
    obtain ⟨hspec, h⟩ := Bool.and_eq_true_iff.mp h
    split at h
    · next mt hmt =>
      obtain ⟨hnone, hret, hs2c⟩ := of_decide_eq_true h
      refine ⟨⟨hobject, hmethod, hseq⟩, p, o, mt, [], ⟨hcode, of_decide_eq_true hspec⟩,
        ⟨hmt, hret, ?_, hargs⟩, hs2c⟩
      rw [hnone]
      exact .nil
    · cases h
  · cases h

/-- What is said without arguments is seen to be sayable. -/
def terse (protocols : List Scanner.Protocol) (x : Connection) : Bool :=
  (x.client.out.all fun
    | .sup => true
    | .handshakeAck version => decide (version < wordSize)
    | .bindProtocol seq version _ => decide (seq < wordSize ∧ version < wordSize ∧ version ≠ 0)
    | .generic g =>
      bare protocols (x.client.objects g.origin).protocolName (x.client.objects g.origin).spec true g
    | .roundtripRequest seq _ => decide (seq < wordSize)) &&
  (x.server.out.all fun
    | .handshakeBegin versions => decide (versions = [1])
    | .handshakeProtocols advertised =>
      decide (advertised.length < 2048 ∧ ∀ spec ∈ advertised, spec.2 < wordSize)
    | .newObject seq id => decide (seq < wordSize ∧ id < wordSize)
    | .generic g =>
      bare protocols (x.server.objects g.origin).protocolName (x.server.objects g.origin).spec false g
    | .fatalProtocolError objectId errorId _ => decide (objectId < wordSize ∧ errorId < wordSize)
    | .roundtripDone seq _ => decide (seq < wordSize)) &&
  decide (x.client.issued + 1 < wordSize)

theorem sayable_of_terse (h : x.terse protocols = true) : x.Sayable up protocols := by
  simp only [terse, Bool.and_eq_true, List.all_eq_true] at h
  obtain ⟨⟨hclient, hserver⟩, hissued⟩ := h
  refine ⟨fun msg hmsg => ?_, fun msg hmsg => ?_, of_decide_eq_true hissued⟩
  · have hmsg := hclient msg hmsg
    cases msg with
    | sup => trivial
    | generic g =>
      obtain ⟨hword, p, o, mt, vs, hcode, htyped, -⟩ := @bare_spec up protocols _ _ _ _ hmsg
      exact ⟨hword, p, o, mt, vs, hcode, htyped⟩
    | _ =>
      have hsays := of_decide_eq_true hmsg
      exact hsays
  · have hmsg := hserver msg hmsg
    cases msg with
    | generic g =>
      obtain ⟨hword, p, o, mt, vs, hcode, htyped, hs2c⟩ := @bare_spec up protocols _ _ _ _ hmsg
      exact ⟨hword, p, o, mt, vs, hcode, htyped, hs2c rfl⟩
    | _ =>
      have hsays := of_decide_eq_true hmsg
      exact hsays

end

/-- Handlers that do nothing, and a callback of the server that ticks. -/
def still : Server.Handlers := ⟨fun _ => [], fun _ => []⟩
def ticks : Server.Handlers := ⟨fun _ => [.emit 0 0 []], fun _ => []⟩

/-- The sides shake hands, a manager is bound, and an item is made and drawn before it has an id; the
manager ticks, and is pinged from the callback. -/
def shopping : List Input :=
  [.serverReads 1 still, .clientReads 0 1 fun _ => [], .serverReads 1 still, .clientReads 0 1 fun _ => [],
    .alone (.bind 0 "shop" 1), .serverReads 1 still, .clientReads 0 1 fun _ => [],
    .alone (.client (.send 0 0 [])), .alone (.client (.send 1 0 [])), .serverReads 1 ticks,
    .clientReads 0 2 fun _ => [.send 0 1 []], .serverReads 2 still]

/-- The item is asked for. -/
def ordering : List Action := binding ++ [.client (.send 0 0 [])]

/-- The call that asks for it, and its bytes. -/
def made : Generic where
  object := 1
  method := 0
  seq := 2
  args := []
  origin := 0
  destructor := false

def madePacket : Outgoing := ⟨word 1 0 [(.scalar .seq 2 : Field .checked)], []⟩

/-- The server has made the item and ticked, and the client has pinged: either side has something to
read. -/
def trading : List Action :=
  ordering ++ [.serverReads 1, .server .handle, .server (.emit 0 0 []), .server .return_,
    .server .finish, .client (.send 0 1 [])]

/-- A callback that pings. -/
def pings : Client.Handlers := fun _ => [.send 0 1 []]

theorem wire_goes_on_trading : ∃ x,
    Run.run Connection.step (start ([Server.shop].map Scanner.Protocol.spec)) trading = some x ∧
      (∃ y bs, wire .checked Char.toString [Server.shop] x (.serverReads 2 ticks) = some y ∧
        Run.run Connection.step x bs = some y) ∧
      ∃ y bs, wire .checked Char.toString [Server.shop] x (.clientReads 0 2 pings) = some y ∧
        Run.run Connection.step x bs = some y := by
  have hrun : (Run.run Connection.step (start ([Server.shop].map Scanner.Protocol.spec)) trading).any
      (fun x => x.terse [Server.shop] && decide ((x.client.out.drop x.toServer).take 2 ≠ [] ∧
          x.server.phase = .idle ∧ x.server.gone = false ∧ (x.server.out.drop x.toClient).take 2 ≠ [] ∧
          x.client.dispatches 0 = true) &&
        ((posted x.client.post ((x.client.out.drop x.toServer).take 2)).all fun raw =>
          decide (raw.data.length ≤ isizeMax ∧ raw.fds.length ≤ isizeMax)) &&
        (posted x.server.post ((x.server.out.drop x.toClient).take 2)).all fun raw =>
          decide (raw.data.length ≤ isizeMax ∧ raw.fds.length ≤ isizeMax) &&
            x.client.collectOrphanedObjects.spares .checked Char.toString [Server.shop] pings 0 2 raw) =
              true := by
    decide +kernel
  obtain ⟨x, hx, hchecks⟩ := (Option.any_eq_true _ _).mp hrun
  simp only [Bool.and_eq_true, Option.all_eq_true] at hchecks
  obtain ⟨⟨⟨hterse, hopen⟩, hserver⟩, hclient⟩ := hchecks
  obtain ⟨hwritten, hidle, hgone, htold, hdispatches⟩ := of_decide_eq_true hopen
  obtain ⟨⟨raw, hraw, hreads⟩, raw', hraw', hreads'⟩ := @wire_goes_on x .checked Char.toString _
    (by decide) _ hx (sayable_of_terse hterse) 2
  refine ⟨x, hx, ?_, ?_⟩
  · obtain ⟨hdata, hfds⟩ := of_decide_eq_true (hserver raw hraw)
    exact hreads ticks hwritten hidle hgone hdata hfds
  · obtain ⟨hlengths, hspares⟩ := hclient raw' hraw'
    obtain ⟨hdata, hfds⟩ := of_decide_eq_true hlengths
    exact (hreads' 0 pings htold hdispatches hdata hfds).resolve_right
      (Client.not_usesUp_of_spares hspares)

theorem arguments_arrive_ordering : ∃ x,
    Run.run Connection.step (start ([Server.shop].map Scanner.Protocol.spec)) ordering = some x ∧
      ∃ msg, decode .checked .genericProtocolMessage madePacket.data madePacket.fds 0 =
          .ok (.generic msg, []) ∧
        ∃ k mt, x.server.objectForId 1 = some k ∧
          Server.generated .checked Char.toString [Server.shop] (x.server.objects k) msg =
            .ok (Scanner.callEvent (fun name seq => some (name, seq)) 0 2 mt []) := by
  have hrun : (Run.run Connection.step (start ([Server.shop].map Scanner.Protocol.spec)) ordering).any
      (fun x => x.terse [Server.shop] && decide (C2S.generic made ∈ x.client.out) &&
        (x.client.post (.generic made)).any (fun packet =>
          decide (packet.data = madePacket.data ∧ packet.fds = [])) &&
        (x.server.objectForId 1).any fun k =>
          decide ((x.server.objects k).objectData = true ∧ (x.server.objects k).destroyed = false)) =
            true := by
    decide +kernel
  obtain ⟨x, hx, hchecks⟩ := (Option.any_eq_true _ _).mp hrun
  simp only [Bool.and_eq_true, decide_eq_true_eq, Option.any_eq_true] at hchecks
  obtain ⟨⟨⟨hterse, hmade⟩, packet, hpost, hbytes, hnone⟩, k, hk, hdata, hlive⟩ := hchecks
  obtain rfl : packet = madePacket := by
    cases packet
    cases hbytes
    cases hnone
    rfl
  obtain ⟨msg, hdecode, harrives⟩ := (@arguments_arrive x .checked Char.toString [Server.shop] _ hx
    (sayable_of_terse hterse) made madePacket (by decide) (by decide)).1 hmade hpost
  obtain ⟨-, -, mt, vs, -, -, hargs, hgenerated⟩ := harrives k hk
  cases List.map_eq_nil_iff.mp hargs.symm
  rw [hdata, hlive, if_pos rfl] at hgenerated
  exact ⟨x, hx, msg, hdecode, k, mt, hk, hgenerated⟩

theorem wire_refines_shopping : ∃ x,
    Run.run (wire .checked Char.toString [Server.shop])
        (start ([Server.shop].map Scanner.Protocol.spec)) shopping = some x ∧
      ∃ as, Run.run Connection.step (start ([Server.shop].map Scanner.Protocol.spec)) as = some x := by
  have hrun : (Run.run (wire .checked Char.toString [Server.shop])
      (start ([Server.shop].map Scanner.Protocol.spec)) shopping).isSome = true := by decide +kernel
  have hterse : Run.Meets (wire .checked Char.toString [Server.shop])
      (fun x input => (wire .checked Char.toString [Server.shop] x input).all (terse [Server.shop]) = true)
      (start ([Server.shop].map Scanner.Protocol.spec)) shopping := by decide +kernel
  obtain ⟨x, hx⟩ := Option.isSome_iff_exists.mp hrun
  refine ⟨x, hx, wire_refines (by decide) (Run.meets_mono (fun y input hall z hz => ?_) hterse) hx⟩
  rw [hz] at hall
  exact sayable_of_terse hall

end Connection

end Hyprwire
