import Hyprwire.Core.Codec
import Hyprwire.Lib.History
import Hyprwire.Wire.Batch
import Hyprwire.Wire.Exact

/-!
# `Wire/Stream.lean` — a stream, read by read

`read_from_socket` returns what has arrived, and `handle_message` takes it for a whole number of
messages: nothing is carried over from one read to the next. A read that ends inside a message is
refused, then (`Listener.Steady.refused`). Where every read ends with a message (`Cut`), the messages are
handled as if they had come one by one (`oneByOne`), up to the first that puts the connection in
error (`Listener.Steady.agree`).

What a side does with a message, and around a batch of them, is a parameter here (`Listener`), and so
is what makes no difference to it (`Steady`); `System/Cuts.lean` has the two sides.
-/

namespace Hyprwire

open Rust History

variable {m : Overflow} {σ : Type}

/-- `SocketRawParsedMessage`. -/
structure SocketRawParsedMessage where
  data : List UInt8
  fds : List RawFd

/-- A side, around the handler that `handle_message` calls: its error flag, what it does before and
behind a batch, and what becomes of it when a read is empty or a batch cannot be handled. -/
structure Listener (σ : Type) extends Handler σ where
  failed : σ → Bool
  begins : σ → σ
  ends : σ → σ
  closed : σ → σ
  refuse : σ → σ

/-- One end of a connection: the state of the side, whether the program has panicked, and what was
handled. -/
structure Peer (σ : Type) where
  app : σ
  crashed : Bool := false
  handled : List Decoded := []

/-- The side, unless the program has panicked. -/
def Peer.state (p : Peer σ) : Option σ := if p.crashed then none else some p.app

namespace Listener

variable (r : Listener σ)

/-- Nothing more is read: the error flag is set, or nobody is there any more. -/
def down (p : Peer σ) : Bool := p.crashed || r.failed p.app

/-- A message is handled. -/
def hear (p : Peer σ) (msg : Decoded) : Peer σ :=
  { p with app := (r.handle p.app msg).1, handled := p.handled ++ [msg] }

/-- The side as `handle_message` sees it. -/
def recorder : Handler (Peer σ) where
  handle p msg := (r.hear p msg, (r.handle p.app msg).2)
  flagError p := { p with app := r.flagError p.app }

/-- A batch has been read. -/
def begun (p : Peer σ) : Peer σ := { p with app := r.begins p.app }

/-- A batch has been handled. -/
def ended (p : Peer σ) : Peer σ := { p with app := r.ends p.app }

/-- What becomes of a side with the answer of `handle_message`. -/
def conclude (p : Peer σ) : Outcome Error Unit → Peer σ
  | .ok () => p
  | .err _ => { p with app := r.refuse p.app }
  | .panic _ | .stall => { p with crashed := true }

end Listener

/-- **Read by read**: `dispatch_client` of a server, `dispatch_events` of a client, time after time.
Nothing is read from a connection in error, and an empty read is the end of the stream. -/
def receive (m : Overflow) (accepts : MessageType → Bool) (r : Listener σ) :
    List SocketRawParsedMessage → Peer σ → Peer σ
  | [], p => p
  | raw :: reads, p =>
    if r.down p then p
    else if raw.data = [] then receive m accepts r reads { p with app := r.closed p.app }
    else
      let result := handleMessage m accepts r.recorder raw.data raw.fds (r.begun p)
      match result.outcome with
      | .ok () => receive m accepts r reads (r.ended result.state)
      | outcome => r.conclude result.state outcome

section

variable {r : Listener σ} {accepts : MessageType → Bool}

theorem receive_down (reads : List SocketRawParsedMessage) {p : Peer σ} (h : r.down p = true) :
    receive m accepts r reads p = p := by
  cases reads with
  | nil => rfl
  | cons raw reads => rw [receive, if_pos h]

/-- A turn of the loop is that of the side, with a note of what was handled. -/
theorem handleTurn_app (data : List UInt8) (p : Peer σ) (fds : List RawFd) (needle : Nat) :
    let turn := handleTurn m accepts r.recorder data p fds needle
    handleTurn m accepts r.toHandler data p.app fds needle = (turn.1.app, turn.2) ∧
      turn.1.crashed = p.crashed := by
  unfold handleTurn
  cases data[needle]? with
  | none => exact ⟨rfl, rfl⟩
  | some byte =>
    dsimp only
    cases MessageType.tryFrom byte with
    | ok type =>
      dsimp only
      split
      · cases decode m type data fds needle <;> exact ⟨rfl, rfl⟩
      · exact ⟨rfl, rfl⟩
    | _ => exact ⟨rfl, rfl⟩

theorem loop_crashed (data : List UInt8) (fuel : Nat) (p : Peer σ) (fds : List RawFd) (needle : Nat) :
    (Frame.loop (handleTurn m accepts r.recorder data) data.length fuel p fds needle).state.crashed =
      p.crashed := by
  induction fuel generalizing p fds needle with
  | zero => rfl
  | succ fuel ih =>
    rw [Frame.loop]
    split
    · have hturn := (@handleTurn_app m _ r accepts data p fds needle).2
      generalize handleTurn m accepts r.recorder data p fds needle = turn at hturn
      obtain ⟨u, ⟨n, q⟩ | e | e | _⟩ := turn
      · exact (ih u q n).trans hturn
      · exact hturn
      · exact hturn
      · exact hturn
    · rfl

/-- **One read**, from what `handle_message` makes of it on the side itself. -/
theorem receive_one {raw : SocketRawParsedMessage} {p : Peer σ} (hopen : r.down p = false)
    (hdata : raw.data ≠ []) :
    let result := handleMessage m accepts r.toHandler raw.data raw.fds (r.begins p.app)
    (receive m accepts r [raw] p).state =
      match result.outcome with
      | .ok () => some (r.ends result.state)
      | .err _ => some (r.refuse result.state)
      | .panic _ | .stall => none := by
  have hlive : p.crashed = false := (Bool.or_eq_false_iff.mp hopen).1
  have hloop := @Frame.loop_map _ _ _ _ (handleTurn m accepts r.recorder raw.data)
    (handleTurn m accepts r.toHandler raw.data) Peer.app
    (fun p fds needle => (handleTurn_app raw.data p fds needle).1) raw.data.length raw.data.length
    (r.begun p) raw.fds 0
  have hcrashed := @loop_crashed m _ r accepts raw.data raw.data.length (r.begun p) raw.fds 0
  rw [receive, hopen, if_neg Bool.false_ne_true, if_neg hdata]
  unfold handleMessage
  rw [show r.begins p.app = (r.begun p).app from rfl, hloop]
  generalize Frame.loop (handleTurn m accepts r.recorder raw.data) raw.data.length raw.data.length
    (r.begun p) raw.fds 0 = result at hcrashed
  have hlive := hcrashed.trans hlive
  dsimp only
  cases (result.outcome >>= fun _ => if result.queue ≠ [] then .err .malformedMessage else .ok ()) with
  | ok u | err e => exact if_neg (Bool.eq_false_iff.mp hlive)
  | panic e => rfl
  | stall => rfl

end

/-! ## A batch of messages -/

/-- The messages of a batch, up to the first that is not answered with `Ok`. -/
def feed (r : Listener σ) : List Decoded → Peer σ → Peer σ × Outcome Error Unit
  | [], p => (p, .ok ())
  | msg :: msgs, p =>
    match (r.handle p.app msg).2 with
    | .ok () => feed r msgs (r.hear p msg)
    | outcome => (r.hear p msg, outcome)

section

variable {r : Listener σ} {p p' : Peer σ} {msg : Decoded} {msgs : List Decoded}

theorem feed_ok (h : (r.handle p.app msg).2 = .ok ()) :
    feed r (msg :: msgs) p = feed r msgs (r.hear p msg) := by
  rw [feed, h]

theorem feed_stops (h : (r.handle p.app msg).2 ≠ .ok ()) :
    feed r (msg :: msgs) p = (r.hear p msg, (r.handle p.app msg).2) := by
  rw [feed]
  split
  · next heq => exact absurd heq h
  · rfl

/-- Messages that are all answered with `Ok` are taken one after the other. -/
theorem feed_chain {batch : List (Sent m)} (h : (feed r (batch.map Sent.decoded) p).2 = .ok ()) :
    Frame.Chain (fun p (x : Sent m) p' => r.recorder.handle p x.decoded = (p', .ok ())) p batch
      (feed r (batch.map Sent.decoded) p).1 := by
  induction batch generalizing p with
  | nil => exact .nil p
  | cons x batch ih =>
    rw [List.map_cons] at h ⊢
    by_cases hok : (r.handle p.app x.decoded).2 = .ok ()
    · rw [feed_ok hok] at h ⊢
      exact .cons (Prod.ext rfl hok) (ih h)
    · rw [feed_stops hok] at h
      exact absurd h hok

/-- The loop stops at the message that is not answered with `Ok`. -/
theorem loop_stops {accepts : MessageType → Bool} {data : List UInt8} (hlen : data.length ≤ isizeMax)
    {batch : List (Sent m)} (hacc : ∀ x ∈ batch, accepts x.decoded.messageType = true)
    {needle fuel : Nat} {rest : List UInt8} {more : List RawFd} (hle : needle ≤ data.length)
    (hd : data.drop needle = batch.flatMap Sent.data ++ rest) (hfuel : batch.length ≤ fuel)
    (hfds : (batch.flatMap Sent.fds ++ more).length ≤ isizeMax)
    (hstop : (feed r (batch.map Sent.decoded) p).2 ≠ .ok ()) :
    let result := Frame.loop (handleTurn m accepts r.recorder data) data.length fuel p
      (batch.flatMap Sent.fds ++ more) needle
    result.state = (feed r (batch.map Sent.decoded) p).1 ∧
      result.outcome = (feed r (batch.map Sent.decoded) p).2 := by
  induction batch generalizing needle fuel p with
  | nil => exact absurd rfl hstop
  | cons x batch ih =>
    rw [List.flatMap_cons, List.append_assoc] at hd hfds
    obtain ⟨hx, hrest⟩ := List.forall_mem_cons.mp hacc
    obtain ⟨tail, htail⟩ := x.data_eq_cons
    have hlt : needle < data.length := by
      rw [htail, List.cons_append] at hd
      exact Bytes.lt_length_of_drop_eq_cons hd
    have hbound := Bytes.length_of_drop_eq_append hle hd
    have hturn := handleTurn_sent (h := r.recorder) x hx hd hlen p hfds
    cases fuel with
    | zero => cases hfuel
    | succ fuel =>
      rw [List.flatMap_cons, List.append_assoc, List.map_cons, Frame.loop, if_pos hlt, hturn]
      rw [List.map_cons] at hstop
      by_cases hok : (r.handle p.app x.decoded).2 = .ok ()
      · rw [feed_ok hok] at hstop ⊢
        rw [show (r.recorder.handle p x.decoded).2 = .ok () from hok, Outcome.ok_bind]
        refine ih hrest (by omega) (Bytes.drop_add_of_drop_eq_append hd)
          (Nat.le_of_succ_le_succ hfuel) ?_ hstop
        rw [List.length_append] at hfds
        exact Nat.le_trans (Nat.le_add_left ..) hfds
      · rw [feed_stops hok]
        show _ ∧ _
        rw [show (r.recorder.handle p x.decoded).2 = (r.handle p.app x.decoded).2 from rfl]
        cases hanswer : (r.handle p.app x.decoded).2 with
        | ok u => exact absurd hanswer hok
        | err e | panic e | stall => exact ⟨rfl, rfl⟩

/-- **`handle_message` on a batch**: its messages are fed, and no descriptor is left over. -/
theorem handleMessage_feed {accepts : MessageType → Bool} {batch : List (Sent m)}
    (hacc : ∀ x ∈ batch, accepts x.decoded.messageType = true)
    (hlen : (batch.flatMap Sent.data).length ≤ isizeMax)
    (hfds : (batch.flatMap Sent.fds).length ≤ isizeMax) (p : Peer σ) :
    let result := handleMessage m accepts r.recorder (batch.flatMap Sent.data)
      (batch.flatMap Sent.fds) p
    result.state = (feed r (batch.map Sent.decoded) p).1 ∧
      result.outcome = (feed r (batch.map Sent.decoded) p).2 := by
  by_cases hok : (feed r (batch.map Sent.decoded) p).2 = .ok ()
  · have hchain := handleMessage_chain hacc (feed_chain hok) hlen hfds
    rw [hchain, hok]
    exact ⟨rfl, rfl⟩
  · have hfds' : (batch.flatMap Sent.fds ++ []).length ≤ isizeMax := by rwa [List.append_nil]
    have hd : (batch.flatMap Sent.data).drop 0 = batch.flatMap Sent.data ++ [] :=
      (List.append_nil _).symm
    have hstop := loop_stops hlen hacc (Nat.zero_le _) hd (length_le_length_data batch) hfds' hok
    rw [List.append_nil] at hstop
    obtain ⟨hstate, houtcome⟩ := hstop
    refine ⟨hstate, ?_⟩
    rw [handleMessage]
    dsimp only
    rw [houtcome]
    cases hanswer : (feed r (batch.map Sent.decoded) p).2 with
    | ok u => exact absurd hanswer hok
    | err e | panic e | stall => rfl

/-- What is handled are messages that are fed, in order. -/
theorem feed_handled (r : Listener σ) (msgs : List Decoded) (p : Peer σ) :
    p.handled <+: (feed r msgs p).1.handled ∧ (feed r msgs p).1.handled <+: p.handled ++ msgs := by
  induction msgs generalizing p with
  | nil =>
    rw [List.append_nil]
    exact ⟨List.prefix_refl _, List.prefix_refl _⟩
  | cons msg msgs ih =>
    rw [List.append_cons]
    by_cases hok : (r.handle p.app msg).2 = .ok ()
    · rw [feed_ok hok]
      exact ⟨(List.prefix_append ..).trans (ih (r.hear p msg)).1, (ih (r.hear p msg)).2⟩
    · rw [feed_stops hok]
      exact ⟨List.prefix_append .., List.prefix_append ..⟩

/-! ## A message that is cut off -/

/-- A word is not the front part of another: a decoder would find the end of either. -/
theorem word_of_word {object method object' method' : UInt32} {fs fs' : List (Field m)}
    {tail : List UInt8} (h : word object method fs = word object' method' fs' ++ tail)
    (hlen : (word object method fs).length ≤ isizeMax) (hslots : slotsAll fs ≤ isizeMax)
    (hslots' : slotsAll fs' ≤ isizeMax) : tail = [] := by
  let fds : List RawFd := List.replicate (max (slotsAll fs) (slotsAll fs')) 0
  have hcount : fds.length = max (slotsAll fs) (slotsAll fs') := List.length_replicate
  have hfds : fds.length ≤ isizeMax := hcount ▸ Nat.max_le.mpr ⟨hslots, hslots'⟩
  have hself : (word object method fs).drop 0 = word object method fs ++ [] :=
    (List.append_nil _).symm
  have hother : (word object method fs).drop 0 = word object' method' fs' ++ tail := h
  have hread := fromBytes_word fs hself (Nat.zero_le _) hlen hfds
  have hread' := fromBytes_word fs' hother (Nat.zero_le _) hlen hfds
  rw [if_pos (hcount ▸ Nat.le_max_left ..)] at hread
  rw [hread, if_pos (hcount ▸ Nat.le_max_right ..)] at hread'
  have hdata : word object method fs = word object' method' fs' :=
    congrArg (fun msg : GenericProtocolMessage × List RawFd => msg.1.data) (Outcome.ok.inj hread')
  rw [hdata] at h
  exact List.self_eq_append_right.mp h

/-- **A message whose end is missing is not decoded.** A generic message is looked at in a build that
checks its arithmetic: in the other one a length prefix may go round the address space. -/
theorem Sent.decode_cutOff (x : Sent m)
    (hbuild : x.decoded.messageType = .genericProtocolMessage → m = .checked)
    {front part missing : List UInt8} (hsplit : part ++ missing = x.data) (hne : missing ≠ [])
    (hwhole : x.data.length ≤ isizeMax) (hown : x.fds.length ≤ isizeMax)
    (hlen : (front ++ part).length ≤ isizeMax) {fds left : List RawFd} (hfds : fds.length ≤ isizeMax)
    (msg : Decoded) :
    decode m x.decoded.messageType (front ++ part) fds front.length ≠ .ok (msg, left) := by
  obtain ⟨hsup, hbegin, hack, hprotocols, hbind, hnew, hfatal, hrequest, hdone⟩ := control_codec m
  obtain ⟨bytes, own, decoded, built⟩ := x
  -- The bytes of a control message have a decoder of their own, which refuses.
  have hrefused : ∀ {α : Type} {decoder : List UInt8 → Nat → Outcome Error α} {made : α}
      {f : α → Decoded}, Codec decoder made bytes →
      (decoder (front ++ part) front.length >>= fun msg => .ok (f msg, fds)) ≠ .ok (msg, left) := by
    intro α decoder made f hcodec
    obtain ⟨e, he⟩ := hcodec.cutOff front part missing hsplit hne hwhole hlen
    rw [he]
    nofun
  cases built with
  | sup => exact hrefused hsup
  | handshakeBegin versions h => exact hrefused (hbegin versions h)
  | handshakeAck version => exact hrefused (hack version)
  | handshakeProtocols protocols h => exact hrefused (hprotocols protocols h)
  | bindProtocol protocol seq version h => exact hrefused (hbind protocol seq version h)
  | newObject seq id => exact hrefused (hnew seq id)
  | fatalProtocolError objectId errorId errorMsg => exact hrefused (hfatal objectId errorId errorMsg)
  | roundtripRequest seq => exact hrefused (hrequest seq)
  | roundtripDone seq => exact hrefused (hdone seq)
  | generic object method fs _ hslots =>
    obtain rfl := hbuild rfl
    intro hdecode
    obtain ⟨⟨msg, left⟩, hacc, -⟩ := Outcome.bind_eq_ok.mp hdecode
    obtain ⟨object', method', fs', tail, hd, hslots'⟩ := word_of_fromBytes hlen hfds hacc
    rw [List.drop_left] at hd
    have hword : word object method fs = word object' method' fs' ++ (tail ++ missing) := by
      rw [← List.append_assoc, ← hd, hsplit]
    have hnil := word_of_word hword hwhole (hslots ▸ hown) (Nat.le_trans hslots' hfds)
    exact hne (List.append_eq_nil_iff.mp hnil).2

/-- The turn of the loop that comes to it gives up. -/
theorem handleTurn_cutOff (r : Listener σ) (accepts : MessageType → Bool) (x : Sent m)
    (hbuild : x.decoded.messageType = .genericProtocolMessage → m = .checked)
    {front part missing : List UInt8} (hsplit : part ++ missing = x.data) (hpart : part ≠ [])
    (hmissing : missing ≠ []) (hwhole : x.data.length ≤ isizeMax) (hown : x.fds.length ≤ isizeMax)
    (hlen : (front ++ part).length ≤ isizeMax) {fds : List RawFd} (hfds : fds.length ≤ isizeMax)
    (p : Peer σ) :
    let turn := handleTurn m accepts r.recorder (front ++ part) p fds front.length
    turn.1.handled = p.handled ∧ ∀ next, turn.2 ≠ .ok next := by
  obtain ⟨tail, htail⟩ := x.data_eq_cons
  have hbyte : (front ++ part)[front.length]? = some x.decoded.messageType.toU8 := by
    cases part with
    | nil => exact absurd rfl hpart
    | cons b part =>
      rw [htail] at hsplit
      rw [List.getElem?_append_right (Nat.le_refl _), Nat.sub_self, (List.cons.inj hsplit).1]
      rfl
  have hdecode : ∀ msg left, decode m x.decoded.messageType (front ++ part) fds front.length ≠
      .ok (msg, left) :=
    fun msg left => x.decode_cutOff hbuild hsplit hmissing hwhole hown hlen hfds msg
  simp only [handleTurn, hbyte, MessageType.tryFrom_toU8]
  split
  · cases hanswer : decode m x.decoded.messageType (front ++ part) fds front.length with
    | ok next => exact absurd hanswer (hdecode next.1 next.2)
    | err e | panic e | stall => exact ⟨rfl, fun _ h => by cases h⟩
  · exact ⟨rfl, fun _ h => by cases h⟩

/-- A read that ends inside a message is not handled. -/
theorem outcome_of_cutOff {accepts : MessageType → Bool} {batch : List (Sent m)}
    (hacc : ∀ x ∈ batch, accepts x.decoded.messageType = true) (x : Sent m)
    (hbuild : x.decoded.messageType = .genericProtocolMessage → m = .checked)
    {part missing : List UInt8} (hsplit : part ++ missing = x.data) (hpart : part ≠ [])
    (hmissing : missing ≠ []) (hwhole : x.data.length ≤ isizeMax) (hown : x.fds.length ≤ isizeMax)
    (hlen : (batch.flatMap Sent.data ++ part).length ≤ isizeMax) {more : List RawFd}
    (hfds : (batch.flatMap Sent.fds ++ more).length ≤ isizeMax) (p : Peer σ) :
    let result := handleMessage m accepts r.recorder (batch.flatMap Sent.data ++ part)
      (batch.flatMap Sent.fds ++ more) p
    result.state.handled <+: p.handled ++ batch.map Sent.decoded ∧ result.outcome ≠ .ok () := by
  have hfed := feed_handled r (batch.map Sent.decoded) p
  have hd : (batch.flatMap Sent.data ++ part).drop 0 = batch.flatMap Sent.data ++ part := rfl
  have hcount : batch.length ≤ (batch.flatMap Sent.data ++ part).length := by
    rw [List.length_append]
    exact Nat.le_trans (length_le_length_data batch) (Nat.le_add_right ..)
  by_cases hok : (feed r (batch.map Sent.decoded) p).2 = .ok ()
  · -- The messages in front are taken, and the loop comes to the one that is cut off.
    obtain ⟨fuel, hfuel⟩ := Nat.exists_eq_add_of_le hcount
    have hmore : more.length ≤ isizeMax := by
      rw [List.length_append] at hfds
      exact Nat.le_trans (Nat.le_add_left ..) hfds
    have hpos := List.length_pos_iff.mpr hpart
    have hlt : (batch.flatMap Sent.data).length < (batch.flatMap Sent.data ++ part).length := by
      rw [List.length_append]
      exact Nat.lt_add_of_pos_right hpos
    have hloop := @loop_front m _ accepts r.recorder _ hlen batch hacc p _ (feed_chain hok) 0 fuel
      part more (Nat.zero_le _) hd hfds
    obtain ⟨hhandled, hgives⟩ := handleTurn_cutOff r accepts x hbuild hsplit hpart hmissing hwhole
      hown hlen hmore (feed r (batch.map Sent.decoded) p).1
    rw [handleMessage]
    rw [← hfuel] at hloop
    dsimp only
    rw [hloop]
    cases fuel with
    | zero =>
      rw [Nat.add_zero] at hfuel
      exact absurd (length_le_length_data batch) (Nat.not_le_of_lt (hfuel ▸ hlt))
    | succ fuel =>
      rw [Nat.zero_add, Frame.loop, if_pos hlt]
      generalize handleTurn m accepts r.recorder _ _ _ _ = turn at hhandled hgives
      obtain ⟨t, next | e | e | _⟩ := turn
      · exact absurd rfl (hgives next)
      all_goals exact ⟨hhandled ▸ hfed.2, fun h => by cases h⟩
  · obtain ⟨hstate, houtcome⟩ := loop_stops hlen hacc (Nat.zero_le _) hd hcount hfds hok
    rw [handleMessage]
    dsimp only
    rw [hstate, houtcome]
    refine ⟨hfed.2, ?_⟩
    cases hanswer : (feed r (batch.map Sent.decoded) p).2 with
    | ok u => exact absurd hanswer hok
    | err e | panic e | stall => exact fun h => by cases h

end

/-! ## One message at a time -/

/-- **The messages one by one**, until the connection is in error. -/
def oneByOne (r : Listener σ) : List Decoded → Peer σ → Peer σ
  | [], p => p
  | msg :: msgs, p =>
    if r.down p then p
    else oneByOne r msgs (r.conclude (r.hear p msg) (r.handle p.app msg).2)

/-- What a side does between two reads makes no difference to the messages that follow: from a state
that is `calm` it leads to one that is alike, and alike states are changed and answer alike. An error
stays. -/
structure Listener.Steady (r : Listener σ) (alike : σ → σ → Prop) (calm : σ → Prop) : Prop where
  opens : ∀ s, alike (r.begins s) (r.begins s)
  between : ∀ s t, alike s t → r.failed t = false → calm t → alike (r.begins (r.ends s)) t
  state : ∀ s t msg, alike s t → alike (r.handle s msg).1 (r.handle t msg).1
  answer : ∀ s t msg, alike s t → (r.handle s msg).2 = (r.handle t msg).2
  failed : ∀ s t, alike s t → r.failed s = r.failed t
  stays : ∀ s msg, r.failed s = true → r.failed (r.handle s msg).1 = true
  refuse : ∀ s, r.failed (r.refuse s) = true
  begins : ∀ s, r.failed (r.begins s) = r.failed s
  ends : ∀ s, r.failed (r.ends s) = r.failed s

/-- The same connection, with a state of its side that is alike. -/
structure Peer.Alike (alike : σ → σ → Prop) (p p' : Peer σ) : Prop where
  app : alike p.app p'.app
  crashed : p.crashed = p'.crashed
  handled : p.handled = p'.handled

section

variable {r : Listener σ} {alike : σ → σ → Prop} {calm : σ → Prop} {p p' : Peer σ}

theorem oneByOne_down (msgs : List Decoded) (h : r.down p = true) : oneByOne r msgs p = p := by
  cases msgs with
  | nil => rfl
  | cons msg msgs => rw [oneByOne, if_pos h]

theorem oneByOne_append (msgs more : List Decoded) (p : Peer σ) :
    oneByOne r (msgs ++ more) p = oneByOne r more (oneByOne r msgs p) := by
  induction msgs generalizing p with
  | nil => rfl
  | cons msg msgs ih =>
    by_cases hdown : r.down p = true
    · rw [oneByOne_down _ hdown, oneByOne_down _ hdown, oneByOne_down _ hdown]
    · rw [List.cons_append, oneByOne, if_neg hdown, ih, oneByOne, if_neg hdown]

theorem Peer.Alike.hear (hr : r.Steady alike calm) (h : p.Alike alike p') (msg : Decoded) :
    (r.hear p msg).Alike alike (r.hear p' msg) where
  app := hr.state _ _ msg h.app
  crashed := h.crashed
  handled := congrArg (· ++ [msg]) h.handled

theorem Peer.Alike.down (hr : r.Steady alike calm) (h : p.Alike alike p') : r.down p = r.down p' := by
  rw [Listener.down, Listener.down, h.crashed, hr.failed _ _ h.app]

/-- What is not answered with `Ok` ends the connection. -/
theorem Listener.Steady.down_conclude (hr : r.Steady alike calm) (p : Peer σ)
    {outcome : Outcome Error Unit} (h : outcome ≠ .ok ()) : r.down (r.conclude p outcome) = true := by
  cases outcome with
  | ok u => exact absurd rfl h
  | err e =>
    show (p.crashed || r.failed (r.refuse p.app)) = true
    rw [hr.refuse, Bool.or_true]
  | panic e | stall => rfl

theorem handled_conclude (p : Peer σ) (outcome : Outcome Error Unit) :
    (r.conclude p outcome).handled = p.handled := by
  cases outcome <;> rfl

theorem down_hear (hr : r.Steady alike calm) (msg : Decoded) (h : r.down p = true) :
    r.down (r.hear p msg) = true := by
  rw [Listener.down, Bool.or_eq_true] at h ⊢
  exact h.imp_right (hr.stays p.app msg)

theorem feed_down (hr : r.Steady alike calm) (msgs : List Decoded) (p : Peer σ)
    (h : r.down p = true) : r.down (feed r msgs p).1 = true := by
  induction msgs generalizing p with
  | nil => exact h
  | cons msg msgs ih =>
    by_cases hok : (r.handle p.app msg).2 = .ok ()
    · rw [feed_ok hok]
      exact ih _ (down_hear hr msg h)
    · rw [feed_stops hok]
      exact down_hear hr msg h

/-- A batch that leaves the connection in order is fed as its messages are one by one. -/
theorem feed_oneByOne (hr : r.Steady alike calm) (msgs : List Decoded) (h : p.Alike alike p')
    (hok : (feed r msgs p).2 = .ok ()) (hopen : r.down (feed r msgs p).1 = false) :
    (feed r msgs p).1.handled = p.handled ++ msgs ∧
      (feed r msgs p).1.Alike alike (oneByOne r msgs p') := by
  induction msgs generalizing p p' with
  | nil => exact ⟨(List.append_nil _).symm, h⟩
  | cons msg msgs ih =>
    have hlive : r.down p = false := by
      cases hdown : r.down p with
      | false => rfl
      | true =>
        rw [feed_down hr _ p hdown] at hopen
        cases hopen
    by_cases hanswer : (r.handle p.app msg).2 = .ok ()
    · rw [feed_ok hanswer] at hok hopen ⊢
      obtain ⟨hhandled, halike⟩ := ih (h.hear hr msg) hok hopen
      refine ⟨by rw [hhandled, List.append_cons]; rfl, ?_⟩
      rw [oneByOne, ← h.down hr, hlive, if_neg Bool.false_ne_true, ← hr.answer _ _ msg h.app, hanswer]
      exact halike
    · rw [feed_stops hanswer] at hok
      exact absurd hok hanswer

/-- A batch that puts the connection in error holds the message that does. -/
theorem feed_fails (hr : r.Steady alike calm) (msgs : List Decoded) (h : p.Alike alike p')
    (hlive : r.down p = false)
    (hfail : (feed r msgs p).2 ≠ .ok () ∨ r.down (feed r msgs p).1 = true) :
    r.down (oneByOne r msgs p') = true ∧
      (oneByOne r msgs p').handled <+: (feed r msgs p).1.handled := by
  induction msgs generalizing p p' with
  | nil =>
    rcases hfail with hfail | hfail
    · exact absurd rfl hfail
    · rw [feed, hlive] at hfail
      cases hfail
  | cons msg msgs ih =>
    have hhear := h.hear hr msg
    rw [oneByOne, ← h.down hr, hlive, if_neg Bool.false_ne_true, ← hr.answer _ _ msg h.app]
    by_cases hanswer : (r.handle p.app msg).2 = .ok ()
    · rw [feed_ok hanswer] at hfail ⊢
      rw [hanswer]
      cases hdown : r.down (r.hear p msg) with
      | false => exact ih hhear hdown hfail
      | true =>
        have hdown' : r.down (r.hear p' msg) = true := hhear.down hr ▸ hdown
        show r.down (oneByOne r msgs (r.hear p' msg)) = true ∧
          (oneByOne r msgs (r.hear p' msg)).handled <+: _
        rw [oneByOne_down _ hdown', ← hhear.handled]
        exact ⟨hdown', (feed_handled r msgs _).1⟩
    · have hdown := hr.down_conclude (r.hear p' msg) hanswer
      rw [feed_stops hanswer, oneByOne_down _ hdown, handled_conclude]
      exact ⟨hdown, prefix_of_eq hhear.handled⟩

/-! ## Read by read -/

/-- A read that holds whole messages, with their descriptors. -/
def rawOf (batch : List (Sent m)) : SocketRawParsedMessage :=
  ⟨batch.flatMap Sent.data, batch.flatMap Sent.fds⟩

/-- **A cut between the messages**: every read holds whole messages, at least one, of types the side
accepts. -/
structure Cut (accepts : MessageType → Bool) (stream : List (Sent m)) (reads : List (List (Sent m))) :
    Prop where
  whole : reads.flatten = stream
  something : ∀ batch ∈ reads, batch ≠ []
  accepted : ∀ x ∈ stream, accepts x.decoded.messageType = true
  data : ∀ batch ∈ reads, (batch.flatMap Sent.data).length ≤ isizeMax
  fds : ∀ batch ∈ reads, (batch.flatMap Sent.fds).length ≤ isizeMax

/-- What the messages of some reads make of a connection, one by one. -/
def readOneByOne (r : Listener σ) (reads : List (List (Sent m))) (p : Peer σ) : Peer σ :=
  oneByOne r (reads.flatten.map Sent.decoded) p

/-- Where a read ends and another one follows, while nothing has gone wrong, the side is calm. -/
def Calm (r : Listener σ) (calm : σ → Prop) (reads : List (List (Sent m))) (p : Peer σ) : Prop :=
  ∀ front back, front ++ back = reads → front ≠ [] → back ≠ [] →
    r.down (readOneByOne r front p) = false → calm (readOneByOne r front p).app

theorem Calm.behind {batch : List (Sent m)} {reads : List (List (Sent m))}
    (h : Calm r calm (batch :: reads) p) : Calm r calm reads (oneByOne r (batch.map Sent.decoded) p) := by
  intro more back hsplit _ hback hopen
  have hmore : readOneByOne r more (oneByOne r (batch.map Sent.decoded) p) =
      readOneByOne r (batch :: more) p := by
    rw [readOneByOne, readOneByOne, List.flatten_cons, List.map_append, oneByOne_append]
  rw [hmore] at hopen ⊢
  exact h (batch :: more) back (congrArg (batch :: ·) hsplit) (List.cons_ne_nil _ _) hback hopen

/-- **One read after the other**: what is read next starts from what the first read leaves. -/
theorem Listener.Steady.receive_cons (hr : r.Steady alike calm) {accepts : MessageType → Bool}
    (raw : SocketRawParsedMessage) (reads : List SocketRawParsedMessage) (p : Peer σ) :
    receive m accepts r (raw :: reads) p = receive m accepts r reads (receive m accepts r [raw] p) := by
  cases hlive : r.down p with
  | true => rw [receive_down _ hlive, receive_down _ hlive, receive_down _ hlive]
  | false =>
    rw [receive, receive, hlive, if_neg Bool.false_ne_true, if_neg Bool.false_ne_true]
    split
    · rfl
    · dsimp only
      split
      · rfl
      · next hnot => rw [receive_down _ (hr.down_conclude _ hnot)]

/-- One dispatch after the other, until the connection is in error or the program panics. -/
def dispatchEach (failed : σ → Bool) (dispatch : σ → SocketRawParsedMessage → Option σ) :
    List SocketRawParsedMessage → σ → Option σ
  | [], s => some s
  | raw :: reads, s => if failed s then some s else (dispatch s raw).bind (dispatchEach failed dispatch reads)

/-- **What is received is what is dispatched**, when it is for one read. -/
theorem Listener.Steady.dispatchEach_eq (hr : r.Steady alike calm) {accepts : MessageType → Bool}
    {dispatch : σ → SocketRawParsedMessage → Option σ}
    (hone : ∀ s log raw, r.failed s = false →
      dispatch s raw = (receive m accepts r [raw] ⟨s, false, log⟩).state)
    (reads : List SocketRawParsedMessage) (s : σ) (log : List Decoded) :
    dispatchEach r.failed dispatch reads s = (receive m accepts r reads ⟨s, false, log⟩).state := by
  induction reads generalizing s log with
  | nil => rfl
  | cons raw reads ih =>
    rw [dispatchEach, hr.receive_cons]
    by_cases hfailed : r.failed s = true
    · have hdown : r.down ⟨s, false, log⟩ = true := hfailed
      rw [if_pos hfailed, receive_down _ hdown, receive_down _ hdown]
      rfl
    · -- what the first read leaves has panicked, or is dispatched on
      rw [if_neg hfailed, hone s log raw (Bool.eq_false_iff.mpr hfailed)]
      obtain ⟨t, crashed, log'⟩ := receive m accepts r [raw] ⟨s, false, log⟩
      cases crashed with
      | true =>
        rw [receive_down _ rfl]
        rfl
      | false => exact ih t log'

theorem data_ne_nil {batch : List (Sent m)} (h : batch ≠ []) : batch.flatMap Sent.data ≠ [] := by
  cases batch with
  | nil => exact absurd rfl h
  | cons x batch =>
    obtain ⟨tail, htail⟩ := x.data_eq_cons
    rw [List.flatMap_cons, htail]
    exact List.cons_ne_nil _ _

/-- A read of whole messages feeds them. -/
theorem receive_batch {accepts : MessageType → Bool} {batch : List (Sent m)} (hne : batch ≠ [])
    (hacc : ∀ x ∈ batch, accepts x.decoded.messageType = true)
    (hlen : (batch.flatMap Sent.data).length ≤ isizeMax)
    (hfds : (batch.flatMap Sent.fds).length ≤ isizeMax) (reads : List SocketRawParsedMessage)
    (hlive : r.down p = false) :
    let fed := feed r (batch.map Sent.decoded) (r.begun p)
    (fed.2 = .ok () → receive m accepts r (rawOf batch :: reads) p =
      receive m accepts r reads (r.ended fed.1)) ∧
    (fed.2 ≠ .ok () → receive m accepts r (rawOf batch :: reads) p = r.conclude fed.1 fed.2) := by
  obtain ⟨hstate, houtcome⟩ := handleMessage_feed (r := r) hacc hlen hfds (r.begun p)
  have hbytes : (rawOf batch).data ≠ [] := data_ne_nil hne
  rw [receive, hlive, if_neg Bool.false_ne_true, if_neg hbytes]
  dsimp only [rawOf]
  rw [houtcome, hstate]
  refine ⟨fun hok => ?_, fun hnot => ?_⟩
  · rw [hok]
  · split
    · next heq => exact absurd heq hnot
    · rfl

/-- What has arrived of a stream: all of it, when the connection is not in error, and else a front
part that reaches to the message that put it in error. -/
structure Arrived (r : Listener σ) (msgs : List Decoded) (p p' q : Peer σ) : Prop where
  error : r.down q = r.down (oneByOne r msgs p')
  reaches : (oneByOne r msgs p').handled <+: q.handled
  front : q.handled <+: p.handled ++ msgs
  all : r.down q = false → q.handled = p.handled ++ msgs

/-- Nothing has come. -/
theorem Arrived.of_nothing (hdown : r.down p = r.down p') (hhandled : p.handled = p'.handled) :
    Arrived r [] p p' p :=
  ⟨hdown, prefix_of_eq hhandled, List.prefix_append .., fun _ => (List.append_nil _).symm⟩

/-- A connection in error takes nothing more. -/
theorem Arrived.of_down {msgs : List Decoded} (hlive : r.down p = true) (hdown : r.down p = r.down p')
    (hhandled : p.handled = p'.handled) : Arrived r msgs p p' p := by
  rw [hlive] at hdown
  have hsame := oneByOne_down msgs hdown.symm
  refine ⟨by rw [hsame, hlive, hdown], by rw [hsame]; exact prefix_of_eq hhandled,
    List.prefix_append .., fun hopen => ?_⟩
  rw [hlive] at hopen
  cases hopen

/-- A batch that puts the connection in error ends the stream, whatever is behind it. -/
theorem Arrived.of_fails (hr : r.Steady alike calm) {msgs more : List Decoded}
    (h : (r.begun p).Alike alike p') (hlive : r.down (r.begun p) = false)
    (hfail : (feed r msgs (r.begun p)).2 ≠ .ok () ∨ r.down (feed r msgs (r.begun p)).1 = true)
    {q : Peer σ} (hq : r.down q = true) (hhandled : q.handled = (feed r msgs (r.begun p)).1.handled) :
    Arrived r (msgs ++ more) p p' q := by
  obtain ⟨hdown, hreaches⟩ := feed_fails hr msgs h hlive hfail
  have hsame : oneByOne r (msgs ++ more) p' = oneByOne r msgs p' := by
    rw [oneByOne_append, oneByOne_down more hdown]
  refine ⟨by rw [hsame, hq, hdown], by rwa [hsame, hhandled], ?_, fun hopen => ?_⟩
  · rw [hhandled, ← List.append_assoc]
    exact (feed_handled r msgs (r.begun p)).2.trans (List.prefix_append ..)
  · rw [hq] at hopen
    cases hopen

/-- A batch that leaves the connection in order is followed by what arrives behind it. -/
theorem Arrived.behind {msgs more : List Decoded} {t q : Peer σ} (hhandled : t.handled = p.handled ++ msgs)
    (h : Arrived r more t (oneByOne r msgs p') q) : Arrived r (msgs ++ more) p p' q := by
  have hall : p.handled ++ (msgs ++ more) = t.handled ++ more := by
    rw [hhandled, List.append_assoc]
  have hone := oneByOne_append (r := r) msgs more p'
  exact ⟨hone ▸ h.error, hone ▸ h.reaches, hall ▸ h.front, hall ▸ h.all⟩

/-- **A stream that is cut between its messages arrives.** The induction is on the reads: a batch
ends the connection, or the next read goes on from a state that is alike. -/
theorem arrived_of_cut {accepts : MessageType → Bool} (hr : r.Steady alike calm)
    {stream : List (Sent m)} {reads : List (List (Sent m))} (hcut : Cut accepts stream reads)
    (h : (r.begun p).Alike alike p') (hcalm : Calm r calm reads p') :
    Arrived r (stream.map Sent.decoded) p p' (receive m accepts r (reads.map rawOf) p) := by
  have hbegun : ∀ q, r.down (r.begun q) = r.down q := fun q => by
    rw [Listener.down, Listener.down, Listener.begun, hr.begins]
  have hended : ∀ q, r.down (r.ended q) = r.down q := fun q => by
    rw [Listener.down, Listener.down, Listener.ended, hr.ends]
  induction reads generalizing stream p p' with
  | nil =>
    rw [← hcut.whole]
    exact .of_nothing ((hbegun p).symm.trans (h.down hr)) h.handled
  | cons batch reads ih =>
    obtain rfl : batch ++ reads.flatten = stream := hcut.whole
    rw [List.map_append]
    cases hlive : r.down p with
    | true =>
      rw [receive_down _ hlive]
      exact .of_down hlive ((hbegun p).symm.trans (h.down hr)) h.handled
    | false =>
      have hne := hcut.something batch (List.mem_cons_self ..)
      have hopen := (hbegun p).trans hlive
      obtain ⟨hgoes, hstops⟩ := receive_batch (r := r) hne
        (fun x hx => hcut.accepted x (List.mem_append.mpr (.inl hx)))
        (hcut.data batch (List.mem_cons_self ..)) (hcut.fds batch (List.mem_cons_self ..))
        (reads.map rawOf) hlive
      rw [List.map_cons]
      by_cases hok : (feed r (batch.map Sent.decoded) (r.begun p)).2 = .ok ()
      · rw [hgoes hok]
        cases hfed : r.down (feed r (batch.map Sent.decoded) (r.begun p)).1 with
        | true =>
          have hdown := (hended _).trans hfed
          rw [receive_down _ hdown]
          exact .of_fails hr h hopen (.inr hfed) hdown rfl
        | false =>
          obtain ⟨hhandled, halike⟩ := feed_oneByOne hr _ h hok hfed
          have hfront := halike.down hr
          rw [hfed] at hfront
          refine .behind (show (r.ended _).handled = _ from hhandled) ?_
          cases reads with
          | nil => exact .of_nothing ((hended _).trans (halike.down hr)) halike.handled
          | cons next reads =>
            have hrest : Cut accepts (next :: reads).flatten (next :: reads) :=
              ⟨rfl, fun b hb => hcut.something b (List.mem_cons_of_mem batch hb),
                fun x hx => hcut.accepted x (List.mem_append.mpr (.inr hx)),
                fun b hb => hcut.data b (List.mem_cons_of_mem batch hb),
                fun b hb => hcut.fds b (List.mem_cons_of_mem batch hb)⟩
            have hone : readOneByOne r [batch] p' = oneByOne r (batch.map Sent.decoded) p' := by
              rw [readOneByOne, List.flatten_cons, List.flatten_nil, List.append_nil]
            have hquiet := hcalm [batch] (next :: reads) rfl (List.cons_ne_nil _ _) (List.cons_ne_nil _ _)
            rw [hone] at hquiet
            have hquiet := hquiet hfront.symm
            -- the next read starts behind the end of this one, in a state that is alike
            refine ih hrest ⟨?_, halike.crashed, halike.handled⟩ hcalm.behind
            exact hr.between _ _ halike.app (Bool.or_eq_false_iff.mp hfront.symm).2 hquiet
      · rw [hstops hok]
        exact .of_fails hr h hopen (.inl hok) (hr.down_conclude _ hok) (handled_conclude ..)

end

/-- **Two ways to read a stream agree**: they end in the same error status, they handle the same
messages when there is no error, and else the same ones up to the one that puts the connection in
error. -/
structure Agree (r : Listener σ) (msgs : List Decoded) (p q₁ q₂ : Peer σ) : Prop where
  error : r.down q₁ = r.down q₂
  handled : r.down q₁ = false → q₁.handled = p.handled ++ msgs ∧ q₂.handled = p.handled ++ msgs
  upTo : (oneByOne r msgs (r.begun p)).handled <+: q₁.handled ∧
    (oneByOne r msgs (r.begun p)).handled <+: q₂.handled

/-- **It does not matter how a stream is cut between its messages**, for a side that is calm where it
is cut. -/
theorem Listener.Steady.agree {r : Listener σ} {alike : σ → σ → Prop} {calm : σ → Prop}
    (hr : r.Steady alike calm) {accepts : MessageType → Bool} {p : Peer σ} {stream : List (Sent m)}
    {reads₁ reads₂ : List (List (Sent m))}
    (hcut₁ : Cut accepts stream reads₁) (hcut₂ : Cut accepts stream reads₂)
    (hcalm₁ : Calm r calm reads₁ (r.begun p)) (hcalm₂ : Calm r calm reads₂ (r.begun p)) :
    Agree r (stream.map Sent.decoded) p (receive m accepts r (reads₁.map rawOf) p)
      (receive m accepts r (reads₂.map rawOf) p) := by
  have hself : (r.begun p).Alike alike (r.begun p) := ⟨hr.opens p.app, rfl, rfl⟩
  have h₁ := arrived_of_cut hr hcut₁ hself hcalm₁
  have h₂ := arrived_of_cut hr hcut₂ hself hcalm₂
  have herror := h₁.error.trans h₂.error.symm
  exact ⟨herror, fun hok => ⟨h₁.all hok, h₂.all (herror ▸ hok)⟩, h₁.reaches, h₂.reaches⟩

/-! ## A read that ends inside a message -/

/-- The read holds the messages of a batch, and behind them the front part of one more. Of a generic
message this is said in a build that checks its arithmetic (`Sent.decode_cutOff`). -/
structure EndsInside (accepts : MessageType → Bool) (batch : List (Sent m)) (x : Sent m)
    (raw : SocketRawParsedMessage) : Prop where
  data : ∃ part missing, part ≠ [] ∧ missing ≠ [] ∧ part ++ missing = x.data ∧
    raw.data = batch.flatMap Sent.data ++ part
  fds : ∃ more, raw.fds = batch.flatMap Sent.fds ++ more
  accepted : ∀ y ∈ batch, accepts y.decoded.messageType = true
  build : x.decoded.messageType = .genericProtocolMessage → m = .checked
  fits : raw.data.length ≤ isizeMax ∧ raw.fds.length ≤ isizeMax ∧ x.data.length ≤ isizeMax ∧
    x.fds.length ≤ isizeMax

/-- The connection is in error, and no message was handled but those that are given. -/
structure GivenUp (r : Listener σ) (msgs : List Decoded) (p q : Peer σ) : Prop where
  error : r.down q = true
  handled : q.handled <+: p.handled ++ msgs

/-- **A read that ends inside a message puts the connection in error**, and the message is not
handled. -/
theorem Listener.Steady.refused {r : Listener σ} {alike : σ → σ → Prop} {calm : σ → Prop}
    (hr : r.Steady alike calm) {accepts : MessageType → Bool} {batch : List (Sent m)} {x : Sent m}
    {raw : SocketRawParsedMessage} (h : EndsInside accepts batch x raw)
    (reads : List SocketRawParsedMessage) (p : Peer σ) :
    GivenUp r (batch.map Sent.decoded) p (receive m accepts r (raw :: reads) p) := by
  obtain ⟨part, missing, hpart, hmissing, hsplit, hdata⟩ := h.data
  obtain ⟨more, hfds⟩ := h.fds
  obtain ⟨hlen, hown, hwhole, hslots⟩ := h.fits
  cases hlive : r.down p with
  | true =>
    rw [receive_down _ hlive]
    exact ⟨hlive, List.prefix_append ..⟩
  | false =>
    have hbytes : raw.data ≠ [] := by
      rw [hdata]
      exact List.append_ne_nil_of_right_ne_nil _ hpart
    obtain ⟨hhandled, hnot⟩ := outcome_of_cutOff (r := r) h.accepted x h.build hsplit hpart hmissing
      hwhole hslots (hdata ▸ hlen) (hfds ▸ hown) (r.begun p)
    rw [receive, hlive, if_neg Bool.false_ne_true, if_neg hbytes, hdata, hfds]
    dsimp only
    split
    · next heq => exact absurd heq hnot
    · exact ⟨hr.down_conclude _ hnot, by rw [handled_conclude]; exact hhandled⟩

end Hyprwire
