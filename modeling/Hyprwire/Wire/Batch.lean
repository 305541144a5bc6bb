import Hyprwire.Core.Control
import Hyprwire.Lib.Frame
import Hyprwire.Wire.Word

/-!
# `Wire/Batch.lean` — `handle_message` on a batch of messages

One read of a socket gives a buffer with any number of messages and the descriptors that came
with them. `handle_message` walks it with a cursor (`needle`) that it advances by the length
of each decoded message, and the generic decoder takes descriptors off the front of the one
list. Nothing in the buffer says where a message begins, so everything rests on each decoder
returning exactly the bytes it consumed.

The two sides run the same loop and differ in the types they accept. What they do with a
message is a parameter (`Handler`). `batch_framing` says what they are handed: the messages of
the batch, in order and each once, with their own descriptors.
-/

namespace Hyprwire

open Rust

variable {m : Overflow} {σ : Type}

/-- A message as its decoder returns it. -/
inductive Decoded
  | sup (msg : Hello)
  | handshakeBegin (msg : HandshakeBegin)
  | handshakeAck (msg : HandshakeAck)
  | handshakeProtocols (msg : HandshakeProtocols)
  | bindProtocol (msg : BindProtocol)
  | newObject (msg : NewObject)
  | fatalProtocolError (msg : FatalProtocolError)
  | roundtripRequest (msg : RoundtripRequest)
  | roundtripDone (msg : RoundtripDone)
  | generic (msg : GenericProtocolMessage)
  deriving DecidableEq, Repr

/-- `Message::message_type`. -/
def Decoded.messageType : Decoded → MessageType
  | sup _ => .sup
  | handshakeBegin _ => .handshakeBegin
  | handshakeAck _ => .handshakeAck
  | handshakeProtocols _ => .handshakeProtocols
  | bindProtocol _ => .bindProtocol
  | newObject _ => .newObject
  | fatalProtocolError _ => .fatalProtocolError
  | roundtripRequest _ => .roundtripRequest
  | roundtripDone _ => .roundtripDone
  | generic _ => .genericProtocolMessage

/-- `Message::data`. -/
def Decoded.data : Decoded → List UInt8
  | sup msg => msg.data
  | handshakeBegin msg => msg.data
  | handshakeAck msg => msg.data
  | handshakeProtocols msg => msg.data
  | bindProtocol msg => msg.data
  | newObject msg => msg.data
  | fatalProtocolError msg => msg.data
  | roundtripRequest msg => msg.data
  | roundtripDone msg => msg.data
  | generic msg => msg.data

/-- The decoder for a type byte; only a generic message takes descriptors. -/
def decode (m : Overflow) (type : MessageType) (data : List UInt8) (fds : List RawFd)
    (needle : Nat) : Outcome Error (Decoded × List RawFd) :=
  match type with
  | .sup => do
    let msg ← Hello.fromBytes m data needle
    .ok (.sup msg, fds)
  | .handshakeBegin => do
    let msg ← HandshakeBegin.fromBytes m data needle
    .ok (.handshakeBegin msg, fds)
  | .handshakeAck => do
    let msg ← HandshakeAck.fromBytes m data needle
    .ok (.handshakeAck msg, fds)
  | .handshakeProtocols => do
    let msg ← HandshakeProtocols.fromBytes m data needle
    .ok (.handshakeProtocols msg, fds)
  | .bindProtocol => do
    let msg ← BindProtocol.fromBytes m data needle
    .ok (.bindProtocol msg, fds)
  | .newObject => do
    let msg ← NewObject.fromBytes m data needle
    .ok (.newObject msg, fds)
  | .fatalProtocolError => do
    let msg ← FatalProtocolError.fromBytes m data needle
    .ok (.fatalProtocolError msg, fds)
  | .roundtripRequest => do
    let msg ← RoundtripRequest.fromBytes m data needle
    .ok (.roundtripRequest msg, fds)
  | .roundtripDone => do
    let msg ← RoundtripDone.fromBytes m data needle
    .ok (.roundtripDone msg, fds)
  | .genericProtocolMessage => do
    let (msg, fds) ← GenericProtocolMessage.fromBytes m data fds needle
    .ok (.generic msg, fds)

/-! ## The loop -/

/-- What a side does with a message it accepts, and on one it does not (`error.store(true)`). -/
structure Handler (σ : Type) where
  handle : σ → Decoded → σ × Outcome Error Unit
  flagError : σ → σ

/-- The loop body at `needle`. -/
def handleTurn (m : Overflow) (accepts : MessageType → Bool) (h : Handler σ) (data : List UInt8) :
    Frame.Step σ RawFd Error := fun s fds needle =>
  match data[needle]? with
  | none => (s, .panic .indexOutOfRange)
  | some byte =>
    match MessageType.tryFrom byte with
    | .ok type =>
      if accepts type then
        match decode m type data fds needle with
        | .ok (msg, fds) =>
          let r := h.handle s msg
          (r.1, do
            r.2
            let needle ← uadd m needle msg.data.length
            .ok (needle, fds))
        | .err e => (s, .err e)
        | .panic p => (s, .panic p)
        | .stall => (s, .stall)
      else (h.flagError s, .err .invalidMessage)
    | _ => (s, .err .invalidMessage)

/-- The loop and the check behind it: descriptors nobody took make the batch malformed. -/
def handleMessage (m : Overflow) (accepts : MessageType → Bool) (h : Handler σ)
    (data : List UInt8) (fds : List RawFd) (s : σ) : Frame.Result σ RawFd Error :=
  let r := Frame.loop (handleTurn m accepts h data) data.length data.length s fds 0
  { r with outcome := do
      r.outcome
      if r.queue ≠ [] then .err .malformedMessage else .ok () }

/-- The types a client accepts. -/
def clientAccepts : MessageType → Bool
  | .handshakeBegin | .handshakeProtocols | .newObject | .genericProtocolMessage
  | .fatalProtocolError | .roundtripDone => true
  | _ => false

/-- The types a server accepts. -/
def serverAccepts : MessageType → Bool
  | .sup | .handshakeAck | .bindProtocol | .genericProtocolMessage | .roundtripRequest => true
  | _ => false

/-- `ClientSocket::handle_message`. -/
def ClientSocket.handleMessage (m : Overflow) (h : Handler σ) (data : List UInt8)
    (fds : List RawFd) (s : σ) : Frame.Result σ RawFd Error :=
  Hyprwire.handleMessage m clientAccepts h data fds s

/-- `ServerClientState::handle_message`. -/
def ServerClientState.handleMessage (m : Overflow) (h : Handler σ) (data : List UInt8)
    (fds : List RawFd) (s : σ) : Frame.Result σ RawFd Error :=
  Hyprwire.handleMessage m serverAccepts h data fds s

/-! ## Messages the library builds -/

/-- `Built data fds msg`: a constructor of the library, used within the limits the decoders
set, gives these bytes and descriptors, and they stand for `msg`. A generic message is any
word of the grammar, with one descriptor per slot. -/
inductive Built (m : Overflow) : List UInt8 → List RawFd → Decoded → Prop
  | sup : Built m Hello.new.data [] (.sup Hello.new)
  | handshakeBegin (versions : List UInt32) (h : versions.length < 256) :
      Built m (HandshakeBegin.new versions).data [] (.handshakeBegin (.new versions))
  | handshakeAck (version : UInt32) :
      Built m (HandshakeAck.new version).data [] (.handshakeAck (.new version))
  | handshakeProtocols (protocols : List String) (h : protocols.length < 2048) :
      Built m (HandshakeProtocols.new protocols).data [] (.handshakeProtocols (.new protocols))
  | bindProtocol (protocol : String) (seq version : UInt32) (h : version ≠ 0) :
      Built m (BindProtocol.new protocol seq version).data []
        (.bindProtocol (.new protocol seq version))
  | newObject (seq id : UInt32) : Built m (NewObject.new seq id).data [] (.newObject (.new seq id))
  | fatalProtocolError (objectId errorId : UInt32) (errorMsg : String) :
      Built m (FatalProtocolError.new objectId errorId errorMsg).data []
        (.fatalProtocolError (.new objectId errorId errorMsg))
  | roundtripRequest (seq : UInt32) :
      Built m (RoundtripRequest.new seq).data [] (.roundtripRequest (.new seq))
  | roundtripDone (seq : UInt32) :
      Built m (RoundtripDone.new seq).data [] (.roundtripDone (.new seq))
  | generic (object method : UInt32) (fs : List (Field m)) (fds : List RawFd)
      (h : fds.length = slotsAll fs) :
      Built m (word object method fs) fds (.generic (received object method fs fds))

/-- A message on its way: what the sender put on the wire, and what it stands for. -/
structure Sent (m : Overflow) where
  data : List UInt8
  fds : List RawFd
  decoded : Decoded
  built : Built m data fds decoded

namespace Sent

theorem data_decoded (x : Sent m) : x.decoded.data = x.data := by
  obtain ⟨data, fds, decoded, built⟩ := x
  cases built <;> rfl

/-- The first byte tells the type. -/
theorem data_eq_cons (x : Sent m) : ∃ rest, x.data = x.decoded.messageType.toU8 :: rest := by
  obtain ⟨data, fds, decoded, built⟩ := x
  cases built <;> exact ⟨_, rfl⟩

/-- **Every decoder is self-delimiting**: at any offset, before any suffix and with any further
descriptors it gives back the message that was built, and leaves the further descriptors. -/
theorem decode_eq (x : Sent m) {data rest : List UInt8} {fds : List RawFd} {needle : Nat}
    (hd : data.drop needle = x.data ++ rest) (hle : needle ≤ data.length)
    (hlen : data.length ≤ isizeMax) (hfds : (x.fds ++ fds).length ≤ isizeMax) :
    decode m x.decoded.messageType data (x.fds ++ fds) needle = .ok (x.decoded, fds) := by
  obtain ⟨bytes, own, decoded, built⟩ := x
  simp only at hd hfds ⊢
  cases built with
  | sup => simp only [Decoded.messageType, decode, Hello.fromBytes_new hd hle hlen, Outcome.ok_bind,
      List.nil_append]
  | handshakeBegin versions h =>
    simp only [Decoded.messageType, decode, HandshakeBegin.fromBytes_new h hd hle hlen,
      Outcome.ok_bind, List.nil_append]
  | handshakeAck version =>
    simp only [Decoded.messageType, decode, HandshakeAck.fromBytes_new hd hle hlen,
      Outcome.ok_bind, List.nil_append]
  | handshakeProtocols protocols h =>
    simp only [Decoded.messageType, decode, HandshakeProtocols.fromBytes_new h hd hle hlen,
      Outcome.ok_bind, List.nil_append]
  | bindProtocol protocol seq version h =>
    simp only [Decoded.messageType, decode, BindProtocol.fromBytes_new h hd hle hlen,
      Outcome.ok_bind, List.nil_append]
  | newObject seq id =>
    simp only [Decoded.messageType, decode, NewObject.fromBytes_new hd hle hlen,
      Outcome.ok_bind, List.nil_append]
  | fatalProtocolError objectId errorId errorMsg =>
    simp only [Decoded.messageType, decode, FatalProtocolError.fromBytes_new hd hle hlen,
      Outcome.ok_bind, List.nil_append]
  | roundtripRequest seq =>
    simp only [Decoded.messageType, decode, RoundtripRequest.fromBytes,
      @roundtripFromBytes_data m _ _ _ .roundtripRequest seq hd hle hlen, Outcome.ok_bind,
      List.nil_append]
    rfl
  | roundtripDone seq =>
    simp only [Decoded.messageType, decode, RoundtripDone.fromBytes,
      @roundtripFromBytes_data m _ _ _ .roundtripDone seq hd hle hlen, Outcome.ok_bind,
      List.nil_append]
    rfl
  | generic object method fs own h =>
    have hfrom := fromBytes_word fs hd hle hlen hfds
    rw [← h, if_pos (by simp), List.take_left, List.drop_left] at hfrom
    simp only [Decoded.messageType, decode, hfrom, Outcome.ok_bind]

end Sent

/-! ## A batch -/

/-- A message as a frame of the loop. -/
def Sent.frame (h : Handler σ) (x : Sent m) : Frame.Item σ RawFd where
  width := x.data.length
  queued := x.fds
  act s := (h.handle s x.decoded).1

/-- **One turn of the loop**: the message is handed over, and the cursor goes behind it. -/
theorem handleTurn_sent {accepts : MessageType → Bool} {h : Handler σ} (x : Sent m)
    (hacc : accepts x.decoded.messageType = true) {data rest : List UInt8} {needle : Nat}
    (hd : data.drop needle = x.data ++ rest) (hlen : data.length ≤ isizeMax) (s : σ)
    {fds : List RawFd} (hfds : (x.fds ++ fds).length ≤ isizeMax) :
    handleTurn m accepts h data s (x.fds ++ fds) needle =
      ((h.handle s x.decoded).1, do
        (h.handle s x.decoded).2
        .ok (needle + x.data.length, fds)) := by
  obtain ⟨tail, htail⟩ := x.data_eq_cons
  have hd' : data.drop needle = x.decoded.messageType.toU8 :: (tail ++ rest) := by
    rw [hd, htail, List.cons_append]
  have hlt := Bytes.lt_length_of_drop_eq_cons hd'
  have hbound := Bytes.length_of_drop_eq_append (Nat.le_of_lt hlt) hd
  have hcap : data.length ≤ 2 ^ 63 - 1 := hlen
  simp only [handleTurn, Bytes.getElem?_of_drop_eq_cons hd', MessageType.tryFrom_toU8]
  rw [if_pos hacc, x.decode_eq hd (Nat.le_of_lt hlt) hlen hfds]
  simp only [x.data_decoded]
  rw [uadd_eq (by omega), Outcome.ok_bind]

/-- One turn of the loop takes one message. -/
theorem takes_frame {accepts : MessageType → Bool} {h : Handler σ}
    (hok : ∀ s msg, (h.handle s msg).2 = .ok ()) (x : Sent m)
    (hacc : accepts x.decoded.messageType = true) {data rest : List UInt8} {needle : Nat}
    (hd : data.drop needle = x.data ++ rest) (hlen : data.length ≤ isizeMax) :
    Frame.Takes (handleTurn m accepts h data) isizeMax needle (x.frame h) := by
  obtain ⟨tail, htail⟩ := x.data_eq_cons
  refine ⟨?_, ?_⟩
  · simp only [Sent.frame, htail, List.length_cons]
    omega
  · intro s q hq
    rw [show (x.frame h).queued = x.fds from rfl, handleTurn_sent x hacc hd hlen s hq, hok]
    rfl

/-- The messages of a batch are laid out one behind the other. -/
theorem laid_batch {accepts : MessageType → Bool} {h : Handler σ}
    (hok : ∀ s msg, (h.handle s msg).2 = .ok ()) {data : List UInt8}
    (hlen : data.length ≤ isizeMax) : ∀ {batch : List (Sent m)} {needle : Nat},
    (∀ x ∈ batch, accepts x.decoded.messageType = true) →
    data.drop needle = batch.flatMap Sent.data →
      Frame.Laid (handleTurn m accepts h data) isizeMax needle (batch.map (Sent.frame h))
  | [], _, _, _ => trivial
  | x :: batch, needle, hacc, hd => by
    rw [List.flatMap_cons] at hd
    refine ⟨takes_frame hok x (hacc x (List.mem_cons_self ..)) hd hlen, ?_⟩
    exact laid_batch hok hlen (fun y hy => hacc y (List.mem_cons_of_mem x hy))
      (Bytes.drop_add_of_drop_eq_append hd)

theorem length_le_length_data : ∀ batch : List (Sent m),
    batch.length ≤ (batch.flatMap Sent.data).length
  | [] => Nat.le_refl _
  | x :: batch => by
    obtain ⟨tail, htail⟩ := x.data_eq_cons
    have ih := length_le_length_data batch
    simp only [List.flatMap_cons, List.length_append, List.length_cons, htail]
    omega

theorem totalWidth_frames (h : Handler σ) (batch : List (Sent m)) :
    Frame.totalWidth (batch.map (Sent.frame h)) = (batch.flatMap Sent.data).length := by
  rw [Frame.totalWidth, List.map_map, List.length_flatMap]
  rfl

/-- The loop over a whole batch, for any set of accepted types. -/
theorem handleMessage_batch {accepts : MessageType → Bool} {h : Handler σ}
    (hok : ∀ s msg, (h.handle s msg).2 = .ok ()) {batch : List (Sent m)}
    (hacc : ∀ x ∈ batch, accepts x.decoded.messageType = true) (extra : List RawFd) (s : σ)
    (hlen : (batch.flatMap Sent.data).length ≤ isizeMax)
    (hfds : (batch.flatMap Sent.fds ++ extra).length ≤ isizeMax) :
    handleMessage m accepts h (batch.flatMap Sent.data) (batch.flatMap Sent.fds ++ extra) s
      = { state := (batch.map Sent.decoded).foldl (fun s msg => (h.handle s msg).1) s
          cursor := (batch.flatMap Sent.data).length
          queue := extra
          outcome := if extra ≠ [] then .err .malformedMessage else .ok () } := by
  have hlaid := laid_batch hok hlen hacc (List.drop_zero (l := batch.flatMap Sent.data))
  have hqueued : (batch.map (Sent.frame h)).flatMap Frame.Item.queued = batch.flatMap Sent.fds := by
    rw [List.flatMap_map]
    rfl
  have hfuel : (batch.map (Sent.frame h)).length ≤ (batch.flatMap Sent.data).length := by
    rw [List.length_map]
    exact length_le_length_data batch
  have hend : 0 + Frame.totalWidth (batch.map (Sent.frame h)) = (batch.flatMap Sent.data).length := by
    rw [totalWidth_frames, Nat.zero_add]
  have hloop := Frame.loop_laid hlaid hend hfuel s extra (by rw [hqueued]; exact hfds)
  rw [hqueued] at hloop
  simp only [handleMessage, hloop, Outcome.ok_bind, List.foldl_map]
  rfl

/-! ## Messages whose handling depends on the state -/

/-- One turn of the loop, on a message that the state can take. -/
theorem handleTurn_built {accepts : MessageType → Bool} {h : Handler σ} (x : Sent m)
    (hacc : accepts x.decoded.messageType = true) {data rest : List UInt8} {needle : Nat}
    (hd : data.drop needle = x.data ++ rest) (hlen : data.length ≤ isizeMax) {fds : List RawFd}
    (hfds : (x.fds ++ fds).length ≤ isizeMax) {s t : σ} (ht : h.handle s x.decoded = (t, .ok ())) :
    handleTurn m accepts h data s (x.fds ++ fds) needle = (t, .ok (needle + x.data.length, fds)) := by
  rw [handleTurn_sent x hacc hd hlen s hfds, ht]
  rfl

/-- **The loop takes the messages in front**, as long as each state can take the next one, and goes on
behind them. -/
theorem loop_front {accepts : MessageType → Bool} {h : Handler σ} {data : List UInt8}
    (hlen : data.length ≤ isizeMax) {front : List (Sent m)}
    (hacc : ∀ x ∈ front, accepts x.decoded.messageType = true) {s t : σ}
    (hchain : Frame.Chain (fun s (x : Sent m) t => h.handle s x.decoded = (t, .ok ())) s front t)
    {needle fuel : Nat} {rest : List UInt8} {more : List RawFd} (hle : needle ≤ data.length)
    (hd : data.drop needle = front.flatMap Sent.data ++ rest)
    (hfds : (front.flatMap Sent.fds ++ more).length ≤ isizeMax) :
    Frame.loop (handleTurn m accepts h data) data.length (front.length + fuel) s
        (front.flatMap Sent.fds ++ more) needle =
      Frame.loop (handleTurn m accepts h data) data.length fuel t more
        (needle + (front.flatMap Sent.data).length) := by
  induction hchain generalizing needle with
  | nil s =>
    rw [List.flatMap_nil, List.flatMap_nil, List.length_nil, List.length_nil, Nat.zero_add,
      List.nil_append, Nat.add_zero]
  | @cons s t u x front hfirst _ ih =>
    rw [List.flatMap_cons, List.append_assoc] at hd hfds
    obtain ⟨hx, hfront⟩ := List.forall_mem_cons.mp hacc
    obtain ⟨tail, htail⟩ := x.data_eq_cons
    have hd' := hd
    rw [htail, List.cons_append] at hd'
    have hlt := Bytes.lt_length_of_drop_eq_cons hd'
    have hbound := Bytes.length_of_drop_eq_append hle hd
    have hturn := handleTurn_built x hx hd hlen hfds hfirst
    have hfds' : (front.flatMap Sent.fds ++ more).length ≤ isizeMax := by
      rw [List.length_append] at hfds
      exact Nat.le_trans (Nat.le_add_left ..) hfds
    rw [List.length_cons, Nat.add_right_comm, Frame.loop, if_pos hlt, List.flatMap_cons,
      List.append_assoc, hturn]
    show Frame.loop (handleTurn m accepts h data) data.length (front.length + fuel) u
      (front.flatMap Sent.fds ++ more) (needle + x.data.length) = _
    rw [ih hfront (by omega) (Bytes.drop_add_of_drop_eq_append hd) hfds', List.flatMap_cons,
      List.length_append, Nat.add_assoc]

/-- A whole batch, each message of which can be taken when it comes up. -/
theorem handleMessage_chain {accepts : MessageType → Bool} {h : Handler σ} {batch : List (Sent m)}
    (hacc : ∀ x ∈ batch, accepts x.decoded.messageType = true) {s t : σ}
    (hchain : Frame.Chain (fun s (x : Sent m) t => h.handle s x.decoded = (t, .ok ())) s batch t)
    (hlen : (batch.flatMap Sent.data).length ≤ isizeMax)
    (hfds : (batch.flatMap Sent.fds).length ≤ isizeMax) :
    handleMessage m accepts h (batch.flatMap Sent.data) (batch.flatMap Sent.fds) s =
      { state := t, cursor := (batch.flatMap Sent.data).length, queue := [], outcome := .ok () } := by
  obtain ⟨fuel, hfuel⟩ := Nat.exists_eq_add_of_le (length_le_length_data batch)
  have hloop := @loop_front m σ accepts h _ hlen batch hacc s t hchain 0 fuel [] [] (Nat.zero_le _)
    (List.append_nil _).symm (by rw [List.append_nil]; exact hfds)
  rw [← hfuel, List.append_nil, Nat.zero_add, Frame.loop_end _ (Nat.le_refl _)] at hloop
  simp only [handleMessage, hloop, Outcome.ok_bind]
  rfl

/-- **Batch framing.** A batch of messages of accepted types, in one buffer with the
descriptors of all of them behind one another, is decoded to exactly those messages: in order,
each once, each generic one with its own descriptors. The needle ends at the end of the buffer
and no descriptor is left; had there been further descriptors, they are left, and the batch is
malformed. Both sides. -/
theorem batch_framing (m : Overflow) {σ : Type} (h : Handler σ)
    (hok : ∀ s msg, (h.handle s msg).2 = .ok ()) (s : σ) (batch : List (Sent m))
    (extra : List RawFd) (hlen : (batch.flatMap Sent.data).length ≤ isizeMax)
    (hfds : (batch.flatMap Sent.fds ++ extra).length ≤ isizeMax) :
    ((∀ x ∈ batch, clientAccepts x.decoded.messageType = true) →
      ClientSocket.handleMessage m h (batch.flatMap Sent.data) (batch.flatMap Sent.fds ++ extra) s
        = { state := (batch.map Sent.decoded).foldl (fun s msg => (h.handle s msg).1) s
            cursor := (batch.flatMap Sent.data).length
            queue := extra
            outcome := if extra ≠ [] then .err .malformedMessage else .ok () }) ∧
    ((∀ x ∈ batch, serverAccepts x.decoded.messageType = true) →
      ServerClientState.handleMessage m h (batch.flatMap Sent.data)
          (batch.flatMap Sent.fds ++ extra) s
        = { state := (batch.map Sent.decoded).foldl (fun s msg => (h.handle s msg).1) s
            cursor := (batch.flatMap Sent.data).length
            queue := extra
            outcome := if extra ≠ [] then .err .malformedMessage else .ok () }) :=
  ⟨fun hacc => handleMessage_batch hok hacc extra s hlen hfds,
    fun hacc => handleMessage_batch hok hacc extra s hlen hfds⟩

/-- A handler that only writes down what it is handed. -/
def collect : Handler (List Decoded) where
  handle s msg := (s ++ [msg], .ok ())
  flagError s := s

def greeted : Sent .checked := ⟨_, _, _, .sup⟩
def passed : Sent .checked := ⟨_, _, _, .generic 7 0 [.fd] [5] rfl⟩
def asked : Sent .checked := ⟨_, _, _, .roundtripRequest 1⟩

/-- A greeting, a call that passes a descriptor, and a roundtrip request. -/
def sampleBatch : List (Sent .checked) := [greeted, passed, asked]

theorem batch_framing_sample :
    ServerClientState.handleMessage .checked collect (sampleBatch.flatMap Sent.data)
        (sampleBatch.flatMap Sent.fds ++ [8]) []
      = { state := [.sup .new, .generic (received 7 0 [(.fd : Field .checked)] [5]),
            .roundtripRequest (.new 1)]
          cursor := 27
          queue := [8]
          outcome := .err .malformedMessage } :=
  (batch_framing .checked collect (fun _ _ => rfl) [] sampleBatch [8] (by decide) (by decide)).2
    (by decide)

end Hyprwire
