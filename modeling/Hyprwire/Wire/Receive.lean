import Hyprwire.Wire.Descriptors

/-!
# `Wire/Receive.lean` — what a read takes off the socket

The socket is a queue of bytes, with descriptors attached to some of them. `recvmsg` hands over as
many bytes as the buffer holds; with nothing pending it answers `EAGAIN`, or 0 when the peer has
closed.

`read_from_socket` asks again only because its buffer came back full, and takes any error for a
failure of the whole read. Where the pending bytes fill the last buffer exactly, and the peer is
there, the next answer is `EAGAIN`: everything that was taken is lost (`lossless_iff`).
-/

namespace Hyprwire

open Rust

/-- The receiving end of a socket: the pending bytes with the descriptors attached to them. -/
structure Socket where
  pending : List (UInt8 × List RawFd)
  closed : Bool

/-- `MAX_FDS_PER_MSG`: what the control buffer of `recvmsg` is made for. -/
def maxFdsPerMsg : Nat := 255

namespace Socket

def bytes (s : Socket) : List UInt8 := s.pending.map Prod.fst

/-- The descriptors attached to some bytes. -/
def attached (pending : List (UInt8 × List RawFd)) : List RawFd := pending.flatMap Prod.snd

/-- `recvmsg` on the nonblocking socket, with a control buffer that has room for `room`
descriptors. Those it has no room for are closed. -/
def recvmsg (room : Nat) (s : Socket) : Recv × Socket :=
  if s.pending = [] then (if s.closed then .received [] [] else .failed, s)
  else (.received ((s.pending.take bufferSize).map Prod.fst)
      ((attached (s.pending.take bufferSize)).take room),
    { s with pending := s.pending.drop bufferSize })

/-- The loop of `read_from_socket` on the socket, with a budget of calls. -/
def readLoop (room : Nat) : Nat → Socket → SocketRawParsedMessage → Reading × Socket
  | 0, s, _ => (.waiting, s)
  | calls + 1, s, raw =>
    match s.recvmsg room with
    | (.failed, s) => (.failed raw.fds, s)
    | (.received bytes fds, s) =>
      if bytes.length = 0 then (.done raw, s)
      else if bytes.length < bufferSize then (.done ⟨raw.data ++ bytes, raw.fds ++ fds⟩, s)
      else readLoop room calls s ⟨raw.data ++ bytes, raw.fds ++ fds⟩

/-- **`read_from_socket`** on the socket. One call more than there are bytes is enough. -/
def readFromSocket (room : Nat) (s : Socket) : Reading × Socket :=
  readLoop room (s.pending.length + 1) s ⟨[], []⟩

/-- What the socket answers to so many calls in a row. -/
def answers (room : Nat) : Nat → Socket → List Recv
  | 0, _ => []
  | calls + 1, s => (s.recvmsg room).1 :: answers room calls (s.recvmsg room).2

/-- The loop over the socket is the loop over the answers it gives. -/
theorem readLoop_answers (room : Nat) (calls : Nat) (s : Socket) (raw : SocketRawParsedMessage) :
    (readLoop room calls s raw).1 = Hyprwire.readLoop (s.answers room calls) raw := by
  induction calls generalizing s raw with
  | zero => rfl
  | succ calls ih =>
    rw [readLoop, answers]
    cases h : s.recvmsg room with
    | mk answer s' =>
      cases answer with
      | failed => rfl
      | received bytes fds =>
        simp only [Hyprwire.readLoop]
        split
        · rfl
        · split
          · rfl
          · exact ih s' _

/-- **Nothing is lost**: pending bytes are returned, all of them and with all their descriptors; and a
read that fails has left the socket as it was. -/
def Lossless (room : Nat) (s : Socket) : Prop :=
  (s.pending ≠ [] → ∃ s', s.readFromSocket room = (.done ⟨s.bytes, attached s.pending⟩, s')) ∧
    ∀ fds s', s.readFromSocket room = (.failed fds, s') → s' = s

/-- No buffer of bytes comes with more descriptors than there is room for. -/
def Roomy (room : Nat) (pending : List (UInt8 × List RawFd)) : Prop :=
  ∀ i, (attached ((pending.drop (i * bufferSize)).take bufferSize)).length ≤ room

/-- The read ends behind a buffer that is not full, or at the end of the stream. -/
def Ends (s : Socket) : Prop := s.closed = true ∨ s.pending.length % bufferSize ≠ 0

instance (s : Socket) : Decidable s.Ends :=
  inferInstanceAs (Decidable (s.closed = true ∨ s.pending.length % bufferSize ≠ 0))

/-! ## Buffer by buffer -/

variable {room : Nat} {pending : List (UInt8 × List RawFd)}

@[simp] theorem attached_nil : attached [] = [] := rfl

theorem attached_append (xs ys : List (UInt8 × List RawFd)) :
    attached (xs ++ ys) = attached xs ++ attached ys := List.flatMap_append

theorem roomy_nil : Roomy room [] := by
  intro i
  simp

/-- The first buffer, and those behind it. -/
theorem roomy_iff : Roomy room pending ↔
    (attached (pending.take bufferSize)).length ≤ room ∧ Roomy room (pending.drop bufferSize) := by
  unfold Roomy
  constructor
  · intro h
    refine ⟨by simpa using h 0, fun i => ?_⟩
    have hi := h (i + 1)
    rwa [Nat.succ_mul, Nat.add_comm, ← List.drop_drop] at hi
  · rintro ⟨hfirst, hrest⟩ i
    cases i with
    | zero => simpa using hfirst
    | succ i =>
      rw [Nat.succ_mul, Nat.add_comm, ← List.drop_drop]
      exact hrest i

/-- What one call takes with too little room is not what was attached. -/
theorem take_append_eq_iff {xs ys zs : List RawFd} (hle : ys.length ≤ zs.length) :
    xs.take room ++ ys = xs ++ zs ↔ xs.length ≤ room ∧ ys = zs := by
  constructor
  · intro h
    have hlen := congrArg List.length h
    simp only [List.length_append, List.length_take] at hlen
    have hroom : xs.length ≤ room := by omega
    rw [List.take_of_length_le hroom] at h
    exact ⟨hroom, List.append_cancel_left h⟩
  · rintro ⟨hroom, rfl⟩
    rw [List.take_of_length_le hroom]

/-- **The whole loop**: it takes everything off the socket. It fails where it does not end by
itself; else it returns the bytes, and the descriptors there was room for. The induction is on
the budget, one buffer at a time. -/
theorem readLoop_spec {calls : Nat} : ∀ (s : Socket) (raw : SocketRawParsedMessage),
    s.pending.length < calls → ∃ fds : List RawFd,
      fds.length ≤ (attached s.pending).length ∧
      (fds = attached s.pending ↔ Roomy room s.pending) ∧
      readLoop room calls s raw =
        (if s.Ends then .done ⟨raw.data ++ s.bytes, raw.fds ++ fds⟩ else .failed (raw.fds ++ fds),
          { s with pending := [] }) := by
  induction calls with
  | zero =>
    intro s raw hcalls
    exact absurd hcalls (Nat.not_lt_zero _)
  | succ calls ih =>
    rintro ⟨pending, closed⟩ raw hcalls
    by_cases hnil : pending = []
    · subst hnil
      refine ⟨[], Nat.le_refl _, iff_of_true rfl roomy_nil, ?_⟩
      cases closed with
      | true => simp [readLoop, recvmsg, Ends, bytes]
      | false => simp [readLoop, recvmsg, Ends]
    · have hpos := List.length_pos_of_ne_nil hnil
      simp only at hcalls
      have hsplit := List.take_append_drop bufferSize pending
      have hattached : attached pending = attached (pending.take bufferSize)
          ++ attached (pending.drop bufferSize) := by
        rw [← attached_append, hsplit]
      rw [readLoop]
      simp only [recvmsg, if_neg hnil, List.length_map, List.length_take]
      have hbuf : 0 < bufferSize := by decide
      rw [if_neg (by omega)]
      by_cases hshort : pending.length < bufferSize
      · -- The buffer is not full: the loop stops here.
        have htake := List.take_of_length_le (Nat.le_of_lt hshort)
        have hdrop := List.drop_of_length_le (Nat.le_of_lt hshort)
        refine ⟨(attached pending).take room, by rw [List.length_take]; omega, ?_, ?_⟩
        · rw [roomy_iff, htake, hdrop, and_iff_left roomy_nil]
          have htaken := @take_append_eq_iff room (attached pending) [] [] (Nat.le_refl _)
          rwa [List.append_nil, List.append_nil, and_iff_left rfl] at htaken
        · have hends : (⟨pending, closed⟩ : Socket).Ends := by
            refine .inr ?_
            simp only
            rw [Nat.mod_eq_of_lt hshort]
            omega
          rw [if_pos (by omega), if_pos hends, htake, hdrop]
          rfl
      · have hfull : bufferSize ≤ pending.length := Nat.le_of_not_lt hshort
        rw [if_neg (by omega)]
        have hrest : (pending.drop bufferSize).length < calls := by
          rw [List.length_drop]
          omega
        obtain ⟨fds, hle, hiff, hread⟩ := ih ⟨pending.drop bufferSize, closed⟩
          ⟨raw.data ++ (pending.take bufferSize).map Prod.fst,
            raw.fds ++ (attached (pending.take bufferSize)).take room⟩ hrest
        refine ⟨(attached (pending.take bufferSize)).take room ++ fds, ?_, ?_, ?_⟩
        · rw [hattached, List.length_append, List.length_append, List.length_take]
          have : fds.length ≤ (attached (pending.drop bufferSize)).length := hle
          omega
        · rw [hattached, take_append_eq_iff hle, roomy_iff, hiff]
        · -- Whole buffers in front do not change how the read ends.
          have hends : (⟨pending.drop bufferSize, closed⟩ : Socket).Ends
              ↔ (⟨pending, closed⟩ : Socket).Ends := by
            simp only [Ends, List.length_drop]
            rw [← Nat.mod_eq_sub_mod hfull]
          have hbytes : (⟨pending, closed⟩ : Socket).bytes = (pending.take bufferSize).map Prod.fst
              ++ (⟨pending.drop bufferSize, closed⟩ : Socket).bytes := by
            simp only [bytes]
            rw [← List.map_append, hsplit]
          rw [hread]
          simp only [hends, hbytes, List.append_assoc]

/-- **When a read loses nothing**: iff it ends by itself, and has room for the descriptors. -/
theorem lossless_iff (room : Nat) (s : Socket) :
    s.Lossless room ↔ (s.pending ≠ [] → s.Ends ∧ Roomy room s.pending) := by
  obtain ⟨fds, -, hiff, hread⟩ := @readLoop_spec room (s.pending.length + 1) s ⟨[], []⟩
    (Nat.lt_succ_self _)
  simp only [List.nil_append] at hread
  unfold Lossless readFromSocket
  rw [hread]
  constructor
  · rintro ⟨hall, -⟩ hne
    obtain ⟨s', h⟩ := hall hne
    by_cases hends : s.Ends
    · rw [if_pos hends] at h
      cases h
      exact ⟨hends, hiff.mp rfl⟩
    · rw [if_neg hends] at h
      cases h
  · intro h
    refine ⟨fun hne => ?_, fun fds' s' hfailed => ?_⟩
    · obtain ⟨hends, hroomy⟩ := h hne
      rw [if_pos hends, hiff.mpr hroomy]
      exact ⟨_, rfl⟩
    · -- Only an empty socket makes a read fail.
      by_cases hne : s.pending = []
      · have hleft : { s with pending := [] } = s' := congrArg Prod.snd hfailed
        rw [← hleft, ← hne]
      · rw [if_pos (h hne).1] at hfailed
        cases hfailed

/-- A buffer full of bytes, and a peer that goes on. -/
def oneBuffer : Socket where
  pending := List.replicate bufferSize (0, [])
  closed := false

/-- **One full buffer is lost.** -/
theorem not_always_lossless : ¬ ∀ s : Socket, s.Lossless maxFdsPerMsg := by
  intro h
  have hne : oneBuffer.pending ≠ [] := fun hnil =>
    absurd (List.replicate_eq_nil_iff _ |>.mp hnil) (by decide)
  obtain ⟨hends, -⟩ := (lossless_iff maxFdsPerMsg oneBuffer).mp (h oneBuffer) hne
  rcases hends with hclosed | hlen
  · cases hclosed
  · apply hlen
    rw [oneBuffer, List.length_replicate, Nat.mod_self]

end Socket

end Hyprwire
