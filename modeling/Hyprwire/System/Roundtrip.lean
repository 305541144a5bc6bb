import Hyprwire.System.Answers
import Hyprwire.System.Connection

/-!
# `System/Roundtrip.lean` — roundtrips on a connection

A queue numbers its requests from 1 and waits for the acknowledgement of the last one. With one
queue the acknowledgements come back in the order of the requests, and what the server wrote while
it handled the messages before a request stands before its acknowledgement: a roundtrip that
returns has seen all of it. What a queue still holds back when the request is written is not part
of this.
-/

namespace Hyprwire

open History

/-! ## Requests -/

/-- The number of a request and the queue it is from. -/
def C2S.request? : C2S → Option (Nat × Nat)
  | .roundtripRequest seq q => some (seq, q)
  | _ => none

/-- The request an acknowledgement is for, and its place. -/
def S2C.done? : S2C → Option (Nat × Nat)
  | .roundtripDone seq request => some (seq, request)
  | _ => none

namespace Client

variable {c c' : Client} {R : Rely}

/-- The requests of a queue that were written. -/
def requests (c : Client) (q : Nat) : List (Nat × Nat) :=
  (c.out.filterMap C2S.request?).filter fun request => request.2 = q

/-- What a queue knows of its roundtrips. -/
structure SameRequests (old new : EventQueue) : Prop where
  lastSent : new.lastSent = old.lastSent
  marked : new.marked = old.marked
  inRoundtrip : new.inRoundtrip = true → old.inRoundtrip = true

/-- No queue starts a roundtrip. -/
structure Unasked (c c' : Client) : Prop where
  queues : ∀ q, SameRequests (c.queues q) (c'.queues q)
  out : ∃ more, c'.out = c.out ++ more ∧ ∀ msg ∈ more, msg.request? = none

theorem Unasked.refl (c : Client) : Unasked c c :=
  ⟨fun _ => ⟨rfl, rfl, fun h => h⟩, [], (List.append_nil _).symm, nofun⟩

theorem Unasked.trans {c'' : Client} (h : Unasked c c') (h' : Unasked c' c'') : Unasked c c'' := by
  obtain ⟨more, hout, hmore⟩ := h.out
  obtain ⟨more', hout', hmore'⟩ := h'.out
  refine ⟨fun q => ⟨(h'.queues q).lastSent.trans (h.queues q).lastSent,
    (h'.queues q).marked.trans (h.queues q).marked,
    fun hr => (h.queues q).inRoundtrip ((h'.queues q).inRoundtrip hr)⟩,
    more ++ more', by rw [hout', hout, List.append_assoc], fun msg hmsg => ?_⟩
  rcases List.mem_append.mp hmsg with hmsg | hmsg
  · exact hmore msg hmsg
  · exact hmore' msg hmsg

theorem Unasked.setQueue (c : Client) (q : Nat) {f : EventQueue → EventQueue}
    (hf : ∀ queue, SameRequests queue (f queue)) : Unasked c (c.setQueue q f) where
  queues i := by
    simp only [Client.setQueue]
    split
    · exact hf _
    · exact ⟨rfl, rfl, fun h => h⟩
  out := ⟨[], (List.append_nil _).symm, nofun⟩

theorem Unasked.write (c : Client) {msg : C2S} (h : msg.request? = none) :
    Unasked c (c.write msg) := by
  have hout := write_out c msg
  obtain ⟨out, heq⟩ := write_eq c msg
  rw [heq] at hout ⊢
  refine ⟨fun _ => ⟨rfl, rfl, fun h => h⟩, ?_⟩
  rw [hout]
  split
  · exact ⟨[], (List.append_nil _).symm, nofun⟩
  · exact ⟨[msg], rfl, fun msg' hmsg' => List.mem_singleton.mp hmsg' ▸ h⟩

/-- A primitive change is a request, or none is made. -/
theorem Move.unasked (h : Move R c c') : (∃ q, R.asks q ∧ c' = c.ask q) ∨ Unasked c c' := by
  have hsame : ∀ {c' : Client}, c'.queues = c.queues → c'.out = c.out → Unasked c c' := by
    intro c' hqueues hout
    exact ⟨fun q => by rw [hqueues]; exact ⟨rfl, rfl, fun h => h⟩, [],
      by rw [hout, List.append_nil], nofun⟩
  cases h with
  | tweak h =>
    refine .inr ⟨fun q => ?_, [], by rw [h.out, List.append_nil], nofun⟩
    exact ⟨(h.queues q).lastSent, (h.queues q).marked, (h.queues q).inRoundtrip⟩
  | hear _ => exact .inr (hsame rfl rfl)
  | acknowledge version => exact .inr (.write c rfl)
  | ask q hasks => exact .inl ⟨q, hasks, rfl⟩
  | acked q _ => exact .inr (.setQueue c q fun _ => ⟨rfl, rfl, fun h => h⟩)
  | bind q specVer version _ hbind =>
    obtain ⟨spec, -, rfl⟩ := bindProtocol_eq hbind
    refine .inr (Unasked.trans (hsame ?_ ?_) (.write _ rfl))
    · rfl
    · rfl
  | call hcall =>
    rename_i obj method m args made
    have hgoes := goes_called c obj method m args made
    rw [← hcall.eq] at hgoes
    cases hgoes with
    | lost _ _ hqueues hout _ => exact .inr (hsame hqueues hout)
    | queued _ hqueues hout _ =>
      refine .inr ⟨fun q => ?_, [], by rw [hout, List.append_nil], nofun⟩
      rw [hqueues]
      simp only [defer, Client.setQueue]
      split <;> exact ⟨rfl, rfl, fun h => h⟩
    | written _ hqueues hout _ =>
      have hnone : (C2S.generic (c.message obj method m args)).request? = none := rfl
      obtain ⟨more, hmore, hnone⟩ := (Unasked.write c hnone).out
      exact .inr ⟨fun q => by rw [hqueues]; exact ⟨rfl, rfl, fun h => h⟩, more, hout.trans hmore, hnone⟩
  | named _ _ =>
    obtain ⟨f, -, h, heq⟩ := onSeq_eq c _ _
    rw [heq]
    exact .inr (hsame rfl rfl)
  | collect _ => exact .inr (hsame rfl rfl)
  | destroy _ _ _ _ => exact .inr (hsame rfl rfl)
  | flush q _ =>
    refine .inr ⟨fun i => ?_, ?_⟩
    · rw [flush_queues]
      simp only [Client.setQueue]
      split <;> exact ⟨rfl, rfl, fun h => h⟩
    · rw [flush_out]
      split
      · exact ⟨[], (List.append_nil _).symm, nofun⟩
      · refine ⟨c.flushed q, rfl, fun msg hmsg => ?_⟩
        obtain ⟨g, -, rfl⟩ := List.mem_map.mp hmsg
        rfl
  | dropQueue q _ => exact .inr (.setQueue c q fun _ => ⟨rfl, rfl, fun h => h⟩)

/-- **A step starts a roundtrip, or no queue does.** -/
theorem asks_or_not (hc : Ledger c) {a : Action} (h : step c a = some c') :
    (∃ q, a = .roundtrip q ∧ c.error = false ∧ c' = c.ask q) ∨
      ((∀ q, a ≠ .roundtrip q) ∧ Unasked c c') := by
  by_cases ha : ∃ q, a = .roundtrip q
  · obtain ⟨q, rfl⟩ := ha
    simp only [step, Option.ite_none_right_eq_some, Option.some.injEq] at h
    exact .inl ⟨q, rfl, h.1.2.2.2, h.2.symm⟩
  · refine .inr ⟨fun q hq => ha ⟨q, hq⟩, ?_⟩
    let R : Rely := { anything with asks := fun _ => False }
    have hgrant : Granted R c a := by
      cases a with
      | roundtrip q => exact absurd ⟨q, rfl⟩ ha
      | _ => simp [Granted, R, anything]
    have hmoves := moves_step hc.table_lt hgrant h
    refine Moves.invariant (P := fun d => Unasked c d) (fun d d' hd hmove => ?_) hmoves (.refl c)
    rcases hmove.unasked with ⟨q, hfalse, -⟩ | hun
    · exact hfalse.elim
    · exact hd.trans hun

/-- No acknowledgement is stored. -/
def Unacked (c c' : Client) : Prop :=
  ∀ q, (c'.queues q).lastAckd = (c.queues q).lastAckd ∧
    (c'.queues q).credited = (c.queues q).credited

theorem Move.unacked (h : Move R c c') (hheard : ∀ msg, R.heard msg → msg.done? = none) :
    Unacked c c' := by
  have hsame : ∀ {c' : Client}, c'.queues = c.queues → Unacked c c' := by
    intro c' hqueues q
    rw [hqueues]
    exact ⟨rfl, rfl⟩
  have hwrite : ∀ {c : Client} {msg : C2S}, (c.write msg).queues = c.queues := by
    intro c msg
    obtain ⟨out, heq⟩ := write_eq c msg
    rw [heq]
  cases h with
  | tweak h => exact fun q => ⟨(h.queues q).lastAckd, (h.queues q).credited⟩
  | hear _ => exact hsame rfl
  | acknowledge version => exact hsame hwrite
  | ask q _ =>
    intro i
    unfold Client.ask
    rw [hwrite]
    simp only [Client.setQueue]
    split <;> exact ⟨rfl, rfl⟩
  | acked q hdone => cases hheard _ hdone
  | bind q specVer version _ hbind =>
    obtain ⟨spec, -, rfl⟩ := bindProtocol_eq hbind
    exact hsame hwrite
  | call hcall =>
    rename_i obj method m args made
    have hgoes := goes_called c obj method m args made
    rw [← hcall.eq] at hgoes
    cases hgoes with
    | lost _ _ hqueues _ _ => exact hsame hqueues
    | queued _ hqueues _ _ =>
      intro q
      rw [hqueues]
      simp only [defer, Client.setQueue]
      split <;> exact ⟨rfl, rfl⟩
    | written _ hqueues _ _ => exact hsame hqueues
  | named _ _ =>
    obtain ⟨f, -, h, heq⟩ := onSeq_eq c _ _
    rw [heq]
    exact hsame rfl
  | collect _ => exact hsame rfl
  | destroy _ _ _ _ => exact hsame rfl
  | flush q _ =>
    intro i
    rw [flush_queues]
    simp only [Client.setQueue]
    split <;> exact ⟨rfl, rfl⟩
  | dropQueue q _ =>
    intro i
    simp only [Client.setQueue]
    split <;> exact ⟨rfl, rfl⟩

/-- **A step handles an acknowledgement and stores it in its queue, or none is stored.** -/
theorem acks_or_not (hc : Ledger c) {a : Action} (h : step c a = some c') :
    (∃ q seq request rest, a = .handle q ∧
      (c.queues q).phase = .batch (.roundtripDone seq request :: rest) ∧
      (c'.queues q).lastAckd = seq ∧ (c'.queues q).credited = (c.queues q).credited ++ [request] ∧
      ∀ i, i ≠ q → c'.queues i = c.queues i) ∨
    ((∀ q msg rest, a = .handle q → (c.queues q).phase = .batch (msg :: rest) → msg.done? = none) ∧
      Unacked c c') := by
  by_cases ha : ∃ q seq request rest, a = .handle q ∧
      (c.queues q).phase = .batch (.roundtripDone seq request :: rest)
  · obtain ⟨q, seq, request, rest, rfl, hphase⟩ := ha
    simp only [step, hphase, Option.some.injEq] at h
    subst h
    refine .inl ⟨q, seq, request, rest, rfl, hphase, ?_, ?_, fun i hi => ?_⟩
    · simp [handle, Client.setQueue]
    · simp [handle, Client.setQueue]
    · simp [handle, Client.setQueue, hi]
  · have hnone : ∀ q msg rest, a = .handle q → (c.queues q).phase = .batch (msg :: rest) →
        msg.done? = none := by
      intro q msg rest hq hphase
      cases msg with
      | roundtripDone seq request => exact absurd ⟨q, seq, request, rest, hq, hphase⟩ ha
      | _ => rfl
    refine .inr ⟨hnone, ?_⟩
    let R : Rely := { anything with heard := fun msg => msg.done? = none }
    have hgrant : Granted R c a := by
      cases a with
      | handle q => exact fun msg rest hphase => ⟨hnone q msg rest rfl hphase, fun _ _ _ _ => trivial⟩
      | _ => simp [Granted, R, anything]
    refine Moves.invariant (P := fun d => Unacked c d) (fun d d' hd hmove => ?_)
      (moves_step hc.table_lt hgrant h) fun q => ⟨rfl, rfl⟩
    have hun := hmove.unacked fun _ h => h
    exact fun q => ⟨(hun q).1.trans (hd q).1, (hun q).2.trans (hd q).2⟩

/-! ## The numbering -/

/-- Of two requests of a queue the later one has the higher number. -/
def Rising (msg msg' : C2S) : Prop :=
  ∀ t t' q, msg = .roundtripRequest t q → msg' = .roundtripRequest t' q → t < t'

theorem rising_of_none {msg msg' : C2S} (h : msg.request? = none ∨ msg'.request? = none) :
    Rising msg msg' := by
  rintro t t' q rfl rfl
  rcases h with h | h <;> cases h

/-- **The requests of a queue are numbered from 1**, and the last one is marked. -/
structure Asked (c : Client) : Prop where
  counts : ∀ q, (c.queues q).lastSent = (c.requests q).length
  numbered : ∀ p t q, c.out[p]? = some (.roundtripRequest t q) →
    0 < t ∧ t ≤ (c.queues q).lastSent ∧ p ≤ (c.queues q).marked
  marked : ∀ q, (c.queues q).lastSent ≠ 0 →
    c.out[(c.queues q).marked]? = some (.roundtripRequest (c.queues q).lastSent q)
  rising : c.out.Pairwise Rising
  waits : ∀ q, (c.queues q).inRoundtrip = true → (c.queues q).lastSent ≠ 0
  shut : c.shut = true → c.error = true

theorem Asked.init (impls : List ProtocolSpec) : Asked { impls } where
  counts _ := rfl
  numbered p t q h := by
    rcases p with _ | p
    · cases h
    · cases h
  marked _ h := absurd rfl h
  rising := List.pairwise_singleton ..
  waits _ h := by cases h
  shut h := by cases h

/-- A request stands in one place. -/
theorem Asked.place (hc : Asked c) {p p' t q : Nat} (hp : c.out[p]? = some (.roundtripRequest t q))
    (hp' : c.out[p']? = some (.roundtripRequest t q)) : p = p' := by
  obtain ⟨hlt, heq⟩ := List.getElem?_eq_some_iff.mp hp
  obtain ⟨hlt', heq'⟩ := List.getElem?_eq_some_iff.mp hp'
  have hrising := List.pairwise_iff_getElem.mp hc.rising
  rcases Nat.lt_trichotomy p p' with h | h | h
  · exact absurd (hrising p p' hlt hlt' h t t q heq heq') (Nat.lt_irrefl t)
  · exact h
  · exact absurd (hrising p' p hlt' hlt h t t q heq' heq) (Nat.lt_irrefl t)

theorem Unasked.request_old (h : Unasked c c') {p t q : Nat}
    (hp : c'.out[p]? = some (.roundtripRequest t q)) : c.out[p]? = some (.roundtripRequest t q) := by
  obtain ⟨more, hout, hmore⟩ := h.out
  rw [hout] at hp
  rcases Nat.lt_or_ge p c.out.length with hlt | hge
  · rwa [List.getElem?_append_left hlt] at hp
  · rw [List.getElem?_append_right hge] at hp
    exact absurd (hmore _ (List.mem_of_getElem? hp)) nofun

theorem Unasked.requests (h : Unasked c c') (q : Nat) : c'.requests q = c.requests q := by
  obtain ⟨more, hout, hmore⟩ := h.out
  have hnone : more.filterMap C2S.request? = [] := List.filterMap_eq_nil_iff.mpr hmore
  simp only [Client.requests, hout, List.filterMap_append, hnone, List.append_nil]

theorem Asked.unasked (hc : Asked c) (h : Unasked c c') (hshut : c'.shut = true → c'.error = true) :
    Asked c' where
  counts q := by rw [(h.queues q).lastSent, hc.counts q, h.requests q]
  numbered p t q hp := by
    rw [(h.queues q).lastSent, (h.queues q).marked]
    exact hc.numbered p t q (h.request_old hp)
  marked q hne := by
    rw [(h.queues q).lastSent] at hne ⊢
    rw [(h.queues q).marked]
    obtain ⟨more, hout, -⟩ := h.out
    exact getElem?_grown (hout ▸ List.prefix_append ..) (hc.marked q hne)
  rising := by
    obtain ⟨more, hout, hmore⟩ := h.out
    rw [hout]
    refine List.pairwise_append.mpr ⟨hc.rising, ?_, fun msg _ msg' hmsg' =>
      rising_of_none (.inr (hmore msg' hmsg'))⟩
    exact List.pairwise_of_forall_mem_list fun msg hmsg _ _ => rising_of_none (.inl (hmore msg hmsg))
  waits q hr := by
    rw [(h.queues q).lastSent]
    exact hc.waits q ((h.queues q).inRoundtrip hr)
  shut := hshut

/-- A stream without an error is open. -/
theorem Asked.live (hc : Asked c) (herror : c.error = false) : c.shut = false := by
  cases hshut : c.shut with
  | false => rfl
  | true =>
    have := hc.shut hshut
    rw [herror] at this
    cases this

theorem ask_out (hshut : c.shut = false) {q : Nat} (hwrap : (c.queues q).lastSent + 1 < wordSize) :
    (c.ask q).out = c.out ++ [.roundtripRequest ((c.queues q).lastSent + 1) q] := by
  simp [Client.ask, write_out, Client.setQueue, hshut, Nat.mod_eq_of_lt hwrap]

theorem requests_ask (hshut : c.shut = false) (q : Nat) :
    ((c.ask q).requests q).length = (c.requests q).length + 1 := by
  simp [requests, Client.ask, write_out, Client.setQueue, hshut, C2S.request?]

theorem requests_ask_other (c : Client) {q i : Nat} (hi : i ≠ q) :
    (c.ask q).requests i = c.requests i := by
  unfold requests Client.ask
  rw [write_out]
  split
  · rfl
  · simp [Client.setQueue, C2S.request?, Ne.symm hi]

/-- The request is marked where it is written. -/
theorem ask_marked (c : Client) (q : Nat) : ((c.ask q).queues q).marked = c.out.length := by
  unfold Client.ask
  obtain ⟨out, heq⟩ := write_eq (c.setQueue q fun queue =>
    { queue with
      lastSent := ((c.queues q).lastSent + 1) % wordSize, inRoundtrip := true
      marked := c.out.length }) (.roundtripRequest (((c.queues q).lastSent + 1) % wordSize) q)
  simp only [heq]
  simp [Client.setQueue]

theorem ask_queue (c : Client) {q : Nat} (hwrap : (c.queues q).lastSent + 1 < wordSize) :
    (c.ask q).queues q =
      { c.queues q with
        lastSent := (c.queues q).lastSent + 1, inRoundtrip := true, marked := c.out.length } := by
  unfold Client.ask
  obtain ⟨out, heq⟩ := write_eq (c.setQueue q fun queue =>
    { queue with
      lastSent := ((c.queues q).lastSent + 1) % wordSize, inRoundtrip := true
      marked := c.out.length }) (.roundtripRequest (((c.queues q).lastSent + 1) % wordSize) q)
  simp only [heq]
  simp [Client.setQueue, Nat.mod_eq_of_lt hwrap]

theorem ask_other (c : Client) {q i : Nat} (hi : i ≠ q) : (c.ask q).queues i = c.queues i := by
  unfold Client.ask
  obtain ⟨out, heq⟩ := write_eq (c.setQueue q fun queue =>
    { queue with
      lastSent := ((c.queues q).lastSent + 1) % wordSize, inRoundtrip := true
      marked := c.out.length }) (.roundtripRequest (((c.queues q).lastSent + 1) % wordSize) q)
  simp only [heq]
  simp [Client.setQueue, hi]

theorem Asked.ask (hc : Asked c) {q : Nat} (herror : c.error = false)
    (hwrap : (c.queues q).lastSent + 1 < wordSize) : Asked (c.ask q) := by
  have hout := ask_out (hc.live herror) hwrap
  have hqueue := ask_queue c hwrap
  have hother : ∀ i, i ≠ q → (c.ask q).queues i = c.queues i := fun i hi => ask_other c hi
  -- the request is the last message, and the others were there before
  have hnew : (c.ask q).out[c.out.length]? = some (.roundtripRequest ((c.queues q).lastSent + 1) q) := by
    rw [hout]
    exact List.getElem?_concat_length
  have hcases : ∀ p t i, (c.ask q).out[p]? = some (.roundtripRequest t i) →
      c.out[p]? = some (.roundtripRequest t i) ∨
        (p = c.out.length ∧ t = (c.queues q).lastSent + 1 ∧ i = q) := by
    intro p t i hp
    rcases Nat.lt_trichotomy p c.out.length with hlt | rfl | hgt
    · rw [hout, List.getElem?_append_left hlt] at hp
      exact .inl hp
    · rw [hnew] at hp
      cases hp
      exact .inr ⟨rfl, rfl, rfl⟩
    · rw [hout, List.getElem?_eq_none (by simp; omega)] at hp
      cases hp
  have hold : ∀ p t i, c.out[p]? = some (.roundtripRequest t i) → p < c.out.length :=
    fun p t i hp => (List.getElem?_eq_some_iff.mp hp).1
  refine ⟨fun i => ?_, fun p t i hp => ?_, fun i hne => ?_, ?_, fun i hr => ?_, ?_⟩
  · by_cases hi : i = q
    · subst hi
      rw [hqueue, Client.requests, hout, List.filterMap_append, List.filter_append,
        List.length_append]
      simp [hc.counts i, Client.requests, C2S.request?]
    · rw [hother i hi, hc.counts i, Client.requests, Client.requests, hout, List.filterMap_append,
        List.filter_append]
      simp [C2S.request?, Ne.symm hi]
  · rcases hcases p t i hp with hpast | ⟨rfl, rfl, rfl⟩
    · obtain ⟨hpos, hle, hmarked⟩ := hc.numbered p t i hpast
      by_cases hi : i = q
      · subst hi
        rw [hqueue]
        exact ⟨hpos, Nat.le_succ_of_le hle, Nat.le_of_lt (hold p t i hpast)⟩
      · rw [hother i hi]
        exact ⟨hpos, hle, hmarked⟩
    · rw [hqueue]
      exact ⟨Nat.succ_pos _, Nat.le_refl _, Nat.le_refl _⟩
  · by_cases hi : i = q
    · subst hi
      rw [hqueue]
      exact hnew
    · rw [hother i hi] at hne ⊢
      exact getElem?_grown (hout ▸ List.prefix_append ..) (hc.marked i hne)
  · rw [hout]
    refine pairwise_append_one hc.rising fun msg hmsg => ?_
    rintro t t' i rfl heq
    cases heq
    obtain ⟨p, hp⟩ := List.getElem?_of_mem hmsg
    exact Nat.lt_succ_of_le (hc.numbered p t q hp).2.1
  · by_cases hi : i = q
    · subst hi
      rw [hqueue]
      exact Nat.succ_ne_zero _
    · rw [hother i hi] at hr ⊢
      exact hc.waits i hr
  · rw [ask_shut, ask_error]
    exact hc.shut

/-- A queue whose counter does not wrap goes on counting. -/
theorem Asked.step (hc : Asked c) (hledger : Ledger c) {a : Action}
    (hwrap : ∀ q, a = .roundtrip q → (c.queues q).lastSent + 1 < wordSize)
    (h : step c a = some c') : Asked c' := by
  rcases asks_or_not hledger h with ⟨q, rfl, herror, rfl⟩ | ⟨-, hun⟩
  · exact hc.ask herror (hwrap q rfl)
  · have hfaults := faults h
    exact hc.unasked hun fun hshut => (hfaults.shut hshut).elim (fun h => hfaults.error (hc.shut h)) id

end Client

/-! ## Whose acknowledgement it is -/

namespace Connection

variable {x x' : Connection}

/-- The queue of the request that stands at a place of what was written. -/
def asker (x : Connection) (p : Nat) : Option Nat :=
  (x.client.out[p]?.bind C2S.request?).map Prod.snd

theorem asker_eq_some {p q : Nat} :
    x.asker p = some q ↔ ∃ t, x.client.out[p]? = some (.roundtripRequest t q) := by
  unfold asker
  cases x.client.out[p]? with
  | none => simp
  | some msg => cases msg <;> simp [C2S.request?]

/-- **Every queue reads its own.** The acknowledgements in the batch that a queue reads are for its
requests; and the counter of a queue does not wrap. -/
def ReadsOwn (x : Connection) : Action → Prop
  | .client (.roundtrip q) => (x.client.queues q).lastSent + 1 < wordSize
  | .clientReads q count =>
    ∀ done ∈ ((x.server.out.drop x.toClient).take count).filterMap S2C.done?,
      x.asker done.2 = some q
  | _ => True

instance (x : Connection) (a : Action) : Decidable (ReadsOwn x a) := by
  unfold ReadsOwn
  split <;> infer_instance

/-- **An acknowledgement is for the queue that asked for it**, and a roundtrip that can return was
handled by the server. -/
structure Isolated (x : Connection) : Prop where
  credited : ∀ q, ∀ p ∈ (x.client.queues q).credited,
    ∃ t, x.client.out[p]? = some (.roundtripRequest t q)
  acked : ∀ q, (x.client.queues q).lastAckd ≠ 0 → ∃ p ∈ (x.client.queues q).credited,
    x.client.out[p]? = some (.roundtripRequest (x.client.queues q).lastAckd q)
  returns : ∀ q, x.client.step (.roundtripReturn q) ≠ none →
    x.server.handled[(x.client.queues q).marked]? =
      some (.roundtripRequest (x.client.queues q).lastSent q)

/-- What carries it. -/
structure Credit (x : Connection) : Prop where
  transit : Transit x
  answers : x.server.Answers
  asked : x.client.Asked
  credited : ∀ q, ∀ p ∈ (x.client.queues q).credited,
    ∃ t, x.client.out[p]? = some (.roundtripRequest t q)
  acked : ∀ q, (x.client.queues q).lastAckd ≠ 0 → ∃ p ∈ (x.client.queues q).credited,
    x.client.out[p]? = some (.roundtripRequest (x.client.queues q).lastAckd q) ∧
      .roundtripDone (x.client.queues q).lastAckd p ∈ x.client.handled
  waiting : ∀ q t p, .roundtripDone t p ∈ (x.client.queues q).phase.pending →
    x.client.out[p]? = some (.roundtripRequest t q)

theorem Credit.start (impls : List ProtocolSpec) : Credit (start impls) where
  transit := .start impls
  answers := .init impls
  asked := .init impls
  credited _ _ h := by cases h
  acked _ h := absurd rfl h
  waiting _ _ _ h := by cases h

/-- What is acknowledged was handled, and sent before. -/
theorem Transit.answered (hx : Transit x) (hs : x.server.Answers) {t p : Nat}
    (h : .roundtripDone t p ∈ x.server.out) :
    p < x.server.complete ∧ ∃ q, x.server.handled[p]? = some (.roundtripRequest t q) ∧
      x.client.out[p]? = some (.roundtripRequest t q) := by
  obtain ⟨hp, q, hq⟩ := hs.answered t p h
  exact ⟨hp, q, hq, getElem?_grown ((List.prefix_append ..).trans hx.served) hq⟩

theorem Credit.byClient {a : Client.Action} (hx : Credit x) (h : ByClient x a x')
    (hwrap : ∀ q, a = .roundtrip q → (x.client.queues q).lastSent + 1 < wordSize)
    (hown : ∀ q batch, a = .read q batch → ∀ t p, .roundtripDone t p ∈ batch →
      ∃ t', x.client.out[p]? = some (.roundtripRequest t' q)) : Credit x' := by
  have hout := (hx.transit.ledger.later h.step).out
  have hmore : ∀ {p : Nat} {msg : C2S}, x.client.out[p]? = some msg → x'.client.out[p]? = some msg :=
    fun hp => getElem?_grown hout hp
  have hkept : ∀ msg ∈ x.client.handled, msg ∈ x'.client.handled :=
    fun msg hmsg => (hx.transit.ledger.later h.step).handled.subset hmsg
  have hasked := hx.asked.step hx.transit.ledger hwrap h.step
  have hwaiting : ∀ q t p, .roundtripDone t p ∈ (x'.client.queues q).phase.pending →
      x'.client.out[p]? = some (.roundtripRequest t q) := by
    intro q t p hin
    rcases pending_of_step h.step hin with hold | ⟨batch, rfl, hbatch⟩
    · exact hmore (hx.waiting q t p hold)
    · obtain ⟨t', ht'⟩ := hown q batch rfl t p hbatch
      rcases h.read with ⟨q', batch', heq, hfront, -⟩ | ⟨hnot, -⟩
      · cases heq
        have hsent : .roundtripDone t p ∈ x.server.out :=
          List.mem_of_mem_drop (hfront.subset hbatch)
        obtain ⟨-, q', -, hq'⟩ := hx.transit.answered hx.answers hsent
        rw [ht'] at hq'
        cases hq'
        exact hmore ht'
      · exact absurd rfl (hnot q batch)
  rcases Client.acks_or_not hx.transit.ledger h.step with
    ⟨q, seq, request, rest, rfl, hbatch, hlast, hcredited, hother⟩ | ⟨-, hun⟩
  · have hin : .roundtripDone seq request ∈ (x.client.queues q).phase.pending := by
      rw [hbatch]
      exact List.mem_cons_self ..
    have hrequest := hmore (hx.waiting q seq request hin)
    have hheard : .roundtripDone seq request ∈ x'.client.handled := by
      have hstep := h.step
      simp only [Client.step, hbatch, Option.some.injEq] at hstep
      rw [← hstep, Client.handle_handled]
      exact List.mem_append.mpr (.inr (List.mem_singleton_self _))
    refine ⟨hx.transit.byClient h, h.server ▸ hx.answers, hasked, fun i p hp => ?_,
      fun i hne => ?_, hwaiting⟩
    · by_cases hi : i = q
      · subst hi
        rw [hcredited] at hp
        rcases List.mem_append.mp hp with hp | hp
        · obtain ⟨t, ht⟩ := hx.credited i p hp
          exact ⟨t, hmore ht⟩
        · rw [List.mem_singleton.mp hp]
          exact ⟨seq, hrequest⟩
      · rw [hother i hi] at hp
        obtain ⟨t, ht⟩ := hx.credited i p hp
        exact ⟨t, hmore ht⟩
    · by_cases hi : i = q
      · subst hi
        rw [hlast, hcredited]
        exact ⟨request, by simp, hrequest, hheard⟩
      · rw [hother i hi] at hne ⊢
        obtain ⟨p, hp, hreq, hdone⟩ := hx.acked i hne
        exact ⟨p, hp, hmore hreq, hkept _ hdone⟩
  · refine ⟨hx.transit.byClient h, h.server ▸ hx.answers, hasked, fun i p hp => ?_,
      fun i hne => ?_, hwaiting⟩
    · rw [(hun i).2] at hp
      obtain ⟨t, ht⟩ := hx.credited i p hp
      exact ⟨t, hmore ht⟩
    · rw [(hun i).1] at hne ⊢
      rw [(hun i).2]
      obtain ⟨p, hp, hreq, hdone⟩ := hx.acked i hne
      exact ⟨p, hp, hmore hreq, hkept _ hdone⟩

theorem Credit.byServer {a : Server.Action} (hx : Credit x) (h : ByServer x a x') : Credit x' := by
  refine ⟨hx.transit.byServer h, hx.answers.step h.step, h.client ▸ hx.asked, ?_, ?_, ?_⟩
  · rw [h.client]
    exact hx.credited
  · rw [h.client]
    exact hx.acked
  · rw [h.client]
    exact hx.waiting

theorem Credit.step {a : Action} (hx : Credit x) (hown : ReadsOwn x a) (h : step x a = some x') :
    Credit x' := by
  rcases step_cases h with ⟨b, hb, ha⟩ | ⟨b, hb, -⟩
  · refine hx.byClient hb ?_ ?_
    · rintro q rfl
      rcases ha with rfl | ⟨_, _, _, _, -, hq⟩ | ⟨_, _, -, hq⟩
      · exact hown
      · cases hq
      · cases hq
    · rintro q batch rfl
      rcases ha with rfl | ⟨_, _, _, _, -, hq⟩ | ⟨q', count, rfl, hq⟩
      · exact absurd rfl (hb.read.elim (fun ⟨_, _, _, _, _⟩ => by
          simp [Connection.step, clientAlone] at h) fun hnot => hnot.1 q batch)
      · cases hq
      · cases hq
        intro t p hin
        have hdone : (t, p) ∈ ((x.server.out.drop x.toClient).take count).filterMap S2C.done? :=
          List.mem_filterMap.mpr ⟨_, hin, rfl⟩
        exact asker_eq_some.mp (hown _ hdone)
  · exact hx.byServer hb

/-- The acknowledgement of the request that is marked was handled when a roundtrip can return. -/
theorem Credit.returned (hx : Credit x) {q : Nat} (h : x.client.step (.roundtripReturn q) ≠ none) :
    (x.client.queues q).lastSent ≠ 0 ∧
      .roundtripDone (x.client.queues q).lastSent (x.client.queues q).marked ∈ x.client.handled := by
  have hcond : (x.client.queues q).inRoundtrip = true ∧
      ¬ (x.client.queues q).lastAckd < (x.client.queues q).lastSent := by
    simp only [Client.step, ne_eq, ite_eq_right_iff, not_forall] at h
    exact ⟨h.1.1, h.1.2.2⟩
  have hsent := hx.asked.waits q hcond.1
  have hne : (x.client.queues q).lastAckd ≠ 0 := by omega
  obtain ⟨p, -, hreq, hdone⟩ := hx.acked q hne
  -- the number stored is the last one that was sent, and that request stands in one place
  have hlast : (x.client.queues q).lastAckd = (x.client.queues q).lastSent :=
    Nat.le_antisymm (hx.asked.numbered p _ q hreq).2.1 (Nat.le_of_not_lt hcond.2)
  rw [hlast] at hreq hdone
  rw [hx.asked.place (hx.asked.marked q hsent) hreq]
  exact ⟨hsent, hdone⟩

theorem Credit.isolated (hx : Credit x) : Isolated x where
  credited := hx.credited
  acked q hne := by
    obtain ⟨p, hp, hreq, -⟩ := hx.acked q hne
    exact ⟨p, hp, hreq⟩
  returns q hreturn := by
    obtain ⟨hsent, hdone⟩ := hx.returned hreturn
    obtain ⟨-, q', hhandled, hsame⟩ := hx.transit.answered hx.answers (hx.transit.heard _ hdone)
    rw [hx.asked.marked q hsent] at hsame
    cases hsame
    exact hhandled

/-- **Roundtrips of different queues do not disturb each other** as long as every queue reads its
own acknowledgements. -/
theorem roundtrips_isolated {impls : List ProtocolSpec} {as : List Action}
    (hown : Run.Meets step ReadsOwn (start impls) as) (h : Run.run step (start impls) as = some x) :
    Isolated x :=
  Credit.isolated (Run.run_meeting (fun _ _ _ hx hcond hstep => Credit.step hx hcond hstep)
    (.start impls) hown h)

/-- Two queues wait, and each reads the acknowledgement it asked for. -/
def taking : List Action :=
  greeting ++ [.client (.roundtrip 0), .client (.roundtrip 1), .serverReads 1, .server .handle,
    .server .finish, .clientReads 0 1, .client (.handle 0), .client (.finish 0),
    .client (.roundtripReturn 0), .serverReads 1, .server .handle, .server .finish,
    .clientReads 1 1, .client (.handle 1), .client (.finish 1)]

theorem roundtrips_isolated_taking :
    ∃ x, Run.run step (start [shopProtocol]) taking = some x ∧ Isolated x :=
  ⟨_, rfl, @roundtrips_isolated _ [shopProtocol] taking (by decide) rfl⟩

/-- The second queue reads what the first one asked for. -/
def snatching : List Action :=
  greeting ++ [.client (.roundtrip 0), .client (.roundtrip 1), .serverReads 1, .server .handle,
    .server .finish, .clientReads 1 1, .client (.handle 1), .client (.finish 1)]

/-- Its roundtrip can return, and its request has not been handled. -/
theorem not_always_isolated : ¬ ∀ (impls : List ProtocolSpec) (as : List Action) (x : Connection),
    Run.run step (start impls) as = some x → Isolated x := by
  intro h
  obtain ⟨x, hrun, hreturns, hunhandled⟩ : ∃ x,
      Run.run step (start [shopProtocol]) snatching = some x ∧
        (x.client.step (.roundtripReturn 1)).isSome = true ∧
        x.server.handled[(x.client.queues 1).marked]? = none :=
    ⟨_, rfl, rfl, rfl⟩
  have hhandled := (h _ _ x hrun).returns 1 (Option.isSome_iff_ne_none.mp hreturns)
  rw [hunhandled] at hhandled
  cases hhandled

end Connection

end Hyprwire
