import Mathlib.Data.List.Induction
import Hyprwire.System.Roundtrip

/-!
# `System/Barrier.lean` — roundtrips of one queue

With one event queue the client handles what the server wrote in the order in which it was written,
and every acknowledgement is its own. The request of the last roundtrip is then always somewhere:
under way, scheduled, acknowledged with the acknowledgement under way, or the connection is in
error.
-/

namespace Hyprwire

open History

/-- The queue an action is on, if it is on one. -/
def Client.Action.queue? : Client.Action → Option Nat
  | .bind q _ _ | .dropQueue q | .roundtrip q | .roundtripReturn q | .roundtripFail q | .poll q
  | .unreadable q | .read q _ | .handle q | .return_ q | .malformed q | .finish q => some q
  | .send _ _ _ | .clone _ | .drop _ => none

/-- The last number that was acknowledged. -/
def acknowledged (msgs : List S2C) : Nat :=
  msgs.foldl (fun last msg => (msg.done?.map Prod.fst).getD last) 0

theorem acknowledged_append_one (msgs : List S2C) (msg : S2C) :
    acknowledged (msgs ++ [msg]) = (msg.done?.map Prod.fst).getD (acknowledged msgs) := by
  simp [acknowledged]

/-- The acknowledgement of the latest request is the last one. -/
theorem acknowledged_of_latest {msgs : List S2C} (horder : msgs.Pairwise Server.Behind) {t p : Nat}
    (hin : .roundtripDone t p ∈ msgs) (hlatest : ∀ t' p', .roundtripDone t' p' ∈ msgs → p' ≤ p) :
    acknowledged msgs = t := by
  induction msgs using List.reverseRecOn with
  | nil => cases hin
  | append_singleton msgs msg ih =>
    obtain ⟨hbefore, -, hbehind⟩ := List.pairwise_append.mp horder
    rw [acknowledged_append_one]
    rcases List.mem_append.mp hin with hold | hnew
    · have hnone : msg.done? = none := by
        cases msg with
        | roundtripDone t' p' =>
          have hlt := (hbehind _ hold _ (List.mem_singleton_self _) t p rfl).1 t' p' rfl
          have hle := hlatest t' p' (by simp)
          exact absurd hlt (Nat.not_lt_of_le hle)
        | _ => rfl
      rw [hnone]
      exact ih hbefore hold fun t' p' hin' => hlatest t' p' (List.mem_append.mpr (.inl hin'))
    · rw [← List.mem_singleton.mp hnew]
      rfl

namespace Connection

variable {x x' : Connection}

/-- There is one event queue. -/
def Action.OneQueue : Action → Prop
  | .bind q _ _ | .clientReads q _ => q = 0
  | .client a => ∀ q ∈ a.queue?, q = 0
  | .server _ | .serverReads _ => True

instance : DecidablePred Action.OneQueue
  | .bind q _ _ | .clientReads q _ => inferInstanceAs (Decidable (q = 0))
  | .client a => inferInstanceAs (Decidable (∀ q ∈ a.queue?, q = 0))
  | .server _ | .serverReads _ => inferInstanceAs (Decidable True)

/-- **The client handles what was written in order.** -/
structure InOrder (x : Connection) : Prop where
  credit : Credit x
  replied : x.server.Replied
  leaves : x.server.Leaves → x.server.error = true
  alone : ∀ p t q : Nat, x.client.out[p]? = some (.roundtripRequest t q) → q = 0
  heard : x.client.handled ++ (x.client.queues 0).phase.pending <+: x.server.out
  reads : x.client.error = false →
    x.client.handled ++ (x.client.queues 0).phase.pending = x.server.out.take x.toClient
  latest : (x.client.queues 0).lastAckd = acknowledged x.client.handled

theorem InOrder.start (impls : List ProtocolSpec) : InOrder (start impls) where
  credit := .start impls
  replied := .init impls
  leaves h := by
    rcases h with h | h
    · cases h
    · cases h
  alone p t q h := by
    rcases p with _ | p
    · cases h
    · cases h
  heard := List.nil_prefix
  reads _ := rfl
  latest := rfl

/-- What the client handles next stands next in what was written. -/
theorem InOrder.heard_step {a : Client.Action} (hx : InOrder x) (h : ByClient x a x')
    (hone : ∀ q, a.queue? = some q → q = 0) :
    x'.client.handled ++ (x'.client.queues 0).phase.pending <+: x'.server.out ∧
      (x'.client.error = false →
        x'.client.handled ++ (x'.client.queues 0).phase.pending = x'.server.out.take x'.toClient) := by
  rw [h.server]
  have hheard := hx.heard
  have hfaults := Client.faults h.step
  have hreads : x'.client.error = false → x.client.error = false := by
    intro herror
    cases hx' : x.client.error with
    | false => rfl
    | true =>
      rw [hfaults.error hx'] at herror
      cases herror
  have hto : (∀ q batch, a ≠ .read q batch) → x'.toClient = x.toClient := by
    intro hread
    rcases h.read with ⟨q, batch, heq, -⟩ | ⟨-, hto⟩
    · exact absurd heq (hread q batch)
    · exact hto
  -- nothing is read, and what was read is handled or still to be handled
  have hkeep : (∀ q batch, a ≠ .read q batch) →
      x'.client.handled ++ (x'.client.queues 0).phase.pending =
        x.client.handled ++ (x.client.queues 0).phase.pending →
      x'.client.handled ++ (x'.client.queues 0).phase.pending <+: x.server.out ∧
        (x'.client.error = false → x'.client.handled ++ (x'.client.queues 0).phase.pending =
          x.server.out.take x'.toClient) := by
    intro hread hsame
    rw [hsame, hto hread]
    exact ⟨hheard, fun herror => hx.reads (hreads herror)⟩
  -- what was read is given up
  have hdrop : x'.client.error = true → x'.client.handled ++ (x'.client.queues 0).phase.pending <+:
        x.client.handled ++ (x.client.queues 0).phase.pending →
      x'.client.handled ++ (x'.client.queues 0).phase.pending <+: x.server.out ∧
        (x'.client.error = false → x'.client.handled ++ (x'.client.queues 0).phase.pending =
          x.server.out.take x'.toClient) := by
    intro herror hfront
    rw [herror]
    exact ⟨hfront.trans hheard, nofun⟩
  have hprogress := Client.progress h.step
  cases hprogress with
  | read q batch hidle hopen hphase hothers hhandled =>
    cases hone q rfl
    have htaken := hx.reads hopen
    rw [hidle, show Client.Phase.idle.pending = [] from rfl, List.append_nil] at htaken
    rcases h.read with ⟨q', batch', heq, hfront, hcount⟩ | ⟨hnot, -⟩
    · cases heq
      have hbatch := List.prefix_iff_eq_take.mp hfront
      have hall : x'.client.handled ++ (x'.client.queues 0).phase.pending =
          x.server.out.take x'.toClient := by
        rw [hhandled, hphase, show (Client.Phase.batch batch).pending = batch from rfl, htaken, hcount,
          List.take_add, ← hbatch]
      exact ⟨hall ▸ List.take_prefix .., fun _ => hall⟩
    · exact absurd rfl (hnot 0 batch)
  | handled q msg rest hbatch hphase hothers hhandled =>
    cases hone q rfl
    have hsplit : x.client.handled ++ [msg] ++ rest =
        x.client.handled ++ (x.client.queues 0).phase.pending := by
      rw [hbatch, List.append_assoc]
      rfl
    rcases hphase with hphase | ⟨obj, method, hphase⟩ | ⟨hphase, herror⟩
    · exact hkeep nofun (by rw [hphase, hhandled, ← hsplit]; rfl)
    · exact hkeep nofun (by rw [hphase, hhandled, ← hsplit]; rfl)
    · refine hdrop herror ?_
      rw [hphase, hhandled, ← hsplit, show Client.Phase.idle.pending = [] from rfl, List.append_nil]
      exact List.prefix_append ..
  | returned q rest obj method hcallback hphase hothers hhandled =>
    cases hone q rfl
    refine hkeep nofun ?_
    rw [hphase, hcallback, hhandled]
    rfl
  | gaveUp _ q hphase herror hothers hhandled =>
    refine hdrop herror ?_
    rw [hhandled]
    by_cases hq : q = 0
    · subst hq
      rw [hphase, show Client.Phase.idle.pending = [] from rfl, List.append_nil]
      exact List.prefix_append ..
    · exact prefix_of_eq (by rw [hothers 0 (Ne.symm hq)])
  | finished q hbatch hphase hothers hhandled =>
    cases hone q rfl
    refine hkeep nofun ?_
    rw [hphase, hbatch, hhandled]
    rfl
  | still _ hphase hhandled hread hhandle => exact hkeep hread (by rw [hphase 0, hhandled])

/-- The last acknowledgement that was handled is the one that is stored. -/
theorem InOrder.latest_step {a : Client.Action} (hx : InOrder x) (h : ByClient x a x')
    (hone : ∀ q, a.queue? = some q → q = 0) :
    (x'.client.queues 0).lastAckd = acknowledged x'.client.handled := by
  have hhandled : ∀ q msg rest, a = .handle q →
      (x.client.queues q).phase = .batch (msg :: rest) →
        x'.client.handled = x.client.handled ++ [msg] := by
    rintro q msg rest rfl hbatch
    have hstep := h.step
    simp only [Client.step, hbatch, Option.some.injEq] at hstep
    rw [← hstep]
    exact Client.handle_handled ..
  rcases Client.acks_or_not hx.credit.transit.ledger h.step with
    ⟨q, seq, request, rest, rfl, hbatch, hlast, -, -⟩ | ⟨hnone, hun⟩
  · cases hone q rfl
    rw [hlast, hhandled 0 _ rest rfl hbatch, acknowledged_append_one]
    rfl
  · rw [(hun 0).1, hx.latest]
    have hprogress := Client.progress h.step
    cases hprogress with
    | handled q msg rest hbatch hphase hothers hhandled' =>
      rw [hhandled', acknowledged_append_one, hnone q msg rest rfl hbatch]
      rfl
    | read _ _ _ _ _ _ hhandled' => rw [hhandled']
    | returned _ _ _ _ _ _ _ hhandled' => rw [hhandled']
    | gaveUp _ _ _ _ _ hhandled' => rw [hhandled']
    | finished _ _ _ _ hhandled' => rw [hhandled']
    | still _ _ hhandled' _ _ => rw [hhandled']

theorem InOrder.byClient {a : Client.Action} (hx : InOrder x) (h : ByClient x a x')
    (hone : ∀ q, a.queue? = some q → q = 0) (hbound : (x'.client.requests 0).length < wordSize) :
    InOrder x' := by
  have hcredit : Credit x' := by
    refine hx.credit.byClient h ?_ ?_
    · rintro q rfl
      cases hone q rfl
      rcases Client.asks_or_not hx.credit.transit.ledger h.step with
        ⟨q, heq, herror, hask⟩ | ⟨hnot, -⟩
      · cases heq
        rw [hask, Client.requests_ask (hx.credit.asked.live herror),
          ← hx.credit.asked.counts 0] at hbound
        exact hbound
      · exact absurd rfl (hnot 0)
    · rintro q batch rfl t p hin
      cases hone q rfl
      rcases h.read with ⟨q', batch', heq, hfront, -⟩ | ⟨hnot, -⟩
      · cases heq
        have hsent : .roundtripDone t p ∈ x.server.out :=
          List.mem_of_mem_drop (hfront.subset hin)
        obtain ⟨-, q', -, hq'⟩ := hx.credit.transit.answered hx.credit.answers hsent
        cases hx.alone p t q' hq'
        exact ⟨t, hq'⟩
      · exact absurd rfl (hnot 0 batch)
  obtain ⟨hheard, hreads⟩ := hx.heard_step h hone
  refine ⟨hcredit, h.server ▸ hx.replied, ?_, fun p t q hp => ?_, hheard, hreads,
    hx.latest_step h hone⟩
  · rw [h.server]
    exact hx.leaves
  · rcases Client.asks_or_not hx.credit.transit.ledger h.step with ⟨q', rfl, herror, hask⟩ | ⟨-, hun⟩
    · cases hone q' rfl
      by_cases hq : q = 0
      · exact hq
      · have hmem : (t, q) ∈ x'.client.requests q := by
          refine List.mem_filter.mpr ⟨List.mem_filterMap.mpr ⟨_, List.mem_of_getElem? hp, rfl⟩, ?_⟩
          exact decide_eq_true rfl
        rw [hask, Client.requests_ask_other x.client hq] at hmem
        obtain ⟨hmem, -⟩ := List.mem_filter.mp hmem
        obtain ⟨msg, hmsg, hrequest⟩ := List.mem_filterMap.mp hmem
        cases msg with
        | roundtripRequest t' q' =>
          cases hrequest
          obtain ⟨p', hp'⟩ := List.getElem?_of_mem hmsg
          exact hx.alone p' t q hp'
        | _ => cases hrequest
    · exact hx.alone p t q (hun.request_old hp)

theorem InOrder.byServer {a : Server.Action} (hx : InOrder x) (h : ByServer x a x') :
    InOrder x' := by
  have hout := Server.out_of_step h.step
  refine ⟨hx.credit.byServer h, hx.replied.step h.step,
    (Server.faults h.step).leaves_error hx.leaves, ?_, ?_, fun herror => ?_, ?_⟩
  · rw [h.client]
    exact hx.alone
  · rw [h.client]
    exact hx.heard.trans hout
  · rw [h.client] at herror ⊢
    rw [hx.reads herror, h.toClient, take_of_front hout hx.credit.transit.toClient]
  · rw [h.client]
    exact hx.latest

theorem InOrder.step {a : Action} (hx : InOrder x) (hone : a.OneQueue)
    (hbound : (x'.client.requests 0).length < wordSize) (h : step x a = some x') : InOrder x' := by
  rcases step_cases h with ⟨b, hb, ha⟩ | ⟨b, hb, -⟩
  · refine hx.byClient hb ?_ hbound
    rcases ha with rfl | ⟨q, _, _, _, rfl, rfl⟩ | ⟨q, _, rfl, rfl⟩
    · exact hone
    · rintro q' ⟨⟩
      exact hone
    · rintro q' ⟨⟩
      exact hone
  · exact hx.byServer hb

theorem requests_mono {a : Action} (hx : Transit x) (h : step x a = some x') :
    (x.client.requests 0).length ≤ (x'.client.requests 0).length := by
  rcases step_cases h with ⟨b, hb, -⟩ | ⟨b, hb, -⟩
  · have hout := (hx.ledger.later hb.step).out
    exact ((hout.sublist.filterMap _).filter _).length_le
  · rw [hb.client]

theorem InOrder.of_run {impls : List ProtocolSpec} {as : List Action} (hone : ∀ a ∈ as, a.OneQueue)
    (h : Run.run Connection.step (Connection.start impls) as = some x)
    (hbound : (x.client.requests 0).length < wordSize) : InOrder x := by
  have hbase : ∀ s a t, Transit s → Connection.step s a = some t → Transit t :=
    fun _ _ _ hx hstep => hx.step hstep
  have hmono : ∀ s a t, Transit s → Connection.step s a = some t →
      (s.client.requests 0).length ≤ (t.client.requests 0).length :=
    fun _ _ _ hx hstep => requests_mono hx hstep
  have hinv : ∀ s a t, InOrder s → a.OneQueue → (t.client.requests 0).length < wordSize →
      Connection.step s a = some t → InOrder t :=
    fun _ _ _ hx hone hbound hstep => hx.step hone hbound hstep
  exact Run.run_bounded hbase hmono hinv (.start impls) (.start impls) (Run.meets_of_forall hone) h
    hbound

/-! ## No acknowledgement is lost -/

/-- What the client has sent and the server has still to handle. -/
def toBeHandled (x : Connection) : List C2S :=
  x.server.phase.pending ++ x.client.out.drop x.toServer

/-- What the server has sent and the queue has still to handle. -/
def toBeHeard (x : Connection) (q : Nat) : List S2C :=
  (x.client.queues q).phase.pending ++ x.server.out.drop x.toClient

/-- **The request of the last roundtrip is somewhere**: under way, scheduled, or its acknowledgement
is under way, unless the connection is in error. -/
def Awaited (x : Connection) : Prop :=
  let seq := (x.client.queues 0).lastSent
  (x.client.queues 0).lastAckd < seq →
    .roundtripRequest seq 0 ∈ x.toBeHandled ∨ x.server.scheduledRoundtripSeq = seq ∨
      (∃ p, .roundtripDone seq p ∈ x.toBeHeard 0) ∨ x.client.error = true ∨ x.server.error = true

/-- **What a server knows that acknowledges the request at a place**: it was asked for it, and has
handled and replied to all that came before. -/
structure Due (x : Connection) (t p : Nat) : Prop where
  asked : x.client.out[p]? = some (.roundtripRequest t 0)
  handled : x.client.out.take (p + 1) <+: x.server.handled
  done : x.server.phase = .batch []
  replied : x.server.Replied

theorem InOrder.awaited (hx : InOrder x) : Awaited x := by
  unfold Awaited
  intro seq hwaits
  by_cases herror : x.client.error = true ∨ x.server.error = true
  · exact .inr (.inr (.inr herror))
  have hclient : x.client.error = false := by
    simpa using fun h => herror (.inl h)
  have hstays : ¬ x.server.Leaves := fun hl => herror (.inr (hx.leaves hl))
  have hne : seq ≠ 0 := Nat.ne_of_gt (Nat.lt_of_le_of_lt (Nat.zero_le _) hwaits)
  have hmarked := hx.credit.asked.marked 0 hne
  have hlast : ∀ p t q, x.client.out[p]? = some (.roundtripRequest t q) →
      p ≤ (x.client.queues 0).marked := by
    intro p t q hp
    cases hx.alone p t q hp
    exact (hx.credit.asked.numbered p t 0 hp).2.2
  have hserved : x.server.handled <+: x.client.out :=
    (List.prefix_append ..).trans hx.credit.transit.served
  -- it was read by the server
  rcases Nat.lt_or_ge (x.client.queues 0).marked x.toServer with hread | hunread
  · have hin : (x.server.handled ++ x.server.phase.pending)[(x.client.queues 0).marked]? =
        some (.roundtripRequest seq 0) := by
      rw [hx.credit.transit.reads hstays, List.getElem?_take_of_lt hread]
      exact hmarked
    -- … and handled
    rcases Nat.lt_or_ge (x.client.queues 0).marked x.server.handled.length with hhandled | hpending
    · rw [List.getElem?_append_left hhandled] at hin
      have hnozero : ∀ q, .roundtripRequest 0 q ∉ x.server.handled := by
        intro q hzero
        obtain ⟨p, hp⟩ := List.getElem?_of_mem (hserved.subset hzero)
        exact absurd (hx.credit.asked.numbered p 0 q hp).1 (Nat.lt_irrefl 0)
      rcases hx.credit.answers.latest hnozero _ seq 0 hin with ⟨hset, hle⟩ | ⟨t, p, hdone, hle⟩
      · obtain ⟨q, hq⟩ := hx.credit.answers.asked hset
        have hplace := hlast _ _ q (getElem?_grown hserved hq)
        rw [Nat.le_antisymm hplace hle, hin] at hq
        exact .inr (.inl (C2S.roundtripRequest.inj (Option.some.inj hq)).1.symm)
      · -- it was acknowledged, and the acknowledgement is still under way
        obtain ⟨-, q, -, hrequest⟩ := hx.credit.transit.answered hx.credit.answers hdone
        have hplace := hlast p t q hrequest
        rw [Nat.le_antisymm hplace hle, hmarked] at hrequest
        cases hrequest
        refine .inr (.inr (.inl ⟨p, ?_⟩))
        rw [← List.take_append_drop x.toClient x.server.out, ← hx.reads hclient] at hdone
        rcases List.mem_append.mp hdone with hdone | hdone
        · rcases List.mem_append.mp hdone with hheard | hpending
          · have hfront := (List.prefix_append ..).trans hx.heard
            have hlatest : acknowledged x.client.handled = seq := by
              refine acknowledged_of_latest (hx.credit.answers.order.sublist hfront.sublist) hheard
                fun t' p' hin' => ?_
              obtain ⟨-, q', -, hrequest'⟩ :=
                hx.credit.transit.answered hx.credit.answers (hfront.subset hin')
              exact Nat.le_trans (hlast p' t' q' hrequest') hle
            rw [hx.latest, hlatest] at hwaits
            exact absurd hwaits (Nat.lt_irrefl _)
          · exact List.mem_append.mpr (.inl hpending)
        · exact List.mem_append.mpr (.inr hdone)
    · rw [List.getElem?_append_right hpending] at hin
      exact .inl (List.mem_append.mpr (.inl (List.mem_of_getElem? hin)))
  · refine .inl (List.mem_append.mpr (.inr ?_))
    have hdrop : (x.client.out.drop x.toServer)[(x.client.queues 0).marked - x.toServer]? =
        some (.roundtripRequest seq 0) := by
      rw [List.getElem?_drop, Nat.add_sub_cancel' hunread]
      exact hmarked
    exact List.mem_of_getElem? hdrop

/-- An acknowledgement is due when it is sent. -/
theorem InOrder.due {a : Action} {t p : Nat} (hx : InOrder x)
    (h : Connection.step x a = some x')
    (hsent : x'.server.out = x.server.out ++ [.roundtripDone t p]) : Due x t p := by
  rcases step_cases h with ⟨b, hb, -⟩ | ⟨b, hb, -⟩
  · rw [hb.server] at hsent
    exact absurd hsent.symm Server.out_ne_append
  · rcases Server.speaks hb.step with hsame | ⟨msg, hspeaks, hout⟩
    · rw [hsame] at hsent
      exact absurd hsent.symm Server.out_ne_append
    · rw [hout] at hsent
      cases List.singleton_inj.mp (List.append_cancel_left hsent)
      cases hspeaks with
      | greets _ _ hintro _ => cases hintro
      | acknowledges hbatch hpos =>
        obtain ⟨q, hq⟩ := hx.credit.answers.asked (Nat.pos_iff_ne_zero.mp hpos)
        have hserved : x.server.handled <+: x.client.out :=
          (List.prefix_append ..).trans hx.credit.transit.served
        have hasked := getElem?_grown hserved hq
        cases hx.alone _ _ q hasked
        refine ⟨hasked, ?_, hbatch, hx.replied⟩
        rw [take_of_front hserved (List.getElem?_eq_some_iff.mp hq).1]
        exact List.take_prefix ..

/-- **No acknowledgement is lost**, and none is sent that is not due. -/
theorem acknowledgement_not_lost {impls : List ProtocolSpec} {as : List Action}
    (hone : ∀ a ∈ as, a.OneQueue) (h : Run.run step (start impls) as = some x)
    (hbound : (x.client.requests 0).length < wordSize) :
    Awaited x ∧ ∀ a x' t p, step x a = some x' →
      x'.server.out = x.server.out ++ [.roundtripDone t p] → Due x t p :=
  have hx := InOrder.of_run hone h hbound
  ⟨hx.awaited, fun _ _ _ _ hstep hsent => hx.due hstep hsent⟩

/-- A request has been handled, and the end of the dispatch is to acknowledge it. -/
def asking : List Action :=
  greeting ++ [.client (.roundtrip 0), .serverReads 1, .server .handle]

theorem acknowledgement_not_lost_asking :
    ∃ x x', Run.run step (start [shopProtocol]) asking = some x ∧ Awaited x ∧
      step x (.server .finish) = some x' ∧
      x'.server.out = x.server.out ++ [.roundtripDone 1 2] ∧ Due x 1 2 := by
  have h := @acknowledgement_not_lost _ [shopProtocol] asking (by decide) rfl (by decide)
  exact ⟨_, _, rfl, h.1, rfl, rfl, h.2 (.server .finish) _ 1 2 rfl rfl⟩

end Connection

/-! ## Calls that are made directly -/

namespace Client

variable {c c' : Client} {R : Rely}

/-- A direct call is on the wire, as long as something can be written. -/
def Direct (c : Client) : Prop :=
  c.shut = false → ∀ n call, c.calls[n]? = some call → call.deferred = false →
    ∃ g, .generic g ∈ c.out ∧ g.call = n

theorem Direct.move (hc : Direct c) (h : Move R c c') : Direct c' := by
  intro hshut n call hn hdirect
  have hlater := h.later
  have hlive : c.shut = false := by
    cases hold : c.shut with
    | false => rfl
    | true =>
      rw [hlater.shut hold] at hshut
      cases hshut
  have hkept : c.calls[n]? = some call → ∃ g, .generic g ∈ c'.out ∧ g.call = n := by
    intro hn
    obtain ⟨g, hg, hcall⟩ := hc hlive n call hn hdirect
    exact ⟨g, hlater.out.subset hg, hcall⟩
  cases h.recorded with
  | nothing hcalls => exact hkept (hcalls ▸ hn)
  | direct obj g hcalls hcall hout =>
    rcases getElem?_concat (hcalls ▸ hn) with hold | ⟨rfl, -⟩
    · exact hkept hold
    · refine ⟨g, ?_, hcall⟩
      rw [hout, write_out, if_neg (by simp [hlive])]
      exact List.mem_append.mpr (.inr (List.mem_singleton_self _))
  | deferred obj entry hcalls _ _ _ =>
    rcases getElem?_concat (hcalls ▸ hn) with hold | ⟨-, rfl⟩
    · exact hkept hold
    · cases hdirect

theorem Direct.step (hc : Direct c) (hledger : Ledger c) {a : Action} (h : step c a = some c') :
    Direct c' :=
  Moves.invariant (P := Direct) (fun _ _ hd hmove => hd.move hmove) (moves_anyhow hledger h) hc

end Client

/-! ## A roundtrip is a barrier -/

namespace Connection

variable {x₁ x x' : Connection}

/-- **What a roundtrip that was started in `x₁` has brought about in `x`**: what was on the wire was
handled, the direct calls among it, and so were the events that were emitted meanwhile. -/
structure Barrier (x₁ x : Connection) : Prop where
  messages : ∀ p, p < x₁.client.out.length →
    p < x.server.complete ∧ x.server.handled[p]? = x₁.client.out[p]?
  calls : ∀ n call, x₁.client.calls[n]? = some call → call.deferred = false →
    ∃ p g, p < x.server.complete ∧ x.server.handled[p]? = some (.generic g) ∧ g.call = n
  events : ∀ g p, .generic g ∈ x.server.out → g.during = some p → p < x₁.client.out.length →
    .generic g ∈ x.client.handled

/-- Every call was handled, deferred or not. -/
def AllHandled (x₁ x : Connection) : Prop :=
  ∀ n, n < x₁.client.calls.length →
    ∃ p g, p < x.server.complete ∧ x.server.handled[p]? = some (.generic g) ∧ g.call = n

/-- An event that was emitted for a message up to a request stands before its acknowledgement. -/
theorem event_before {msgs out : List S2C} (hfront : msgs <+: out)
    (horder : out.Pairwise Server.Behind) {t p d : Nat} {g : Generic}
    (hdone : .roundtripDone t p ∈ msgs) (hg : .generic g ∈ out) (hduring : g.during = some d)
    (hd : d ≤ p) : .generic g ∈ msgs := by
  obtain ⟨rest, rfl⟩ := hfront
  rcases List.mem_append.mp hg with hin | hin
  · exact hin
  · have hbehind := (List.pairwise_append.mp horder).2.2 _ hdone _ hin t p rfl
    exact absurd (hbehind.2 g d rfl hduring) (Nat.not_lt_of_le hd)

/-- Without another roundtrip the request stays marked. -/
theorem marked_of_run {as : List Action} (hledger : x.client.Ledger)
    (honce : ∀ a ∈ as, a ≠ .client (.roundtrip 0)) (h : Run.run step x as = some x') :
    (x'.client.queues 0).marked = (x.client.queues 0).marked := by
  induction as generalizing x with
  | nil =>
    cases h
    rfl
  | cons a as ih =>
    obtain ⟨y, ha, h⟩ := Run.run_cons.mp h
    have honce' := honce a (List.mem_cons_self ..)
    have hstep : y.client.Ledger ∧ (y.client.queues 0).marked = (x.client.queues 0).marked := by
      rcases step_cases ha with ⟨b, hb, hcases⟩ | ⟨b, hb, -⟩
      · refine ⟨hledger.step hb.step, ?_⟩
        rcases Client.asks_or_not hledger hb.step with ⟨q, rfl, -, hask⟩ | ⟨-, hun⟩
        · have hq : 0 ≠ q := by
            rintro rfl
            rcases hcases with rfl | ⟨_, _, _, _, -, heq⟩ | ⟨_, _, -, heq⟩
            · exact honce' rfl
            · cases heq
            · cases heq
          rw [hask, Client.ask_other _ hq]
        · exact (hun.queues 0).marked
      · rw [hb.client]
        exact ⟨hledger, rfl⟩
    rw [ih hstep.1 (fun b hb => honce b (List.mem_cons_of_mem a hb)) h, hstep.2]

/-- What was written is still written later. -/
theorem out_of_run {as : List Action} (hx : Transit x) (h : Run.run step x as = some x') :
    x.client.out <+: x'.client.out := by
  have hinv : ∀ s a t, (Transit s ∧ x.client.out <+: s.client.out) → Connection.step s a = some t →
      Transit t ∧ x.client.out <+: t.client.out := by
    intro s a t hs hstep
    refine ⟨hs.1.step hstep, ?_⟩
    rcases step_cases hstep with ⟨b, hb, -⟩ | ⟨b, hb, -⟩
    · exact hs.2.trans (hs.1.ledger.later hb.step).out
    · exact hb.client ▸ hs.2
  exact (Run.run_induction hinv ⟨hx, List.prefix_refl _⟩ h).2

theorem direct_of_run {impls : List ProtocolSpec} {as : List Action}
    (h : Run.run step (Connection.start impls) as = some x) : Transit x ∧ x.client.Direct := by
  have hinv : ∀ s a t, (Transit s ∧ s.client.Direct) → Connection.step s a = some t →
      Transit t ∧ t.client.Direct := by
    intro s a t hs hstep
    refine ⟨hs.1.step hstep, ?_⟩
    rcases step_cases hstep with ⟨b, hb, -⟩ | ⟨b, hb, -⟩
    · exact hs.2.step hs.1.ledger hb.step
    · exact hb.client ▸ hs.2
  refine Run.run_induction hinv ⟨.start impls, fun _ n call hn => ?_⟩ h
  cases hn

/-- **A roundtrip is a barrier** for what was on the wire when it was called. -/
theorem roundtrip_is_barrier {impls : List ProtocolSpec} {as₁ as₂ : List Action}
    (hone : ∀ a ∈ as₁ ++ .client (.roundtrip 0) :: as₂, a.OneQueue)
    (h₁ : Run.run step (start impls) as₁ = some x₁)
    (h₂ : Run.run step x₁ (.client (.roundtrip 0) :: as₂) = some x)
    (honce : ∀ a ∈ as₂, a ≠ .client (.roundtrip 0))
    (hreturns : x.client.step (.roundtripReturn 0) ≠ none)
    (hbound : (x.client.requests 0).length < wordSize) : Barrier x₁ x := by
  have hx := InOrder.of_run hone (Run.run_append.mpr ⟨x₁, h₁, h₂⟩) hbound
  obtain ⟨htransit₁, hdirect⟩ := direct_of_run h₁
  have hgrown := out_of_run htransit₁ h₂
  have hx₁ : InOrder x₁ := by
    refine InOrder.of_run (fun a ha => hone a (List.mem_append.mpr (.inl ha))) h₁ ?_
    exact Nat.lt_of_le_of_lt ((hgrown.sublist.filterMap _).filter _).length_le hbound
  obtain ⟨y, hstep, hrest⟩ := Run.run_cons.mp h₂
  -- the request is written where the wire of `x₁` ends
  obtain ⟨hy, herror⟩ : y.client = x₁.client.ask 0 ∧ x₁.client.error = false := by
    simp only [step, clientAlone, if_true, Option.map_eq_some_iff] at hstep
    obtain ⟨c, hc, rfl⟩ := hstep
    simp only [Client.step, Option.ite_none_right_eq_some, Option.some.injEq] at hc
    exact ⟨hc.2.symm, hc.1.2.2.2⟩
  have hmarked : (x.client.queues 0).marked = x₁.client.out.length := by
    rw [marked_of_run (htransit₁.step hstep).ledger honce hrest, hy, Client.ask_marked]
  obtain ⟨-, hdone⟩ := hx.credit.returned hreturns
  rw [hmarked] at hdone
  obtain ⟨hcomplete, -⟩ := hx.credit.transit.answered hx.credit.answers
    (hx.credit.transit.heard _ hdone)
  have hmessages : ∀ p, p < x₁.client.out.length →
      p < x.server.complete ∧ x.server.handled[p]? = x₁.client.out[p]? := by
    intro p hp
    have hlt := Nat.lt_trans hp hcomplete
    refine ⟨hlt, ?_⟩
    have hhandled := List.getElem?_eq_getElem (Nat.lt_of_lt_of_le hlt x.server.complete_le)
    rw [hhandled, ← getElem?_grown ((List.prefix_append ..).trans hx.credit.transit.served) hhandled,
      List.getElem?_eq_getElem hp]
    exact getElem?_grown hgrown (List.getElem?_eq_getElem hp)
  refine ⟨hmessages, fun n call hn hcall => ?_, fun g p hg hduring hp => ?_⟩
  · obtain ⟨g, hg, hcall⟩ := hdirect (hx₁.credit.asked.live herror) n call hn hcall
    obtain ⟨p, hp⟩ := List.getElem?_of_mem hg
    obtain ⟨hlt, hhandled⟩ := hmessages p (List.getElem?_eq_some_iff.mp hp).1
    exact ⟨p, g, hlt, hhandled.trans hp, hcall⟩
  · exact event_before ((List.prefix_append ..).trans hx.heard) hx.credit.answers.order hdone hg
      hduring (Nat.le_of_lt hp)

/-- A ping is answered with a tick before the roundtrip is over. -/
def pinged : List Action := binding ++ [.client (.send 0 1 [])]

def ticked : List Action :=
  [.serverReads 2, .server .handle, .server (.emit 0 0 []), .server .return_, .server .handle,
    .server .finish, .clientReads 0 2, .client (.handle 0), .client (.return_ 0),
    .client (.handle 0), .client (.finish 0)]

theorem roundtrip_is_barrier_pinged : ∃ x₁ x,
    Run.run step (start [shopProtocol]) pinged = some x₁ ∧
      Run.run step x₁ (.client (.roundtrip 0) :: ticked) = some x ∧ Barrier x₁ x :=
  ⟨_, _, rfl, rfl, @roundtrip_is_barrier _ _ [shopProtocol] pinged ticked (by decide) rfl rfl
    (by simp [ticked]) (Option.isSome_iff_ne_none.mp rfl) (by decide)⟩

/-- An item is made and drawn. The drawing waits for the item. -/
def drawing : List Action := binding ++ [.client (.send 0 0 []), .client (.send 1 0 [])]

def drawn : List Action :=
  [.serverReads 2, .server .handle, .server .return_, .server .handle, .server .finish,
    .clientReads 0 2, .client (.handle 0), .client (.handle 0), .client (.finish 0)]

/-- The roundtrip can return, and the drawing has only just been sent. -/
theorem not_always_all_handled : ¬ ∀ (impls : List ProtocolSpec) (as₁ as₂ : List Action)
    (x₁ x : Connection), (∀ a ∈ as₁ ++ .client (.roundtrip 0) :: as₂, a.OneQueue) →
      Run.run step (start impls) as₁ = some x₁ →
      Run.run step x₁ (.client (.roundtrip 0) :: as₂) = some x →
      (∀ a ∈ as₂, a ≠ .client (.roundtrip 0)) → x.client.step (.roundtripReturn 0) ≠ none →
      AllHandled x₁ x := by
  intro h
  obtain ⟨x₁, x, h₁, h₂, hreturns, hcalls, hhandled⟩ : ∃ x₁ x,
      Run.run step (start [shopProtocol]) drawing = some x₁ ∧
        Run.run step x₁ (.client (.roundtrip 0) :: drawn) = some x ∧
        (x.client.step (.roundtripReturn 0)).isSome = true ∧ x₁.client.calls.length = 2 ∧
        (x.server.handled.filterMap C2S.generic?).map Generic.call = [0] :=
    ⟨_, _, rfl, rfl, rfl, rfl, rfl⟩
  obtain ⟨p, g, -, hp, hcall⟩ := h [shopProtocol] drawing drawn x₁ x (by decide) h₁ h₂
    (by simp [drawn]) (Option.isSome_iff_ne_none.mp hreturns) 1 (by rw [hcalls]; decide)
  have hin : 1 ∈ (x.server.handled.filterMap C2S.generic?).map Generic.call :=
    List.mem_map.mpr ⟨g, List.mem_filterMap.mpr ⟨_, List.mem_of_getElem? hp, rfl⟩, hcall⟩
  rw [hhandled] at hin
  cases List.mem_singleton.mp hin

end Connection

end Hyprwire
