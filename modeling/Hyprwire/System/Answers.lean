import Hyprwire.System.Turn

/-!
# `System/Answers.lean` — how a server acknowledges roundtrips

A server has one cell for the request it is to acknowledge. A later request overwrites it, and it
is cleared when the acknowledgement is sent, behind the batch. Nothing is acknowledged that was not
asked for, or before everything up to the request was handled (`Answers`); and of the requests that
were handled, the last is acknowledged or scheduled.
-/

namespace Hyprwire.Server

open History

variable {s s' : Server}

/-- How many messages were handled to the end: not the one whose callback runs. -/
def complete (s : Server) : Nat :=
  match s.phase with
  | .callback _ _ _ => s.handled.length - 1
  | _ => s.handled.length

theorem complete_le (s : Server) : s.complete ≤ s.handled.length := by
  unfold complete
  split
  · exact Nat.sub_le ..
  · exact Nat.le_refl _

theorem complete_of_batch {rest : List C2S} (h : s.phase = .batch rest) :
    s.complete = s.handled.length := by
  rw [complete, h]

/-- An event is emitted while the message at the end is being handled, or none is. -/
theorem during_eq (s : Server) : s.during = none ∨
    ((∃ rest k method, s.phase = .callback rest k method) ∧ s.during = some (s.handled.length - 1)) := by
  unfold during
  cases hphase : s.phase with
  | callback rest k method => exact .inr ⟨⟨rest, k, method, rfl⟩, rfl⟩
  | _ => exact .inl rfl

theorem complete_mono {a : Action} (h : step s a = some s') : s.complete ≤ s'.complete := by
  have hge : ∀ {t : Server}, t.handled.length - 1 ≤ t.complete := by
    intro t
    unfold complete
    split
    · exact Nat.le_refl _
    · exact Nat.sub_le ..
  cases progress h with
  | read batch hidle hopen heq =>
    subst heq
    exact s.complete_le
  | handled msg rest hbatch hhandled hphase =>
    refine Nat.le_trans (Nat.le_of_eq (complete_of_batch hbatch))
      (Nat.le_trans (Nat.le_of_eq ?_) hge)
    rw [hhandled, List.length_append, List.length_singleton, Nat.add_sub_cancel]
  | still _ hhandled hread hhandle hphase =>
    rcases hphase with ⟨-, -, hcallback⟩ | ⟨left, hleft⟩
    · cases hphase' : s'.phase with
      | callback rest k method =>
        refine Nat.le_of_eq ?_
        rw [complete, complete, hphase', hcallback rest k method hphase', hhandled]
      | _ =>
        refine Nat.le_trans s.complete_le (Nat.le_of_eq ?_)
        rw [complete, hphase', hhandled]
    · refine Nat.le_trans s.complete_le (Nat.le_of_eq ?_)
      rw [complete, hleft, hhandled]

/-- What becomes of the cell. -/
inductive Scheduling (s s' : Server) (a : Action) : Prop
  | same (hseq : s'.scheduledRoundtripSeq = s.scheduledRoundtripSeq)
      (hrequest : s'.scheduledRequest = s.scheduledRequest)
      (hother : ∀ seq q rest, a = .handle → s.phase ≠ .batch (.roundtripRequest seq q :: rest))
      (hfinish : a ≠ .finish)
  | schedules (seq q : Nat) (rest : List C2S) (ha : a = .handle)
      (hbatch : s.phase = .batch (.roundtripRequest seq q :: rest))
      (hseq : s'.scheduledRoundtripSeq = seq) (hrequest : s'.scheduledRequest = s.handled.length)
      (hout : s'.out = s.out)
  | clears (ha : a = .finish) (hbatch : s.phase = .batch []) (hseq : s'.scheduledRoundtripSeq = 0)
      (hrequest : s'.scheduledRequest = s.scheduledRequest)
      (hout : s.shut = false → 0 < s.scheduledRoundtripSeq →
        s'.out = s.out ++ [.roundtripDone s.scheduledRoundtripSeq s.scheduledRequest])

theorem onGeneric_scheduled (s : Server) (msg : Generic) (rest : List C2S) :
    (s.onGeneric msg rest).scheduledRoundtripSeq = s.scheduledRoundtripSeq ∧
      (s.onGeneric msg rest).scheduledRequest = s.scheduledRequest := by
  have hnote : ∀ k method, (s.note k method).scheduledRoundtripSeq = s.scheduledRoundtripSeq ∧
      (s.note k method).scheduledRequest = s.scheduledRequest := by
    intro k method
    rw [note_eq]
    exact ⟨rfl, rfl⟩
  have hdelivered := delivered s msg rest
  generalize s.onGeneric msg rest = t at hdelivered
  cases hdelivered with
  | unknown hfind =>
    exact ⟨(Aside.write ..).scheduledRoundtripSeq, (Aside.write ..).scheduledRequest⟩
  | silent k hfind hquiet =>
    simp only [afterDispatch_eq]
    split <;> exact hnote ..
  | called k hfind hcalls => exact hnote ..
  | made k m hfind hcalls hm hret =>
    rw [createObject_eq]
    exact hnote ..

theorem scheduling {a : Action} (h : step s a = some s') : Scheduling s s' a := by
  have haside : ∀ {a : Action}, Aside s s' → (∀ seq q rest, a = .handle →
      s.phase ≠ .batch (.roundtripRequest seq q :: rest)) → a ≠ .finish → Scheduling s s' a :=
    fun haside hother hfinish =>
      .same haside.scheduledRoundtripSeq haside.scheduledRequest hother hfinish
  have habort : ∀ errorMsg, (s.abort errorMsg).scheduledRoundtripSeq = s.scheduledRoundtripSeq ∧
      (s.abort errorMsg).scheduledRequest = s.scheduledRequest := fun errorMsg =>
    have haside := Aside.write s (.fatalProtocolError 0 (wordSize - 1) errorMsg)
    ⟨haside.scheduledRoundtripSeq, haside.scheduledRequest⟩
  cases a with
  | emit k method args =>
    simp only [step, Option.ite_none_right_eq_some, Option.some.injEq] at h
    exact haside (h.2 ▸ .call ..) (by simp) (by simp)
  | error k errorId errorMsg =>
    simp only [step, Option.ite_none_right_eq_some, Option.some.injEq] at h
    exact haside (h.2 ▸ .objectError ..) (by simp) (by simp)
  | read batch =>
    simp only [step, Option.ite_none_right_eq_some, Option.some.injEq] at h
    exact h.2 ▸ .same rfl rfl (by simp) (by simp)
  | handle =>
    obtain ⟨msg, rest, hphase, rfl⟩ := step_handle h
    have hother : (∀ seq q, msg ≠ .roundtripRequest seq q) → ∀ seq q rest', Action.handle = .handle →
        s.phase ≠ .batch (.roundtripRequest seq q :: rest') := by
      intro hne seq q rest' _ hphase'
      rw [hphase] at hphase'
      cases hphase'
      exact hne seq q rfl
    cases msg with
    | sup =>
      have hwrite := Aside.write (s.heard .sup rest) (.handshakeBegin [1])
      exact .same hwrite.scheduledRoundtripSeq hwrite.scheduledRequest (hother (by simp)) (by simp)
    | handshakeAck version =>
      have hwrite := Aside.write (s.heard (.handshakeAck version) rest)
        (.handshakeProtocols (s.impls.map fun imp => (imp.specName, imp.specVer.toNat)))
      exact .same hwrite.scheduledRoundtripSeq hwrite.scheduledRequest (hother (by simp)) (by simp)
    | bindProtocol seq version protocol =>
      by_cases hversion : version = 0
      · subst hversion
        have hwrite := Aside.write (s.heard (.bindProtocol seq 0 protocol) rest)
          (.fatalProtocolError 0 (wordSize - 1) "fatal: failed to handle message on wire")
        exact .same hwrite.scheduledRoundtripSeq hwrite.scheduledRequest (hother (by simp)) (by simp)
      · obtain ⟨phase, -, heq⟩ := handle_bind s seq protocol rest hversion
        rw [heq, createObject_eq]
        exact .same rfl rfl (hother (by simp)) (by simp)
    | generic g =>
      have hsame := onGeneric_scheduled (s.heard (.generic g) rest) g rest
      exact .same hsame.1 hsame.2 (hother (by simp)) (by simp)
    | roundtripRequest seq q =>
      refine .schedules seq q rest rfl hphase rfl ?_ rfl
      simp [handle]
  | return_ =>
    simp only [step] at h
    split at h
    · cases h
      unfold returned
      split
      · simp only [afterDispatch_eq]
        split <;> exact .same rfl rfl (by simp) (by simp)
      · exact .same rfl rfl (by simp) (by simp)
    · cases h
      exact .same rfl rfl (by simp) (by simp)
    · cases h
  | malformed =>
    simp only [step] at h
    split at h
    · cases h
      exact .same (habort _).1 (habort _).2 (by simp) (by simp)
    · cases h
  | finish =>
    simp only [step] at h
    split at h
    · next hphase =>
      cases h
      refine .clears rfl hphase ?_ ?_ fun hshut hpos => ?_
      · unfold finish acknowledge
        by_cases hpos : 0 < s.scheduledRoundtripSeq
        · simp only [hpos, if_true]
          split <;> rfl
        · simp only [hpos, if_false]
          split <;> exact Nat.eq_zero_of_not_pos hpos
      · unfold finish acknowledge
        have hwrite := Aside.write s (.roundtripDone s.scheduledRoundtripSeq s.scheduledRequest)
        by_cases hpos : 0 < s.scheduledRoundtripSeq
        · simp only [hpos, if_true]
          split <;> exact hwrite.scheduledRequest
        · simp only [hpos, if_false]
          split <;> rfl
      · have hout : s.finish.out = s.acknowledge.out := by
          unfold finish
          simp only
          split <;> rfl
        rw [hout, acknowledge, if_pos hpos]
        exact (write_out ..).trans (if_neg (by simp [hshut]))
    · cases h
  | unreadable =>
    simp only [step, Option.ite_none_right_eq_some, Option.some.injEq] at h
    exact h.2 ▸ .same (habort _).1 (habort _).2 (by simp) (by simp)
  | hangup =>
    simp only [step, Option.ite_none_right_eq_some, Option.some.injEq] at h
    exact h.2 ▸ .same rfl rfl (by simp) (by simp)
  | remove =>
    simp only [step, Option.ite_none_right_eq_some, Option.some.injEq] at h
    exact h.2 ▸ .same rfl rfl (by simp) (by simp)
  | visit =>
    simp only [step] at h
    split at h
    · cases h
      unfold visit
      split
      · exact .same rfl rfl (by simp) (by simp)
      · simp only
        split <;> exact .same rfl rfl (by simp) (by simp)
    · cases h
      exact .same rfl rfl (by simp) (by simp)
    · cases h

/-! ## The invariant -/

/-- What stands behind an acknowledgement: that of a later request, and events emitted for a later
message. -/
def Behind (msg msg' : S2C) : Prop :=
  ∀ t p, msg = .roundtripDone t p → (∀ t' p', msg' = .roundtripDone t' p' → p < p') ∧
    ∀ g d, msg' = .generic g → g.during = some d → p < d

/-- **What is acknowledged was asked for**, and everything up to it was handled. -/
structure Answers (s : Server) : Prop where
  opened : s.Open
  asked : s.scheduledRoundtripSeq ≠ 0 →
    ∃ q, s.handled[s.scheduledRequest]? = some (.roundtripRequest s.scheduledRoundtripSeq q)
  answered : ∀ t p, .roundtripDone t p ∈ s.out →
    p < s.complete ∧ ∃ q, s.handled[p]? = some (.roundtripRequest t q)
  later : s.scheduledRoundtripSeq ≠ 0 → ∀ t p, .roundtripDone t p ∈ s.out → p < s.scheduledRequest
  order : s.out.Pairwise Behind
  latest : (∀ q, .roundtripRequest 0 q ∉ s.handled) → ∀ p t q,
    s.handled[p]? = some (.roundtripRequest t q) →
      (s.scheduledRoundtripSeq ≠ 0 ∧ p ≤ s.scheduledRequest) ∨
        ∃ t' p', .roundtripDone t' p' ∈ s.out ∧ p ≤ p'

theorem Answers.init (impls : List ProtocolSpec) : Answers { impls } where
  opened := open_of_shut rfl
  asked h := absurd rfl h
  answered _ _ h := by cases h
  later h := absurd rfl h
  order := .nil
  latest _ _ _ _ h := by simp at h

/-- A message that has just been handled was the first of its batch. -/
theorem handled_new {a : Action} (h : step s a = some s') {p : Nat} {msg : C2S}
    (hp : s'.handled[p]? = some msg) :
    s.handled[p]? = some msg ∨
      (p = s.handled.length ∧ a = .handle ∧ ∃ rest, s.phase = .batch (msg :: rest)) := by
  cases progress h with
  | read batch hidle hopen heq =>
    subst heq
    exact .inl hp
  | handled msg₀ rest hbatch hhandled hphase =>
    rw [hhandled] at hp
    rcases Nat.lt_or_ge p s.handled.length with hlt | hge
    · rw [List.getElem?_append_left hlt] at hp
      exact .inl hp
    · rw [List.getElem?_append_right hge] at hp
      obtain ⟨hlt, heq⟩ := List.getElem?_eq_some_iff.mp hp
      have hzero : p - s.handled.length = 0 := Nat.lt_one_iff.mp hlt
      refine .inr ⟨Nat.le_antisymm (Nat.le_of_sub_eq_zero hzero) hge, rfl, rest, ?_⟩
      simp only [hzero, List.getElem_cons_zero] at heq
      exact heq ▸ hbatch
  | still _ hhandled hread hhandle hphase => exact .inl (hhandled ▸ hp)

theorem Answers.step {a : Action} (hs : Answers s) (h : step s a = some s') : Answers s' := by
  have hhandled := handled_of_step h
  have hcomplete := complete_mono h
  have hscheduling := scheduling h
  have hspeaks := speaks h
  have hlt : s.scheduledRoundtripSeq ≠ 0 → s.scheduledRequest < s.handled.length := by
    intro hne
    obtain ⟨q, hq⟩ := hs.asked hne
    exact (List.getElem?_eq_some_iff.mp hq).1
  -- an acknowledgement was there before, or answers what was scheduled
  have hdone : ∀ t p, .roundtripDone t p ∈ s'.out → .roundtripDone t p ∈ s.out ∨
      (a = .finish ∧ s.phase = .batch [] ∧ s.scheduledRoundtripSeq ≠ 0 ∧
        t = s.scheduledRoundtripSeq ∧ p = s.scheduledRequest) := by
    intro t p hin
    rcases hspeaks with heq | ⟨msg, hmsg, heq⟩
    · exact .inl (heq ▸ hin)
    · rw [heq] at hin
      rcases List.mem_append.mp hin with hin | hin
      · exact .inl hin
      · rw [← List.mem_singleton.mp hin] at hmsg
        cases hmsg with
        | greets _ hgeneric hintro hnew => cases hintro
        | acknowledges hbatch hpos =>
          exact .inr ⟨rfl, hbatch, Nat.pos_iff_ne_zero.mp hpos, rfl, rfl⟩
  refine ⟨hs.opened.step h, fun hne => ?_, fun t p hin => ?_, fun hne t p hin => ?_, ?_,
    fun hzero p t q hp => ?_⟩
  · cases hscheduling with
    | same hseq hrequest _ _ =>
      rw [hseq] at hne ⊢
      rw [hrequest]
      obtain ⟨q, hq⟩ := hs.asked hne
      exact ⟨q, getElem?_grown hhandled hq⟩
    | schedules seq q rest ha hbatch hseq hrequest hout =>
      subst ha
      obtain ⟨msg, rest', hphase, rfl⟩ := step_handle h
      rw [hbatch] at hphase
      cases hphase
      refine ⟨q, ?_⟩
      rw [hseq, hrequest]
      exact List.getElem?_concat_length
    | clears _ _ hseq _ _ => exact absurd hseq hne
  · rcases hdone t p hin with hold | ⟨-, hbatch, hne, rfl, rfl⟩
    · obtain ⟨hp, q, hq⟩ := hs.answered t p hold
      exact ⟨Nat.lt_of_lt_of_le hp hcomplete, q, getElem?_grown hhandled hq⟩
    · obtain ⟨q, hq⟩ := hs.asked hne
      refine ⟨Nat.lt_of_lt_of_le ?_ hcomplete, q, getElem?_grown hhandled hq⟩
      rw [complete_of_batch hbatch]
      exact hlt hne
  · cases hscheduling with
    | same hseq hrequest _ hfinish =>
      rw [hseq] at hne
      rw [hrequest]
      rcases hdone t p hin with hold | ⟨ha, -⟩
      · exact hs.later hne t p hold
      · exact absurd ha hfinish
    | schedules seq q rest ha hbatch hseq hrequest hout =>
      rw [hrequest]
      rw [hout] at hin
      exact Nat.lt_of_lt_of_le (hs.answered t p hin).1 s.complete_le
    | clears _ _ hseq _ _ => exact absurd hseq hne
  · rcases hspeaks with heq | ⟨msg, hmsg, heq⟩
    · exact heq ▸ hs.order
    · rw [heq]
      refine pairwise_append_one hs.order fun old hold => ?_
      rintro t p rfl
      refine ⟨fun t' p' hmsg' => ?_, fun g d hmsg' hduring => ?_⟩
      · subst hmsg'
        cases hmsg with
        | greets _ hgeneric hintro hnew => cases hintro
        | acknowledges hbatch hpos => exact hs.later (Nat.pos_iff_ne_zero.mp hpos) t p hold
      · subst hmsg'
        cases hmsg with
        | event k method m args hk hm hlive =>
          rcases s.during_eq with hnone | ⟨⟨rest, k', method', hphase⟩, hsome⟩
          · rw [hnone] at hduring
            cases hduring
          · rw [hsome] at hduring
            cases hduring
            have hp := (hs.answered t p hold).1
            rwa [complete, hphase] at hp
        | greets _ hgeneric hintro hnew => cases hintro
  · have hzero' : ∀ q, .roundtripRequest 0 q ∉ s.handled := fun q hin => hzero q (hhandled.subset hin)
    have hkeep : (∃ t' p', .roundtripDone t' p' ∈ s.out ∧ p ≤ p') →
        ∃ t' p', .roundtripDone t' p' ∈ s'.out ∧ p ≤ p' := by
      rintro ⟨t', p', hin, hle⟩
      exact ⟨t', p', (out_of_step h).subset hin, hle⟩
    cases hscheduling with
    | same hseq hrequest hother _ =>
      rw [hseq, hrequest]
      rcases handled_new h hp with hold | ⟨-, ha, rest, hbatch⟩
      · exact (hs.latest hzero' p t q hold).imp id hkeep
      · exact absurd hbatch (hother t q rest ha)
    | schedules seq q' rest ha hbatch hseq hrequest hout =>
      rw [hseq, hrequest]
      have hle : p ≤ s.handled.length := by
        rcases handled_new h hp with hold | ⟨heq, -⟩
        · exact Nat.le_of_lt (List.getElem?_eq_some_iff.mp hold).1
        · exact Nat.le_of_eq heq
      refine .inl ⟨fun hseq₀ => ?_, hle⟩
      subst ha hseq₀
      obtain ⟨msg, rest', hphase, rfl⟩ := step_handle h
      rw [hbatch] at hphase
      cases hphase
      exact hzero q' (List.mem_append.mpr (.inr (List.mem_singleton_self _)))
    | clears ha hbatch hseq hrequest hout =>
      rcases handled_new h hp with hold | ⟨-, ha', -⟩
      · rcases hs.latest hzero' p t q hold with ⟨hne, hle⟩ | hdone'
        · refine .inr ⟨s.scheduledRoundtripSeq, s.scheduledRequest, ?_, hle⟩
          have hshut : s.shut = false := by
            cases hshut : s.shut with
            | false => rfl
            | true =>
              have := (hs.opened hshut).1
              rw [hbatch] at this
              cases this
          rw [hout hshut (Nat.pos_of_ne_zero hne)]
          exact List.mem_append.mpr (.inr (List.mem_singleton_self _))
        · exact .inr (hkeep hdone')
      · rw [ha] at ha'
        cases ha'

/-! ## Replies -/

/-- What a message is answered with by itself was sent. A bind of version 0 is not decoded. -/
def Replies (s : Server) : C2S → Prop
  | .sup => .handshakeBegin [1] ∈ s.out
  | .handshakeAck _ =>
    .handshakeProtocols (s.impls.map fun imp => (imp.specName, imp.specVer.toNat)) ∈ s.out
  | .bindProtocol seq version _ => version = 0 ∨ ∃ id, .newObject seq id ∈ s.out
  | _ => True

/-- **Nothing is left to say**: every message that was handled has its reply, and every object was
announced. -/
structure Replied (s : Server) : Prop where
  opened : s.Open
  replies : ∀ msg ∈ s.handled, s.Replies msg
  announced : ∀ k, k < s.size → .newObject (s.objects k).seq (s.objects k).id ∈ s.out

theorem Replied.init (impls : List ProtocolSpec) : Replied { impls } where
  opened := open_of_shut rfl
  replies _ h := by cases h
  announced _ h := absurd h (Nat.not_lt_zero _)

theorem Replies.mono (himpls : s'.impls = s.impls) (hout : ∀ msg, msg ∈ s.out → msg ∈ s'.out)
    {msg : C2S} (h : s.Replies msg) : s'.Replies msg := by
  cases msg with
  | sup => exact hout _ h
  | handshakeAck version =>
    simp only [Replies, himpls] at h ⊢
    exact hout _ h
  | bindProtocol seq version protocol =>
    exact h.imp id fun ⟨id, hid⟩ => ⟨id, hout _ hid⟩
  | generic _ | roundtripRequest _ _ => exact trivial

/-- Nothing new was handled but what is replied to, and no object made. -/
theorem Replied.still {s₁ : Server} (hs : Replied s) (ho : s'.Open) (h : Still s₁ s')
    (himpls : s₁.impls = s.impls) (hout : ∀ msg, msg ∈ s.out → msg ∈ s₁.out)
    (hhandled : ∀ msg ∈ s₁.handled, msg ∈ s.handled ∨ s'.Replies msg)
    (hobjects : ∀ k, k < s₁.size → .newObject (s₁.objects k).seq (s₁.objects k).id ∈ s₁.out) :
    Replied s' := by
  obtain ⟨more, hmore, -⟩ := h.out
  have hgrow : ∀ msg, msg ∈ s₁.out → msg ∈ s'.out := fun msg hmsg => by
    rw [hmore]
    exact List.mem_append.mpr (.inl hmsg)
  refine ⟨ho, fun msg hmsg => ?_, fun k hk => ?_⟩
  · rw [h.handled] at hmsg
    rcases hhandled msg hmsg with hold | hnew
    · exact Replies.mono (h.impls.trans himpls) (fun msg hm => hgrow msg (hout msg hm))
        (hs.replies msg hold)
    · exact hnew
  · rw [(h.objects k).seq, (h.objects k).id]
    exact hgrow _ (hobjects k (h.size ▸ hk))

/-- An object is made for a message, and announced. -/
theorem Replied.created (hs : Replied s) (hlive : ¬ s.shut = true) {msg : C2S} {rest : List C2S}
    {protocol objectName : String} {version seq : Nat} (ho : s'.Open)
    (h : Still ((s.heard msg rest).createObject protocol objectName version seq) s')
    (hmsg : (∃ id, .newObject seq id ∈ s'.out) → s'.Replies msg) : Replied s' := by
  have hout : ((s.heard msg rest).createObject protocol objectName version seq).out =
      s.out ++ [.newObject seq s.maxId] := by
    rw [createObject_eq]
    exact if_neg hlive
  have hin : .newObject seq s.maxId ∈
      ((s.heard msg rest).createObject protocol objectName version seq).out := by
    rw [hout]
    exact List.mem_append.mpr (.inr (List.mem_singleton_self _))
  refine hs.still ho h ?_ (fun m hm => ?_) (fun m hm => ?_) fun k hk => ?_
  · rw [createObject_eq]
    rfl
  · rw [hout]
    exact List.mem_append.mpr (.inl hm)
  · rw [createObject_eq] at hm
    rcases List.mem_append.mp hm with hm | hm
    · exact .inl hm
    · rw [List.mem_singleton.mp hm]
      obtain ⟨more, hmore, -⟩ := h.out
      refine .inr (hmsg ⟨s.maxId, ?_⟩)
      rw [hmore]
      exact List.mem_append.mpr (.inl hin)
  · by_cases hnew : k = s.size
    · have hobj : ((s.heard msg rest).createObject protocol objectName version seq).objects s.size =
          (s.heard msg rest).created protocol objectName version seq := by
        rw [createObject_eq]
        exact if_pos rfl
      rw [hnew, hobj]
      exact hin
    · have hold : k < s.size := by
        rw [createObject_eq] at hk
        exact Nat.lt_of_le_of_ne (Nat.le_of_lt_succ hk) hnew
      have hannounced : .newObject (s.objects k).seq (s.objects k).id ∈
          ((s.heard msg rest).createObject protocol objectName version seq).out := by
        rw [hout]
        exact List.mem_append.mpr (.inl (hs.announced k hold))
      rw [createObject_eq] at hannounced ⊢
      simpa [heard, hnew] using hannounced

/-- What is answered in writing. -/
theorem Replied.written (hs : Replied s) (hlive : ¬ s.shut = true) {msg : C2S} {rest : List C2S}
    {reply : S2C} {version : Nat} (h : s' = { (s.heard msg rest).write reply with version })
    (ho : s'.Open) (hmsg : reply ∈ s'.out → s'.Replies msg) : Replied s' := by
  have hout : s'.out = s.out ++ [reply] := by
    rw [h]
    exact (write_out ..).trans (if_neg hlive)
  obtain ⟨out, heq⟩ := write_eq (s.heard msg rest) reply
  rw [heq] at h
  refine hs.still ho (.refl _) (by rw [h]; rfl) (fun m hm => ?_) (fun m hm => ?_) fun k hk => ?_
  · rw [hout]
    exact List.mem_append.mpr (.inl hm)
  · rw [h] at hm
    rcases List.mem_append.mp hm with hm | hm
    · exact .inl hm
    · rw [List.mem_singleton.mp hm]
      refine .inr (hmsg ?_)
      rw [hout]
      exact List.mem_append.mpr (.inr (List.mem_singleton_self _))
  · rw [hout]
    subst h
    exact List.mem_append.mpr (.inl (hs.announced k hk))

/-- A message that has no reply of its own. -/
theorem Replied.unanswered (hs : Replied s) {msg : C2S} {rest : List C2S} (ho : s'.Open)
    (h : Still (s.heard msg rest) s') (hmsg : s'.Replies msg) : Replied s' := by
  refine hs.still ho h rfl (fun _ hm => hm) (fun m hm => ?_) hs.announced
  rcases List.mem_append.mp hm with hm | hm
  · exact .inl hm
  · exact .inr (List.mem_singleton.mp hm ▸ hmsg)

theorem Replied.step {a : Action} (hs : Replied s) (h : step s a = some s') : Replied s' := by
  have ho := hs.opened.step h
  by_cases ha : a = .handle
  · subst ha
    obtain ⟨msg, rest, hphase, rfl⟩ := step_handle h
    have hlive : ¬ s.shut = true := by
      intro hshut
      have := (hs.opened hshut).1
      rw [hphase] at this
      cases this
    cases msg with
    | sup =>
      have hsup : s.handle .sup rest =
          { (s.heard .sup rest).write (.handshakeBegin [1]) with
            version := ((s.heard .sup rest).write (.handshakeBegin [1])).version } := rfl
      exact hs.written hlive hsup ho id
    | handshakeAck version =>
      have hack : s.handle (.handshakeAck version) rest =
          { (s.heard (.handshakeAck version) rest).write (.handshakeProtocols
              (s.impls.map fun imp => (imp.specName, imp.specVer.toNat))) with version } := rfl
      refine hs.written hlive hack ho fun hin => ?_
      have himpls : (s.handle (.handshakeAck version) rest).impls = s.impls :=
        (Aside.write (s.heard (.handshakeAck version) rest) _).impls
      rwa [Replies, himpls]
    | bindProtocol seq version protocol =>
      by_cases hversion : version = 0
      · subst hversion
        have habort : Still (s.heard (.bindProtocol seq 0 protocol) rest)
            (s.handle (.bindProtocol seq 0 protocol) rest) := .abort ..
        exact hs.unanswered ho habort (.inl rfl)
      · obtain ⟨phase, -, heq⟩ := handle_bind s seq protocol rest hversion
        have hcreated : Still ((s.heard (.bindProtocol seq version protocol) rest).createObject
            protocol "" version seq) (s.handle (.bindProtocol seq version protocol) rest) := by
          rw [heq]
          exact { Still.refl _ with }
        exact hs.created hlive ho hcreated .inr
    | generic g =>
      rcases onGeneric_still (s.heard (.generic g) rest) g rest with
        hstill | ⟨k, m, -, -, -, -, hstill⟩
      · exact hs.unanswered ho hstill trivial
      · exact hs.created hlive ho hstill fun _ => trivial
    | roundtripRequest seq queue =>
      have hstill : Still (s.heard (.roundtripRequest seq queue) rest)
          (s.handle (.roundtripRequest seq queue) rest) := { Still.refl _ with }
      exact hs.unanswered ho hstill trivial
  · exact hs.still ho (still_of_step h ha) rfl (fun _ hm => hm) (fun _ hm => .inl hm) hs.announced

end Hyprwire.Server
