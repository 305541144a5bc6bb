import Mathlib.Data.List.Find
import Hyprwire.Lib.History
import Hyprwire.System.Move

/-!
# `System/Ledger.lean` — what a client keeps true whatever it hears

No assumption on the server, the user or the counter. Every object with an id got it from a
`NewObject` for its seq; every object without one is in the table; an entry of a queue and a
generic message on the wire are the calls they are on record as (`Ledger`). The record itself
only grows (`Later`): what was created, sent or heard stays so.
-/

namespace Hyprwire.Client

open History

variable {c c' c'' : Client} {R : Rely}

/-! ## What later states keep -/

/-- The same object at a later time. -/
structure LaterObject (old new : ClientObject) : Prop where
  seq : new.seq = old.seq
  version : new.version = old.version
  protocolName : new.protocolName = old.protocolName
  spec : new.spec = old.spec
  eventQueue : new.eventQueue = old.eventQueue
  destroyed : old.destroyed = true → new.destroyed = true

/-- **A later state** of a client. -/
structure Later (c c' : Client) : Prop where
  impls : c'.impls = c.impls
  size : c.size ≤ c'.size
  objects : ∀ i, i < c.size → LaterObject (c.objects i) (c'.objects i)
  table : ∀ i ∈ c'.table, i ∈ c.table ∨ c.size ≤ i
  shut : c.shut = true → c'.shut = true
  out : c.out <+: c'.out
  issued : c.issued ≤ c'.issued
  calls : c.calls <+: c'.calls
  handled : c.handled <+: c'.handled
  destructed : c.destructed <+: c'.destructed

theorem SameObject.later {old new : ClientObject} (h : SameObject old new) :
    LaterObject old new :=
  ⟨h.seq, h.version, h.protocolName, h.spec, h.eventQueue, h.destroyed⟩

theorem LaterObject.refl (obj : ClientObject) : LaterObject obj obj := (SameObject.refl obj).later

theorem LaterObject.trans {x y z : ClientObject} (h : LaterObject x y) (h' : LaterObject y z) :
    LaterObject x z where
  seq := h'.seq.trans h.seq
  version := h'.version.trans h.version
  protocolName := h'.protocolName.trans h.protocolName
  spec := h'.spec.trans h.spec
  eventQueue := h'.eventQueue.trans h.eventQueue
  destroyed hx := h'.destroyed (h.destroyed hx)

theorem Later.refl (c : Client) : Later c c where
  impls := rfl
  size := Nat.le_refl _
  objects _ _ := .refl _
  table _ h := .inl h
  shut h := h
  out := List.prefix_refl _
  issued := Nat.le_refl _
  calls := List.prefix_refl _
  handled := List.prefix_refl _
  destructed := List.prefix_refl _

theorem Later.trans (h : Later c c') (h' : Later c' c'') : Later c c'' where
  impls := h'.impls.trans h.impls
  size := Nat.le_trans h.size h'.size
  objects i hi := (h.objects i hi).trans (h'.objects i (Nat.lt_of_lt_of_le hi h.size))
  table i hi := by
    rcases h'.table i hi with hi | hi
    · exact h.table i hi
    · exact .inr (Nat.le_trans h.size hi)
  shut hs := h'.shut (h.shut hs)
  out := h.out.trans h'.out
  issued := Nat.le_trans h.issued h'.issued
  calls := h.calls.trans h'.calls
  handled := h.handled.trans h'.handled
  destructed := h.destructed.trans h'.destructed

theorem Tweak.later (h : Tweak c c') : Later c c' where
  impls := h.impls
  size := Nat.le_of_eq h.size.symm
  objects i _ := (h.objects i).later
  table _ hi := .inl (h.table ▸ hi)
  shut := h.shut
  out := prefix_of_eq h.out
  issued := Nat.le_of_eq h.issued.symm
  calls := prefix_of_eq h.calls
  handled := prefix_of_eq h.handled
  destructed := prefix_of_eq h.destructed

theorem write_prefix (c : Client) (msg : C2S) : c.out <+: (c.write msg).out := by
  rw [write_out]
  split
  · exact List.prefix_refl _
  · exact List.prefix_append ..

theorem later_write (c : Client) (msg : C2S) : Later c (c.write msg) := by
  have hout := write_prefix c msg
  obtain ⟨out, heq⟩ := write_eq c msg
  rw [heq] at hout ⊢
  exact { Later.refl c with out := hout }

theorem later_called (c : Client) (h method : Nat) (m : MethodSpec) (args : List CallArg)
    (made : Option ObjectSpec) : Later c (c.called h method m args made) := by
  have hgrows := grows_called c h method m args made
  have hframe := Frame.called c h method m args made
  have hgoes := goes_called c h method m args made
  refine ⟨hgrows.impls, hframe.size, fun i hi => (hgrows.objects i hi).later, hframe.table,
    fun hs => hframe.shut.trans hs, ?_, ?_, ?_, ?_, ?_⟩
  · cases hgoes with
    | lost _ _ _ hout _ => exact prefix_of_eq hout
    | queued _ _ hout _ => exact prefix_of_eq hout
    | written _ _ hout _ =>
      rw [hout]
      exact write_prefix ..
  · rw [called_issued]
    split
    · exact Nat.le_succ _
    · exact Nat.le_refl _
  · cases hgoes with
    | lost _ _ _ _ hcalls => exact prefix_of_eq hcalls
    | queued _ _ _ hcalls =>
      rw [hcalls]
      exact List.prefix_append ..
    | written _ _ _ hcalls =>
      rw [hcalls]
      exact List.prefix_append ..
  · exact prefix_of_eq hgrows.handled
  · exact prefix_of_eq hgrows.destructed

/-- The object of a bind. -/
def bound (c : Client) (q version : Nat) (proto : ProtocolSpec) (spec : ObjectSpec) :
    ClientObject :=
  { seq := c.nextSeq, version, protocolName := proto.specName, spec := some spec
    eventQueue := q }

/-- A bind makes an object and asks for it. -/
theorem bindProtocol_eq {q specVer version : Nat} {proto : ProtocolSpec}
    (h : c.bindProtocol q proto specVer version = some c') :
    ∃ spec, proto.objects.head? = some spec ∧
      c' = (c.fetchAdd.push (c.bound q version proto spec)).write
        (.bindProtocol c.nextSeq version proto.specName) := by
  unfold bindProtocol at h
  split at h
  · cases h
  · split at h
    · cases h
    · next spec hspec => exact ⟨spec, hspec, (Option.some.inj h).symm⟩

theorem later_push (c : Client) (obj : ClientObject) : Later c (c.push obj) where
  __ := Later.refl c
  size := Nat.le_succ _
  objects i hi := by
    simp only [push, Nat.ne_of_lt hi, if_false]
    exact .refl _
  table := (Frame.push c obj).table

theorem onSeq_eq (c : Client) (seq id : Nat) : ∃ f : ClientObject → ClientObject,
    (∀ obj, LaterObject obj (f obj)) ∧ ∃ h, c.onSeq seq id = c.setObject h f := by
  unfold onSeq
  split
  · exact ⟨fun obj => { obj with id }, fun _ => ⟨rfl, rfl, rfl, rfl, rfl, fun h => h⟩, _, rfl⟩
  · exact ⟨fun obj => obj, fun _ => .refl _, 0, by simp [setObject]⟩

/-- Every primitive change leads to a later state. -/
theorem Move.later (h : Move R c c') : Later c c' := by
  cases h with
  | tweak h => exact h.later
  | hear _ => exact { Later.refl c with handled := List.prefix_append .. }
  | acknowledge version => exact later_write ..
  | ask q _ =>
    have hset : ∀ f, Later c (c.setQueue q f) := fun f => { Later.refl c with }
    exact (hset _).trans (later_write ..)
  | acked q _ => exact { Later.refl c with }
  | bind q specVer version _ hbind =>
    obtain ⟨spec, -, rfl⟩ := bindProtocol_eq hbind
    have hfetch : Later c c.fetchAdd := { Later.refl c with issued := Nat.le_succ _ }
    exact hfetch.trans ((later_push _ _).trans (later_write ..))
  | call hcall => exact hcall.eq ▸ later_called ..
  | named _ _ =>
    obtain ⟨f, hf, h, heq⟩ := onSeq_eq c _ _
    rw [heq]
    refine { Later.refl c with objects := fun i _ => ?_ }
    simp only [setObject]
    split
    · exact hf _
    · exact .refl _
  | collect _ =>
    exact { Later.refl c with table := fun i hi => .inl (List.mem_filter.mp hi).1 }
  | destroy _ _ _ _ =>
    exact { Later.refl c with
      table := fun i hi => .inl (List.mem_filter.mp hi).1
      destructed := List.prefix_append .. }
  | flush q _ =>
    rw [flush_eq]
    refine { Later.refl c with out := ?_ }
    simp only
    split
    · exact List.prefix_refl _
    · exact List.prefix_append ..
  | dropQueue q _ => exact { Later.refl c with }

theorem Moves.later (h : Moves R c c') : Later c c' := by
  induction h with
  | refl => exact .refl _
  | tail _ hm ih => exact ih.trans hm.later

/-! ## What a primitive change adds -/

/-- What a flush finds: the first object of the seq, with its id. -/
theorem resolve_some {entry : Deferred} {g : Generic} (h : c.resolve entry = some g) :
    ∃ h, c.objectForSeq entry.dependsOnSeq = some h ∧ (c.objects h).id ≠ 0 ∧
      g = { entry.msg with object := (c.objects h).id } := by
  unfold resolve at h
  split at h
  · cases h
  · next h' hfind =>
    split at h
    · cases h
    · next hid => exact ⟨h', hfind, hid, (Option.some.inj h).symm⟩

/-- What a primitive change does to the wire and to the queues. -/
inductive Traffic (R : Rely) (c c' : Client) : Prop
  | quiet (hout : c'.out = c.out) (hqueues : ∀ q, (c'.queues q).queue.Sublist (c.queues q).queue)
  | tells (msg : C2S) (hgeneric : msg.generic? = none) (hcarries : msg.carries = none)
      (hout : c'.out = c.out ++ [msg]) (hqueues : ∀ q, (c'.queues q).queue = (c.queues q).queue)
  | binds (q : Nat) (proto : ProtocolSpec) (specVer version : Nat) (hproto : R.binds proto)
      (hbind : c.bindProtocol q proto specVer version = some c')
      (hout : c'.out = c.out ++ [.bindProtocol c.nextSeq version proto.specName])
      (hqueues : ∀ q, (c'.queues q).queue = (c.queues q).queue)
  | sends (h method : Nat) (m : MethodSpec) (args : List CallArg) (made : Option ObjectSpec)
      (hcall : IsCall R c c' h method m args made) (hid : (c.objects h).id ≠ 0)
      (hcalls : c'.calls = c.calls ++ [⟨h, method, false⟩])
      (hout : c'.out = c.out ++ [.generic (c.message h method m args)])
      (hqueues : ∀ q, (c'.queues q).queue = (c.queues q).queue)
  | defers (h method : Nat) (m : MethodSpec) (args : List CallArg) (made : Option ObjectSpec)
      (hcall : IsCall R c c' h method m args made) (hid : (c.objects h).id = 0)
      (hcalls : c'.calls = c.calls ++ [⟨h, method, true⟩]) (hout : c'.out = c.out)
      (hqueues : ∀ q, (c'.queues q).queue = (c.queues q).queue ++
        if q = (c.objects h).eventQueue then [⟨c.message h method m args, (c.objects h).seq⟩]
        else [])
  | flushes (q : Nat) (hflush : R.flushes c q) (heq : c' = c.flush q)
      (hout : c'.out = c.out ++ c.flushed q)
      (hqueues : ∀ q', (c'.queues q').queue =
        if q' = q then (c.queues q').queue.filter c.waits else (c.queues q').queue)

theorem queues_flush (c : Client) (q q' : Nat) :
    ((c.flush q).queues q').queue =
      if q' = q then (c.queues q').queue.filter c.waits else (c.queues q').queue := by
  rw [flush_queues]
  simp only [setQueue]
  split <;> rfl

theorem Move.traffic (h : Move R c c') : Traffic R c c' := by
  have hsub : ∀ {c' : Client}, c'.out = c.out → c'.queues = c.queues → Traffic R c c' :=
    fun hout hqueues => .quiet hout fun q => by rw [hqueues]
  have hwrite : ∀ (c : Client) (msg : C2S), (c.write msg).queues = c.queues ∧
      ((c.write msg).out = c.out ∨ (c.write msg).out = c.out ++ [msg]) := by
    intro c msg
    rw [write_out]
    obtain ⟨out, heq⟩ := write_eq c msg
    refine ⟨by rw [heq], ?_⟩
    split
    · exact .inl rfl
    · exact .inr rfl
  cases h with
  | tweak h => exact .quiet h.out fun q => by rw [(h.queues q).queue]
  | hear _ => exact hsub rfl rfl
  | acknowledge version =>
    obtain ⟨hqueues, hout | hout⟩ := hwrite c (.handshakeAck version)
    · exact hsub hout hqueues
    · exact .tells _ rfl rfl hout fun q => by rw [hqueues]
  | ask q _ =>
    obtain ⟨hqueues, hout⟩ := hwrite (c.setQueue q fun queue =>
      { queue with
        lastSent := ((c.queues q).lastSent + 1) % wordSize
        inRoundtrip := true, marked := c.out.length })
      (.roundtripRequest (((c.queues q).lastSent + 1) % wordSize) q)
    have hset : ∀ i, ((c.ask q).queues i).queue = (c.queues i).queue := by
      intro i
      have hi := congrFun hqueues i
      unfold Client.ask
      rw [hi]
      simp only [setQueue]
      split <;> rfl
    rcases hout with hout | hout
    · exact .quiet hout fun i => by rw [hset]
    · exact .tells _ rfl rfl hout hset
  | acked q _ =>
    refine .quiet rfl fun i => ?_
    simp only [setQueue]
    split <;> exact List.Sublist.refl _
  | bind q specVer version hproto hbind =>
    obtain ⟨spec, -, rfl⟩ := bindProtocol_eq hbind
    obtain ⟨hqueues, hout | hout⟩ := hwrite (c.fetchAdd.push (c.bound q version _ spec))
      (.bindProtocol c.nextSeq version _)
    · exact hsub hout hqueues
    · exact .binds q _ specVer version hproto hbind hout fun i => by rw [hqueues]; rfl
  | call hcall =>
    rename_i obj method m args made
    have hgoes := goes_called c obj method m args made
    rw [← hcall.eq] at hgoes
    cases hgoes with
    | lost _ _ hqueues hout _ => exact hsub hout hqueues
    | queued hid hqueues hout hcalls =>
      refine .defers obj method m args made hcall hid hcalls hout fun i => ?_
      rw [hqueues]
      simp only [defer, setQueue]
      split
      · rfl
      · exact (List.append_nil _).symm
    | written hid hqueues hout hcalls =>
      rcases (hwrite c (.generic (c.message obj method m args))).2 with hw | hw
      · exact hsub (hout.trans hw) hqueues
      · exact .sends obj method m args made hcall hid hcalls (hout.trans hw)
          fun i => by rw [hqueues]
  | named _ _ =>
    obtain ⟨f, -, h, heq⟩ := onSeq_eq c _ _
    rw [heq]
    exact hsub rfl rfl
  | collect _ => exact hsub rfl rfl
  | destroy _ _ _ _ => exact hsub rfl rfl
  | flush q hflush =>
    have hqueues := queues_flush c q
    by_cases hshut : c.shut = true
    · refine .quiet ?_ fun i => ?_
      · rw [flush_out, if_pos hshut]
      · rw [hqueues]
        split
        · exact List.filter_sublist
        · exact List.Sublist.refl _
    · exact .flushes q hflush rfl (by rw [flush_out, if_neg hshut]) hqueues
  | dropQueue q _ =>
    refine .quiet rfl fun i => ?_
    simp only [setQueue]
    split
    · exact List.nil_sublist _
    · exact List.Sublist.refl _

/-- A generic message on the wire was there before, or it is that of a call on an object with
an id, or it was in a queue. -/
theorem Move.sent (h : Move R c c') {g : Generic} (hg : .generic g ∈ c'.out) :
    .generic g ∈ c.out ∨
      (∃ h method m args made, IsCall R c c' h method m args made ∧ (c.objects h).id ≠ 0 ∧
        c'.calls = c.calls ++ [⟨h, method, false⟩] ∧ g = c.message h method m args) ∨
      ∃ q entry, R.flushes c q ∧ c' = c.flush q ∧ entry ∈ (c.queues q).queue ∧
        c.resolve entry = some g := by
  cases h.traffic with
  | quiet hout _ => exact .inl (hout ▸ hg)
  | tells msg hgeneric _ hout _ =>
    rw [hout] at hg
    rcases List.mem_append.mp hg with hg | hg
    · exact .inl hg
    · rw [← List.mem_singleton.mp hg] at hgeneric
      cases hgeneric
  | binds q proto specVer version _ _ hout _ =>
    rw [hout] at hg
    rcases List.mem_append.mp hg with hg | hg
    · exact .inl hg
    · cases List.mem_singleton.mp hg
  | sends obj method m args made hcall hid hcalls hout _ =>
    rw [hout] at hg
    rcases List.mem_append.mp hg with hg | hg
    · exact .inl hg
    · refine .inr (.inl ⟨obj, method, m, args, made, hcall, hid, hcalls, ?_⟩)
      exact C2S.generic.inj (List.mem_singleton.mp hg)
  | defers obj method m args made _ _ _ hout _ => exact .inl (hout ▸ hg)
  | flushes q hflush heq hout _ =>
    rw [hout] at hg
    rcases List.mem_append.mp hg with hg | hg
    · exact .inl hg
    · obtain ⟨g', hg', hgen⟩ := List.mem_map.mp hg
      cases hgen
      obtain ⟨entry, hentry, hresolve⟩ := List.mem_filterMap.mp hg'
      exact .inr (.inr ⟨q, entry, hflush, heq, hentry, hresolve⟩)

/-- An entry of a queue was there before, or it is that of a call on an object of the queue
without an id. -/
theorem Move.queued (h : Move R c c') {q : Nat} {entry : Deferred}
    (hentry : entry ∈ (c'.queues q).queue) :
    entry ∈ (c.queues q).queue ∨
      ∃ h method m args made, IsCall R c c' h method m args made ∧ (c.objects h).id = 0 ∧
        c'.calls = c.calls ++ [⟨h, method, true⟩] ∧ q = (c.objects h).eventQueue ∧
        entry = ⟨c.message h method m args, (c.objects h).seq⟩ := by
  cases h.traffic with
  | quiet _ hqueues => exact .inl ((hqueues q).subset hentry)
  | tells _ _ _ _ hqueues => exact .inl (hqueues q ▸ hentry)
  | binds _ _ _ _ _ _ _ hqueues => exact .inl (hqueues q ▸ hentry)
  | sends _ _ _ _ _ _ _ _ _ hqueues => exact .inl (hqueues q ▸ hentry)
  | defers obj method m args made hcall hid hcalls _ hqueues =>
    rw [hqueues] at hentry
    rcases List.mem_append.mp hentry with hentry | hentry
    · exact .inl hentry
    · split at hentry
      · next hq =>
        exact .inr ⟨obj, method, m, args, made, hcall, hid, hcalls, hq,
          List.mem_singleton.mp hentry⟩
      · cases hentry
  | flushes q' _ _ _ hqueues =>
    rw [hqueues] at hentry
    split at hentry
    · exact .inl (List.mem_filter.mp hentry).1
    · exact .inl hentry

/-- An entry stays in its queue until the queue is flushed or dropped. -/
theorem Move.stays (h : Move R c c') {q : Nat} {entry : Deferred}
    (hentry : entry ∈ (c.queues q).queue) :
    entry ∈ (c'.queues q).queue ∨
      (R.flushes c q ∧ c' = c.flush q ∧ c.waits entry = false) ∨ R.drops q := by
  have hwrite : ∀ {c : Client} {msg : C2S}, (c.write msg).queues = c.queues := by
    intro c msg
    obtain ⟨out, heq⟩ := write_eq c msg
    rw [heq]
  have hset : ∀ (i : Nat) (f : EventQueue → EventQueue), (∀ queue, (f queue).queue = queue.queue) →
      entry ∈ ((c.setQueue i f).queues q).queue := by
    intro i f hf
    simp only [setQueue]
    split
    · exact (hf _).symm ▸ hentry
    · exact hentry
  cases h with
  | tweak h => exact .inl ((h.queues q).queue ▸ hentry)
  | hear _ => exact .inl hentry
  | acknowledge version =>
    rw [hwrite]
    exact .inl hentry
  | ask i _ =>
    unfold Client.ask
    rw [hwrite]
    exact .inl (hset i _ fun _ => rfl)
  | acked i _ => exact .inl (hset i _ fun _ => rfl)
  | bind i specVer version _ hbind =>
    obtain ⟨spec, -, rfl⟩ := bindProtocol_eq hbind
    rw [hwrite]
    exact .inl hentry
  | call hcall =>
    rename_i obj method m args made
    have hgoes := goes_called c obj method m args made
    rw [← hcall.eq] at hgoes
    cases hgoes with
    | lost _ _ hqueues _ _ => exact .inl (hqueues ▸ hentry)
    | queued _ hqueues _ _ =>
      rw [hqueues]
      refine .inl ?_
      simp only [defer, setQueue]
      split
      · exact List.mem_append.mpr (.inl hentry)
      · exact hentry
    | written _ hqueues _ _ => exact .inl (hqueues ▸ hentry)
  | named _ _ =>
    obtain ⟨f, -, h, heq⟩ := onSeq_eq c _ _
    rw [heq]
    exact .inl hentry
  | collect _ => exact .inl hentry
  | destroy _ _ _ _ => exact .inl hentry
  | flush i hflush =>
    rw [queues_flush]
    by_cases hq : q = i
    · subst hq
      rw [if_pos rfl]
      cases hwaits : c.waits entry with
      | true => exact .inl (List.mem_filter.mpr ⟨hentry, hwaits⟩)
      | false => exact .inr (.inl ⟨hflush, rfl, rfl⟩)
    · rw [if_neg hq]
      exact .inl hentry
  | dropQueue i hdrop =>
    by_cases hq : q = i
    · exact .inr (.inr (hq ▸ hdrop))
    · simp only [setQueue, if_neg hq]
      exact .inl hentry

/-- A queue is alive until it is dropped. -/
theorem Move.live (h : Move R c c') (q : Nat) :
    (c'.queues q).live = (c.queues q).live ∨ R.drops q := by
  have hset : ∀ (c : Client) (i : Nat) (f : EventQueue → EventQueue),
      (∀ queue, (f queue).live = queue.live) →
      ((c.setQueue i f).queues q).live = (c.queues q).live := by
    intro c i f hf
    simp only [setQueue]
    split
    · exact hf _
    · rfl
  have hwrite : ∀ {c : Client} {msg : C2S}, (c.write msg).queues = c.queues := by
    intro c msg
    obtain ⟨out, heq⟩ := write_eq c msg
    rw [heq]
  cases h with
  | tweak h => exact .inl (h.queues q).live
  | acknowledge version =>
    rw [hwrite]
    exact .inl rfl
  | ask i _ =>
    unfold Client.ask
    rw [hwrite]
    exact .inl (hset _ i _ fun _ => rfl)
  | acked i _ => exact .inl (hset _ i _ fun _ => rfl)
  | bind i specVer version _ hbind =>
    obtain ⟨spec, -, rfl⟩ := bindProtocol_eq hbind
    rw [hwrite]
    exact .inl rfl
  | call hcall =>
    rename_i obj method m args made
    have hgoes := goes_called c obj method m args made
    rw [← hcall.eq] at hgoes
    cases hgoes with
    | lost _ _ hqueues _ _ => exact .inl (by rw [hqueues])
    | queued _ hqueues _ _ =>
      rw [hqueues]
      exact .inl (hset _ _ _ fun _ => rfl)
    | written _ hqueues _ _ => exact .inl (by rw [hqueues])
  | named _ _ =>
    obtain ⟨f, -, h, heq⟩ := onSeq_eq c _ _
    rw [heq]
    exact .inl rfl
  | flush i _ =>
    rw [flush_queues]
    exact .inl (hset _ i _ fun _ => rfl)
  | dropQueue i hdrop =>
    by_cases hq : q = i
    · exact .inr (hq ▸ hdrop)
    · exact .inl (by simp only [setQueue, if_neg hq])
  | hear _ | collect _ | destroy _ _ _ _ => exact .inl rfl

/-- What a primitive change puts on record: a call that was written, or one that was queued. -/
inductive Recorded (c c' : Client) : Prop
  | nothing (hcalls : c'.calls = c.calls)
  | direct (obj : Nat) (g : Generic) (hcalls : c'.calls = c.calls ++ [⟨obj, g.method, false⟩])
      (hcall : g.call = c.calls.length) (hout : c'.out = (c.write (.generic g)).out)
  | deferred (obj : Nat) (entry : Deferred)
      (hcalls : c'.calls = c.calls ++ [⟨obj, entry.msg.method, true⟩])
      (hcall : entry.msg.call = c.calls.length) (horigin : entry.msg.origin = obj)
      (hentry : entry ∈ (c'.queues (c.objects obj).eventQueue).queue)

theorem Move.recorded (h : Move R c c') : Recorded c c' := by
  have hwrite : ∀ {c : Client} {msg : C2S}, (c.write msg).calls = c.calls := by
    intro c msg
    obtain ⟨out, heq⟩ := write_eq c msg
    rw [heq]
  cases h with
  | tweak h => exact .nothing h.calls
  | acknowledge version => exact .nothing hwrite
  | ask q _ =>
    unfold Client.ask
    exact .nothing hwrite
  | bind q specVer version _ hbind =>
    obtain ⟨spec, -, rfl⟩ := bindProtocol_eq hbind
    exact .nothing hwrite
  | call hcall =>
    rename_i obj method m args made
    have hgoes := goes_called c obj method m args made
    rw [← hcall.eq] at hgoes
    cases hgoes with
    | lost _ _ _ _ hcalls => exact .nothing hcalls
    | queued _ hqueues _ hcalls =>
      refine .deferred obj ⟨c.message obj method m args, (c.objects obj).seq⟩ hcalls rfl rfl ?_
      rw [hqueues]
      simp [defer, setQueue]
    | written _ _ hout hcalls => exact .direct obj _ hcalls rfl hout
  | named _ _ =>
    obtain ⟨f, -, h, heq⟩ := onSeq_eq c _ _
    rw [heq]
    exact .nothing rfl
  | flush q _ =>
    rw [flush_eq]
    exact .nothing rfl
  | hear _ | acked _ _ | collect _ | destroy _ _ _ _ | dropQueue _ _ => exact .nothing rfl

theorem grows_bind {q specVer version : Nat} {proto : ProtocolSpec}
    (h : c.bindProtocol q proto specVer version = some c') : Grows c c' := by
  obtain ⟨spec, -, rfl⟩ := bindProtocol_eq h
  obtain ⟨out, heq⟩ := write_eq (c.fetchAdd.push (c.bound q version proto spec))
    (.bindProtocol c.nextSeq version proto.specName)
  rw [heq]
  refine ⟨rfl, fun i hi => ?_, .inr ⟨rfl, rfl, ?_⟩, fun i hi => ?_, rfl, rfl, rfl⟩
  · simp only [push, fetchAdd, Nat.ne_of_lt hi, if_false]
    exact .refl _
  · simp [push, fetchAdd, bound]
  · have hi' : i ≠ c.size := fun h' => absurd hi (by simp [push, fetchAdd, h'])
    simp only [push, fetchAdd, hi', if_false]
    exact .refl _

theorem objectForSeq_some {seq h : Nat} (hfind : c.objectForSeq seq = some h) :
    h ∈ c.table ∧ (c.objects h).seq = seq :=
  ⟨List.mem_of_find?_eq_some hfind, by simpa using List.find?_some hfind⟩

theorem objectForId_some {id h : Nat} (hfind : c.objectForId id = some h) :
    h ∈ c.table ∧ (c.objects h).id = id :=
  ⟨List.mem_of_find?_eq_some hfind, by simpa using List.find?_some hfind⟩

/-- Which id an object can have afterwards. -/
inductive Named (R : Rely) (c c' : Client) (i : Nat) : Prop
  | same (h : (c'.objects i).id = (c.objects i).id)
  | named (hheard : R.heard (.newObject (c.objects i).seq (c'.objects i).id))
      (hhandled : .newObject (c.objects i).seq (c'.objects i).id ∈ c'.handled)
      (hfind : c.objectForSeq (c.objects i).seq = some i) (hin : i ∈ c'.table)

/-- What happens to the objects that are there: the table loses some of them, and one may get
an id. -/
structure Keeps (R : Rely) (c c' : Client) : Prop where
  size : c'.size = c.size
  table : ∃ p : Nat → Bool, c'.table = c.table.filter p
  beyond : ∀ i, c.size ≤ i → SameObject (c.objects i) (c'.objects i)
  id : ∀ i, Named R c c' i

theorem Keeps.of_eq (hsize : c'.size = c.size) (htable : c'.table = c.table)
    (hobjects : ∀ i, SameObject (c.objects i) (c'.objects i)) : Keeps R c c' where
  size := hsize
  table := ⟨fun _ => true, by rw [htable, List.filter_eq_self.mpr fun _ _ => rfl]⟩
  beyond i _ := hobjects i
  id i := .same (hobjects i).id

theorem Keeps.write (c : Client) (msg : C2S) : Keeps R c (c.write msg) := by
  obtain ⟨out, heq⟩ := write_eq c msg
  rw [heq]
  exact .of_eq rfl rfl fun _ => .refl _

/-- A primitive change adds an object or keeps those there are. -/
theorem Move.shape (hlt : ∀ i ∈ c.table, i < c.size) (h : Move R c c') :
    Grows c c' ∨ Keeps R c c' := by
  have hsame : Keeps R c c := .of_eq rfl rfl fun _ => .refl _
  have hkept : ∀ p, Keeps R c { c with table := c.table.filter p } := fun p =>
    { hsame with
      table := ⟨p, rfl⟩
      id := fun i => .same rfl }
  cases h with
  | tweak h => exact .inr (.of_eq h.size h.table h.objects)
  | hear _ => exact .inr (.of_eq rfl rfl fun _ => .refl _)
  | acknowledge version => exact .inr (.write ..)
  | ask q _ =>
    unfold Client.ask
    obtain ⟨out, heq⟩ := write_eq (c.setQueue q _) _
    rw [heq]
    exact .inr (.of_eq rfl rfl fun _ => .refl _)
  | acked q _ => exact .inr (.of_eq rfl rfl fun _ => .refl _)
  | bind q specVer version _ hbind => exact .inl (grows_bind hbind)
  | call hcall => exact .inl (hcall.eq ▸ grows_called ..)
  | named hheard hhandled =>
    rename_i seq id
    refine .inr ?_
    unfold onSeq
    split
    · next h hfind =>
      obtain ⟨hin, hseq⟩ := objectForSeq_some hfind
      refine ⟨rfl, ⟨fun _ => true, (List.filter_eq_self.mpr fun _ _ => rfl).symm⟩, fun i hi => ?_, fun i => ?_⟩
      · have hne : i ≠ h := fun h' => absurd (hlt h hin) (Nat.not_lt_of_le (h' ▸ hi))
        simp only [setObject, hne, if_false]
        exact .refl _
      · by_cases hi : i = h
        · subst hi
          have hid : ((c.setObject i fun obj => { obj with id }).objects i).id = id := by
            simp [setObject]
          refine .named ?_ ?_ ?_ hin
          · rw [hid, hseq]
            exact hheard
          · rw [hid, hseq]
            exact hhandled
          · rw [hseq]
            exact hfind
        · exact .same (by simp [setObject, hi])
    · exact .of_eq rfl rfl fun _ => .refl _
  | collect _ => exact .inr (hkept _)
  | destroy _ _ _ _ =>
    exact .inr { hkept _ with beyond := fun i _ => .refl _, id := fun i => .same rfl }
  | flush q _ =>
    rw [flush_eq]
    exact .inr (.of_eq rfl rfl fun _ => .refl _)
  | dropQueue q _ => exact .inr (.of_eq rfl rfl fun _ => .refl _)

/-- Why an object left the table: nobody held it, or the other side destroyed it. -/
theorem Move.unlinks (h : Move R c c') {i : Nat} (hin : i ∈ c.table) :
    i ∈ c'.table ∨ ((c.objects i).id ≠ 0 ∧
      ((c.orphaned i ∧ R.collects c) ∨
        (i ∈ c'.destructed ∧ ∃ h method m, R.ended h method ∧
          (c.objects h).methodsIn[method]? = some m ∧ m.destructor = true ∧
          (c.objects h).id = (c.objects i).id ∧ (c.objects h).destroyed = true))) := by
  have hgrown : Grows c c' → i ∈ c'.table := by
    intro hgrows
    rcases hgrows.grown with ⟨-, htable⟩ | ⟨-, htable, -⟩
    · exact htable ▸ hin
    · exact htable ▸ List.mem_append.mpr (.inl hin)
  have hwrite : ∀ {c : Client} {msg : C2S}, (c.write msg).table = c.table := by
    intro c msg
    obtain ⟨out, heq⟩ := write_eq c msg
    rw [heq]
  cases h with
  | tweak h => exact .inl (h.table ▸ hin)
  | hear _ => exact .inl hin
  | acknowledge version =>
    rw [hwrite]
    exact .inl hin
  | ask q _ =>
    unfold Client.ask
    rw [hwrite]
    exact .inl hin
  | acked q _ => exact .inl hin
  | bind q specVer version _ hbind => exact .inl (hgrown (grows_bind hbind))
  | call hcall => exact .inl (hgrown (hcall.eq ▸ grows_called ..))
  | named _ _ =>
    obtain ⟨f, -, h, heq⟩ := onSeq_eq c _ _
    rw [heq]
    exact .inl hin
  | collect hcollect =>
    cases horphan : c.orphaned i with
    | false => exact .inl (List.mem_filter.mpr ⟨hin, by simp [horphan]⟩)
    | true =>
      refine .inr ⟨?_, .inl ⟨rfl, hcollect⟩⟩
      simp only [orphaned, Bool.and_eq_true, decide_eq_true_eq] at horphan
      exact horphan.1
  | destroy hend hm hdes hid hgone =>
    rename_i h method m
    by_cases heq : (c.objects i).id = (c.objects h).id
    · refine .inr ⟨heq ▸ hid, .inr ⟨?_, h, method, m, hend, hm, hdes, heq.symm, hgone⟩⟩
      exact List.mem_append.mpr (.inr (List.mem_filter.mpr ⟨hin, by simp [heq]⟩))
    · exact .inl (List.mem_filter.mpr ⟨hin, by simp [heq]⟩)
  | flush q _ =>
    rw [flush_eq]
    exact .inl hin
  | dropQueue q _ => exact .inl hin

/-! ## The ledger -/

/-- The message is that of a method of its object. -/
def Fits (c : Client) (g : Generic) : Prop :=
  ∃ m, (c.objects g.origin).methodsOut[g.method]? = some m ∧ g.destructor = m.destructor ∧
    (m.returnsType = "" → g.seq = 0)

/-- An entry of queue `q` is a deferred call on an object of the queue, and waits for it. -/
structure Waiting (c : Client) (q : Nat) (entry : Deferred) : Prop where
  origin_lt : entry.msg.origin < c.size
  eventQueue : (c.objects entry.msg.origin).eventQueue = q
  dependsOnSeq : entry.dependsOnSeq = (c.objects entry.msg.origin).seq
  call : c.calls[entry.msg.call]? = some ⟨entry.msg.origin, entry.msg.method, true⟩
  fits : c.Fits entry.msg

/-- A message on the wire is a call on an object, under an id the seq of the object was given. -/
structure Sent (c : Client) (g : Generic) : Prop where
  origin_lt : g.origin < c.size
  object_ne : g.object ≠ 0
  named : .newObject (c.objects g.origin).seq g.object ∈ c.handled
  call : ∃ deferred, c.calls[g.call]? = some ⟨g.origin, g.method, deferred⟩
  fits : c.Fits g

/-- **What a client keeps true whatever it hears.** -/
structure Ledger (c : Client) : Prop where
  table_lt : ∀ h ∈ c.table, h < c.size
  sorted : c.table.Pairwise (· < ·)
  blank : ∀ h, c.size ≤ h → (c.objects h).spec = none ∧ (c.objects h).id = 0
  unnamed : ∀ h, h < c.size → (c.objects h).id = 0 → h ∈ c.table
  named : ∀ h, (c.objects h).id ≠ 0 → .newObject (c.objects h).seq (c.objects h).id ∈ c.handled
  first : ∀ h ∈ c.table, (c.objects h).id ≠ 0 → c.objectForSeq (c.objects h).seq = some h
  queued : ∀ q, ∀ entry ∈ (c.queues q).queue, c.Waiting q entry
  sent : ∀ g, .generic g ∈ c.out → c.Sent g

theorem LaterObject.methodsOut {old new : ClientObject} (h : LaterObject old new) :
    new.methodsOut = old.methodsOut := by
  rw [ClientObject.methodsOut, ClientObject.methodsOut, h.spec]

theorem LaterObject.methodsIn {old new : ClientObject} (h : LaterObject old new) :
    new.methodsIn = old.methodsIn := by
  rw [ClientObject.methodsIn, ClientObject.methodsIn, h.spec]

theorem Later.fits (h : Later c c') {g : Generic} (hg : g.origin < c.size) (hfits : c.Fits g) :
    c'.Fits g := by
  obtain ⟨m, hm, hrest⟩ := hfits
  exact ⟨m, (h.objects _ hg).methodsOut ▸ hm, hrest⟩

theorem Later.waiting (h : Later c c') {q : Nat} {entry : Deferred} (hw : c.Waiting q entry) :
    c'.Waiting q entry where
  origin_lt := Nat.lt_of_lt_of_le hw.origin_lt h.size
  eventQueue := (h.objects _ hw.origin_lt).eventQueue.trans hw.eventQueue
  dependsOnSeq := hw.dependsOnSeq.trans (h.objects _ hw.origin_lt).seq.symm
  call := getElem?_grown h.calls hw.call
  fits := h.fits hw.origin_lt hw.fits

theorem Later.sent (h : Later c c') {g : Generic} (hs : c.Sent g) : c'.Sent g where
  origin_lt := Nat.lt_of_lt_of_le hs.origin_lt h.size
  object_ne := hs.object_ne
  named := by
    rw [(h.objects _ hs.origin_lt).seq]
    exact h.handled.subset hs.named
  call := by
    obtain ⟨deferred, hcall⟩ := hs.call
    exact ⟨deferred, getElem?_grown h.calls hcall⟩
  fits := h.fits hs.origin_lt hs.fits

/-- An object with methods is one of the arena. -/
theorem Ledger.lt_of_method (hc : Ledger c) {h method : Nat} {m : MethodSpec}
    (hm : (c.objects h).methodsOut[method]? = some m) : h < c.size := by
  rcases Nat.lt_or_ge h c.size with hlt | hge
  · exact hlt
  · rw [ClientObject.methodsOut, (hc.blank h hge).1] at hm
    simp at hm

theorem Ledger.init (impls : List ProtocolSpec) : Ledger { impls } where
  table_lt _ h := by cases h
  sorted := .nil
  blank _ _ := ⟨rfl, rfl⟩
  unnamed _ h := absurd h (Nat.not_lt_zero _)
  named _ h := absurd rfl h
  first _ h := by cases h
  queued _ _ h := by cases h
  sent _ h := by simp at h

/-! ### It is kept -/

/-- The first object with a seq is the first as long as it is in the table. -/
theorem objectForSeq_later (hlt : ∀ h ∈ c.table, h < c.size) (hlater : Later c c')
    (hshape : Grows c c' ∨ Keeps R c c') {seq h : Nat} (hfind : c.objectForSeq seq = some h)
    (hin : h ∈ c'.table) : c'.objectForSeq seq = some h := by
  have hsame : (c.table.find? fun i => (c'.objects i).seq = seq) = some h := by
    rw [← hfind]
    refine List.find?_congr fun i hi => ?_
    rw [(hlater.objects i (hlt i hi)).seq]
  rcases hshape with hgrows | hkeeps
  · rcases hgrows.grown with ⟨-, htable⟩ | ⟨-, htable, -⟩
    · rw [objectForSeq, htable, hsame]
    · rw [objectForSeq, htable, List.find?_append, hsame, Option.some_or]
  · obtain ⟨p, htable⟩ := hkeeps.table
    rw [htable] at hin
    rw [objectForSeq, htable]
    exact find?_filter_of_some hsame (List.mem_filter.mp hin).2

theorem Ledger.waiting_of_call (hc : Ledger c) {h method : Nat} {m : MethodSpec}
    {args : List CallArg} {made : Option ObjectSpec} (hcall : IsCall R c c' h method m args made)
    (hcalls : c'.calls = c.calls ++ [⟨h, method, true⟩]) :
    c'.Waiting (c.objects h).eventQueue ⟨c.message h method m args, (c.objects h).seq⟩ := by
  have hlater : Later c c' := hcall.eq ▸ later_called c h method m args made
  have hlt : h < c.size := hc.lt_of_method hcall.hasMethod
  have hobj := hlater.objects h hlt
  refine ⟨Nat.lt_of_lt_of_le hlt hlater.size, hobj.eventQueue, hobj.seq.symm, ?_, m, ?_, rfl, ?_⟩
  · rw [hcalls]
    exact List.getElem?_concat_length
  · exact hobj.methodsOut ▸ hcall.hasMethod
  · intro hret
    simp [message, hret]

theorem Ledger.sent_of_call (hc : Ledger c) {h method : Nat} {m : MethodSpec}
    {args : List CallArg} {made : Option ObjectSpec} (hcall : IsCall R c c' h method m args made)
    (hcalls : c'.calls = c.calls ++ [⟨h, method, false⟩]) (hid : (c.objects h).id ≠ 0) :
    c'.Sent (c.message h method m args) := by
  have hlater : Later c c' := hcall.eq ▸ later_called c h method m args made
  have hlt : h < c.size := hc.lt_of_method hcall.hasMethod
  have hobj := hlater.objects h hlt
  refine ⟨Nat.lt_of_lt_of_le hlt hlater.size, hid, ?_, ⟨false, ?_⟩, m, ?_, rfl, ?_⟩
  · have hnamed := hc.named h hid
    rw [← hobj.seq] at hnamed
    exact hlater.handled.subset hnamed
  · rw [hcalls]
    exact List.getElem?_concat_length
  · exact hobj.methodsOut ▸ hcall.hasMethod
  · intro hret
    simp [message, hret]

theorem Ledger.sent_of_resolve (hc : Ledger c) {q : Nat} {entry : Deferred} {g : Generic}
    (hentry : entry ∈ (c.queues q).queue) (hresolve : c.resolve entry = some g) : c.Sent g := by
  have hw := hc.queued q entry hentry
  obtain ⟨h, hfind, hid, rfl⟩ := resolve_some hresolve
  refine ⟨hw.origin_lt, hid, ?_, ⟨true, hw.call⟩, hw.fits⟩
  have hnamed := hc.named h hid
  rwa [(objectForSeq_some hfind).2, hw.dependsOnSeq] at hnamed

/-- **The ledger is kept by every primitive change.** -/
theorem Ledger.move (hc : Ledger c) (h : Move R c c') : Ledger c' := by
  have hlater := h.later
  have hshape := h.shape hc.table_lt
  have hblank : ∀ i, c'.size ≤ i → (c'.objects i).spec = none ∧ (c'.objects i).id = 0 := by
    intro i hi
    have hge : c.size ≤ i := Nat.le_trans hlater.size hi
    have hsame : SameObject (c.objects i) (c'.objects i) := by
      rcases hshape with hgrows | hkeeps
      · exact hgrows.beyond i hi
      · exact hkeeps.beyond i hge
    exact ⟨hsame.spec.trans (hc.blank i hge).1, hsame.id.trans (hc.blank i hge).2⟩
  -- the object that was added, if one was, has no id
  have hfresh : ∀ i, c.size ≤ i → i < c'.size → (c'.objects i).id = 0 ∧ i ∈ c'.table := by
    intro i hge hi
    rcases hshape with hgrows | hkeeps
    · rcases hgrows.grown with ⟨hsize, -⟩ | ⟨hsize, htable, hid⟩
      · exact absurd hi (Nat.not_lt_of_le (hsize ▸ hge))
      · have heq : i = c.size := by
          rw [hsize] at hi
          exact Nat.le_antisymm (Nat.le_of_lt_succ hi) hge
        subst heq
        exact ⟨hid, htable ▸ List.mem_append.mpr (.inr (List.mem_singleton_self _))⟩
    · exact absurd hi (Nat.not_lt_of_le (hkeeps.size ▸ hge))
  have hnamed : ∀ i, i < c.size → Named R c c' i := by
    intro i hi
    rcases hshape with hgrows | hkeeps
    · exact .same (hgrows.objects i hi).id
    · exact hkeeps.id i
  refine ⟨?_, ?_, hblank, ?_, ?_, ?_, ?_, ?_⟩
  · intro i hi
    rcases hshape with hgrows | hkeeps
    · rcases hgrows.grown with ⟨hsize, htable⟩ | ⟨hsize, htable, -⟩
      · exact hsize ▸ hc.table_lt i (htable ▸ hi)
      · rw [htable] at hi
        rw [hsize]
        rcases List.mem_append.mp hi with hi | hi
        · exact Nat.lt_succ_of_lt (hc.table_lt i hi)
        · exact Nat.lt_succ_of_le (Nat.le_of_eq (List.mem_singleton.mp hi))
    · obtain ⟨p, htable⟩ := hkeeps.table
      rw [htable] at hi
      exact hkeeps.size ▸ hc.table_lt i (List.mem_filter.mp hi).1
  · rcases hshape with hgrows | hkeeps
    · rcases hgrows.grown with ⟨-, htable⟩ | ⟨-, htable, -⟩
      · exact htable ▸ hc.sorted
      · rw [htable]
        exact pairwise_append_one hc.sorted hc.table_lt
    · obtain ⟨p, htable⟩ := hkeeps.table
      rw [htable]
      exact hc.sorted.sublist List.filter_sublist
  · intro i hi hid
    rcases Nat.lt_or_ge i c.size with hlt | hge
    · cases hnamed i hlt with
      | same heq =>
        rw [heq] at hid
        rcases h.unlinks (hc.unnamed i hlt hid) with hin | ⟨hne, -⟩
        · exact hin
        · exact absurd hid hne
      | named _ _ _ hin => exact hin
    · exact (hfresh i hge hi).2
  · intro i hid
    rcases Nat.lt_or_ge i c.size with hlt | hge
    · rw [(hlater.objects i hlt).seq]
      cases hnamed i hlt with
      | same heq =>
        rw [heq] at hid ⊢
        exact hlater.handled.subset (hc.named i hid)
      | named _ hhandled _ _ => exact hhandled
    · rcases Nat.lt_or_ge i c'.size with hlt' | hge'
      · exact absurd (hfresh i hge hlt').1 hid
      · exact absurd (hblank i hge').2 hid
  · intro i hi hid
    have hlt : i < c.size := by
      rcases hlater.table i hi with hin | hge
      · exact hc.table_lt i hin
      · rcases Nat.lt_or_ge i c'.size with hlt' | hge'
        · exact absurd (hfresh i hge hlt').1 hid
        · exact absurd (hblank i hge').2 hid
    have hin : i ∈ c.table := (hlater.table i hi).resolve_right (Nat.not_le_of_lt hlt)
    rw [(hlater.objects i hlt).seq]
    refine objectForSeq_later hc.table_lt hlater hshape ?_ hi
    cases hnamed i hlt with
    | same heq => exact hc.first i hin (heq ▸ hid)
    | named _ _ hfind _ => exact hfind
  · intro q entry hentry
    rcases h.queued hentry with hold | ⟨i, method, m, args, made, hcall, -, hcalls, rfl, rfl⟩
    · exact hlater.waiting (hc.queued q entry hold)
    · exact hc.waiting_of_call hcall hcalls
  · intro g hg
    rcases h.sent hg with hold | ⟨i, method, m, args, made, hcall, hid, hcalls, rfl⟩ |
      ⟨q, entry, -, -, hentry, hresolve⟩
    · exact hlater.sent (hc.sent g hold)
    · exact hc.sent_of_call hcall hcalls hid
    · exact hlater.sent (hc.sent_of_resolve hentry hresolve)

/-- Where no id arrives none is given, and an object that is made has none. -/
theorem Ledger.id_move (hc : Ledger c) (hunheard : ∀ seq id, ¬ R.heard (.newObject seq id))
    (h : Move R c c') (i : Nat) :
    (i < c.size ∧ (c'.objects i).id = (c.objects i).id) ∨
      (c'.objects i).id = 0 ∧ c.size ≤ i := by
  rcases Nat.lt_or_ge i c.size with hlt | hge
  · refine .inl ⟨hlt, ?_⟩
    rcases h.shape hc.table_lt with hgrows | hkeeps
    · exact (hgrows.objects i hlt).id
    · cases hkeeps.id i with
      | same heq => exact heq
      | named hheard _ _ _ => exact absurd hheard (hunheard _ _)
  · refine .inr ⟨?_, hge⟩
    rcases h.shape hc.table_lt with hgrows | hkeeps
    · rcases hgrows.grown with ⟨hsize, -⟩ | ⟨hsize, -, hid⟩
      · exact (hgrows.beyond i (hsize ▸ hge)).id.trans (hc.blank i hge).2
      · rcases Nat.eq_or_lt_of_le hge with heq | hlt
        · exact heq ▸ hid
        · exact (hgrows.beyond i (hsize ▸ hlt)).id.trans (hc.blank i hge).2
    · exact (hkeeps.beyond i hge).id.trans (hc.blank i hge).2

/-- No two objects come to share an id while no ids arrive. -/
theorem Ledger.distinct_move (hc : Ledger c) (hunheard : ∀ seq id, ¬ R.heard (.newObject seq id))
    (hdistinct : ∀ i j, (c.objects i).id ≠ 0 → (c.objects i).id = (c.objects j).id → i = j)
    (h : Move R c c') (i j : Nat) (hid : (c'.objects i).id ≠ 0)
    (heq : (c'.objects i).id = (c'.objects j).id) : i = j := by
  rcases hc.id_move hunheard h i with ⟨-, hi⟩ | ⟨hi, -⟩
  · rcases hc.id_move hunheard h j with ⟨-, hj⟩ | ⟨hj, -⟩
    · exact hdistinct i j (hi ▸ hid) (hi.symm.trans (heq.trans hj))
    · exact absurd (heq.trans hj) hid
  · exact absurd hi hid

theorem moves_anyhow (hc : Ledger c) {a : Action} (h : step c a = some c') : Moves anything c c' :=
  moves_step hc.table_lt (granted_anything c a) h

/-- … and so by every step, whatever it relies on. -/
theorem Ledger.step (hc : Ledger c) {a : Action} (h : step c a = some c') : Ledger c' := by
  exact (moves_anyhow hc h).invariant (fun _ _ => Ledger.move) hc

theorem Ledger.later (hc : Ledger c) {a : Action} (h : Client.step c a = some c') : Later c c' :=
  (moves_anyhow hc h).later

end Hyprwire.Client
