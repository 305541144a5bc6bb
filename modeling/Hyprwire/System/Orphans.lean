import Hyprwire.System.Agreement
import Hyprwire.System.Removal

/-!
# `System/Orphans.lean` — messages for objects that are gone

Either side gives the connection up over a generic message for an object it does not have. A client
forgets an object when the last handle is dropped, whatever the server may still have to say on it,
and a server one whose destructor it has handled, whatever the client may have sent behind that. So
peers that do nothing wrong end each other's connections. They do not in a run in which no side is
written to, and nothing is forgotten, at the wrong time (`Considerate`, `honest_peers`).
-/

namespace Hyprwire.Client

open History

variable {c c' : Client}

/-! ## Unknown objects -/

/-- The step handles an event on an object the client does not have. -/
def Misses (c : Client) (a : Action) : Prop :=
  ∃ q g rest, a = .handle q ∧ (c.queues q).phase = .batch (.generic g :: rest) ∧
    c.objectForId g.object = none

theorem unknown_of_handle {q : Nat} {msg : S2C} {rest : List S2C}
    (hphase : (c.queues q).phase = .batch (msg :: rest)) :
    (c.handle q msg rest).unknownObject = c.unknownObject ∨ Misses c (.handle q) := by
  cases msg with
  | handshakeBegin versions =>
    refine .inl ?_
    simp only [handle]
    split
    · exact (Frame.write ..).unknownObject
    · rfl
  | newObject seq id => exact .inl (Frame.onSeq ..).unknownObject
  | generic g =>
    cases hfind : c.objectForId g.object with
    | none => exact .inr ⟨q, g, rest, rfl, hphase, hfind⟩
    | some h =>
      have hfind' : objectForId { c with handled := c.handled ++ [S2C.generic g] } g.object = some h :=
        hfind
      refine .inl ?_
      simp only [handle, onGeneric, hfind']
      split
      · rfl
      · exact (Frame.afterDispatch ..).unknownObject
  | handshakeProtocols _ | fatalProtocolError _ _ _ | roundtripDone _ _ => exact .inl rfl

/-- Nothing else counts as an unknown object. -/
theorem unknown_of_step {a : Action} (h : step c a = some c') :
    c'.unknownObject = c.unknownObject ∨ Misses c a := by
  by_cases ha : ∃ q, a = .handle q
  · obtain ⟨q, rfl⟩ := ha
    obtain ⟨msg, rest, hphase, rfl⟩ := step_handles h
    exact unknown_of_handle hphase
  · exact .inl (flagged (fun q heq => ha ⟨q, heq⟩) h).unknownObject

/-- No id arrives. -/
def unnamed : Rely := { anything with heard := fun msg => ∀ seq id, msg ≠ .newObject seq id }

theorem granted_unnamed {a : Action}
    (hcalm : ∀ q seq id rest, a = .handle q → (c.queues q).phase ≠ .batch (.newObject seq id :: rest)) :
    Granted unnamed c a := by
  cases a with
  | handle q =>
    intro msg rest hphase
    refine ⟨fun seq id heq => ?_, fun _ _ _ _ => trivial⟩
    subst heq
    exact hcalm q seq id rest rfl hphase
  | send obj method args => exact fun _ _ => trivial
  | return_ q => exact fun _ _ _ _ => trivial
  | finish q => exact ⟨trivial, trivial⟩
  | _ => trivial

/-! ## Destructors come last -/

/-- **A client that is through with an object says so last**: destructors leave their mark, and, while
there are numbers left, nothing follows them. -/
structure Closed (c : Client) : Prop where
  marked : Marked c
  last : c.issued < wordSize → Ordered Last InTable c

theorem Closed.init (impls : List ProtocolSpec) : Closed { impls } where
  marked := by
    refine ⟨fun g hg => ?_, fun _ _ hentry => ?_⟩
    · cases List.mem_singleton.mp hg
    · cases hentry
  last _ := ordered_init impls

/-- What is called may be called. -/
def Closes (c : Client) : Action → Prop
  | .send h method _ => ∀ m, (c.objects h).methodsOut[method]? = some m → MayCall c h m
  | _ => True

/-- What the primitive changes of such a step rely on. -/
def closing (impls : List ProtocolSpec) : Rely :=
  { registered impls with calls := MayCall }

theorem granted_closing {impls : List ProtocolSpec} {a : Action} (hcloses : Closes c a)
    (hbind : ∀ q proto version, a = .bind q proto version →
      impls.find? (fun imp => imp.specName = proto.specName) = some proto) :
    Granted (closing impls) c a := by
  cases a with
  | bind q proto version => exact hbind q proto version rfl
  | send obj method args => exact hcloses
  | handle q => exact fun _ _ _ => ⟨trivial, fun _ _ _ _ => trivial⟩
  | return_ q => exact fun _ _ _ _ => trivial
  | finish q => exact ⟨trivial, trivial⟩
  | _ => trivial

/-- An entry of a queue waits for its own object, where numbers are given once. -/
theorem Numbered.own (hn : Numbered c) {q : Nat} {entry : Deferred} {h : Nat}
    (hentry : entry ∈ (c.queues q).queue) (hfind : c.objectForSeq entry.dependsOnSeq = some h) :
    h = entry.msg.origin := by
  have hw := hn.ledger.queued q entry hentry
  obtain ⟨hin, hseq⟩ := objectForSeq_some hfind
  exact hn.inj h (hn.ledger.table_lt h hin) _ hw.origin_lt (hseq.trans hw.dependsOnSeq)

/-- An object in the table is found by its number. -/
theorem Numbered.find (hn : Numbered c) {i : Nat} (hi : i ∈ c.table) :
    c.objectForSeq (c.objects i).seq = some i := by
  cases hfind : c.objectForSeq (c.objects i).seq with
  | none =>
    exact absurd (decide_eq_true rfl) (List.find?_eq_none.mp hfind i hi)
  | some h =>
    obtain ⟨hin, hseq⟩ := objectForSeq_some hfind
    exact congrArg some
      (hn.inj h (hn.ledger.table_lt h hin) i (hn.ledger.table_lt i hi) hseq)

/-- The object of the number is named, and no other is touched. -/
theorem Numbered.id_of_newObject (hn : Numbered c) {q seq id i : Nat} {rest : List S2C}
    (hi : i ∈ c.table) : ((c.handle q (.newObject seq id) rest).objects i).id =
      if (c.objects i).seq = seq then id else (c.objects i).id := by
  show ((onSeq { c with handled := c.handled ++ [.newObject seq id] } seq id).objects i).id = _
  have hfind := hn.find hi
  unfold onSeq
  by_cases hseq : (c.objects i).seq = seq
  · rw [hseq] at hfind
    have hfind' : objectForSeq { c with handled := c.handled ++ [S2C.newObject seq id] } seq = some i :=
      hfind
    rw [hfind', if_pos hseq]
    simp [setObject]
  · rw [if_neg hseq]
    split
    · next h hother =>
      have hne : i ≠ h := by
        intro heq
        subst heq
        exact hseq (objectForSeq_some hother).2
      simp [setObject, hne]
    · rfl

theorem Closed.step {impls : List ProtocolSpec} {a : Action} (hc : Closed c)
    (hcounts : Counts impls c) (hledger : Ledger c) (hcloses : Closes c a)
    (hbind : ∀ q proto version, a = .bind q proto version →
      impls.find? (fun imp => imp.specName = proto.specName) = some proto)
    (h : Client.step c a = some c') : Closed c' := by
  have hinv : Ledger c' ∧ Counts impls c' ∧ Closed c' := by
    refine (moves_step hledger.table_lt (granted_closing hcloses hbind) h).invariant
      (P := fun t => Ledger t ∧ Counts impls t ∧ Closed t) (fun t t' ht hmove => ?_)
      ⟨hledger, hcounts, hc⟩
    obtain ⟨hledger, hcounts, hclosed⟩ := ht
    have hwas : t'.issued < wordSize → t.issued < wordSize :=
      Nat.lt_of_le_of_lt hmove.later.issued
    refine ⟨hledger.move hmove, ⟨hmove.later.impls.trans hcounts.1, fun hbound => ?_⟩,
      hclosed.marked.move hledger hmove, fun hbound => ?_⟩
    · exact (hcounts.2 (hwas hbound)).move hbound (fun proto hproto => hcounts.1.symm ▸ hproto) hmove
    · refine (hclosed.last (hwas hbound)).last_move hledger (fun obj method m args made hcall => ?_)
        (fun q _ entry hentry h hfind => (hcounts.2 (hwas hbound)).own hentry hfind) hmove
      rcases hcall.allowed with ⟨hout, halive, -⟩ | hmay
      · exact hclosed.marked.mayCall halive fun _ _ hin => absurd hin hout
      · exact hmay
  exact hinv.2.2

end Hyprwire.Client

namespace Hyprwire.Server

variable {s s' : Server}

/-- The step handles a message on an object the server does not have. -/
def Misses (s : Server) (a : Action) : Prop :=
  ∃ g rest, a = .handle ∧ s.phase = .batch (.generic g :: rest) ∧ s.objectForId g.object = none

theorem unknown_of_onGeneric (s : Server) (g : Generic) (rest : List C2S) :
    (s.onGeneric g rest).unknownObject = s.unknownObject ∨ s.objectForId g.object = none := by
  have hnote : ∀ k method, (s.note k method).unknownObject = s.unknownObject := by
    intro k method
    rw [note_eq]
  have hdelivered := delivered s g rest
  generalize s.onGeneric g rest = t at hdelivered
  cases hdelivered with
  | unknown hfind => exact .inr hfind
  | silent k hfind hquiet =>
    refine .inl ?_
    simp only [afterDispatch_eq]
    split <;> exact hnote k g.method
  | called k hfind hcalls => exact .inl (hnote k g.method)
  | made k m hfind hcalls hm hret =>
    refine .inl ?_
    rw [createObject_eq]
    exact hnote k g.method

/-- Nothing else counts as an unknown object. -/
theorem unknown_of_step {a : Action} (h : step s a = some s') :
    s'.unknownObject = s.unknownObject ∨ Misses s a := by
  cases course h with
  | same _ _ _ hunknown => exact .inl hunknown
  | makes _ _ _ hunknown => exact .inl hunknown
  | calls g rest ha hphase heq =>
    subst heq
    rcases unknown_of_onGeneric (s.heard (.generic g) rest) g rest with hsame | hfind
    · exact .inl hsame
    · exact .inr ⟨g, rest, ha, hphase, hfind⟩
  | returns rest k method ha hphase heq =>
    subst heq
    refine .inl ?_
    simp only [afterDispatch_eq]
    split <;> rfl
  | leaves ha hphase heq =>
    subst heq
    exact .inl rfl

/-- An event is written: the object is alive, and the method is one that it has and that a server can
call. -/
def Emits (s : Server) (k method : Nat) : Prop :=
  s.shut = false ∧ (s.objects k).destroyed = false ∧
    ∃ m, (s.objects k).methodsOut[method]? = some m ∧ ¬ (s.objects k).version < m.since.toNat ∧
      m.returnsType = ""

/-- A call that writes an event writes one on its object. -/
theorem emits_of_call {k method : Nat} {args : List CallArg} {g : Generic}
    (hout : (s.call k method args).out = s.out ++ [.generic g]) : Emits s k method ∧ g.origin = k := by
  have hquiet : s.out ≠ s.out ++ [.generic g] := fun heq => out_ne_append heq.symm
  have herror : ∀ errorId errorMsg,
      (s.objectError k errorId errorMsg).out ≠ s.out ++ [.generic g] := by
    intro errorId errorMsg hout
    unfold objectError at hout
    split at hout
    · exact hquiet hout
    · simp only [write_out] at hout
      split at hout
      · exact hquiet hout
      · cases (List.cons.inj (List.append_cancel_left hout)).1
  have hwritten : ∀ (t : Server) (msg : Generic), t.out = s.out → t.shut = s.shut →
      (t.write (.generic msg)).out = s.out ++ [.generic g] → s.shut = false ∧ g = msg := by
    intro t msg hsame hshut hout
    rw [write_out, hsame, hshut] at hout
    split at hout
    · exact absurd hout hquiet
    · next hopen =>
      cases (List.cons.inj (List.append_cancel_left hout)).1
      exact ⟨by simpa using hopen, rfl⟩
  unfold call at hout
  split at hout
  · exact absurd hout hquiet
  · next hlive =>
    split at hout
    · exact absurd hout (herror _ _)
    · next m hm =>
      split at hout
      · exact absurd hout (herror _ _)
      · next hsince =>
        split at hout
        · exact absurd hout (herror _ _)
        · next hret =>
          have hemits : s.shut = false → Emits s k method := fun hshut =>
            ⟨hshut, by simpa using hlive, m, hm, hsince, by simpa using hret⟩
          unfold emitMethod at hout
          simp only at hout
          split at hout
          · obtain ⟨hshut, heq⟩ := hwritten (s.setObject k fun obj => { obj with destroyed := true })
              _ rfl rfl hout
            exact ⟨hemits hshut, by rw [heq]⟩
          · obtain ⟨hshut, heq⟩ := hwritten s _ rfl rfl hout
            exact ⟨hemits hshut, by rw [heq]⟩

/-- A step that writes an event is that of a handler. -/
theorem emits_of_step {a : Action} (h : step s a = some s') {g : Generic}
    (hout : s'.out = s.out ++ [.generic g]) :
    ∃ k method args, a = .emit k method args ∧ k < s.size ∧ Emits s k method ∧ g.origin = k := by
  rcases speaks h with hsame | ⟨msg, hspeaks, hout'⟩
  · exact absurd (hout.symm.trans hsame) out_ne_append
  · have hmsg : msg = .generic g := by
      rw [hout'] at hout
      exact (List.cons.inj (List.append_cancel_left hout)).1
    subst hmsg
    cases hspeaks with
    | event k method m args hk hm hlive =>
      simp only [step, Option.ite_none_right_eq_some, Option.some.injEq] at h
      obtain ⟨hemits, horigin⟩ := emits_of_call (h.2 ▸ hout)
      exact ⟨k, method, args, rfl, hk, hemits, horigin⟩
    | greets _ hgeneric _ _ => cases hgeneric

end Hyprwire.Server

namespace Hyprwire.Connection

open History

variable {x x' : Connection}

/-! ## What is on its way to the client -/

/-- What a queue has still to handle when the action is done. -/
def upcoming (c : Client) (a : Client.Action) (q : Nat) : List S2C :=
  match a with
  | .handle q' => if q = q' then (c.queues q).phase.pending.tail else (c.queues q).phase.pending
  | _ => (c.queues q).phase.pending

theorem upcoming_subset (c : Client) (a : Client.Action) (q : Nat) :
    upcoming c a q ⊆ (c.queues q).phase.pending := by
  unfold upcoming
  split
  · split
    · exact (List.tail_sublist _).subset
    · exact List.Subset.refl _
  · exact List.Subset.refl _

/-- The event was written and is not handled. -/
def Coming (x : Connection) (g : Generic) : Prop :=
  .generic g ∈ x.server.out.drop x.toClient ∨
    ∃ q, .generic g ∈ (x.client.queues q).phase.pending

/-- … and will not be by this action. -/
def StillComing (x : Connection) (a : Client.Action) (g : Generic) : Prop :=
  .generic g ∈ x.server.out.drop x.toClient ∨ ∃ q, .generic g ∈ upcoming x.client a q

theorem StillComing.coming {a : Client.Action} {g : Generic} (h : StillComing x a g) : Coming x g := by
  rcases h with hout | ⟨q, hq⟩
  · exact .inl hout
  · exact .inr ⟨q, upcoming_subset _ _ _ hq⟩

/-- A message that is pending was awaited, or was read just now. -/
theorem upcoming_of_step {c c' : Client} {a : Client.Action} (h : c.step a = some c') {q : Nat}
    {msg : S2C} (hmsg : msg ∈ (c'.queues q).phase.pending) :
    msg ∈ upcoming c a q ∨ ∃ batch, a = .read q batch ∧ msg ∈ batch := by
  cases a with
  | handle q₀ =>
    obtain ⟨msg₀, rest, hphase, rfl⟩ := Client.step_handles h
    refine .inl ?_
    have hmore := Client.handle_handled c q₀ msg₀ rest
    cases Client.progress_handle c hphase with
    | handled _ msg' rest' hbatch hphase' hothers _ =>
      rw [hphase] at hbatch
      cases hbatch
      by_cases hq : q = q₀
      · subst hq
        rw [upcoming, if_pos rfl, hphase]
        rcases hphase' with hphase' | ⟨h, method, hphase'⟩ | ⟨hphase', -⟩
        · rw [hphase'] at hmsg
          exact hmsg
        · rw [hphase'] at hmsg
          exact hmsg
        · rw [hphase'] at hmsg
          cases hmsg
      · rw [upcoming, if_neg hq]
        exact hothers q hq ▸ hmsg
    | gaveUp _ _ _ _ _ hsame _ =>
      rw [hmore] at hsame
      exact absurd hsame Server.out_ne_append
    | still _ _ _ _ hnot => exact absurd rfl (hnot q₀)
  | _ => exact pending_of_step h hmsg

theorem ByClient.stillComing {a : Client.Action} (h : ByClient x a x') {g : Generic}
    (hg : Coming x' g) : StillComing x a g := by
  rcases hg with hout | ⟨q, hq⟩
  · rw [h.server] at hout
    rcases h.read with ⟨q, batch, -, -, hto⟩ | ⟨-, hto⟩
    · rw [hto, ← List.drop_drop] at hout
      exact .inl (List.mem_of_mem_drop hout)
    · rw [hto] at hout
      exact .inl hout
  · rcases upcoming_of_step h.step hq with hup | ⟨batch, rfl, hin⟩
    · exact .inr ⟨q, hup⟩
    · rcases h.read with ⟨q', batch', heq, hfront, -⟩ | ⟨hnot, -⟩
      · cases heq
        exact .inl (hfront.subset hin)
      · exact absurd rfl (hnot q batch)

/-! ## The condition -/

/-- Nobody leaves the client's table whom an event is on its way to. -/
def Spares (x : Connection) (a : Client.Action) : Prop :=
  ∀ h ∈ x.client.table, Client.Loses x.client a h → ∀ g, StillComing x a g →
    (x.server.objects g.origin).seq ≠ (x.client.objects h).seq

/-- An event is handled behind the announcement of its object. -/
def HeardOf (c : Client) (a : Client.Action) : Prop :=
  ∀ q g rest, a = .handle q → (c.queues q).phase = .batch (.generic g :: rest) →
    ∃ seq, .newObject seq g.object ∈ c.handled

/-- **The condition**: a server writes an event only on an object the client still has; a client
forgets an object only when no event for it is on its way, handles an event only when it has been told
of the object, and calls nothing on an object behind its destructor.

Neither side can see to all of it by itself. A server is not told that a client let go of an object,
and a client does not know what the server wrote on it meanwhile; where an interface has no
destructor to wait for, the two have to agree by other means. The two calls that the library could
have refused are in it as well: an event before the `NewObject` of its object and a call behind a
destructor are handled as any other. What it leaves out is everything else user code does: it may
call, emit, report errors, drop queues and dispatch as it likes. -/
def Considerate (x : Connection) : Action → Prop
  | .server (.emit k method _) => Server.Emits x.server k method →
      ∃ h ∈ x.client.table, (x.client.objects h).seq = (x.server.objects k).seq
  | .client a => Spares x a ∧ HeardOf x.client a ∧ Client.Closes x.client a
  | .clientReads q _ => Spares x (.read q [])
  | _ => True

theorem Considerate.byClient {a : Action} {b : Client.Action} (h : Considerate x a)
    (hab : a = .client b ∨
      (∃ q protocol version proto, a = .bind q protocol version ∧ b = .bind q proto version) ∨
      ∃ q count, a = .clientReads q count ∧
        b = .read q ((x.server.out.drop x.toClient).take count)) :
    Spares x b ∧ HeardOf x.client b ∧ Client.Closes x.client b := by
  rcases hab with rfl | ⟨q, protocol, version, proto, rfl, rfl⟩ | ⟨q, count, rfl, rfl⟩
  · exact h
  · exact ⟨fun _ _ hloses => hloses.elim, nofun, trivial⟩
  · exact ⟨h, nofun, trivial⟩

/-! ## What considerate peers keep true -/

/-- What the client has been told of it knows by its id. -/
def Answered (c : Client) : Prop :=
  ∀ h ∈ c.table, ∀ id, .newObject (c.objects h).seq id ∈ c.handled → (c.objects h).id = id

/-- Every event on its way is for an object that the client has. -/
def Expected (x : Connection) : Prop :=
  ∀ g, Coming x g → ∃ h ∈ x.client.table, (x.client.objects h).seq = (x.server.objects g.origin).seq

/-- A seq is announced with one id. -/
theorem Joined.announced_once (hx : Joined x) {seq id id' : Nat}
    (h : .newObject seq id ∈ x.server.out) (h' : .newObject seq id' ∈ x.server.out) : id = id' := by
  obtain ⟨k, hk, hid, hseq⟩ := hx.seated.announced seq id h
  obtain ⟨k', hk', hid', hseq'⟩ := hx.seated.announced seq id' h'
  have hsame : k = k' := hx.server_inj hk hk' (hseq.trans hseq'.symm)
  rw [← hid, ← hid', hsame]

/-- An id arrives. -/
theorem Joined.answered_newObject (hx : Joined x) (h : Answered x.client) {q seq id : Nat}
    {rest : List S2C} (hphase : (x.client.queues q).phase = .batch (.newObject seq id :: rest)) :
    Answered (x.client.handle q (.newObject seq id) rest) := by
  have hout : .newObject seq id ∈ x.server.out :=
    hx.transit.waiting q _ (by rw [hphase]; exact List.mem_cons_self ..)
  intro i hi id' hid'
  rw [Client.table_of_newObject] at hi
  rw [Client.handle_handled] at hid'
  have hlt := hx.transit.ledger.table_lt i hi
  have hstep : x.client.step (.handle q) = some (x.client.handle q (.newObject seq id) rest) := by
    simp only [Client.step, hphase]
  have hlater := hx.transit.ledger.later hstep
  rw [(hlater.objects i hlt).seq] at hid'
  rw [hx.numbered.id_of_newObject hi]
  split
  · next hseq =>
    rw [hseq] at hid'
    refine hx.announced_once hout ?_
    rcases List.mem_append.mp hid' with hold | hnew
    · exact hx.transit.heard _ hold
    · rw [List.mem_singleton.mp hnew]
      exact hout
  · next hseq =>
    rcases List.mem_append.mp hid' with hold | hnew
    · exact h i hi id' hold
    · cases List.mem_singleton.mp hnew
      exact absurd rfl hseq

/-- **The client knows by its id what it has been told of**, after every step. -/
theorem Answered.byClient {impls : List ProtocolSpec} {a : Client.Action} (hx : Joined x)
    (hcounts : x.client.Counts impls) (h : Answered x.client) (hb : ByClient x a x')
    (hbound : x'.client.issued < wordSize) : Answered x'.client := by
  by_cases hnew : ∃ q seq id rest, a = .handle q ∧
      (x.client.queues q).phase = .batch (.newObject seq id :: rest)
  · obtain ⟨q, seq, id, rest, rfl, hphase⟩ := hnew
    have hstep := hb.step
    simp only [Client.step, hphase, Option.some.injEq] at hstep
    exact hstep ▸ hx.answered_newObject h hphase
  · have hled := hx.transit.ledger
    have hlater := hled.later hb.step
    have hmoves := Client.moves_step hled.table_lt
      (Client.granted_unnamed fun q seq id rest ha hphase => hnew ⟨q, seq, id, rest, ha, hphase⟩) hb.step
    intro i hi id hid
    have hold : .newObject (x'.client.objects i).seq id ∈ x.client.handled := by
      rcases Client.heads_of_step hb.step hid with hold | ⟨q, rest, ha, hphase⟩
      · exact hold
      · exact absurd ⟨q, _, id, rest, ha, hphase⟩ hnew
    have hunheard : ∀ seq id, ¬ Client.unnamed.heard (.newObject seq id) :=
      fun seq id hheard => hheard seq id rfl
    rcases hled.ids_moves hunheard hmoves i with
      ⟨hlt, hsame⟩ | ⟨-, hge⟩
    · rw [(hlater.objects i hlt).seq] at hold
      rw [hsame]
      exact h i ((hlater.table i hi).resolve_right (Nat.not_le_of_lt hlt)) id hold
    · -- Nobody can have been told of an object that is made by the step.
      obtain ⟨k, hk, -, hseq⟩ := hx.told hold
      have hle := (hx.twins k hk).1.2
      have hfresh := hcounts.newer hled (hb.binds hcounts.1) hb.step hbound hge
        ((hled.step hb.step).table_lt i hi)
      rw [hseq] at hle
      exact absurd hfresh (Nat.not_lt_of_le hle)

/-- … and so finds the object of every event. -/
theorem Joined.not_misses (hx : Joined x) (hanswered : Answered x.client) (hexpected : Expected x)
    {a : Client.Action} (horder : HeardOf x.client a) : ¬ Client.Misses x.client a := by
  rintro ⟨q, g, rest, ha, hphase, hnone⟩
  have hpending : .generic g ∈ (x.client.queues q).phase.pending := by
    rw [hphase]
    exact List.mem_cons_self ..
  obtain ⟨h, hin, hseq⟩ := hexpected g (.inr ⟨q, hpending⟩)
  obtain ⟨seq, htold⟩ := horder q g rest ha hphase
  obtain ⟨k, hk, hid, hseq'⟩ := hx.told htold
  obtain ⟨horigin, hobject⟩ := hx.seated.events g (hx.transit.waiting q _ hpending)
  -- What the client was told of and what the event is on share an id, and so are one object.
  have hsame : k = g.origin := seated_inj hx.seated hk horigin (hid.trans hobject)
  subst hsame
  have hnamed := hanswered h hin g.object (by rw [hseq, hseq']; exact htold)
  exact absurd (decide_eq_true hnamed) (List.find?_eq_none.mp hnone h hin)

/-- No event is on its way for an object that the client does not have. -/
theorem Expected.byClient {a : Client.Action} (hled : x.client.Ledger) (h : Expected x)
    (hb : ByClient x a x') (hspares : Spares x a) : Expected x' := by
  intro g hg
  have hcoming := hb.stillComing hg
  obtain ⟨i, hin, hseq⟩ := h g hcoming.coming
  have hlater := hled.later hb.step
  rcases hled.loses hb.step hin with hin' | hloses
  · refine ⟨i, hin', ?_⟩
    rw [hb.server, (hlater.objects i (hled.table_lt i hin)).seq]
    exact hseq
  · exact absurd hseq.symm (hspares i hin hloses g hcoming)

theorem Expected.byServer {a : Server.Action} (hx : Joined x) (h : Expected x)
    (hb : ByServer x a x')
    (hemit : ∀ k method args, a = .emit k method args → Server.Emits x.server k method →
      ∃ h ∈ x.client.table, (x.client.objects h).seq = (x.server.objects k).seq) : Expected x' := by
  have hobjects := (Server.birth hb.step).1
  intro g hg
  rw [hb.client]
  -- An event that was written before is on its way as it was.
  have hold : Coming x g → .generic g ∈ x.server.out →
      ∃ h ∈ x.client.table, (x.client.objects h).seq = (x'.server.objects g.origin).seq := by
    intro hcoming hout
    obtain ⟨i, hin, hseq⟩ := h g hcoming
    refine ⟨i, hin, ?_⟩
    rw [(hobjects g.origin (hx.seated.events g hout).1).seq]
    exact hseq
  rcases hg with hout | ⟨q, hq⟩
  · rw [hb.toClient] at hout
    rcases Server.speaks hb.step with hsame | ⟨msg, -, hmore⟩
    · rw [hsame] at hout
      exact hold (.inl hout) (List.mem_of_mem_drop hout)
    · rw [hmore, List.drop_append_of_le_length hx.transit.toClient] at hout
      rcases List.mem_append.mp hout with hin | hnew
      · exact hold (.inl hin) (List.mem_of_mem_drop hin)
      · rw [← List.mem_singleton.mp hnew] at hmore
        obtain ⟨k, method, args, ha, hk, hemits, horigin⟩ := Server.emits_of_step hb.step hmore
        obtain ⟨i, hin, hseq⟩ := hemit k method args ha hemits
        refine ⟨i, hin, ?_⟩
        rw [horigin, (hobjects k hk).seq]
        exact hseq
  · rw [hb.client] at hq
    exact hold (.inr ⟨q, hq⟩) (hx.transit.waiting q _ hq)

/-! ## What the server has -/

/-- **The server finds the object of every message**, where nothing comes behind a destructor. -/
theorem Joined.not_server_misses (hx : Joined x) (hlast : x.client.Ordered Client.Last Client.InTable)
    (haccounted : x.server.Accounted) (a : Server.Action) : ¬ Server.Misses x.server a := by
  rintro ⟨g, rest, -, hphase, hnone⟩
  have hopen : x.server.gone = false := by
    cases hgone : x.server.gone with
    | false => rfl
    | true =>
      rw [haccounted.gone hgone] at hphase
      cases hphase
  have hserved := hx.transit.served
  rw [hphase] at hserved
  have hout : .generic g ∈ x.client.out :=
    hserved.subset (List.mem_append_right _ (List.mem_cons_self ..))
  have hsent := hx.transit.ledger.sent g hout
  obtain ⟨k, hk, hid, hseq⟩ := hx.told hsent.named
  rcases haccounted.table hopen k hk with hin | ⟨g', k₀, hg', hk₀, hobject, hid₀, hdes⟩
  · exact absurd (decide_eq_true hid) (List.find?_eq_none.mp hnone k hin)
  · -- A destructor was handled before. It is of the same object of the client.
    have hsame : k = k₀ := seated_inj hx.seated hk hk₀ hid₀
    subst hsame
    have hsent' := hx.transit.ledger.sent g' (hx.transit.on_wire hg')
    obtain ⟨k₁, hk₁, hid₁, hseq₁⟩ := hx.told hsent'.named
    have hsame₁ : k₁ = k := seated_inj hx.seated hk₁ hk (hid₁.trans hobject)
    subst hsame₁
    have horigin : g'.origin = g.origin :=
      hx.numbered.inj _ hsent'.origin_lt _ hsent.origin_lt (hseq₁.symm.trans hseq)
    have hdestructor : g'.destructor = true := by
      obtain ⟨m, hm, hflag, -⟩ := hsent'.fits
      have htwins := (hx.twins k₁ hk₁).2 g'.origin hsent'.origin_lt hseq₁.symm
      rw [htwins.methods] at hm
      rw [Server.isDestructor, hm] at hdes
      rw [hflag]
      exact hdes
    obtain ⟨more, hmore⟩ := hserved
    have hpairs := hlast.out
    rw [← hmore, List.append_assoc] at hpairs
    -- So the client sent a message behind a destructor of its own, which the order of its calls
    -- rules out.
    have hbehind := (List.pairwise_append.mp hpairs).2.2 _ hg' (.generic g)
      (List.mem_append_left _ (List.mem_cons_self ..)) g' g rfl rfl horigin
    rw [hdestructor] at hbehind
    cases hbehind

/-! ## Every run -/

/-- **What considerate peers keep true.** -/
structure Civil (x : Connection) : Prop where
  closed : x.client.Closed
  accounted : x.server.Accounted
  answered : Answered x.client
  expected : Expected x
  client : x.client.unknownObject = false
  server : x.server.unknownObject = false

theorem Civil.start (impls : List ProtocolSpec) : Civil (start impls) where
  closed := .init impls
  accounted := .init impls
  answered _ h := by cases h
  expected g h := by
    rcases h with hout | ⟨q, hq⟩
    · cases hout
    · cases hq
  client := rfl
  server := rfl

theorem Civil.byClient {impls : List ProtocolSpec} {a : Client.Action} (hpaired : Paired impls x)
    (hc : Civil x) (hb : ByClient x a x') (hspares : Spares x a) (horder : HeardOf x.client a)
    (hcloses : Client.Closes x.client a) (hbound : x'.client.issued + 1 < wordSize) : Civil x' := by
  have hled := hpaired.transit.ledger
  have hissued := (hled.later hb.step).issued
  have hx := hpaired.joined (Nat.lt_of_le_of_lt (Nat.succ_le_succ hissued) hbound)
  refine ⟨hc.closed.step hpaired.counts hled hcloses (hb.binds hpaired.counts.1) hb.step,
    hb.server ▸ hc.accounted,
    hc.answered.byClient hx hpaired.counts hb (Nat.lt_of_succ_lt hbound),
    hc.expected.byClient hled hb hspares, ?_, hb.server ▸ hc.server⟩
  rcases Client.unknown_of_step hb.step with hsame | hmisses
  · rw [hsame]
    exact hc.client
  · exact absurd hmisses (hx.not_misses hc.answered hc.expected horder)

theorem Civil.byServer {impls : List ProtocolSpec} {a : Server.Action} (hpaired : Paired impls x)
    (hc : Civil x) (hb : ByServer x a x')
    (hemit : ∀ k method args, a = .emit k method args → Server.Emits x.server k method →
      ∃ h ∈ x.client.table, (x.client.objects h).seq = (x.server.objects k).seq)
    (hbound : x'.client.issued + 1 < wordSize) : Civil x' := by
  rw [hb.client] at hbound
  have hx := hpaired.joined hbound
  refine ⟨hb.client ▸ hc.closed, hc.accounted.step hb.step, hb.client ▸ hc.answered,
    hc.expected.byServer hx hb hemit, hb.client ▸ hc.client, ?_⟩
  rcases Server.unknown_of_step hb.step with hsame | hmisses
  · rw [hsame]
    exact hc.server
  · exact absurd hmisses
      (hx.not_server_misses (hc.closed.last (Nat.lt_of_succ_lt hbound)) hc.accounted a)

theorem Civil.step {impls : List ProtocolSpec} {a : Action} (hpaired : Paired impls x) (hc : Civil x)
    (hconsiderate : Considerate x a) (hbound : x'.client.issued + 1 < wordSize)
    (h : Connection.step x a = some x') : Civil x' := by
  rcases step_cases h with ⟨b, hb, hab⟩ | ⟨b, hb, hab⟩
  · obtain ⟨hspares, horder, hcloses⟩ := hconsiderate.byClient hab
    exact hc.byClient hpaired hb hspares horder hcloses hbound
  · refine hc.byServer hpaired hb (fun k method args heq => ?_) hbound
    rcases hab with rfl | ⟨count, -, hread⟩
    · subst heq
      exact hconsiderate
    · rw [hread] at heq
      cases heq

/-- **Considerate peers never end each other's connection** over an unknown object, whatever else
either does and in whatever order, as long as fewer than 2^32 - 1 numbers are given out. -/
theorem honest_peers {impls : List ProtocolSpec} {as : List Action}
    (hmeets : Run.Meets step Considerate (start impls) as)
    (hrun : Run.run step (start impls) as = some x) (hbound : x.client.issued < 2 ^ 32 - 1) :
    x.client.unknownObject = false ∧ x.server.unknownObject = false := by
  have hcivil : Paired impls x ∧ Civil x :=
    @Run.run_bounded _ _ step (Paired impls) (fun t => Paired impls t ∧ Civil t) Considerate
      (fun t => t.client.issued) (wordSize - 1) (fun _ _ _ ht hstep => ht.step hstep)
      (fun t a t' ht hstep => ?_)
      (fun t a t' ht hconsiderate hlt hstep =>
        ⟨ht.1.step hstep, ht.2.step ht.1 hconsiderate (Nat.add_lt_of_lt_sub hlt) hstep⟩)
      as _ x (.start impls) ⟨.start impls, .start impls⟩ hmeets hrun hbound
  · exact ⟨hcivil.2.client, hcivil.2.server⟩
  · rcases step_cases hstep with ⟨b, hb, -⟩ | ⟨b, hb, -⟩
    · exact (ht.transit.ledger.later hb.step).issued
    · rw [hb.client]

/-! ### Runs -/

/-- Nothing is let go of, and nothing is called: a check that can be run. -/
def calm (x : Connection) : Action → Bool
  | .server (.emit k _ _) =>
    x.client.table.any fun h => (x.client.objects h).seq = (x.server.objects k).seq
  | .client (.send _ _ _) => false
  | .client (.handle q) =>
    match (x.client.queues q).phase with
    | .batch (.generic g :: _) =>
      match x.client.objectForId g.object with
      | some h => Client.callsBack (x.client.objects h) g.method &&
          x.client.handled.any fun msg => Server.newId? msg = some g.object
      | none => false
    | _ => true
  | .client (.return_ q) =>
    match (x.client.queues q).phase with
    | .callback _ h method => !Client.isDestructor (x.client.objects h) method
    | _ => true
  | .client _ | .clientReads _ _ => x.client.table.all fun h => !x.client.orphaned h
  | _ => true

theorem considerate_of_calm {a : Action} (h : calm x a = true) : Considerate x a := by
  have hheld : (x.client.table.all fun h => !x.client.orphaned h) = true →
      ∀ h ∈ x.client.table, x.client.orphaned h ≠ true := by
    intro hall h hin horphan
    have hnot := List.all_eq_true.mp hall h hin
    rw [horphan] at hnot
    cases hnot
  cases a with
  | bind q protocol version => trivial
  | clientReads q count => exact fun i hin hloses => absurd hloses (hheld h i hin)
  | serverReads count => trivial
  | server b =>
    cases b with
    | emit k method args =>
      obtain ⟨i, hin, hseq⟩ := List.any_eq_true.mp h
      exact fun _ => ⟨i, hin, by simpa using hseq⟩
    | _ => trivial
  | client b =>
    cases b with
    | send obj method args => cases h
    | handle q =>
      refine ⟨fun i _ hloses => ?_, fun q' g rest heq hphase => ?_, trivial⟩
      · obtain ⟨g, rest, obj, hphase, hfind, hquiet, -⟩ := hloses
        simp only [calm, hphase, hfind, hquiet] at h
        cases h
      · cases heq
        simp only [calm, hphase] at h
        split at h
        · obtain ⟨msg, hmsg, hnew⟩ := List.any_eq_true.mp (Bool.and_eq_true_iff.mp h).2
          cases msg with
          | newObject seq id =>
            have hid : id = g.object := by simpa [Server.newId?] using hnew
            exact ⟨seq, hid ▸ hmsg⟩
          | _ => simp [Server.newId?] at hnew
        · cases h
    | return_ q =>
      refine ⟨fun i _ hloses => ?_, nofun, trivial⟩
      obtain ⟨rest, obj, method, hphase, hdes, -⟩ := hloses
      simp only [calm, hphase, hdes] at h
      cases h
    | poll q => exact ⟨fun i hin hloses => absurd hloses (hheld h i hin), nofun, trivial⟩
    | unreadable q => exact ⟨fun i hin hloses => absurd hloses (hheld h i hin), nofun, trivial⟩
    | read q batch => exact ⟨fun i hin hloses => absurd hloses (hheld h i hin), nofun, trivial⟩
    | finish q => exact ⟨fun i hin hloses => absurd hloses (hheld h i hin), nofun, trivial⟩
    | roundtripFail q => exact ⟨fun i hin hloses => absurd hloses.2 (hheld h i hin), nofun, trivial⟩
    | _ => exact ⟨fun _ _ hloses => hloses.elim, nofun, trivial⟩

/-- The server ticks, and the client keeps its handle until it has heard it. -/
def ticking : List Action :=
  binding ++ [.server (.emit 0 0 []), .clientReads 0 1, .client (.handle 0), .client (.return_ 0),
    .client (.finish 0)]

theorem honest_peers_ticking :
    ∃ x, Run.run step (start [shopProtocol]) ticking = some x ∧
      x.client.unknownObject = false ∧ x.server.unknownObject = false := by
  refine ⟨_, rfl, @honest_peers _ [shopProtocol] ticking ?_ rfl (by decide)⟩
  have hcalm : Run.Meets step (fun x a => calm x a = true) (start [shopProtocol]) ticking := by decide
  exact Run.meets_mono (fun _ _ => considerate_of_calm) hcalm

/-- The client drops its handle and polls, and the server ticks. -/
def dropping : List Action :=
  binding ++ [.client (.drop 0), .client (.poll 0), .server (.emit 0 0 []), .clientReads 0 1,
    .client (.handle 0)]

/-- A desk is left by a destructor that takes an argument. -/
def deskProtocol : ProtocolSpec where
  specName := "shop"
  specVer := 1
  objects := [⟨"desk", [⟨0, [MessageMagic.typeUint.toU8], "", 0, true⟩], []⟩]

/-- Two handles leave one desk. -/
def leaving : List Action :=
  binding ++ [.client (.clone 0), .client (.send 0 0 [.uint 1]), .client (.send 0 0 [.uint 2]),
    .serverReads 2, .server .handle, .server .return_, .server .handle]

/-- **Peers that do nothing wrong end each other's connection**: the client over an event for an
object whose last handle was dropped, the server over a call behind a destructor. -/
theorem peers_end_each_other :
    (∃ x, Run.run step (start [shopProtocol]) dropping = some x ∧ x.client.issued < 2 ^ 32 - 1 ∧
      x.client.unknownObject = true ∧ x.client.error = true ∧ x.client.shut = true) ∧
    ∃ x, Run.run step (start [deskProtocol]) leaving = some x ∧ x.client.issued < 2 ^ 32 - 1 ∧
      x.server.unknownObject = true ∧ x.server.error = true :=
  ⟨⟨_, rfl, by decide, rfl, rfl, rfl⟩, _, rfl, by decide, rfl, rfl⟩

end Hyprwire.Connection
