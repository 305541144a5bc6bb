import Mathlib.Data.List.Nodup
import Mathlib.Data.List.Perm.Subperm
import Hyprwire.System.Connection
import Hyprwire.System.Numbering

/-!
# `System/Agreement.lean` — the two sides mean the same objects

A client counts its objects by seqs and a server by ids, and a `NewObject` ties one to the other.
As long as neither counter has wrapped, the ties are one to one (`Numbered`, `Seated`): an object of
the server was made for one message of the client, which asked for one of its own objects. That the
two objects have one interface goes by induction on the objects of the server: the message that made
one names its parent by an id, and so does what the client meant by it.
-/

namespace Hyprwire.Server

open History

variable {s s' : Server}

/-! ## What the objects were made for -/

/-- The number in a message, 0 when there is none. -/
def numberIn : C2S → Nat
  | .bindProtocol seq _ _ => seq
  | .generic g => g.seq
  | _ => 0

/-- The message had the object made. -/
def MadeBy (s : Server) (k : Nat) (msg : C2S) : Prop :=
  match msg with
  | .bindProtocol seq _ protocol =>
    (s.objects k).seq = seq ∧ (s.objects k).protocolName = protocol ∧
      (s.objects k).spec = rootSpec s.impls protocol
  | .generic g => ∃ k' < k, ∃ m, (s.objects k').id = g.object ∧
      (s.objects k').methodsIn[g.method]? = some m ∧ m.returnsType ≠ "" ∧
      (s.objects k).seq = g.seq ∧ (s.objects k).protocolName = (s.objects k').protocolName ∧
      (s.objects k).spec = specFor s.impls (s.objects k').protocolName m.returnsType
  | _ => False

/-- **What a server keeps true of its objects** while it has ids left: they are numbered as they
come, each is announced as what it is, and each was made for a message of its own. -/
structure Seated (s : Server) : Prop where
  maxId : s.maxId = (s.size + 1) % wordSize
  ids : ∀ k < s.size, (s.objects k).id = k + 1
  table_lt : ∀ k ∈ s.table, k < s.size
  announced : ∀ seq id, .newObject seq id ∈ s.out →
    ∃ k < s.size, (s.objects k).id = id ∧ (s.objects k).seq = seq
  events : ∀ g, .generic g ∈ s.out → g.origin < s.size ∧ g.object = (s.objects g.origin).id
  made : ∀ k < s.size, ∃ msg ∈ s.handled, s.MadeBy k msg
  seqs : ((List.range s.size).map fun k => (s.objects k).seq).Sublist (s.handled.map numberIn)

theorem Seated.init (impls : List ProtocolSpec) : Seated { impls } where
  maxId := rfl
  ids _ h := absurd h (Nat.not_lt_zero _)
  table_lt _ h := by cases h
  announced _ _ h := by cases h
  events _ h := by cases h
  made _ h := absurd h (Nat.not_lt_zero _)
  seqs := .slnil

/-- What had an object made stays what had it made. -/
theorem MadeBy.kept (hobjects : ∀ k < s.size, SameObject (s.objects k) (s'.objects k))
    (himpls : s'.impls = s.impls) {k : Nat} (hk : k < s.size) {msg : C2S} (h : s.MadeBy k msg) :
    s'.MadeBy k msg := by
  have hobj := hobjects k hk
  cases msg with
  | bindProtocol seq version protocol =>
    obtain ⟨hseq, hname, hspec⟩ := h
    exact ⟨hobj.seq.trans hseq, hobj.protocolName.trans hname, by rw [hobj.spec, himpls, hspec]⟩
  | generic g =>
    obtain ⟨k', hk', m, hid, hm, hret, hseq, hname, hspec⟩ := h
    have hparent := hobjects k' (Nat.lt_trans hk' hk)
    refine ⟨k', hk', m, hparent.id.trans hid, hparent.methodsIn ▸ hm, hret, hobj.seq.trans hseq, ?_, ?_⟩
    · rw [hobj.protocolName, hparent.protocolName, hname]
    · rw [hobj.spec, hparent.protocolName, himpls, hspec]
  | sup => exact h
  | handshakeAck version => exact h
  | roundtripRequest seq queue => exact h

theorem MadeBy.number {k : Nat} {msg : C2S} (h : s.MadeBy k msg) :
    numberIn msg = (s.objects k).seq := by
  cases msg with
  | bindProtocol seq version protocol => exact h.1.symm
  | generic g =>
    obtain ⟨k', -, m, -, -, -, hseq, -⟩ := h
    exact hseq.symm
  | sup => exact h.elim
  | handshakeAck version => exact h.elim
  | roundtripRequest seq queue => exact h.elim

/-- What a new object is made by. -/
theorem MadeBy.asked {msg : C2S} {protocol name : String} {version seq : Nat}
    (htable : ∀ k ∈ s.table, k < s.size) (hasks : s.Asks msg protocol name seq)
    (hobjects : ∀ k < s.size, SameObject (s.objects k) (s'.objects k))
    (himpls : s'.impls = s.impls)
    (hnew : SameObject (s.created protocol name version seq) (s'.objects s.size)) :
    s'.MadeBy s.size msg ∧ seq = numberIn msg := by
  cases msg with
  | bindProtocol seq' version' protocol' =>
    obtain ⟨-, rfl, rfl, rfl⟩ := hasks
    refine ⟨⟨hnew.seq, hnew.protocolName, ?_⟩, rfl⟩
    rw [hnew.spec, himpls]
    show s.findSpec protocol "" = rootSpec s.impls protocol
    exact if_pos rfl
  | generic g =>
    obtain ⟨k, m, hfind, -, hm, hret, rfl, rfl, rfl⟩ := hasks
    have hk : k < s.size := htable k (List.mem_of_find?_eq_some hfind)
    have hid : (s.objects k).id = g.object := by simpa using List.find?_some hfind
    have hparent := hobjects k hk
    refine ⟨⟨k, hk, m, hparent.id.trans hid, hparent.methodsIn ▸ hm, hret, hnew.seq, ?_, ?_⟩, rfl⟩
    · rw [hnew.protocolName, hparent.protocolName]
      rfl
    · rw [hnew.spec, hparent.protocolName, himpls]
      exact if_neg hret
  | sup => exact hasks.elim
  | handshakeAck version' => exact hasks.elim
  | roundtripRequest seq' queue => exact hasks.elim

/-- **Every step keeps the objects seated**, while there is an id for a new one. -/
theorem Seated.step {a : Action} (hs : Seated s) (hbound : s.size + 1 < wordSize)
    (h : Server.step s a = some s') : Seated s' := by
  obtain ⟨hobjects, himpls, hbirth⟩ := birth h
  have hkept : ∀ k < s.size, (s'.objects k).id = (s.objects k).id ∧ (s'.objects k).seq = (s.objects k).seq :=
    fun k hk => ⟨(hobjects k hk).id, (hobjects k hk).seq⟩
  have hmade : ∀ k < s.size, ∃ msg ∈ s'.handled, s'.MadeBy k msg := by
    intro k hk
    obtain ⟨msg, hmsg, hby⟩ := hs.made k hk
    exact ⟨msg, (handled_of_step h).subset hmsg, hby.kept hobjects himpls hk⟩
  have hseqs : (List.range s.size).map (fun k => (s'.objects k).seq) =
      (List.range s.size).map fun k => (s.objects k).seq :=
    List.map_congr_left fun k hk => (hkept k (List.mem_range.mp hk)).2
  -- An event is sent on an object that is there.
  have hevents : ∀ g, .generic g ∈ s'.out →
      g.origin < s.size ∧ g.object = (s.objects g.origin).id := by
    intro g hg
    rcases speaks h with hout | ⟨msg, hspeaks, hout⟩
    · exact hs.events g (hout ▸ hg)
    · rw [hout] at hg
      rcases List.mem_append.mp hg with hg | hg
      · exact hs.events g hg
      · cases List.mem_singleton.mp hg
        cases hspeaks with
        | event k method m args hk hm hlive => exact ⟨hk, rfl⟩
        | greets _ hgeneric _ _ => cases hgeneric
  cases hbirth with
  | none _ hsize hmax htable hannounced =>
    refine ⟨by rw [hmax, hsize]; exact hs.maxId, fun k hk => ?_, fun k hk => ?_, fun seq id hin => ?_,
      fun g hg => ?_, fun k hk => hmade k (hsize ▸ hk), ?_⟩
    · rw [hsize] at hk
      exact (hkept k hk).1.trans (hs.ids k hk)
    · rw [hsize]
      exact hs.table_lt k (htable k hk)
    · obtain ⟨k, hk, hid, hseq⟩ := hs.announced seq id (hannounced seq id hin)
      exact ⟨k, hsize ▸ hk, (hkept k hk).1.trans hid, (hkept k hk).2.trans hseq⟩
    · obtain ⟨hlt, hid⟩ := hevents g hg
      exact ⟨hsize ▸ hlt, hid.trans (hkept _ hlt).1.symm⟩
    · rw [hsize, hseqs]
      exact hs.seqs.trans ((handled_of_step h).sublist.map _)
  | made msg rest protocol name version seq hphase hasks hsize hmax hnew htable hannounced hhandled =>
    have hid : (s'.objects s.size).id = s.size + 1 := by
      rw [hnew.id]
      show s.maxId = s.size + 1
      rw [hs.maxId, Nat.mod_eq_of_lt hbound]
    obtain ⟨hby, hnumber⟩ := MadeBy.asked hs.table_lt hasks hobjects himpls hnew
    refine ⟨?_, fun k hk => ?_, fun k hk => ?_, fun seq' id hin => ?_, fun g hg => ?_,
      fun k hk => ?_, ?_⟩
    · rw [hmax, hsize, hs.maxId, Nat.mod_eq_of_lt hbound]
    · rw [hsize] at hk
      rcases Nat.lt_succ_iff_lt_or_eq.mp hk with hk | rfl
      · exact (hkept k hk).1.trans (hs.ids k hk)
      · exact hid
    · rw [hsize]
      rcases htable k hk with hk | rfl
      · exact Nat.lt_succ_of_lt (hs.table_lt k hk)
      · exact Nat.lt_succ_self _
    · rcases hannounced seq' id hin with hin | ⟨rfl, rfl⟩
      · obtain ⟨k, hk, hid, hseq⟩ := hs.announced seq' id hin
        exact ⟨k, hsize ▸ Nat.lt_succ_of_lt hk, (hkept k hk).1.trans hid, (hkept k hk).2.trans hseq⟩
      · exact ⟨s.size, hsize ▸ Nat.lt_succ_self _, hnew.id, hnew.seq⟩
    · obtain ⟨hlt, hid⟩ := hevents g hg
      exact ⟨hsize ▸ Nat.lt_succ_of_lt hlt, hid.trans (hkept _ hlt).1.symm⟩
    · rw [hsize] at hk
      rcases Nat.lt_succ_iff_lt_or_eq.mp hk with hk | rfl
      · exact hmade k hk
      · refine ⟨msg, ?_, hby⟩
        rw [hhandled]
        exact List.mem_append_right _ (List.mem_singleton.mpr rfl)
    · -- The newest seq is that of the newest message.
      rw [hsize, List.range_succ, List.map_append, hhandled, List.map_append, hseqs]
      refine hs.seqs.append ?_
      rw [List.map_singleton, List.map_singleton, hnew.seq, ← hnumber]
      exact List.Sublist.refl _

/-- Handling a message has reached the object: its callback has begun, or it is off the table. -/
def Reached (s s' : Server) (k : Nat) : Prop :=
  (∃ rest method, s'.phase = .callback rest k method) ∨ (k ∈ s.table ∧ k ∉ s'.table)

/-- A generic message reaches the objects of its id, whatever becomes of it. -/
theorem reached_of_generic {g : Generic} {rest : List C2S} {k : Nat}
    (h : Reached s (s.handle (.generic g) rest) k) : k ∈ s.table ∧ (s.objects k).id = g.object := by
  have hnamed : ∀ {i}, s.objectForId g.object = some i →
      i ∈ s.table ∧ (s.objects i).id = g.object := by
    intro i hfind
    exact ⟨List.mem_of_find?_eq_some hfind, by simpa using List.find?_some hfind⟩
  rw [handle_generic] at h
  have hdelivered := delivered (s.heard (.generic g) rest) g rest
  generalize (s.heard (.generic g) rest).onGeneric g rest = t at h hdelivered
  cases hdelivered with
  | unknown hfind =>
    have haside := Aside.write (s.heard (.generic g) rest) (.fatalProtocolError g.object
      (wordSize - 1) s!"generic message references unknown object {g.object}")
    rcases h with ⟨rest', method, hphase⟩ | ⟨hin, hout⟩
    · cases hphase
    · refine absurd ?_ hout
      show k ∈ (Server.write _ _).table
      rw [haside.table]
      exact hin
  | silent i hfind hquiet =>
    rcases h with ⟨rest', method, hphase⟩ | ⟨hin, hout⟩
    · cases hphase
    · have hmem := @mem_afterDispatch ((s.heard (.generic g) rest).note i g.method) i g.method
      rw [note_eq] at hmem hout
      rcases hmem hin with hstays | ⟨-, hid⟩
      · exact absurd hstays hout
      · exact ⟨hin, hid.trans (hnamed hfind).2⟩
  | called i hfind hcalls =>
    rcases h with ⟨rest', method, hphase⟩ | ⟨hin, hout⟩
    · cases hphase
      exact hnamed hfind
    · rw [note_eq] at hout
      exact absurd hin hout
  | made i m hfind hcalls hm hret =>
    rcases h with ⟨rest', method, hphase⟩ | ⟨hin, hout⟩
    · cases hphase
      exact hnamed hfind
    · rw [note_eq, createObject_eq] at hout
      exact absurd (List.mem_append_left _ hin) hout

end Hyprwire.Server

namespace Hyprwire.Client

variable {c c' : Client}

/-! ## Whom an event reaches -/

/-- Dropping what was taken off leaves the rest of the table as it is. -/
theorem mem_unlink (hlt : ∀ i ∈ c.table, i < c.size) {gone : Nat → Bool} {i : Nat}
    (hin : i ∈ c.table) (hkept : gone i = false) : i ∈ (c.unlink gone).table := by
  let R : Rely := { anything with collects := fun _ => False, ended := fun _ _ => False }
  have hmoves : Moves R { c with table := c.table.filter fun h => !gone h } (c.unlink gone) :=
    moves_unlinked hlt rfl rfl
  refine hmoves.invariant (P := fun t => i ∈ t.table) (fun t t' hmem hmove => ?_)
    (List.mem_filter.mpr ⟨hin, by simp [hkept]⟩)
  rcases hmove.unlinks hmem with hstays | ⟨-, ⟨-, hcollects⟩ | ⟨-, h, method, m, hended, -⟩⟩
  · exact hstays
  · exact hcollects.elim
  · exact hended.elim

theorem mem_destroyObject (hlt : ∀ i ∈ c.table, i < c.size) {id i : Nat} (hin : i ∈ c.table)
    (hne : (c.objects i).id ≠ id) : i ∈ (c.destroyObject id).table := by
  let gone : Nat → Bool := fun h => decide ((c.objects h).id = id)
  have hkept : gone i = false := decide_eq_false hne
  exact mem_unlink (c := { c with destructed := c.destructed ++ c.table.filter gone }) hlt hin hkept

theorem mem_afterDispatch (hlt : ∀ i ∈ c.table, i < c.size) (h method : Nat) {i : Nat}
    (hin : i ∈ c.table) :
    i ∈ (c.afterDispatch h method).table ∨ (c.objects i).id = (c.objects h).id := by
  by_cases heq : (c.objects i).id = (c.objects h).id
  · exact .inr heq
  · refine .inl ?_
    unfold afterDispatch
    split
    · exact hin
    · split
      · simp only
        split
        · have hids : ∀ j, ((c.setObject h fun obj => { obj with destroyed := true }).objects j).id =
              (c.objects j).id := by
            intro j
            simp only [setObject]
            split <;> rfl
          exact mem_destroyObject (c := c.setObject h _) hlt hin (by rwa [hids, hids])
        · exact hin
      · exact hin

/-- Handling an event has reached the object: its callback has begun, or it is off the table. -/
def Reached (q : Nat) (c c' : Client) (h : Nat) : Prop :=
  (∃ rest method, (c'.queues q).phase = .callback rest h method) ∨ (h ∈ c.table ∧ h ∉ c'.table)

/-- An event reaches the objects of its id, whatever becomes of it. -/
theorem reached_of_generic (hlt : ∀ i ∈ c.table, i < c.size) {q : Nat} {g : Generic}
    {rest : List S2C} {h : Nat} (hreached : Reached q c (c.handle q (.generic g) rest) h) :
    h ∈ c.table ∧ (c.objects h).id = g.object := by
  simp only [handle, onGeneric] at hreached
  split at hreached
  · rcases hreached with ⟨rest', method, hphase⟩ | ⟨hin, hout⟩
    · rw [setPhase_phase] at hphase
      cases hphase
    · exact absurd hin hout
  · next i hfind =>
    have hnamed := objectForId_some (c := { c with handled := c.handled ++ [S2C.generic g] }) hfind
    split at hreached
    · rcases hreached with ⟨rest', method, hphase⟩ | ⟨hin, hout⟩
      · rw [setPhase_phase] at hphase
        cases hphase
        exact hnamed
      · exact absurd hin hout
    · rcases hreached with ⟨rest', method, hphase⟩ | ⟨hin, hout⟩
      · rw [setPhase_phase] at hphase
        cases hphase
      · rcases mem_afterDispatch (c := { c with handled := c.handled ++ [S2C.generic g] }) hlt i
          g.method hin with hstays | hid
        · exact absurd hstays hout
        · exact ⟨hin, hid.trans hnamed.2⟩

end Hyprwire.Client

namespace Hyprwire.Connection

open History

variable {x x' : Connection}

/-! ## Both sides -/

/-- An object of the client and one of the server that stand for each other. -/
structure Twins (obj : ClientObject) (obj' : ServerObject) : Prop where
  seq : obj'.seq = obj.seq
  protocolName : obj'.protocolName = obj.protocolName
  spec : obj'.spec = obj.spec

theorem Twins.methods {obj : ClientObject} {obj' : ServerObject} (h : Twins obj obj') :
    obj.methodsOut = obj'.methodsIn :=
  congrArg (fun spec => ({ spec } : ClientObject).methodsOut) h.spec.symm

/-- A number of the server's own is that of one object. -/
theorem seated_inj {s : Server} (hs : s.Seated) {k k' : Nat} (hk : k < s.size) (hk' : k' < s.size)
    (hid : (s.objects k).id = (s.objects k').id) : k = k' := by
  rw [hs.ids k hk, hs.ids k' hk'] at hid
  exact Nat.succ_inj.mp hid

/-- What is in the server's history is on the client's wire. -/
theorem Transit.on_wire (hx : Transit x) {msg : C2S} (h : msg ∈ x.server.handled) :
    msg ∈ x.client.out :=
  hx.served.subset (List.mem_append_left _ h)

/-- A message whose number is not 0 carries it. -/
theorem carries_of_number {msg : C2S} (h : Server.numberIn msg ≠ 0) :
    msg.carries = some (Server.numberIn msg) := by
  cases msg with
  | bindProtocol seq version protocol => rfl
  | generic g => exact if_neg h
  | sup => exact absurd rfl h
  | handshakeAck version => exact absurd rfl h
  | roundtripRequest seq queue => exact absurd rfl h

/-- **What holds of both sides** while neither has run out of numbers. -/
structure Joined (x : Connection) : Prop where
  transit : Transit x
  numbered : x.client.Numbered
  seated : x.server.Seated
  impls : x.server.impls = x.client.impls

/-- Who has been told an id has an object of the server's under it. -/
theorem Joined.told (hx : Joined x) {seq id : Nat} (h : .newObject seq id ∈ x.client.handled) :
    ∃ k < x.server.size, (x.server.objects k).id = id ∧ (x.server.objects k).seq = seq :=
  hx.seated.announced seq id (hx.transit.heard _ h)

/-- **The objects of the server are what the client asked for.** The induction is on the objects:
the parent of one was made before it. -/
theorem Joined.twins (hx : Joined x) : ∀ k, k < x.server.size →
    ((x.server.objects k).seq ≠ 0 ∧ (x.server.objects k).seq ≤ x.client.issued) ∧
      ∀ h < x.client.size, (x.client.objects h).seq = (x.server.objects k).seq →
        Twins (x.client.objects h) (x.server.objects k) := by
  intro k
  induction k using Nat.strongRecOn with
  | ind k ih =>
    intro hk
    obtain ⟨msg, hmsg, hby⟩ := hx.seated.made k hk
    have hw := hx.numbered.out msg (hx.transit.on_wire hmsg)
    cases msg with
    | bindProtocol seq version protocol =>
      obtain ⟨hseq, hname, hspec⟩ := hby
      refine ⟨hseq ▸ hw.range seq rfl, fun h hh heq => ?_⟩
      obtain ⟨hname', hspec'⟩ := hw.describes h hh (by rw [heq, hseq]; rfl)
      exact ⟨heq.symm, hname.trans hname'.symm, by rw [hspec, hspec', hx.impls]⟩
    | generic g =>
      obtain ⟨k', hk', m, hid, hm, hret, hseq, hname, hspec⟩ := hby
      have hsent := hx.transit.ledger.sent g (hx.transit.on_wire hmsg)
      -- The object the client means is the one the server finds.
      obtain ⟨k₁, hk₁, hid₁, hseq₁⟩ := hx.told hsent.named
      have hfound : k₁ = k' :=
        seated_inj hx.seated hk₁ (Nat.lt_trans hk' hk) (hid₁.trans hid.symm)
      have hparent := (ih k' hk' (Nat.lt_trans hk' hk)).2 g.origin hsent.origin_lt (hfound ▸ hseq₁.symm)
      rw [← hparent.methods] at hm
      have hcarries : (C2S.generic g).carries = some g.seq :=
        carries_of_number (hw.asks g m rfl hm hret)
      refine ⟨hseq ▸ hw.range g.seq hcarries, fun h hh heq => ?_⟩
      obtain ⟨m', hm', -, hname', hspec'⟩ := hw.describes h hh (by rw [hcarries, heq, hseq])
      have hsame : m' = m := Option.some.inj (hm'.symm.trans hm)
      refine ⟨heq.symm, ?_, ?_⟩
      · rw [hname, hname', hparent.protocolName]
      · rw [hspec, hspec', hsame, hx.impls, hparent.protocolName]
    | sup => exact hby.elim
    | handshakeAck version => exact hby.elim
    | roundtripRequest seq queue => exact hby.elim

/-- No two objects of the server were made for one number. -/
theorem Joined.seqs_distinct (hx : Joined x) :
    ((List.range x.server.size).map fun k => (x.server.objects k).seq).Nodup := by
  -- No two messages on the client's wire ask for one number.
  have hout : (x.client.out.map Server.numberIn).Pairwise fun a b => a ≠ 0 → a ≠ b := by
    rw [List.pairwise_map]
    refine hx.numbered.fresh.out.imp fun {msg msg'} hfresh hne heq => ?_
    refine hfresh _ (carries_of_number hne) ?_
    rw [heq]
    exact carries_of_number (heq ▸ hne)
  have hserved : x.server.handled.Sublist x.client.out :=
    ((List.prefix_append ..).trans hx.transit.served).sublist
  have hseqs := hout.sublist (hx.seated.seqs.trans (hserved.map _))
  refine List.Pairwise.imp_of_mem (fun {a b} ha _ h => h ?_) hseqs
  obtain ⟨k, hk, rfl⟩ := List.mem_map.mp ha
  exact (hx.twins k (List.mem_range.mp hk)).1.1

/-- A server makes no more than it is asked for. -/
theorem Joined.size_le (hx : Joined x) : x.server.size ≤ x.client.issued := by
  have hsub : ((List.range x.server.size).map fun k => (x.server.objects k).seq) ⊆
      List.range' 1 x.client.issued := by
    intro seq hseq
    obtain ⟨k, hk, rfl⟩ := List.mem_map.mp hseq
    obtain ⟨hne, hle⟩ := (hx.twins k (List.mem_range.mp hk)).1
    rw [List.mem_range'_1]
    exact ⟨Nat.one_le_iff_ne_zero.mpr hne, by omega⟩
  have hle := (List.subperm_of_subset hx.seqs_distinct hsub).length_le
  rwa [List.length_map, List.length_range, List.length_range'] at hle

/-- Objects of the server with one seq are one. -/
theorem Joined.server_inj (hx : Joined x) {k k' : Nat} (hk : k < x.server.size)
    (hk' : k' < x.server.size) (hseq : (x.server.objects k).seq = (x.server.objects k').seq) :
    k = k' :=
  List.inj_on_of_nodup_map hx.seqs_distinct (List.mem_range.mpr hk) (List.mem_range.mpr hk') hseq

/-! ## Every run -/

/-- **What a connection keeps true**, whatever is done on either side. -/
structure Paired (impls : List ProtocolSpec) (x : Connection) : Prop where
  transit : Transit x
  counts : x.client.Counts impls
  impls : x.server.impls = impls
  seated : x.client.issued + 1 < wordSize → x.server.Seated ∧ x.server.size ≤ x.client.issued

theorem Paired.start (impls : List ProtocolSpec) : Paired impls (start impls) where
  transit := .start impls
  counts := ⟨rfl, fun _ => .init impls⟩
  impls := rfl
  seated _ := ⟨.init impls, Nat.le_refl _⟩

theorem Paired.joined {impls : List ProtocolSpec} (hx : Paired impls x)
    (hbound : x.client.issued + 1 < wordSize) : Joined x where
  transit := hx.transit
  numbered := hx.counts.2 (Nat.lt_of_succ_lt hbound)
  seated := (hx.seated hbound).1
  impls := hx.impls.trans hx.counts.1.symm

theorem Paired.step {impls : List ProtocolSpec} {a : Action} (hx : Paired impls x)
    (h : step x a = some x') : Paired impls x' := by
  have htransit := hx.transit.step h
  rcases step_cases h with ⟨b, hb, -⟩ | ⟨b, hb, -⟩
  · have hissued := (hx.transit.ledger.later hb.step).issued
    have hcounts := hx.counts.step hx.transit.ledger (hb.binds hx.counts.1) hb.step
    refine ⟨htransit, hcounts, hb.server ▸ hx.impls, fun hbound => ?_⟩
    obtain ⟨hseated, hle⟩ := hx.seated (Nat.lt_of_le_of_lt (Nat.succ_le_succ hissued) hbound)
    rw [hb.server]
    exact ⟨hseated, Nat.le_trans hle hissued⟩
  · have hcounts : x'.client.Counts impls := hb.client ▸ hx.counts
    have himpls : x'.server.impls = impls := (Server.birth hb.step).2.1.trans hx.impls
    refine ⟨htransit, hcounts, himpls, fun hbound => ?_⟩
    rw [hb.client] at hbound
    obtain ⟨hseated, hle⟩ := hx.seated hbound
    -- There is an id for a new object, since there was a seq for it.
    have hseated' : x'.server.Seated :=
      hseated.step (Nat.lt_of_le_of_lt (Nat.succ_le_succ hle) hbound) hb.step
    have hjoined : Joined x' :=
      ⟨htransit, hcounts.2 (hb.client ▸ Nat.lt_of_succ_lt hbound), hseated',
        himpls.trans hcounts.1.symm⟩
    exact ⟨hseated', hjoined.size_le⟩

/-! ## The agreement -/

/-- **The two sides agree.** The seqs in the client's table are distinct, none is 0, and the ids in
it are distinct; an object of the client with an id has one counterpart, which was made for the
message that carried its seq; and what is sent on an object finds its counterpart, or nothing. -/
structure Agrees (x : Connection) : Prop where
  seqs : x.client.table.Pairwise fun h h' => (x.client.objects h).seq ≠ (x.client.objects h').seq
  seq_ne : ∀ h ∈ x.client.table, (x.client.objects h).seq ≠ 0
  ids : x.client.table.Pairwise fun h h' =>
    (x.client.objects h).id ≠ 0 → (x.client.objects h).id ≠ (x.client.objects h').id
  counterpart : ∀ h < x.client.size, (x.client.objects h).id ≠ 0 →
    ∃ k < x.server.size, (x.server.objects k).id = (x.client.objects h).id ∧
      (∀ k' < x.server.size, (x.server.objects k').id = (x.client.objects h).id ∨
        (x.server.objects k').seq = (x.client.objects h).seq → k' = k) ∧
      Twins (x.client.objects h) (x.server.objects k) ∧
      ∃ msg ∈ x.server.handled, msg.carries = some (x.client.objects h).seq ∧ x.server.MadeBy k msg
  toServer : ∀ g, .generic g ∈ x.client.out → ∀ k, x.server.objectForId g.object = some k →
    Twins (x.client.objects g.origin) (x.server.objects k)
  toClient : ∀ g, .generic g ∈ x.server.out → ∀ h, x.client.objectForId g.object = some h →
    Twins (x.client.objects h) (x.server.objects g.origin)

/-- **What is dispatched reaches the counterpart.** When a side handles a generic message, the object
whose callback begins, and the one that leaves the table for it, is the counterpart of the object the
message was sent on. The seqs of either side are distinct, so there is no other it could be. -/
structure Delivers (x : Connection) (a : Action) (x' : Connection) : Prop where
  toServer : a = .server .handle → ∀ g rest, x.server.phase = .batch (.generic g :: rest) →
    ∀ k, x.server.Reached x'.server k → Twins (x.client.objects g.origin) (x.server.objects k)
  toClient : ∀ q, a = .client (.handle q) → ∀ g rest,
    (x.client.queues q).phase = .batch (.generic g :: rest) →
      ∀ h, x.client.Reached q x'.client h → Twins (x.client.objects h) (x.server.objects g.origin)

/-- An id on the client's wire was given to the seq of the object that is meant. -/
theorem Joined.toServer (hx : Joined x) {g : Generic} (hg : .generic g ∈ x.client.out) {k : Nat}
    (hk : k < x.server.size) (hid : (x.server.objects k).id = g.object) :
    Twins (x.client.objects g.origin) (x.server.objects k) := by
  have hsent := hx.transit.ledger.sent g hg
  obtain ⟨k₁, hk₁, hid₁, hseq₁⟩ := hx.told hsent.named
  have hsame : k₁ = k := seated_inj hx.seated hk₁ hk (hid₁.trans hid.symm)
  subst hsame
  exact (hx.twins k₁ hk).2 g.origin hsent.origin_lt hseq₁.symm

/-- An id on the server's wire is that of the object that is meant. -/
theorem Joined.toClient (hx : Joined x) {g : Generic} (hg : .generic g ∈ x.server.out) {h : Nat}
    (hh : h < x.client.size) (hid : (x.client.objects h).id = g.object) :
    Twins (x.client.objects h) (x.server.objects g.origin) := by
  obtain ⟨horigin, hobject⟩ := hx.seated.events g hg
  have hne : (x.client.objects h).id ≠ 0 := by
    rw [hid, hobject, hx.seated.ids _ horigin]
    exact Nat.succ_ne_zero _
  obtain ⟨k, hk, hid', hseq⟩ := hx.told (hx.transit.ledger.named h hne)
  have hsame : k = g.origin :=
    seated_inj hx.seated hk horigin (by rw [hid', hid, hobject])
  rw [← hsame]
  exact (hx.twins k hk).2 h hh hseq.symm

theorem Joined.agrees (hx : Joined x) : Agrees x := by
  have hled := hx.transit.ledger
  have hnum := hx.numbered
  -- Two objects of the client with one id have one counterpart, and so one seq.
  have hids : ∀ h < x.client.size, ∀ h' < x.client.size, (x.client.objects h).id ≠ 0 →
      (x.client.objects h).id = (x.client.objects h').id → h = h' := by
    intro h hh h' hh' hne heq
    obtain ⟨k, hk, hid, hseq⟩ := hx.told (hled.named h hne)
    obtain ⟨k', hk', hid', hseq'⟩ := hx.told (hled.named h' (heq ▸ hne))
    have hsame : k = k' := seated_inj hx.seated hk hk' (by rw [hid, hid', heq])
    subst hsame
    exact hnum.inj h hh h' hh' (hseq.symm.trans hseq')
  have hlt : ∀ {h}, h ∈ x.client.table → h < x.client.size := fun {h} hin => hled.table_lt h hin
  refine ⟨?_, fun h hh => (hnum.seqs h (hlt hh)).1, ?_, fun h hh hne => ?_, fun g hg k hfind => ?_,
    fun g hg h hfind => ?_⟩
  · exact List.Pairwise.imp_of_mem (fun hh hh' hne heq =>
      Nat.ne_of_lt hne (hnum.inj _ (hlt hh) _ (hlt hh') heq)) hled.sorted
  · exact List.Pairwise.imp_of_mem (fun hh hh' hne hid heq =>
      Nat.ne_of_lt hne (hids _ (hlt hh) _ (hlt hh') hid heq)) hled.sorted
  · obtain ⟨k, hk, hid, hseq⟩ := hx.told (hled.named h hne)
    obtain ⟨msg, hmsg, hby⟩ := hx.seated.made k hk
    refine ⟨k, hk, hid, fun k' hk' hor => ?_, (hx.twins k hk).2 h hh hseq.symm, msg, hmsg, ?_, hby⟩
    · rcases hor with hid' | hseq'
      · exact seated_inj hx.seated hk' hk (hid'.trans hid.symm)
      · exact hx.server_inj hk' hk (hseq'.trans hseq.symm)
    · have hnumber : Server.numberIn msg = (x.client.objects h).seq := by
        rw [← hseq]
        exact hby.number
      rw [← hnumber]
      exact carries_of_number (hnumber ▸ (hnum.seqs h hh).1)
  · exact hx.toServer hg (hx.seated.table_lt k (List.mem_of_find?_eq_some hfind))
      (by simpa using List.find?_some hfind)
  · obtain ⟨hin, hid⟩ := Client.objectForId_some hfind
    exact hx.toClient hg (hlt hin) hid

/-- A message that is handled was written by the other side. -/
theorem Joined.delivers (hx : Joined x) {a : Action} (h : step x a = some x') : Delivers x a x' := by
  refine ⟨?_, ?_⟩
  · rintro rfl g rest hphase k hreached
    simp only [step, Option.ite_none_right_eq_some] at h
    obtain ⟨s, hs, rfl⟩ := Option.map_eq_some_iff.mp h.2
    obtain ⟨msg, rest', hphase', rfl⟩ := Server.step_handle hs
    rw [hphase] at hphase'
    cases hphase'
    obtain ⟨hin, hid⟩ := Server.reached_of_generic hreached
    refine hx.toServer (hx.transit.served.subset (List.mem_append_right _ ?_))
      (hx.seated.table_lt k hin) hid
    rw [hphase]
    exact List.mem_cons_self ..
  · rintro q rfl g rest hphase i hreached
    simp only [step, Option.ite_none_right_eq_some] at h
    obtain ⟨c, hc, rfl⟩ := Option.map_eq_some_iff.mp h.2
    obtain ⟨msg, rest', hphase', rfl⟩ := Client.step_handles hc
    rw [hphase] at hphase'
    cases hphase'
    have htable := hx.transit.ledger.table_lt
    obtain ⟨hin, hid⟩ := Client.reached_of_generic htable hreached
    refine hx.toClient (hx.transit.waiting q _ ?_) (htable i hin) hid
    rw [hphase]
    exact List.mem_cons_self ..

/-- **The client and the server agree on their objects** in every state they can reach, as long as
fewer than `u32::MAX` numbers were given out, and whatever either of them handles next is dispatched
to the object it was sent for, or to none. -/
theorem objects_agree {impls : List ProtocolSpec} {as : List Action}
    (h : Run.run step (start impls) as = some x) (hbound : x.client.issued < 2 ^ 32 - 1) :
    Agrees x ∧ ∀ a x', step x a = some x' → Delivers x a x' := by
  have hpaired : Paired impls x :=
    Run.run_induction (fun _ _ _ hx hstep => hx.step hstep) (.start impls) h
  have hjoined := hpaired.joined (Nat.add_lt_of_lt_sub hbound)
  exact ⟨hjoined.agrees, fun _ _ hstep => hjoined.delivers hstep⟩

/-- An item is made and drawn before it has an id; the server reports that it was drawn, and takes
it away while it is drawn again. -/
def crossing : List Action :=
  binding ++ [.client (.send 0 0 []), .client (.send 1 0 []), .serverReads 1, .server .handle,
    .server .return_, .server .finish, .clientReads 0 1, .client (.handle 0), .client (.finish 0),
    .serverReads 1, .server .handle, .server (.emit 1 0 []), .server (.emit 1 1 []), .server .return_,
    .client (.send 1 0 []), .server .finish, .serverReads 1, .clientReads 0 1]

/-- Behind it either side has a message to handle: the report, and the second drawing. -/
theorem objects_agree_crossing :
    ∃ x, Run.run step (start [shopProtocol]) crossing = some x ∧ Agrees x ∧
      (∃ x', step x (.client (.handle 0)) = some x' ∧
        (x'.client.queues 0).phase = .callback [] 1 0 ∧
        Twins (x.client.objects 1) (x.server.objects 1)) ∧
      ∃ x', step x (.server .handle) = some x' ∧ x'.server.phase = .callback [] 1 (some 0) ∧
        Twins (x.client.objects 1) (x.server.objects 1) := by
  obtain ⟨hagrees, hdelivers⟩ := @objects_agree _ [shopProtocol] crossing rfl (by decide)
  refine ⟨_, rfl, hagrees, ⟨_, rfl, rfl, ?_⟩, ⟨_, rfl, rfl, ?_⟩⟩
  · exact (hdelivers (.client (.handle 0)) _ rfl).toClient 0 rfl _ _ rfl 1 (.inl ⟨_, _, rfl⟩)
  · exact (hdelivers (.server .handle) _ rfl).toServer rfl _ _ rfl 1 (.inl ⟨_, _, rfl⟩)

end Hyprwire.Connection
