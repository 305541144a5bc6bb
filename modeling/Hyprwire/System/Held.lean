import Hyprwire.System.Phases

/-!
# `System/Held.lean` — an object whose callback runs is held

`on_generic` holds the object of an event while the callback runs, so that no orphan collection
takes it and nothing drops it, whatever the callback does with its handles. The count of what
`on_generic` holds is changed by `on_generic` alone (`Lent`), and is at least the number of
callbacks that run on the object (`Held`).
-/

namespace Hyprwire.Client

variable {c c' c'' : Client}

/-! ## What leaves the count alone -/

/-- What `on_generic` holds stays as it is. -/
structure Lent (c c' : Client) : Prop where
  size : c.size ≤ c'.size
  borrows : ∀ i, i < c.size → (c'.objects i).borrows = (c.objects i).borrows

theorem Lent.refl (c : Client) : Lent c c := ⟨Nat.le_refl _, fun _ _ => rfl⟩

theorem Lent.trans (h : Lent c c') (h' : Lent c' c'') : Lent c c'' where
  size := Nat.le_trans h.size h'.size
  borrows i hi := (h'.borrows i (Nat.lt_of_lt_of_le hi h.size)).trans (h.borrows i hi)

theorem Lent.setObject (c : Client) (h : Nat) {f : ClientObject → ClientObject}
    (hf : ∀ obj, (f obj).borrows = obj.borrows) : Lent c (c.setObject h f) where
  size := Nat.le_refl _
  borrows i _ := by
    simp only [Client.setObject]
    split
    · exact hf _
    · rfl

theorem Lent.write (c : Client) (msg : C2S) : Lent c (c.write msg) := by
  obtain ⟨out, heq⟩ := write_eq c msg
  rw [heq]
  exact { Lent.refl c with }

theorem Lent.push (c : Client) (obj : ClientObject) : Lent c (c.push obj) where
  size := Nat.le_succ _
  borrows i hi := by simp only [Client.push, Nat.ne_of_lt hi, if_false]

theorem Lent.markDestroyed (c : Client) (h : Nat) (m : MethodSpec) :
    Lent c (c.markDestroyed h m) := by
  unfold Client.markDestroyed
  split
  · exact .setObject c h fun _ => rfl
  · exact .refl c

theorem Lent.called (c : Client) (h method : Nat) (m : MethodSpec) (args : List CallArg)
    (made : Option ObjectSpec) : Lent c (c.called h method m args made) := by
  have hready : Lent c (c.readied h m) := by
    unfold Client.readied
    split
    · exact (Lent.markDestroyed c h m).trans { Lent.refl _ with }
    · exact .markDestroyed c h m
  have hroute : Lent c ((c.readied h m).route h (c.message h method m args)) := by
    obtain ⟨queues, out, calls, heq⟩ := route_eq (c.readied h m) h (c.message h method m args)
    rw [heq]
    exact hready.trans { Lent.refl _ with }
  unfold Client.called
  cases made with
  | none => exact hroute
  | some spec => exact hroute.trans (.push ..)

theorem Lent.call (c : Client) (h method : Nat) (args : List CallArg) :
    Lent c (c.call h method args).1 := by
  unfold Client.call
  split
  · exact .refl c
  · next m hm =>
    split
    · exact .refl c
    · obtain ⟨made, -, heq⟩ := callMethod_eq c h method m args
      rw [heq]
      exact .called ..

theorem Lent.dropUnlessHeld (c : Client) (h : Nat) : Lent c (c.dropUnlessHeld h) := by
  unfold Client.dropUnlessHeld dropObject
  split
  · exact .refl c
  · split
    · exact .call ..
    · exact .refl c

theorem Lent.drops : ∀ (gone : List Nat) (c : Client), Lent c (gone.foldl Client.dropUnlessHeld c)
  | [], c => .refl c
  | h :: gone, c => (Lent.dropUnlessHeld c h).trans (Lent.drops gone _)

theorem Lent.unlink (c : Client) (gone : Nat → Bool) : Lent c (c.unlink gone) := by
  have htable : Lent c { c with table := c.table.filter fun h => !gone h } := { Lent.refl c with }
  exact htable.trans (.drops _ _)

theorem Lent.destroyObject (c : Client) (id : Nat) : Lent c (c.destroyObject id) := by
  unfold Client.destroyObject
  have hrecord : Lent c { c with
      destructed := c.destructed ++ c.table.filter fun h => decide ((c.objects h).id = id) } :=
    { Lent.refl c with }
  exact hrecord.trans (.unlink _ _)

theorem Lent.afterDispatch (c : Client) (h method : Nat) : Lent c (c.afterDispatch h method) := by
  have hmark : Lent c (c.setObject h fun obj => { obj with destroyed := true }) :=
    .setObject c h fun _ => rfl
  unfold Client.afterDispatch
  split
  · exact .refl c
  · split
    · simp only
      split
      · exact hmark.trans (.destroyObject _ _)
      · exact hmark
    · exact .refl c

theorem Lent.bind (c : Client) (q : Nat) (proto : ProtocolSpec) (version : Nat) :
    Lent c (c.bind q proto version) := by
  unfold Client.bind
  split
  · exact .refl c
  · split
    · exact .refl c
    · next c₁ hbind =>
      obtain ⟨spec, -, rfl⟩ := bindProtocol_eq hbind
      have hfetch : Lent c c.fetchAdd := { Lent.refl c with }
      exact ((hfetch.trans (.push ..)).trans (.write ..)).trans (.setObject _ _ fun _ => rfl)

theorem Lent.release (c : Client) (h : Nat) : Lent c (c.release h) := by
  have hhandle : Lent c (c.setObject h fun obj => { obj with handles := obj.handles - 1 }) :=
    .setObject c h fun _ => rfl
  unfold Client.release
  simp only
  split
  · exact hhandle
  · exact hhandle.trans (.dropUnlessHeld ..)

theorem Lent.send (c : Client) (h method : Nat) (args : List CallArg) :
    Lent c (c.send h method args) := by
  have hcall := Lent.call c h method args
  unfold Client.send
  simp only
  split
  · exact hcall
  · split
    · split
      · exact hcall.trans (.setObject _ _ fun _ => rfl)
      · exact hcall
    · split
      · exact hcall.trans (.release ..)
      · exact hcall

theorem Lent.onSeq (c : Client) (seq id : Nat) : Lent c (c.onSeq seq id) := by
  unfold Client.onSeq
  split
  · exact .setObject c _ fun _ => rfl
  · exact .refl c

theorem Lent.flush (c : Client) (q : Nat) : Lent c (c.flush q) := by
  rw [flush_eq]
  exact { Lent.refl c with }

theorem Lent.collect (c : Client) : Lent c c.collectOrphanedObjects := .unlink ..

/-! ## Callbacks hold their object -/

/-- A callback on the object runs in queue `q`. -/
def Calling (c : Client) (q h : Nat) : Prop :=
  ∃ rest method, (c.queues q).phase = .callback rest h method

/-- **Who is called back is held**, once for every queue. -/
structure Held (c : Client) : Prop where
  lt : ∀ q h, c.Calling q h → h < c.size
  borrows : ∀ h (qs : List Nat), qs.Nodup → (∀ q ∈ qs, c.Calling q h) →
    qs.length ≤ (c.objects h).borrows

theorem Held.init (impls : List ProtocolSpec) : Held { impls } where
  lt q h hcall := by
    obtain ⟨rest, method, hphase⟩ := hcall
    cases hphase
  borrows h qs _ hcall := by
    cases qs with
    | nil => exact Nat.le_refl _
    | cons q qs =>
      obtain ⟨rest, method, hphase⟩ := hcall q (List.mem_cons_self ..)
      cases hphase

theorem Held.held (hc : Held c) {q h : Nat} (hcall : c.Calling q h) :
    (c.objects h).held = true := by
  have hone := hc.borrows h [q] (List.nodup_cons.mpr ⟨nofun, List.nodup_nil⟩) fun q' hq' =>
    List.mem_singleton.mp hq' ▸ hcall
  exact decide_eq_true (Nat.lt_of_lt_of_le (Nat.lt_of_lt_of_le Nat.one_pos hone) (Nat.le_add_left ..))

/-- No callback has begun, and nobody gave back what it holds. -/
theorem Held.lent (hc : Held c) (h : Lent c c') (hphase : ∀ q h, c'.Calling q h → c.Calling q h) :
    Held c' where
  lt q i hcall := Nat.lt_of_lt_of_le (hc.lt q i (hphase q i hcall)) h.size
  borrows i qs hqs hcall := by
    cases qs with
    | nil => exact Nat.zero_le _
    | cons q qs =>
      have hi := hc.lt q i (hphase q i (hcall q (List.mem_cons_self ..)))
      rw [h.borrows i hi]
      exact hc.borrows i (q :: qs) hqs fun q' hq' => hphase q' i (hcall q' hq')

/-- A queue is set to a phase without a callback. -/
theorem calling_setQueue {q q' h : Nat} {f : EventQueue → EventQueue}
    (hf : ∀ queue rest h method, (f queue).phase = .callback rest h method →
      queue.phase = .callback rest h method)
    (hcall : (c.setQueue q f).Calling q' h) : c.Calling q' h := by
  obtain ⟨rest, method, hphase⟩ := hcall
  simp only [setQueue] at hphase
  split at hphase
  · exact ⟨rest, method, hf _ _ _ _ hphase⟩
  · exact ⟨rest, method, hphase⟩

theorem Held.setQueue (hc : Held c) (q : Nat) {f : EventQueue → EventQueue}
    (hf : ∀ queue rest h method, (f queue).phase = .callback rest h method →
      queue.phase = .callback rest h method) : Held (c.setQueue q f) :=
  hc.lent { Lent.refl c with } fun _ _ hcall => calling_setQueue hf hcall

theorem Held.frame (hc : Held c) (h : Lent c c') (hf : Frame c c') : Held c' := by
  refine hc.lent h ?_
  intro q i hcall
  obtain ⟨rest, method, hphase⟩ := hcall
  exact ⟨rest, method, (hf.phase q).symm.trans hphase⟩

theorem Held.setPhase (hc : Held c) (q : Nat) {phase : Phase}
    (hphase : ∀ rest h method, phase ≠ .callback rest h method) : Held (c.setPhase q phase) :=
  hc.setQueue q fun _ rest h method heq => absurd heq (hphase rest h method)

theorem Held.abort (hc : Held c) (q : Nat) : Held (c.abort q) := by
  have hdisconnected : Held c.disconnectOnError := hc.lent { Lent.refl c with } fun _ _ h => h
  exact hdisconnected.setQueue q nofun

/-! ## Steps -/

/-- A callback begins, and its object is taken hold of. -/
theorem Held.begins (hc : Held c) (q : Nat) {h : Nat} (hlt : h < c.size) (rest : List S2C)
    (method : Nat) : Held ((c.setObject h fun obj => { obj with borrows := obj.borrows + 1 }).setPhase q
      (.callback rest h method)) := by
  have hold : ∀ q' i, ((c.setObject h fun obj => { obj with borrows := obj.borrows + 1 }).setPhase q
      (.callback rest h method)).Calling q' i → (q' = q ∧ i = h) ∨ (q' ≠ q ∧ c.Calling q' i) := by
    intro q' i hcall
    obtain ⟨rest', method', hphase⟩ := hcall
    simp only [Client.setPhase, Client.setQueue] at hphase
    by_cases hq : q' = q
    · rw [if_pos hq] at hphase
      cases hphase
      exact .inl ⟨hq, rfl⟩
    · rw [if_neg hq] at hphase
      exact .inr ⟨hq, rest', method', hphase⟩
  refine ⟨?_, ?_⟩
  · intro q' i hcall
    rcases hold q' i hcall with ⟨-, rfl⟩ | ⟨-, hcall⟩
    · exact hlt
    · exact hc.lt q' i hcall
  · intro i qs hqs hcall
    by_cases hi : i = h
    · -- One callback more, and one hold more.
      subst hi
      have hrest := hc.borrows i (qs.erase q) (hqs.erase q) (by
        intro q' hq'
        obtain ⟨hne, hin⟩ := hqs.mem_erase_iff.mp hq'
        exact ((hold q' i (hcall q' hin)).resolve_left fun heq => hne heq.1).2)
      have hlen : qs.length ≤ (qs.erase q).length + 1 := by
        rw [List.length_erase]
        split
        · omega
        · omega
      have hnew : (((c.setObject i fun obj => { obj with borrows := obj.borrows + 1 }).setPhase q
          (.callback rest i method)).objects i).borrows = (c.objects i).borrows + 1 := by
        simp [Client.setPhase, Client.setQueue, Client.setObject]
      rw [hnew]
      exact Nat.le_trans hlen (Nat.succ_le_succ hrest)
    · have hsame : (((c.setObject h fun obj => { obj with borrows := obj.borrows + 1 }).setPhase q
          (.callback rest h method)).objects i).borrows = (c.objects i).borrows := by
        simp [Client.setPhase, Client.setQueue, Client.setObject, hi]
      rw [hsame]
      refine hc.borrows i qs hqs fun q' hq' => ?_
      exact ((hold q' i (hcall q' hq')).resolve_left fun heq => hi heq.2).2

/-- A callback returns, and its object is let go. -/
theorem Held.returned (hc : Held c) {q h method : Nat} {rest : List S2C}
    (hphase : (c.queues q).phase = .callback rest h method) : Held (c.returned q rest h method) := by
  have hlent := Lent.afterDispatch c h method
  have hframe := Frame.afterDispatch c h method
  have hh := hc.lt q h ⟨rest, method, hphase⟩
  have hc₁ : Held (c.afterDispatch h method) := hc.frame hlent hframe
  have hcall₁ : (c.afterDispatch h method).Calling q h := ⟨rest, method, (hframe.phase q).trans hphase⟩
  unfold Client.returned
  simp only
  generalize c.afterDispatch h method = c₁ at *
  -- What follows is said of the state in which the queue goes on already.
  have hlet : Held ((c₁.setObject h fun obj => { obj with borrows := obj.borrows - 1 }).setPhase q
      (.batch rest)) := by
    have hold : ∀ q' i, ((c₁.setObject h fun obj => { obj with borrows := obj.borrows - 1 }).setPhase q
        (.batch rest)).Calling q' i → q' ≠ q ∧ c₁.Calling q' i := by
      intro q' i hcall
      obtain ⟨rest', method', hphase'⟩ := hcall
      simp only [Client.setPhase, Client.setQueue] at hphase'
      by_cases hq : q' = q
      · rw [if_pos hq] at hphase'
        cases hphase'
      · rw [if_neg hq] at hphase'
        exact ⟨hq, rest', method', hphase'⟩
    refine ⟨fun q' i hcall => hc₁.lt q' i (hold q' i hcall).2, ?_⟩
    intro i qs hqs hcall
    by_cases hi : i = h
    · subst hi
      have hmore := hc₁.borrows i (q :: qs)
        (List.nodup_cons.mpr ⟨fun hin => (hold q i (hcall q hin)).1 rfl, hqs⟩) (by
          intro q' hq'
          rcases List.mem_cons.mp hq' with rfl | hq'
          · exact hcall₁
          · exact (hold q' i (hcall q' hq')).2)
      have hnew : (((c₁.setObject i fun obj => { obj with borrows := obj.borrows - 1 }).setPhase q
          (.batch rest)).objects i).borrows = (c₁.objects i).borrows - 1 := by
        simp [Client.setPhase, Client.setQueue, Client.setObject]
      rw [hnew]
      exact Nat.le_sub_of_add_le hmore
    · have hsame : (((c₁.setObject h fun obj => { obj with borrows := obj.borrows - 1 }).setPhase q
          (.batch rest)).objects i).borrows = (c₁.objects i).borrows := by
        simp [Client.setPhase, Client.setQueue, Client.setObject, hi]
      rw [hsame]
      exact hc₁.borrows i qs hqs fun q' hq' => (hold q' i (hcall q' hq')).2
  split
  · exact hlet
  · have hdrop := Lent.dropUnlessHeld (c₁.setObject h fun obj => { obj with borrows := obj.borrows - 1 }) h
    have hstand := Frame.dropUnlessHeld
      (c₁.setObject h fun obj => { obj with borrows := obj.borrows - 1 }) h
    generalize (c₁.setObject h fun obj => { obj with borrows := obj.borrows - 1 }).dropUnlessHeld h
      = c₂ at hdrop hstand ⊢
    refine hlet.lent { hdrop with } ?_
    intro q' i hcall
    obtain ⟨rest', method', hphase'⟩ := hcall
    refine ⟨rest', method', ?_⟩
    simp only [Client.setPhase, Client.setQueue] at hphase' ⊢
    split at hphase'
    · cases hphase'
    · next hq =>
      rw [if_neg hq]
      exact (hstand.phase q').symm.trans hphase'

theorem Held.handle (hc : Held c) (hlt : ∀ h ∈ c.table, h < c.size) (q : Nat) (msg : S2C)
    (rest : List S2C) : Held (c.handle q msg rest) := by
  have hheard : Held { c with handled := c.handled ++ [msg] } :=
    hc.lent { Lent.refl c with } fun _ _ h => h
  unfold Client.handle
  cases msg with
  | handshakeBegin versions =>
    simp only
    split
    · exact (hheard.frame (.write ..) (.write ..)).setPhase q nofun
    · exact hheard.abort q
  | handshakeProtocols protocols =>
    have hnoted : Held { c with
        handled := c.handled ++ [.handshakeProtocols protocols]
        serverSpecs := c.serverSpecs ++ protocols, handshakeDone := true } :=
      hc.lent { Lent.refl c with } fun _ _ h => h
    exact hnoted.setPhase q nofun
  | newObject seq id => exact (hheard.frame (.onSeq ..) (.onSeq ..)).setPhase q nofun
  | generic g =>
    simp only
    unfold Client.onGeneric
    split
    · have hlost : Held { c with
          handled := c.handled ++ [S2C.generic g], unknownObject := true }.disconnectOnError :=
        hc.lent { Lent.refl c with } fun _ _ h => h
      exact hlost.setPhase q fun _ _ _ => nofun
    · next h hfind =>
      split
      · exact hheard.begins q (hlt h (objectForId_some hfind).1) rest g.method
      · exact (hheard.frame (.afterDispatch ..) (.afterDispatch ..)).setPhase q nofun
  | fatalProtocolError objectId errorId errorMsg =>
    have hflagged : Held { c with
        handled := c.handled ++ [.fatalProtocolError objectId errorId errorMsg], error := true } :=
      hc.lent { Lent.refl c with } fun _ _ h => h
    exact hflagged.setPhase q nofun
  | roundtripDone seq request => exact hheard.setQueue q nofun

/-- **Every step keeps the callbacks' objects held.** -/
theorem Held.step {a : Action} (hc : Held c) (hlt : ∀ h ∈ c.table, h < c.size)
    (h : step c a = some c') : Held c' := by
  cases a with
  | bind q proto version =>
    simp only [Client.step, Option.ite_none_right_eq_some, Option.some.injEq] at h
    exact h.2 ▸ hc.frame (.bind ..) (.bind ..)
  | send obj method args =>
    simp only [Client.step, Option.ite_none_right_eq_some, Option.some.injEq] at h
    exact h.2 ▸ hc.frame (.send ..) (.send ..)
  | clone obj =>
    simp only [Client.step, Option.ite_none_right_eq_some, Option.some.injEq] at h
    exact h.2 ▸ hc.frame (.setObject _ _ fun _ => rfl) (.setObject ..)
  | drop obj =>
    simp only [Client.step, Option.ite_none_right_eq_some, Option.some.injEq] at h
    exact h.2 ▸ hc.frame (.release ..) (.release ..)
  | dropQueue q =>
    simp only [Client.step, Option.ite_none_right_eq_some, Option.some.injEq] at h
    exact h.2 ▸ hc.setQueue q fun _ _ _ _ hphase => hphase
  | roundtrip q =>
    simp only [Client.step, Option.ite_none_right_eq_some, Option.some.injEq] at h
    refine h.2 ▸ Held.frame ?_ (.write ..) (.write ..)
    exact hc.setQueue q fun _ _ _ _ hphase => hphase
  | roundtripReturn q =>
    simp only [Client.step, Option.ite_none_right_eq_some, Option.some.injEq] at h
    exact h.2 ▸ hc.setQueue q fun _ _ _ _ hphase => hphase
  | roundtripFail q =>
    simp only [Client.step, Option.ite_none_right_eq_some, Option.some.injEq] at h
    refine h.2 ▸ Held.setQueue ?_ q fun _ _ _ _ hphase => hphase
    split
    · exact hc
    · exact hc.frame (.collect c) (.collect c)
  | poll q =>
    simp only [Client.step, Option.ite_none_right_eq_some, Option.some.injEq] at h
    exact h.2 ▸ hc.frame (.collect c) (.collect c)
  | unreadable q =>
    simp only [Client.step, Option.ite_none_right_eq_some, Option.some.injEq] at h
    exact h.2 ▸ (hc.frame (.collect c) (.collect c)).abort q
  | read q batch =>
    simp only [Client.step, Option.ite_none_right_eq_some, Option.some.injEq] at h
    exact h.2 ▸ (hc.frame (.collect c) (.collect c)).setPhase q (by simp)
  | handle q =>
    obtain ⟨msg, rest, hphase, rfl⟩ := step_handles h
    exact hc.handle hlt ..
  | return_ q =>
    obtain ⟨rest, obj, method, hphase, rfl⟩ := step_returns h
    exact hc.returned hphase
  | malformed q =>
    simp only [Client.step] at h
    split at h
    · cases h
      exact hc.abort q
    · cases h
  | finish q =>
    simp only [Client.step] at h
    split at h
    · cases h
      unfold Client.finish
      refine Held.setQueue ?_ q (by simp)
      exact (hc.frame (.flush c q) (.flush c q)).frame (.collect _) (.collect _)
    · cases h

end Hyprwire.Client
