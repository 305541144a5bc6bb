import Hyprwire.System.Agreement
import Hyprwire.System.Answers

/-!
# `System/Freshness.lean` — the ids a server gives out

A server numbers its objects with a counter that a client cannot touch, announces each one before
anything else happens to it, and says nothing more once its stream was shut down. So whatever a
client sends and whatever handlers do, no id comes twice, `destroy_object` finds the one object it
is meant for, and nothing is said of an object that was not announced (`ids_fresh`).
-/

namespace Hyprwire.Server

variable {s s' : Server}

/-- The id a message announces. -/
def newId? : S2C → Option Nat
  | .newObject _ id => some id
  | _ => none

/-- The id of the object a message is about. -/
def addressee? : S2C → Option Nat
  | .generic g => some g.object
  | .fatalProtocolError objectId _ _ => some objectId
  | _ => none

/-- **Ids are fresh**: those in the table are distinct and not 0, no two objects ever made have the
same, `destroy_object` takes off the one object with the id, and the ids on the wire increase. -/
structure FreshIds (s : Server) : Prop where
  distinct : (s.table.map fun k => (s.objects k).id).Nodup
  nonzero : ∀ k ∈ s.table, (s.objects k).id ≠ 0
  once : ∀ k < s.size, ∀ k' < s.size, (s.objects k).id = (s.objects k').id → k = k'
  destroyed : ∀ k < s.size, (s.destroyObject (s.objects k).id).table = s.table.filter (· ≠ k)
  increasing : (s.out.filterMap newId?).Pairwise (· < ·)

/-- **… and stay so**: an object keeps its id, and a new one has an id that none had before. A step
writes one message at most, and one about an object that exists comes after its announcement. -/
structure FreshStep (s s' : Server) : Prop where
  kept : ∀ k < s.size, (s'.objects k).id = (s.objects k).id
  fresh : ∀ k < s'.size, s.size ≤ k → ∀ k' < s.size, (s'.objects k).id ≠ (s.objects k').id
  writes : s'.out = s.out ∨ ∃ msg, s'.out = s.out ++ [msg]
  events : ∀ g, s'.out = s.out ++ [.generic g] → ∃ seq, .newObject seq g.object ∈ s.out
  announced : ∀ msg id, s'.out = s.out ++ [msg] → addressee? msg = some id →
    ∀ k < s.size, (s.objects k).id = id → ∃ seq, .newObject seq id ∈ s.out

/-! ## The table -/

/-- A step takes objects off the table, behind the one it may have made. -/
theorem table_of_step {a : Action} (h : step s a = some s') :
    ∃ p : Nat → Bool, s'.table = s.table.filter p ∨ s'.table = (s.table ++ [s.size]).filter p := by
  by_cases ha : a = .handle
  · subst ha
    obtain ⟨msg, rest, -, rfl⟩ := step_handle h
    have hsame : ∀ t : Server, Aside (s.heard msg rest) t →
        ∃ p : Nat → Bool, t.table = s.table.filter p ∨ t.table = (s.table ++ [s.size]).filter p := by
      intro t haside
      obtain ⟨p, hp⟩ := table_same haside.table
      exact ⟨p, .inl hp⟩
    have hstill : ∀ t : Server, Still (s.heard msg rest) t →
        ∃ p : Nat → Bool, t.table = s.table.filter p ∨ t.table = (s.table ++ [s.size]).filter p := by
      intro t hstill
      obtain ⟨p, hp⟩ := hstill.table
      exact ⟨p, .inl hp⟩
    have hcreated : ∀ (t : Server) protocol name version seq,
        Still ((s.heard msg rest).createObject protocol name version seq) t →
          ∃ p : Nat → Bool, t.table = s.table.filter p ∨ t.table = (s.table ++ [s.size]).filter p := by
      intro t protocol name version seq hstill
      rw [createObject_eq] at hstill
      obtain ⟨p, hp⟩ := hstill.table
      exact ⟨p, .inr hp⟩
    cases msg with
    | sup => exact hsame _ (Aside.write ..)
    | handshakeAck version =>
      obtain ⟨p, hp⟩ := table_same (Aside.write (s.heard (.handshakeAck version) rest)
        (.handshakeProtocols (s.impls.map fun imp => (imp.specName, imp.specVer.toNat)))).table
      exact ⟨p, .inl hp⟩
    | bindProtocol seq version protocol =>
      by_cases hversion : version = 0
      · subst hversion
        exact hstill _ (Still.abort ..)
      · obtain ⟨phase, -, heq⟩ := handle_bind s seq protocol rest hversion
        rw [heq]
        exact hcreated _ _ _ _ _ { Still.refl _ with }
    | generic g =>
      rw [handle_generic]
      rcases onGeneric_still (s.heard (.generic g) rest) g rest with h | ⟨_, _, -, -, -, -, h⟩
      · exact hstill _ h
      · exact hcreated _ _ _ _ _ h
    | roundtripRequest seq queue => exact hstill _ { Still.refl _ with }
  · obtain ⟨p, hp⟩ := (still_of_step h ha).table
    exact ⟨p, .inl hp⟩

/-! ## Along a run -/

/-- What a server keeps true of its numbers, while it has some left. -/
structure Rising (s : Server) : Prop where
  seated : s.Seated
  nodup : s.table.Nodup
  increasing : (s.out.filterMap newId?).Pairwise (· < ·)

theorem Rising.init (impls : List ProtocolSpec) : Rising { impls } :=
  ⟨.init impls, List.nodup_nil, .nil⟩

/-- The ids on the wire are those of objects. -/
theorem Seated.newId_le (hs : s.Seated) {id : Nat} (hid : id ∈ s.out.filterMap newId?) :
    id ≤ s.size := by
  obtain ⟨msg, hmsg, hnew⟩ := List.mem_filterMap.mp hid
  cases msg with
  | newObject seq id' =>
    cases hnew
    obtain ⟨k, hk, hobj, -⟩ := hs.announced seq id hmsg
    rw [hs.ids k hk] at hobj
    exact hobj ▸ hk
  | _ => cases hnew

theorem Rising.step {a : Action} (hs : Rising s) (hbound : s.size + 1 < wordSize)
    (h : Server.step s a = some s') : Rising s' := by
  refine ⟨hs.seated.step hbound h, ?_, ?_⟩
  · obtain ⟨p, htable | htable⟩ := table_of_step h
    · rw [htable]
      exact hs.nodup.filter p
    · rw [htable]
      refine List.Nodup.filter p (List.nodup_append.mpr ⟨hs.nodup, List.nodup_singleton _, ?_⟩)
      intro k hk k' hk'
      rw [List.mem_singleton.mp hk']
      exact Nat.ne_of_lt (hs.seated.table_lt k hk)
  · rcases speaks h with hout | ⟨msg, hspeaks, hout⟩
    · rw [hout]
      exact hs.increasing
    · rw [hout, List.filterMap_append]
      have hother : newId? msg = none →
          (s.out.filterMap newId? ++ [msg].filterMap newId?).Pairwise (· < ·) := by
        intro hnone
        simpa [hnone] using hs.increasing
      cases hspeaks with
      | fatal => exact hother rfl
      | event => exact hother rfl
      | acknowledges => exact hother rfl
      | greets msg _ _ hnew =>
        refine hother ?_
        cases msg with
        | newObject seq id => exact absurd rfl (hnew seq id)
        | _ => rfl
      | announces seq =>
        -- The counter is above every id that was given out.
        have hmax : s.maxId = s.size + 1 := by rw [hs.seated.maxId, Nat.mod_eq_of_lt hbound]
        refine List.pairwise_append.mpr ⟨hs.increasing, List.pairwise_singleton _ _, ?_⟩
        intro id hid id' hid'
        rw [List.mem_singleton.mp hid', hmax]
        exact Nat.lt_succ_of_le (hs.seated.newId_le hid)

theorem size_le_of_step {a : Action} (h : step s a = some s') : s.size ≤ s'.size := by
  cases (birth h).2.2 with
  | none _ hsize => exact Nat.le_of_eq hsize.symm
  | made _ _ _ _ _ _ _ _ hsize => rw [hsize]; exact Nat.le_succ _

theorem rising_run {impls : List ProtocolSpec} {as : List Action}
    (hrun : Run.run step { impls } as = some s) (hcount : s.size < wordSize - 1) : Rising s :=
  @Run.run_bounded _ _ step (fun _ => True) Rising (fun _ _ => True) size (wordSize - 1)
    (fun _ _ _ _ _ => trivial) (fun _ _ _ _ h => size_le_of_step h)
    (fun t a t' ht _ hlt h => ht.step (by have := size_le_of_step h; omega) h) _ _ _ trivial
    (.init impls) (Run.meets_of_forall fun _ _ => trivial) hrun hcount

/-! ## Freshness -/

theorem Rising.freshIds (hs : Rising s) : FreshIds s where
  distinct := by
    refine List.Nodup.map_on ?_ hs.nodup
    intro k hk k' hk' heq
    exact Connection.seated_inj hs.seated (hs.seated.table_lt k hk) (hs.seated.table_lt k' hk') heq
  nonzero k hk := by
    rw [hs.seated.ids k (hs.seated.table_lt k hk)]
    exact Nat.succ_ne_zero k
  once k hk k' hk' heq := Connection.seated_inj hs.seated hk hk' heq
  destroyed k hk := by
    refine List.filter_congr fun k' hk' => ?_
    have hlt := hs.seated.table_lt k' hk'
    have hiff : (s.objects k').id ≠ (s.objects k).id ↔ k' ≠ k :=
      not_congr ⟨Connection.seated_inj hs.seated hlt hk, congrArg fun k => (s.objects k).id⟩
    exact decide_eq_decide.mpr hiff
  increasing := hs.increasing

theorem Rising.freshStep (hs : Rising s) (hbound : s.size + 1 < wordSize) (hr : Replied s)
    {a : Action} (h : Server.step s a = some s') : FreshStep s s' where
  kept k hk := ((birth h).1 k hk).id
  fresh k hk hge k' hk' := by
    have hids := (hs.step hbound h).seated.ids
    rw [hids k hk, hs.seated.ids k' hk']
    exact fun heq => absurd (Nat.succ_inj.mp heq) (Nat.ne_of_gt (Nat.lt_of_lt_of_le hk' hge))
  writes := by
    rcases speaks h with hout | ⟨msg, -, hout⟩
    · exact .inl hout
    · exact .inr ⟨msg, hout⟩
  events g hout := by
    rcases speaks h with hsame | ⟨msg, hspeaks, hout'⟩
    · exact absurd (hout.symm.trans hsame) out_ne_append
    · have hmsg : msg = .generic g := by
        rw [hout'] at hout
        exact (List.cons.inj (List.append_cancel_left hout)).1
      subst hmsg
      cases hspeaks with
      | event k method m args hk => exact ⟨_, hr.announced k hk⟩
      | greets _ hgeneric => cases hgeneric
  announced msg id _ _ k hk hid := ⟨_, hid ▸ hr.announced k hk⟩

/-- **Server ids are fresh under any client**, as long as fewer than 2^32 - 1 objects are made: in
every state that is reached and in every step from it. -/
theorem ids_fresh {impls : List ProtocolSpec} {as : List Action}
    (hrun : Run.run step { impls } as = some s) (hcount : s.size < 2 ^ 32 - 1) :
    FreshIds s ∧ ∀ a s', step s a = some s' → FreshStep s s' := by
  have hs := rising_run hrun hcount
  have hr : Replied s :=
    @Run.run_induction _ _ step Replied (fun _ _ _ hr h => hr.step h) _ _ _ (.init impls) hrun
  refine ⟨hs.freshIds, fun a s' h => hs.freshStep ?_ hr h⟩
  unfold wordSize
  omega

/-- A client binds, makes an item, and destroys it. -/
def madeAndDestroyed : List Action :=
  [.read [.bindProtocol 1 1 "shop", .generic ⟨1, 0, 2, [], 0, 0, false, none⟩,
      .generic ⟨2, 1, 0, [], 0, 0, true, none⟩],
    .handle, .emit 0 0 [], .return_, .handle, .emit 1 0 [], .return_, .handle, .return_]

theorem ids_fresh_shop : ∃ s, Run.run step { impls := [shopProtocol] } madeAndDestroyed = some s ∧
    s.table = [0] ∧ s.out.filterMap newId? = [1, 2] ∧ FreshIds s := by
  refine ⟨_, rfl, rfl, rfl, (@ids_fresh _ [shopProtocol] madeAndDestroyed rfl ?_).1⟩
  decide

end Hyprwire.Server
