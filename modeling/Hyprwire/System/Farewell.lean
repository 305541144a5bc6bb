import Hyprwire.Scanner.Protocol
import Hyprwire.System.Ledger
import Hyprwire.System.Server

/-!
# `System/Farewell.lean` — the destructor that `Drop` calls

The generated API of a client has no method for a destructor without arguments: the object sends it
by itself when the last reference to it is gone. A client that leaves without a word is made up for
on the server, with the same destructor (`destroy_for_disconnect`).

Which destructor that is, the two sides look up in two ways. The server takes the first that has
neither parameters nor a result, whatever version it came with. The client takes the first that its
version has, and sends nothing if it has parameters or a result. They agree on the first one a
client can use in exactly the interfaces where no other destructor stands before it that either
search would stop at (`farewell_iff`).
-/

namespace Hyprwire.Client

open Server (disconnectDestructor)

/-! ## Two searches -/

/-- A destructor that needs nothing: no arguments, and no object to return. -/
def Plain (m : MethodSpec) : Prop := m.destructor ∧ m.params = [] ∧ m.returnsType = ""

/-- … and that an object of the version has. -/
def Usable (version : Nat) (m : MethodSpec) : Prop := Plain m ∧ m.since.toNat ≤ version

instance : DecidablePred Plain := fun m =>
  inferInstanceAs (Decidable (m.destructor ∧ m.params = [] ∧ m.returnsType = ""))

instance (version : Nat) : DecidablePred (Usable version) := fun m =>
  inferInstanceAs (Decidable (Plain m ∧ m.since.toNat ≤ version))

/-- **The condition** on an interface: a destructor that stands before the first usable one is out
of the object's version, and takes parameters or returns an object. -/
def Unobstructed (version : Nat) (methods : List MethodSpec) : Prop :=
  (∃ m ∈ methods, Usable version m) →
    ∀ m ∈ methods.takeWhile fun m => ¬ Usable version m, m.destructor = true →
      version < m.since.toNat ∧ (m.params ≠ [] ∨ m.returnsType ≠ "")

instance (version : Nat) (methods : List MethodSpec) : Decidable (Unobstructed version methods) :=
  inferInstanceAs (Decidable (_ → ∀ _ ∈ _, _ → _ ∧ _))

/-- A search stops at an element when it does not stop before. -/
theorem find?_middle_iff {α : Type} {p : α → Bool} {front back : List α} {a : α} (ha : p a = true)
    (hout : a ∉ front) :
    (front ++ a :: back).find? p = some a ↔ ∀ x ∈ front, p x = false := by
  constructor
  · intro hfind x hx
    cases hp : p x with
    | false => rfl
    | true =>
      obtain ⟨y, hy⟩ := Option.isSome_iff_exists.mp (List.find?_isSome.mpr ⟨x, hx, hp⟩)
      rw [List.find?_append, hy, Option.some_or] at hfind
      cases hfind
      exact absurd (List.mem_of_find?_eq_some hy) hout
  · intro hfront
    have hnone : front.find? p = none := List.find?_eq_none.mpr fun x hx => by
      rw [hfront x hx]
      exact Bool.false_ne_true
    rw [List.find?_append, hnone, Option.none_or, List.find?_cons_of_pos ha]

theorem autoDestructor_eq_some {obj : ClientObject} {m : MethodSpec} (hid : obj.id ≠ 0)
    (hdestroyed : obj.destroyed = false) :
    autoDestructor obj = some m ↔
      (obj.methodsOut.find? fun m => m.destructor ∧ m.since.toNat ≤ obj.version) = some m ∧
        m.returnsType = "" ∧ m.params = [] := by
  rw [autoDestructor, if_pos ⟨hdestroyed, hid⟩]
  cases obj.methodsOut.find? fun m => m.destructor ∧ m.since.toNat ≤ obj.version with
  | none => exact ⟨nofun, fun h => nomatch h.1⟩
  | some found =>
    simp only
    by_cases hplain : found.returnsType ≠ "" ∨ found.params ≠ []
    · rw [if_pos hplain]
      refine ⟨nofun, ?_⟩
      rintro ⟨heq, hreturns, hparams⟩
      cases heq
      rcases hplain with h | h
      · exact absurd hreturns h
      · exact absurd hparams h
    · rw [if_neg hplain]
      obtain ⟨hreturns, hparams⟩ := not_or.mp hplain
      constructor
      · intro heq
        cases heq
        exact ⟨rfl, not_not.mp hreturns, not_not.mp hparams⟩
      · intro h
        exact h.1

/-- What the interface promises of an object that is dropped: the first usable destructor is sent,
and it is the one that the server would call. -/
def Agreed (obj : ClientObject) : Prop :=
  match obj.methodsOut.find? fun m => Usable obj.version m with
  | some m => autoDestructor obj = some m ∧ obj.methodsOut.find? (fun m => Plain m) = some m
  | none => autoDestructor obj = none

/-- **The searches agree in exactly the interfaces of the condition.** -/
theorem agreed_iff {obj : ClientObject} (hid : obj.id ≠ 0) (hdestroyed : obj.destroyed = false) :
    Agreed obj ↔ Unobstructed obj.version obj.methodsOut := by
  unfold Agreed
  cases husable : obj.methodsOut.find? fun m => Usable obj.version m with
  | none =>
    have hnone : ∀ m ∈ obj.methodsOut, ¬ Usable obj.version m := by
      intro m hm huse
      exact List.find?_eq_none.mp husable m hm (decide_eq_true huse)
    refine iff_of_true ?_ ?_
    · refine Option.eq_none_iff_forall_ne_some.mpr fun m hauto => ?_
      obtain ⟨hfind, hreturns, hparams⟩ := (autoDestructor_eq_some hid hdestroyed).mp hauto
      have hreach : m.destructor ∧ m.since.toNat ≤ obj.version := by
        simpa using List.find?_some hfind
      exact hnone m (List.mem_of_find?_eq_some hfind) ⟨⟨hreach.1, hparams, hreturns⟩, hreach.2⟩
    · rintro ⟨m, hm, huse⟩
      exact absurd huse (hnone m hm)
  | some usable =>
    obtain ⟨huse, front, back, hmethods, hfirst⟩ := List.find?_eq_some_iff_append.mp husable
    have huse : Usable obj.version usable := of_decide_eq_true huse
    have hfirst : ∀ m ∈ front, ¬ Usable obj.version m := by
      intro m hm
      simpa using hfirst m hm
    have hout : usable ∉ front := fun hmem => hfirst usable hmem huse
    have hbefore : (front ++ usable :: back).takeWhile (fun m => ¬ Usable obj.version m) = front := by
      rw [List.takeWhile_append_of_pos fun m hm => decide_eq_true (hfirst m hm),
        List.takeWhile_cons_of_neg (by simpa using huse), List.append_nil]
    have hclient : ((front ++ usable :: back).find? fun m =>
        m.destructor ∧ m.since.toNat ≤ obj.version) = some usable ↔ _ :=
      find?_middle_iff (decide_eq_true ⟨huse.1.1, huse.2⟩) hout
    have hserver : ((front ++ usable :: back).find? fun m => Plain m) = some usable ↔ _ :=
      find?_middle_iff (decide_eq_true huse.1) hout
    simp only
    rw [autoDestructor_eq_some hid hdestroyed, Unobstructed, hmethods, hbefore, hclient, hserver]
    constructor
    · rintro ⟨⟨hreach, -⟩, hplain⟩ - m hm hdes
      have hreach := of_decide_eq_false (hreach m hm)
      have hplain := of_decide_eq_false (hplain m hm)
      refine ⟨Nat.lt_of_not_le fun hle => hreach ⟨hdes, hle⟩, ?_⟩
      by_contra hneither
      obtain ⟨hparams, hreturns⟩ := not_or.mp hneither
      exact hplain ⟨hdes, not_not.mp hparams, not_not.mp hreturns⟩
    · intro hclear
      have hclear := hclear ⟨usable, by simp, huse⟩
      refine ⟨⟨?_, huse.1.2.2, huse.1.2.1⟩, ?_⟩
      · intro m hm
        refine decide_eq_false ?_
        rintro ⟨hdes, hsince⟩
        exact absurd hsince (Nat.not_le.mpr (hclear m hm hdes).1)
      · intro m hm
        refine decide_eq_false ?_
        rintro ⟨hdes, hparams, hreturns⟩
        rcases (hclear m hm hdes).2 with h | h
        · exact h hparams
        · exact h hreturns

/-! ## What is sent -/

variable {c c' : Client} {h : Nat}

/-- The methods of an interface are numbered as they are listed. -/
def Indexed (methods : List MethodSpec) : Prop :=
  methods.map (fun m => m.idx.toNat) = List.range methods.length

instance : DecidablePred Indexed := fun methods =>
  inferInstanceAs (Decidable (methods.map (fun m => m.idx.toNat) = List.range methods.length))

theorem Indexed.idx_eq {methods : List MethodSpec} (hidx : Indexed methods) {i : Nat}
    {m : MethodSpec} (hm : methods[i]? = some m) : m.idx.toNat = i := by
  have hlt : i < methods.length := (List.getElem?_eq_some_iff.mp hm).1
  have hboth := congrArg (fun idxs => idxs[i]?) hidx
  simp only [List.getElem?_map, hm, Option.map_some, List.getElem?_range hlt] at hboth
  exact Option.some.inj hboth

/-- The generated tables are. -/
theorem indexed_methodSpecs {methods : List Scanner.Method} (hlen : methods.length ≤ 2 ^ 32) :
    Indexed (Scanner.methodSpecs methods) := by
  refine List.ext_getElem? fun i => ?_
  simp only [Scanner.methodSpecs, List.getElem?_map, List.getElem?_mapIdx, List.length_mapIdx]
  rcases Nat.lt_or_ge i methods.length with hlt | hge
  · rw [List.getElem?_eq_getElem hlt, List.getElem?_range hlt]
    have hfits : i < UInt32.size := Nat.lt_of_lt_of_le hlt hlen
    exact congrArg some (UInt32.toNat_ofNat_of_lt' hfits)
  · rw [List.getElem?_eq_none hge, List.getElem?_eq_none (by simpa using hge)]
    rfl

/-- A message, without the history of it. -/
def forget (msg : Generic) : Generic := { msg with call := 0 }

/-- The message of a destructor that an object calls on itself. -/
def goodbye (obj : ClientObject) (h : Nat) (m : MethodSpec) : Generic where
  object := obj.id
  method := m.idx.toNat
  seq := 0
  args := []
  origin := h
  destructor := true

/-- The generic messages that an object has sent between two states. -/
def sentFor (c c' : Client) (h : Nat) : List Generic :=
  ((c'.out.drop c.out.length).filterMap C2S.generic?).filter fun msg => msg.origin = h

/-- What changes when objects are dropped: messages are sent, and interfaces stay. -/
structure Parts (c c' : Client) (msgs : List Generic) : Prop where
  out : c'.out = c.out ++ msgs.map C2S.generic
  shut : c'.shut = c.shut
  methodsOut : ∀ i, (c'.objects i).methodsOut = (c.objects i).methodsOut

theorem Parts.refl (c : Client) : Parts c c [] := ⟨(List.append_nil _).symm, rfl, fun _ => rfl⟩

theorem Parts.trans {c'' : Client} {msgs msgs' : List Generic} (hp : Parts c c' msgs)
    (hp' : Parts c' c'' msgs') : Parts c c'' (msgs ++ msgs') where
  out := by rw [hp'.out, hp.out, List.map_append, List.append_assoc]
  shut := hp'.shut.trans hp.shut
  methodsOut i := (hp'.methodsOut i).trans (hp.methodsOut i)

theorem Parts.sentFor {msgs : List Generic} (hp : Parts c c' msgs) (h : Nat) :
    c.sentFor c' h = msgs.filter fun msg => msg.origin = h := by
  have hgeneric : (msgs.map C2S.generic).filterMap C2S.generic? = msgs := by
    rw [List.filterMap_map]
    exact List.filterMap_some
  rw [Client.sentFor, hp.out, List.drop_left, hgeneric]

/-- `Drop`, as far as others see it: its destructor is sent, and it is marked as destroyed. -/
theorem dropObject_spec (c : Client) (h : Nat) (hshut : c.shut = false)
    (hidx : Indexed (c.objects h).methodsOut) :
    ∃ msgs, Parts c (c.dropObject h) msgs ∧
      msgs.map forget = (autoDestructor (c.objects h)).toList.map (goodbye (c.objects h) h) ∧
      ∀ i, i ≠ h → (c.dropObject h).objects i = c.objects i := by
  unfold dropObject
  cases hauto : autoDestructor (c.objects h) with
  | none => exact ⟨[], .refl c, rfl, fun _ _ => rfl⟩
  | some m =>
    have hlive : (c.objects h).destroyed = false ∧ (c.objects h).id ≠ 0 := by
      unfold autoDestructor at hauto
      by_contra hnot
      rw [if_neg hnot] at hauto
      cases hauto
    obtain ⟨hfind, hreturns, -⟩ := (autoDestructor_eq_some hlive.2 hlive.1).mp hauto
    have hreach : m.destructor ∧ m.since.toNat ≤ (c.objects h).version := by
      simpa using List.find?_some hfind
    -- The destructor is called by its number, which is its place in the list.
    have hmethod : (c.objects h).methodsOut[m.idx.toNat]? = some m := by
      obtain ⟨i, hi⟩ := List.getElem?_of_mem (List.mem_of_find?_eq_some hfind)
      rwa [hidx.idx_eq hi]
    have hcall : (c.call h m.idx.toNat []).1
        = { c.setObject h fun obj => { obj with destroyed := true } with
            calls := c.calls ++ [⟨h, m.idx.toNat, false⟩]
            out := c.out ++ [.generic (c.message h m.idx.toNat m [])] } := by
      simp only [call, hmethod, if_neg (Nat.not_lt.mpr hreach.2), callMethod, hreturns, ne_eq,
        not_true_eq_false, if_false, markDestroyed, hreach.1, if_true, route, setObject, hlive.2,
        write, record, hshut, message]
      rfl
    simp only [hcall]
    refine ⟨[c.message h m.idx.toNat m []], ⟨rfl, rfl, ?_⟩, ?_, ?_⟩
    · intro i
      simp only [setObject]
      split <;> rfl
    · simp [forget, message, goodbye, hreturns, hreach.1]
    · intro i hne
      simp only [setObject, if_neg hne]

/-- What an object says when it is let go of: nothing, when something else holds it. -/
def parting (c : Client) (h : Nat) : List Generic :=
  if (c.objects h).held then []
  else (autoDestructor (c.objects h)).toList.map (goodbye (c.objects h) h)

theorem dropUnlessHeld_spec (c : Client) (h : Nat) (hshut : c.shut = false)
    (hidx : Indexed (c.objects h).methodsOut) :
    ∃ msgs, Parts c (c.dropUnlessHeld h) msgs ∧ msgs.map forget = c.parting h ∧
      ∀ i, i ≠ h → (c.dropUnlessHeld h).objects i = c.objects i := by
  unfold dropUnlessHeld parting
  by_cases hheld : (c.objects h).held = true
  · rw [if_pos hheld, if_pos hheld]
    exact ⟨[], .refl c, rfl, fun _ _ => rfl⟩
  · rw [if_neg hheld, if_neg hheld]
    exact dropObject_spec c h hshut hidx

/-- Objects that go together speak one after the other, each once. -/
theorem drops_spec {gone : List Nat} (hnodup : gone.Nodup) (hshut : c.shut = false)
    (hidx : ∀ i, Indexed (c.objects i).methodsOut) :
    ∃ msgs, Parts c (gone.foldl dropUnlessHeld c) msgs ∧
      msgs.map forget = gone.flatMap c.parting := by
  induction gone generalizing c with
  | nil => exact ⟨[], .refl c, rfl⟩
  | cons h gone ih =>
    obtain ⟨hfresh, hnodup⟩ := List.nodup_cons.mp hnodup
    obtain ⟨msgs, hparts, hmsgs, hothers⟩ := dropUnlessHeld_spec c h hshut (hidx h)
    obtain ⟨msgs', hparts', hmsgs'⟩ := ih hnodup (hparts.shut.trans hshut)
      fun i => (hparts.methodsOut i).symm ▸ hidx i
    refine ⟨msgs ++ msgs', hparts.trans hparts', ?_⟩
    rw [List.map_append, hmsgs, hmsgs', List.flatMap_cons]
    congr 1
    refine List.flatMap_congr fun i hi => ?_
    have hne : i ≠ h := fun heq => hfresh (heq ▸ hi)
    rw [parting, parting, hothers i hne]

theorem origin_parting {i : Nat} {msg : Generic} (hmsg : msg ∈ c.parting i) : msg.origin = i := by
  unfold parting at hmsg
  split at hmsg
  · cases hmsg
  · obtain ⟨m, -, rfl⟩ := List.mem_map.mp hmsg
    rfl

/-- What one object says, among the messages of all that go. -/
theorem filter_parting {gone : List Nat} (hnodup : gone.Nodup) (hmem : h ∈ gone) :
    (gone.flatMap c.parting).filter (fun msg => msg.origin = h) = c.parting h := by
  have hnone : ∀ i, i ≠ h → (c.parting i).filter (fun msg => msg.origin = h) = [] := by
    intro i hne
    refine List.filter_eq_nil_iff.mpr fun msg hmsg => ?_
    rw [origin_parting hmsg]
    simpa using hne
  have hall : (c.parting h).filter (fun msg => msg.origin = h) = c.parting h :=
    List.filter_eq_self.mpr fun msg hmsg => decide_eq_true (origin_parting hmsg)
  induction gone with
  | nil => cases hmem
  | cons i gone ih =>
    obtain ⟨hfresh, hnodup⟩ := List.nodup_cons.mp hnodup
    rw [List.flatMap_cons, List.filter_append]
    rcases List.mem_cons.mp hmem with heq | hmem
    · subst heq
      have hrest : (gone.flatMap c.parting).filter (fun msg => msg.origin = h) = [] := by
        refine List.filter_eq_nil_iff.mpr fun msg hmsg => ?_
        obtain ⟨i, hi, hmsg⟩ := List.mem_flatMap.mp hmsg
        rw [origin_parting hmsg]
        have hne : i ≠ h := fun heq => hfresh (heq ▸ hi)
        simpa using hne
      rw [hall, hrest, List.append_nil]
    · have hne : i ≠ h := fun heq => hfresh (heq ▸ hmem)
      rw [hnone i hne, ih hnodup hmem, List.nil_append]

/-- An object nothing else holds says its farewell when it is dropped. -/
theorem sentFor_dropUnlessHeld (hheld : (c.objects h).held = false) (hshut : c.shut = false)
    (hidx : Indexed (c.objects h).methodsOut) :
    (c.sentFor (c.dropUnlessHeld h) h).map forget
      = (autoDestructor (c.objects h)).toList.map (goodbye (c.objects h) h) := by
  obtain ⟨msgs, hparts, hmsgs, -⟩ := dropUnlessHeld_spec c h hshut hidx
  have hall : msgs.filter (fun msg => msg.origin = h) = msgs := by
    refine List.filter_eq_self.mpr fun msg hmsg => decide_eq_true ?_
    have hmem := List.mem_map_of_mem (f := forget) hmsg
    rw [hmsgs] at hmem
    exact (origin_parting hmem : (forget msg).origin = h)
  rw [hparts.sentFor, hall, hmsgs, parting, if_neg (by rw [hheld]; exact Bool.false_ne_true)]

/-- … and when the table gives it up, whatever else goes with it. -/
theorem sentFor_unlink {gone : Nat → Bool} (hin : h ∈ c.table) (hgone : gone h = true)
    (hheld : (c.objects h).held = false) (hnodup : c.table.Nodup) (hshut : c.shut = false)
    (hidx : ∀ i, Indexed (c.objects i).methodsOut) :
    (c.sentFor (c.unlink gone) h).map forget
      = (autoDestructor (c.objects h)).toList.map (goodbye (c.objects h) h) := by
  have hnodup' := hnodup.filter gone
  obtain ⟨msgs, hparts, hmsgs⟩ :=
    @drops_spec { c with table := c.table.filter fun h => !gone h } _ hnodup' hshut hidx
  have hparts' : Parts c (c.unlink gone) msgs := ⟨hparts.out, hparts.shut, hparts.methodsOut⟩
  have hfilter : (msgs.filter fun msg => msg.origin = h).map forget
      = (msgs.map forget).filter fun msg => msg.origin = h := by
    rw [List.filter_map]
    rfl
  -- Others may go at the same time, and speak in between.
  have hmine := filter_parting (c := c) hnodup' (List.mem_filter.mpr ⟨hin, hgone⟩)
  rw [hparts'.sentFor, hfilter, hmsgs]
  refine Eq.trans hmine ?_
  rw [parting, if_neg (by rw [hheld]; exact Bool.false_ne_true)]

/-- How the last reference to an object goes: the table gives it up when nothing else holds it, by
itself or with another object of its id that an event destroys, or when it is no longer in the table
its last handle is dropped, or the callback that still held it returns. An event that destroys the
object itself marks it before it goes, and is none of these. -/
inductive Lets (c : Client) (h : Nat) : Client → Prop
  | unlink (gone : Nat → Bool) (hin : h ∈ c.table) (hgone : gone h = true)
      (hheld : (c.objects h).held = false) : Lets c h (c.unlink gone)
  | destroy {other method : Nat} {m : MethodSpec} (hother : h ≠ other)
      (hmethod : (c.objects other).methodsIn[method]? = some m) (hdestructor : m.destructor = true)
      (hin : h ∈ c.table) (hsame : (c.objects h).id = (c.objects other).id)
      (hheld : (c.objects h).held = false) : Lets c h (c.afterDispatch other method)
  | release (hout : h ∉ c.table) (hlast : (c.objects h).handles = 1)
      (hborrows : (c.objects h).borrows = 0) : Lets c h (c.release h)
  | returned (q : Nat) (rest : List S2C) (method : Nat)
      (hlives : ∀ m, (c.objects h).methodsIn[method]? = some m → m.destructor = false)
      (hout : h ∉ c.table) (hlast : (c.objects h).handles = 0)
      (hborrows : (c.objects h).borrows = 1) : Lets c h (c.returned q rest h method)

/-- An event that is no destructor leaves its object alone. -/
theorem afterDispatch_of_lives {method : Nat}
    (hlives : ∀ m, (c.objects h).methodsIn[method]? = some m → m.destructor = false) :
    c.afterDispatch h method = c := by
  unfold afterDispatch
  cases hm : (c.objects h).methodsIn[method]? with
  | none => rfl
  | some m => simp only [hlives m hm, Bool.false_eq_true, if_false]

/-- An object that goes with another of its id says its farewell. -/
theorem sentFor_afterDispatch {other method : Nat} {m : MethodSpec} (hother : h ≠ other)
    (hmethod : (c.objects other).methodsIn[method]? = some m) (hdestructor : m.destructor = true)
    (hin : h ∈ c.table) (hsame : (c.objects h).id = (c.objects other).id)
    (hheld : (c.objects h).held = false) (hid : (c.objects h).id ≠ 0) (hnodup : c.table.Nodup)
    (hshut : c.shut = false) (hidx : ∀ i, Indexed (c.objects i).methodsOut) :
    (c.sentFor (c.afterDispatch other method) h).map forget
      = (autoDestructor (c.objects h)).toList.map (goodbye (c.objects h) h) := by
  -- The other one is marked and says nothing; this one is not, and goes for its id alone.
  let d := c.setObject other fun obj => { obj with destroyed := true }
  let gone := fun i => decide ((d.objects i).id = (d.objects other).id)
  have hmine : d.objects h = c.objects h := if_neg hother
  have hothers : d.objects other = { c.objects other with destroyed := true } := if_pos rfl
  have hdestroy : c.afterDispatch other method =
      { d with destructed := d.destructed ++ d.table.filter gone }.unlink gone := by
    unfold afterDispatch
    simp only [hmethod, hdestructor, if_true]
    exact if_pos (by rw [hothers]; exact hsame ▸ hid)
  have hgone : gone h = true := decide_eq_true (by rw [hmine, hothers]; exact hsame)
  have hidx' : ∀ i, Indexed (d.objects i).methodsOut := by
    intro i
    show Indexed (if i = other then { c.objects i with destroyed := true } else c.objects i).methodsOut
    split <;> exact hidx i
  have hsent := @sentFor_unlink { d with destructed := d.destructed ++ d.table.filter gone } h gone hin
    hgone (by rw [hmine]; exact hheld) hnodup hshut hidx'
  rw [hmine] at hsent
  rw [hdestroy]
  exact hsent

/-- An object says its farewell however its last reference goes. -/
theorem Lets.sentFor (hlets : Lets c h c') (hid : (c.objects h).id ≠ 0) (hnodup : c.table.Nodup) (hshut : c.shut = false)
    (hidx : ∀ i, Indexed (c.objects i).methodsOut) :
    (c.sentFor c' h).map forget
      = (autoDestructor (c.objects h)).toList.map (goodbye (c.objects h) h) := by
  cases hlets with
  | unlink gone hin hgone hheld => exact sentFor_unlink hin hgone hheld hnodup hshut hidx
  | destroy hother hmethod hdestructor hin hsame hheld =>
    exact sentFor_afterDispatch hother hmethod hdestructor hin hsame hheld hid hnodup hshut hidx
  | release hout hlast hborrows =>
    let d := c.setObject h fun obj => { obj with handles := obj.handles - 1 }
    have hobj : d.objects h = { c.objects h with handles := (c.objects h).handles - 1 } := if_pos rfl
    have hrelease : c.release h = d.dropUnlessHeld h := if_neg hout
    have hsent := @sentFor_dropUnlessHeld d h (by rw [hobj, ClientObject.held, hlast, hborrows]; rfl)
      hshut (by rw [hobj]; exact hidx h)
    rw [hobj] at hsent
    rw [hrelease]
    exact hsent
  | returned q rest method hlives hout hlast hborrows =>
    -- the callback held it last
    let d := c.setObject h fun obj => { obj with borrows := obj.borrows - 1 }
    have hobj : d.objects h = { c.objects h with borrows := (c.objects h).borrows - 1 } := if_pos rfl
    have hreturned : c.returned q rest h method = (d.dropUnlessHeld h).setPhase q (.batch rest) := by
      unfold Client.returned
      rw [afterDispatch_of_lives hlives]
      exact congrArg (fun e => setPhase e q (.batch rest)) (if_neg hout)
    have hsent := @sentFor_dropUnlessHeld d h (by rw [hobj, ClientObject.held, hlast, hborrows]; rfl)
      hshut (by rw [hobj]; exact hidx h)
    rw [hobj] at hsent
    rw [hreturned]
    exact hsent

/-- **What was promised**: the object sends its first usable destructor, once, which is the one that
the server calls for an object of the interface when a client leaves; and nothing if there is none. -/
def Farewell (c c' : Client) (h : Nat) : Prop :=
  match (c.objects h).methodsOut.find? fun m => Usable (c.objects h).version m with
  | some m => (∃ msg, c.sentFor c' h = [msg] ∧ forget msg = goodbye (c.objects h) h m) ∧
      ∀ obj : ServerObject, obj.spec = (c.objects h).spec → obj.destroyed = false →
        disconnectDestructor obj = some m
  | none => c.sentFor c' h = []

/-- What the server would call depends on the interface alone. -/
theorem disconnectDestructor_eq {obj : ServerObject} (hspec : obj.spec = (c.objects h).spec)
    (hdestroyed : obj.destroyed = false) :
    disconnectDestructor obj = (c.objects h).methodsOut.find? fun m => Plain m := by
  have hmethods : obj.methodsIn = (c.objects h).methodsOut := by
    cases hs : (c.objects h).spec with
    | none => simp only [ServerObject.methodsIn, ClientObject.methodsOut, hspec, hs]
    | some spec => simp only [ServerObject.methodsIn, ClientObject.methodsOut, hspec, hs]
  rw [disconnectDestructor, hdestroyed, if_neg Bool.false_ne_true, hmethods]
  rfl

theorem goodbye_inj {obj : ClientObject} {m m' : MethodSpec} (hidx : Indexed obj.methodsOut)
    (hm : m ∈ obj.methodsOut) (hm' : m' ∈ obj.methodsOut)
    (heq : goodbye obj h m = goodbye obj h m') : m = m' := by
  obtain ⟨i, hi⟩ := List.getElem?_of_mem hm
  obtain ⟨j, hj⟩ := List.getElem?_of_mem hm'
  have hij : m.idx.toNat = m'.idx.toNat := congrArg Generic.method heq
  rw [hidx.idx_eq hi, hidx.idx_eq hj] at hij
  rw [hij] at hi
  exact Option.some.inj (hi.symm.trans hj)

theorem farewell_iff_agreed (hidx : Indexed (c.objects h).methodsOut)
    (hid : (c.objects h).id ≠ 0) (hdestroyed : (c.objects h).destroyed = false)
    (hsent : (c.sentFor c' h).map forget
      = (autoDestructor (c.objects h)).toList.map (goodbye (c.objects h) h)) :
    Farewell c c' h ↔ Agreed (c.objects h) := by
  unfold Farewell Agreed
  cases husable : (c.objects h).methodsOut.find? fun m => Usable (c.objects h).version m with
  | none =>
    simp only
    cases hauto : autoDestructor (c.objects h) with
    | none =>
      rw [hauto] at hsent
      exact iff_of_true (List.map_eq_nil_iff.mp hsent) rfl
    | some m =>
      rw [hauto] at hsent
      refine iff_of_false ?_ nofun
      intro hnil
      rw [hnil] at hsent
      cases hsent
  | some usable =>
    have hmem := List.mem_of_find?_eq_some husable
    have hserver : (∀ obj : ServerObject, obj.spec = (c.objects h).spec → obj.destroyed = false →
        disconnectDestructor obj = some usable) ↔
          ((c.objects h).methodsOut.find? fun m => Plain m) = some usable := by
      constructor
      · intro hall
        have hone := hall { spec := (c.objects h).spec } rfl rfl
        rwa [disconnectDestructor_eq rfl rfl] at hone
      · intro hplain obj hspec hlive
        rw [disconnectDestructor_eq hspec hlive, hplain]
    simp only
    rw [hserver]
    refine and_congr_left fun _ => ?_
    cases hauto : autoDestructor (c.objects h) with
    | none =>
      rw [hauto] at hsent
      refine iff_of_false ?_ nofun
      rintro ⟨msg, hmsg, -⟩
      rw [hmsg] at hsent
      cases hsent
    | some m =>
      rw [hauto] at hsent
      have hm := ((autoDestructor_eq_some hid hdestroyed).mp hauto).1
      constructor
      · rintro ⟨msg, hmsg, hgoodbye⟩
        rw [hmsg] at hsent
        have heq := (List.cons.inj hsent).1
        rw [hgoodbye] at heq
        exact congrArg some (goodbye_inj hidx hmem (List.mem_of_find?_eq_some hm) heq).symm
      · intro heq
        cases heq
        obtain ⟨msg, hmsg, hgoodbye⟩ := List.map_eq_singleton_iff.mp hsent
        exact ⟨msg, hmsg, hgoodbye⟩

theorem ledger_run {impls : List ProtocolSpec} {acts : List Action}
    (hrun : Run.run step { impls } acts = some c) : Ledger c :=
  @Run.run_induction _ _ step Ledger (fun _ _ _ hc hstep => hc.step hstep) _ _ _ (.init impls) hrun

/-- **The farewell is said in exactly the interfaces of the condition.** -/
theorem farewell_iff {impls : List ProtocolSpec} {acts : List Action}
    (hrun : Run.run step { impls } acts = some c) (hlets : Lets c h c')
    (hid : (c.objects h).id ≠ 0) (hdestroyed : (c.objects h).destroyed = false)
    (hshut : c.shut = false) (hidx : ∀ i, Indexed (c.objects i).methodsOut) :
    Farewell c c' h ↔ Unobstructed (c.objects h).version (c.objects h).methodsOut := by
  have hledger := ledger_run hrun
  have hnodup : c.table.Nodup := hledger.sorted.imp fun hlt => Nat.ne_of_lt hlt
  have hsent := hlets.sentFor hid hnodup hshut hidx
  rw [farewell_iff_agreed (hidx h) hid hdestroyed hsent, agreed_iff hid hdestroyed]

/-! ## Two interfaces -/

/-- A protocol with one object, which has these methods. -/
def protocolOf (methods : List MethodSpec) : ProtocolSpec where
  specName := "lamp"
  specVer := 1
  objects := [{ objectName := "lamp", c2s := methods, s2c := [] }]

/-- It is bound and named, and its handle is dropped. -/
def boundAndDropped (methods : List MethodSpec) : List Action :=
  [.read 0 [.handshakeProtocols [("lamp", 1)]], .handle 0, .finish 0, .bind 0 (protocolOf methods) 1,
    .read 0 [.newObject 1 2], .handle 0, .finish 0, .drop 0]

/-- The client of such a run is as the theorem wants it. -/
theorem indexed_boundAndDropped {methods : List MethodSpec}
    (hrun : Run.run step {} (boundAndDropped methods) = some c) (hsize : c.size = 1)
    (hidx : Indexed (c.objects 0).methodsOut) (i : Nat) : Indexed (c.objects i).methodsOut := by
  cases i with
  | zero => exact hidx
  | succ i =>
    have hblank := ((ledger_run hrun).blank (i + 1) (by omega)).1
    rw [ClientObject.methodsOut, hblank]
    rfl

theorem farewell_iff_lamp : ∃ c, Run.run step {} (boundAndDropped [⟨0, [], "", 0, true⟩]) = some c ∧
    Farewell c (c.unlink c.orphaned) 0 := by
  have hrun : ∃ c, Run.run step {} (boundAndDropped [⟨0, [], "", 0, true⟩]) = some c ∧ c.size = 1 ∧
      0 ∈ c.table ∧ c.orphaned 0 = true ∧ (c.objects 0).held = false ∧ (c.objects 0).id ≠ 0 ∧
      (c.objects 0).destroyed = false ∧ c.shut = false ∧ Indexed (c.objects 0).methodsOut ∧
      Unobstructed (c.objects 0).version (c.objects 0).methodsOut :=
    ⟨_, rfl, rfl, by decide, rfl, rfl, by decide, rfl, rfl, by decide,
      by decide⟩
  obtain ⟨c, hrun, hsize, hin, hgone, hheld, hid, hdestroyed, hshut, hidx, hclear⟩ := hrun
  exact ⟨c, hrun, (farewell_iff hrun (.unlink c.orphaned hin hgone hheld) hid hdestroyed hshut
    (indexed_boundAndDropped hrun hsize hidx)).mpr hclear⟩

/-- **A destructor with an argument that comes first silences the one without.** -/
theorem not_always_farewell : ¬ ∀ (impls : List ProtocolSpec) (acts : List Action) (c c' : Client)
    (h : Nat), Run.run step { impls } acts = some c → Lets c h c' → (c.objects h).id ≠ 0 →
    (c.objects h).destroyed = false → c.shut = false →
    (∀ i, Indexed (c.objects i).methodsOut) → Farewell c c' h := by
  intro hall
  have hrun : ∃ c, Run.run step {}
      (boundAndDropped [⟨0, [MessageMagic.typeUint.toU8], "", 0, true⟩, ⟨1, [], "", 0, true⟩]) = some c ∧
      c.size = 1 ∧ 0 ∈ c.table ∧ c.orphaned 0 = true ∧ (c.objects 0).held = false ∧
      (c.objects 0).id ≠ 0 ∧ (c.objects 0).destroyed = false ∧ c.shut = false ∧
      Indexed (c.objects 0).methodsOut ∧ c.sentFor (c.unlink c.orphaned) 0 = [] ∧
      ((c.objects 0).methodsOut.find? fun m => Usable (c.objects 0).version m)
        = some ⟨1, [], "", 0, true⟩ :=
    ⟨_, rfl, rfl, by decide, rfl, rfl, by decide, rfl, rfl, by decide, rfl, by decide⟩
  obtain ⟨c, hrun, hsize, hin, hgone, hheld, hid, hdestroyed, hshut, hidx, hsilent, husable⟩ := hrun
  have hfarewell := hall [] _ c _ 0 hrun (.unlink c.orphaned hin hgone hheld) hid hdestroyed hshut
    (indexed_boundAndDropped hrun hsize hidx)
  rw [Farewell, husable] at hfarewell
  obtain ⟨⟨msg, hmsg, -⟩, -⟩ := hfarewell
  rw [hsilent] at hmsg
  cases hmsg

end Hyprwire.Client
