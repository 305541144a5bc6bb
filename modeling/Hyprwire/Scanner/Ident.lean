import Hyprwire.Scanner.Protocol

/-!
# `Scanner/Ident.lean` — the identifiers of generated code

The generator names modules, types, methods and fields after the names in the definition. It makes
an identifier with `format_ident!`, which gives up with a panic on a text that is none, or with
`raw_ident`, which writes a keyword as `r#type`. Neither asks first.

`Accepts`, `Escapes` and `Stem` say of a text which of these ways it survives.
-/

namespace Hyprwire.Scanner.Generate

/-! ## Identifiers -/

/-- The characters of identifiers. Which they are beyond ASCII is Unicode's affair. -/
structure Xid where
  start : Char → Bool
  continue_ : Char → Bool
  start_letter : ∀ c : Char, c.isAlpha = true → start c = true
  continue_word : ∀ c : Char, c.isAlphanum = true ∨ c = '_' → continue_ c = true
  continue_hash : continue_ '#' = false

/-- `proc_macro2`'s check of an identifier; a keyword is one too. -/
def Xid.isIdent (x : Xid) (s : String) : Bool :=
  match s.toList with
  | [] => false
  | c :: cs => (c = '_' || x.start c) && cs.all x.continue_

/-- The words that cannot be written as `r#word`. -/
def unraw : List String := ["self", "Self", "super", "crate"]

/-- What the generator panics with. -/
inductive Panicked
  | ident (s : String)
  | rawIdent (s : String)
  | indexOutOfRange
  deriving DecidableEq, Repr

/-- `proc_macro2::Ident`. -/
structure Ident (x : Xid) where
  text : String
  raw : Bool
  valid : x.isIdent text = true
  escapable : raw = true → text ∉ unraw

namespace Ident

variable {x : Xid}

/-- `Ident::new`. -/
def new (x : Xid) (s : String) : Except Panicked (Ident x) :=
  if h : x.isIdent s = true then .ok ⟨s, false, h, nofun⟩ else .error (.ident s)

/-- `Ident::new_raw`. -/
def newRaw (x : Xid) (s : String) : Except Panicked (Ident x) :=
  if h : x.isIdent s = true ∧ s ∉ unraw then .ok ⟨s, true, h.1, fun _ => h.2⟩
  else .error (.rawIdent s)

def display (i : Ident x) : String := if i.raw then "r#" ++ i.text else i.text

end Ident

/-- What stands behind `r#`. -/
def stripRaw (s : String) : Option String :=
  match s.toList with
  | 'r' :: '#' :: rest => some (String.ofList rest)
  | _ => none

variable (x : Xid) (up : Char → String)

/-- `format_ident!` of a text. -/
def formatIdent (s : String) : Except Panicked (Ident x) :=
  match stripRaw s with
  | some rest => Ident.newRaw x rest
  | none => Ident.new x s

/-- The keywords that `raw_ident` knows. -/
def reserved : List String :=
  ["as", "async", "await", "break", "become", "box", "const", "continue", "crate", "do", "dyn",
    "else", "enum", "extern", "false", "final", "fn", "for", "gen", "if", "impl", "in", "let", "loop",
    "macro", "match", "mod", "move", "mut", "override", "priv", "pub", "ref", "return", "self",
    "static", "struct", "super", "trait", "true", "try", "type", "typeof", "unsafe", "unsized", "use",
    "virtual", "where", "while", "yield"]

/-- `raw_ident`. -/
def rawIdent (name : String) : Except Panicked (Ident x) :=
  if name ∈ reserved then formatIdent x ("r#" ++ name) else formatIdent x name

/-- `snake_to_screaming`. -/
def snakeToScreaming (s : String) : String := String.join (s.toList.map up)

/-! ## Which texts survive -/

namespace Xid

/-- `format_ident!` makes an identifier of the text. -/
def Accepts (s : String) : Prop :=
  match stripRaw s with
  | some rest => x.isIdent rest = true ∧ rest ∉ unraw
  | none => x.isIdent s = true

/-- `raw_ident` makes an identifier of the name. -/
def Escapes (name : String) : Prop :=
  if name ∈ reserved then name ∉ unraw else x.Accepts name

/-- With a capitalised word behind it the text is an identifier. -/
def Stem (s : String) : Prop :=
  match stripRaw s with
  | some rest => rest = "" ∨ x.isIdent rest = true
  | none => s = "" ∨ x.isIdent s = true

/-- With an identifier before it the text is one. -/
def Rest (s : String) : Prop := s.toList.all x.continue_ = true

instance (s : String) : Decidable (x.Accepts s) := by
  unfold Accepts
  split <;> infer_instance

instance (name : String) : Decidable (x.Escapes name) := by
  unfold Escapes
  split <;> infer_instance

end Xid

variable {x up} {s t name : String}

theorem isOk_new : (Ident.new x s).isOk = true ↔ x.isIdent s = true := by
  unfold Ident.new
  split
  · next h => exact iff_of_true rfl h
  · next h => exact iff_of_false nofun h

theorem isOk_newRaw : (Ident.newRaw x s).isOk = true ↔ x.isIdent s = true ∧ s ∉ unraw := by
  unfold Ident.newRaw
  split
  · next h => exact iff_of_true rfl h
  · next h => exact iff_of_false nofun h

theorem isOk_formatIdent : (formatIdent x s).isOk = true ↔ x.Accepts s := by
  unfold formatIdent Xid.Accepts
  split
  · exact isOk_newRaw
  · exact isOk_new

/-- Letters are an identifier. -/
theorem isIdent_of_letters (hne : s.toList ≠ []) (h : s.toList.all Char.isAlpha = true) :
    x.isIdent s = true := by
  unfold Xid.isIdent
  cases hs : s.toList with
  | nil => exact absurd hs hne
  | cons c cs =>
    rw [hs, List.all_cons, Bool.and_eq_true] at h
    obtain ⟨hc, hcs⟩ := h
    simp only [Bool.and_eq_true, Bool.or_eq_true, List.all_eq_true]
    refine ⟨.inr (x.start_letter c hc), fun d hd => x.continue_word d (.inl ?_)⟩
    have hletter := List.all_eq_true.mp hcs d hd
    simp only [Char.isAlphanum, hletter, Bool.true_or]

theorem reserved_letters : ∀ name ∈ reserved, name.toList ≠ [] ∧ name.toList.all Char.isAlpha = true := by
  decide

theorem stripRaw_raw (s : String) : stripRaw ("r#" ++ s) = some s := by
  simp [stripRaw]

theorem isOk_rawIdent : (rawIdent x name).isOk = true ↔ x.Escapes name := by
  unfold rawIdent Xid.Escapes
  split
  · next h =>
    obtain ⟨hne, hletters⟩ := reserved_letters name h
    have hident : x.isIdent name = true := isIdent_of_letters hne hletters
    rw [isOk_formatIdent, Xid.Accepts, stripRaw_raw]
    exact and_iff_right hident
  · exact isOk_formatIdent

/-! ### Texts with something behind them -/

/-- `'#'` stands in no identifier. -/
theorem stripRaw_of_isIdent (h : x.isIdent s = true) : stripRaw s = none := by
  unfold stripRaw
  split
  · next rest hs =>
    unfold Xid.isIdent at h
    rw [hs] at h
    simp [x.continue_hash] at h
  · rfl

theorem isIdent_append_of_letters (hne : t.toList ≠ []) (ht : t.toList.all Char.isAlpha = true) :
    x.isIdent (s ++ t) = true ↔ s = "" ∨ x.isIdent s = true := by
  have hrest : t.toList.all x.continue_ = true := by
    rw [List.all_eq_true]
    intro c hc
    refine x.continue_word c (.inl ?_)
    simp only [Char.isAlphanum, List.all_eq_true.mp ht c hc, Bool.true_or]
  unfold Xid.isIdent
  rw [String.toList_append]
  cases hs : s.toList with
  | nil =>
    have hempty : s = "" := String.toList_inj.mp hs
    refine iff_of_true ?_ (.inl hempty)
    rw [List.nil_append]
    exact isIdent_of_letters hne ht
  | cons c cs =>
    have hnonempty : s ≠ "" := by
      intro h
      rw [h] at hs
      cases hs
    simp only [List.cons_append, List.all_append, hrest, Bool.and_true, hnonempty, false_or]

theorem stripRaw_append (ht : '#' ∉ t.toList) : stripRaw (s ++ t) = (stripRaw s).map (· ++ t) := by
  unfold stripRaw
  rw [String.toList_append]
  match hs : s.toList with
  | [] =>
    rw [List.nil_append]
    split
    · next rest htl =>
      rw [htl] at ht
      simp at ht
    · rfl
  | [c] =>
    rw [List.singleton_append]
    split
    · next rest htl =>
      obtain ⟨-, htl⟩ := List.cons.inj htl
      rw [htl] at ht
      simp at ht
    · split
      · next heq => simp at heq
      · rfl
  | c :: d :: rest =>
    simp only [List.cons_append]
    by_cases hraw : c = 'r' ∧ d = '#'
    · obtain ⟨rfl, rfl⟩ := hraw
      simp [String.ofList_append]
    · split
      · next heq =>
        simp only [List.cons.injEq] at heq
        exact absurd ⟨heq.1, heq.2.1⟩ hraw
      · split
        · next heq =>
          simp only [List.cons.injEq] at heq
          exact absurd ⟨heq.1, heq.2.1⟩ hraw
        · rfl

/-- A capitalised word: letters, and no end of a word that cannot be escaped. -/
structure Tail (t : String) : Prop where
  nonempty : t.toList ≠ []
  letters : t.toList.all Char.isAlpha = true
  apart : ∀ w ∈ unraw, ¬ t.toList <:+ w.toList

theorem accepts_append (ht : Tail t) : x.Accepts (s ++ t) ↔ x.Stem s := by
  have hash : '#' ∉ t.toList := by
    intro h
    have hletter := List.all_eq_true.mp ht.letters _ h
    cases hletter
  unfold Xid.Accepts Xid.Stem
  rw [stripRaw_append hash]
  cases stripRaw s with
  | none => exact isIdent_append_of_letters ht.nonempty ht.letters
  | some rest =>
    have hplain : rest ++ t ∉ unraw := by
      intro h
      exact ht.apart _ h ⟨rest.toList, (String.toList_append).symm⟩
    simp only [Option.map_some]
    rw [isIdent_append_of_letters ht.nonempty ht.letters]
    exact and_iff_left hplain

theorem Xid.Accepts.stem (h : x.Accepts s) : x.Stem s := by
  unfold Xid.Accepts at h
  unfold Xid.Stem
  split at h
  · exact .inr h.1
  · exact .inr h

theorem accepts_send : x.Accepts ("send_" ++ s) ↔ x.Rest s := by
  have hstrip : stripRaw ("send_" ++ s) = none := by simp [stripRaw]
  unfold Xid.Accepts
  rw [hstrip]
  simp [Xid.isIdent, Xid.Rest, x.start_letter 's' (by decide), x.continue_word 'e' (by decide),
    x.continue_word 'n' (by decide), x.continue_word 'd' (by decide), x.continue_word '_' (by decide)]

/-- A name for the descriptors of an argument can always be made of the argument's. -/
theorem accepts_raw_fds (i : Ident x) : x.Accepts (i.text ++ "_raw_fds") := by
  have hword : "_raw_fds".toList.all (fun d => d.isAlphanum || d = '_') = true := by decide
  have hident : x.isIdent (i.text ++ "_raw_fds") = true := by
    have hvalid := i.valid
    unfold Xid.isIdent at hvalid ⊢
    rw [String.toList_append]
    cases hi : i.text.toList with
    | nil =>
      rw [hi] at hvalid
      cases hvalid
    | cons c cs =>
      rw [hi] at hvalid
      simp only [Bool.and_eq_true] at hvalid
      simp only [List.cons_append, List.all_append, hvalid.1, hvalid.2, Bool.true_and]
      rw [List.all_eq_true]
      intro d hd
      have hchar := List.all_eq_true.mp hword d hd
      rw [Bool.or_eq_true, decide_eq_true_eq] at hchar
      exact x.continue_word d hchar
  unfold Xid.Accepts
  rw [stripRaw_of_isIdent hident]
  exact hident

end Hyprwire.Scanner.Generate
