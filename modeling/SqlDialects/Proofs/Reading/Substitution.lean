/-
Replacement as a reader of quotations and parentheses sees it.

- `Pattern.Gentle`: what is found and what takes its place are plain texts with the same parentheses, neither of them
  empty, and what is found before a mark does not depend on the text behind the mark. A pattern that is known by the
  shape of what it finds (`Pattern.Finds`) is gentle if the shape is (`Finds.gentle`).
- `interchangeable_replaceAll`: no reader notices what a gentle pattern replaces, wherever it stands.
- `find_quotedFrom`: inside a quotation a gentle pattern finds the same in the text and in its quoted characters.
-/
import SqlDialects.Proofs.Reading.Quoted
import SqlDialects.Proofs.Text.Substitution

namespace SqlDialects.Text

open Fragment Cursor

/-- both texts of the match are plain and hold something, and their parentheses are the same -/
structure Match.Gentle (found : Match) : Prop where
  matched_plain : Plain found.matched
  replacement_plain : Plain found.replacement
  matched_ne_nil : found.matched ≠ []
  replacement_ne_nil : found.replacement ≠ []
  parens_eq : parens found.matched = parens found.replacement

/-- what a pattern finds at the front of a text is told by the match and the characters on both sides of it -/
def Pattern.Finds (pattern : Pattern) (shape : Option Char → Match → Option Char → Prop) : Prop :=
  ∀ before text found, pattern before text = some found ↔
    ∃ rest, text = found.matched ++ rest ∧ shape before found rest.head?

theorem Pattern.Finds.covers {pattern : Pattern} {shape : Option Char → Match → Option Char → Prop}
    (hp : pattern.Finds shape) (hs : ∀ before found next, shape before found next → found.matched ≠ []) :
    pattern.Covers := by
  intro before text found hfound
  obtain ⟨rest, rfl, hshape⟩ := (hp _ _ _).1 hfound
  exact ⟨hs _ _ _ hshape, List.prefix_append _ _⟩

/-- a pattern that keeps quotations and parentheses, and that looks no further than to the next mark -/
structure Pattern.Gentle (pattern : Pattern) : Prop where
  found_gentle : ∀ before text found, pattern before text = some found → found.Gentle ∧ found.matched <+: text
  up_to_mark : ∀ before front mark rest rest', Quoting.isMark mark = true →
    pattern before (front ++ mark :: rest) = pattern before (front ++ mark :: rest')

theorem Match.Gentle.interchangeable {found : Match} (h : found.Gentle) {s : Cursor} (hs : s.quoting.Proper) :
    s.Interchangeable found.matched found.replacement :=
  interchangeable_of_parens hs h.matched_plain h.replacement_plain h.matched_ne_nil h.replacement_ne_nil h.parens_eq

/-! ## Replacements that no reader notices -/

/-- if no reader notices one replacement, none notices them all -/
theorem interchangeable_replaceFrom {pattern : Pattern} (hcov : pattern.Covers)
    (hedit : ∀ before text found, pattern before text = some found → ∀ s : Cursor, s.quoting.Proper →
      s.Interchangeable found.matched found.replacement)
    (before : Option Char) (text : Fragment) :
    ∀ s : Cursor, s.quoting.Proper → s.Interchangeable text (replaceFrom pattern before 0 text) := by
  refine replaceFrom_induction hcov (motive := fun _ text out => ∀ s : Cursor, s.quoting.Proper →
    s.Interchangeable text out) ?nil ?keep ?replace before text
  case nil => intro _ s _; exact .refl s []
  case keep =>
    intro _ c rest out _ ih s hs
    exact (ih (s.step c) (Quoting.proper_step hs c)).cons
  case replace =>
    intro _ found rest out h ih s hs
    refine Interchangeable.append (hedit _ _ _ h s hs) (ih (s.run found.matched) ?_)
    rw [quoting_run]; exact Quoting.proper_run hs _

/-! ## Gentle patterns -/

/-- no mark is plain -/
theorem mark_not_mem {text : Fragment} (h : Plain text) {mark : Char} (hm : Quoting.isMark mark = true) :
    mark ∉ text := by
  intro hmem
  have := h mark hmem
  simp [Quoting.isPlain, hm] at this

/-- a text without the character that is found at the front ends before that character -/
theorem exists_front_of_append {front matched rest tail : Fragment} {mark : Char} (hm : mark ∉ matched)
    (h : front ++ mark :: rest = matched ++ tail) : ∃ middle, front = matched ++ middle ∧ tail = middle ++ mark :: rest := by
  rcases List.append_eq_append_iff.1 h with ⟨middle, hmatched, hmark⟩ | ⟨middle, hfront, htail⟩
  · cases middle with
    | nil => exact ⟨[], by simpa using hmatched.symm, by simpa using hmark.symm⟩
    | cons c middle =>
      simp only [List.cons_append, List.cons.injEq] at hmark
      exact absurd (by rw [hmatched, hmark.1]; simp) hm
  · exact ⟨middle, hfront, htail⟩

theorem Pattern.Finds.gentle {pattern : Pattern} {shape : Option Char → Match → Option Char → Prop}
    (hp : pattern.Finds shape) (hs : ∀ before found next, shape before found next → found.Gentle) : pattern.Gentle := by
  -- the two sides of `up_to_mark` find the same, and it is enough to carry a match from one to the other
  have hcopy (before : Option Char) (front : Fragment) (mark : Char) (rest rest' : Fragment) (found : Match)
      (hm : Quoting.isMark mark = true) (h : pattern before (front ++ mark :: rest) = some found) :
      pattern before (front ++ mark :: rest') = some found := by
    obtain ⟨tail, htext, hshape⟩ := (hp _ _ _).1 h
    have hmark := mark_not_mem (hs _ _ _ hshape).matched_plain hm
    obtain ⟨middle, rfl, rfl⟩ := exists_front_of_append hmark htext
    refine (hp _ _ _).2 ⟨middle ++ mark :: rest', by simp, ?_⟩
    cases middle with
    | nil => exact hshape
    | cons c middle => exact hshape
  refine ⟨fun before text found h => ?_, fun before front mark rest rest' hm => ?_⟩
  · obtain ⟨rest, rfl, hshape⟩ := (hp _ _ _).1 h
    exact ⟨hs _ _ _ hshape, List.prefix_append _ _⟩
  · cases h : pattern before (front ++ mark :: rest) with
    | some found => exact (hcopy _ _ _ _ rest' _ hm h).symm
    | none =>
      cases h' : pattern before (front ++ mark :: rest') with
      | none => rfl
      | some found => rw [hcopy _ _ _ _ rest _ hm h'] at h; cases h

namespace Pattern.Gentle

variable {pattern : Pattern} (hp : pattern.Gentle)
include hp

theorem covers : pattern.Covers := by
  intro before text found h
  obtain ⟨hfound, hprefix⟩ := hp.found_gentle before text found h
  exact ⟨hfound.matched_ne_nil, hprefix⟩

/-- nothing that is found begins with a mark -/
theorem find_mark {mark : Char} (hm : Quoting.isMark mark = true) (before : Option Char) (rest : Fragment) :
    pattern before (mark :: rest) = none := by
  cases h : pattern before (mark :: rest) with
  | none => rfl
  | some found =>
    obtain ⟨hfound, tail, htail⟩ := hp.found_gentle _ _ _ h
    obtain ⟨c, cs, hc⟩ := List.exists_cons_of_ne_nil hfound.matched_ne_nil
    rw [hc, List.cons_append, List.cons.injEq] at htail
    exact absurd (by rw [hc, htail.1]; exact List.mem_cons_self) (mark_not_mem hfound.matched_plain hm)

/-- **No reader notices what a gentle pattern replaces**, not even inside a quotation or behind a backslash. -/
theorem interchangeable_behind (before : Option Char) (text : Fragment) {s : Cursor} (hs : s.quoting.Proper) :
    s.Interchangeable text (replaceFrom pattern before 0 text) :=
  interchangeable_replaceFrom hp.covers (fun _ _ _ h _ hs => (hp.found_gentle _ _ _ h).1.interchangeable hs) before text s hs

theorem interchangeable_replaceAll (text : Fragment) {s : Cursor} (hs : s.quoting.Proper) :
    s.Interchangeable text (replaceAll pattern text) :=
  hp.interchangeable_behind none text hs

/-! ## Quoted characters -/

/-- inside a quotation, what is quoted of a text shows a pattern all that the text does -/
theorem find_quotedFrom (before : Option Char) {mark : Char} (hm : Quoting.isMark mark = true) (escaped : Bool)
    (text : Fragment) : pattern before (quotedFrom (.inside mark escaped) text) = pattern before text := by
  rcases quotedFrom_inside mark escaped text with h | ⟨front, rest, rfl, h⟩
  · rw [h]
  · rw [h]; exact hp.up_to_mark _ _ _ _ _ hm

/-- what is quoted behind the start of a text begins with a mark, so the character before it does not matter -/
theorem noMatch_quotedFrom_outside (before before' : Option Char) (text : Fragment) :
    NoMatch pattern before (quotedFrom .outside text) ↔ NoMatch pattern before' (quotedFrom .outside text) := by
  rcases quotedFrom_outside text with h | ⟨mark, rest, hm, h⟩
  · rw [h]; exact Iff.rfl
  · simp only [h, NoMatch, hp.find_mark hm]

end Pattern.Gentle

end SqlDialects.Text
