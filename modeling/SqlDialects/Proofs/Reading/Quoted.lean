/-
The quoted characters of a text: those that a reader meets inside a quotation, with the marks around them.

- `quotedText_eq_filter`: they are the characters at whose start or end the text is inside a quotation.
- `quotedFrom_append`: reading a text in two parts.
- `quotedFrom_inside`: a reader inside a quotation collects what it reads up to the closing mark, and that mark.
-/
import SqlDialects.Proofs.Reading.Plain

namespace SqlDialects

namespace Quoting

/-- the character `c` read at `q` belongs to a quotation; its marks do -/
def encloses (q : Quoting) (c : Char) : Bool := q.isOpen || (q.step c).isOpen

/-- only its own mark closes a quotation -/
theorem step_inside_cases (mark : Char) (escaped : Bool) (c : Char) :
    ((inside mark escaped).step c = outside ∧ c = mark) ∨ ∃ escaped', (inside mark escaped).step c = inside mark escaped' := by
  cases escaped with
  | true => exact Or.inr ⟨false, rfl⟩
  | false =>
    simp only [step]
    by_cases h1 : c = '\\'
    · exact Or.inr ⟨true, by rw [if_pos h1]⟩
    · by_cases h2 : c = mark
      · exact Or.inl ⟨by rw [if_neg h1, if_pos h2], h2⟩
      · exact Or.inr ⟨false, by rw [if_neg h1, if_neg h2]⟩

end Quoting

namespace Fragment

open Quoting

/-- the characters of the text that belong to quotations, read on from `q` -/
def quotedFrom (q : Quoting) : Fragment → Fragment
  | [] => []
  | c :: rest => if q.encloses c then c :: quotedFrom (q.step c) rest else quotedFrom (q.step c) rest

/-- the characters of the text that belong to quotations -/
def quotedText (text : Fragment) : Fragment := quotedFrom .outside text

theorem quotedFrom_eq_filter (q : Quoting) (front text : Fragment) (hq : q = outside.run front) :
    quotedFrom q text = ((text.zipIdx front.length).filter fun entry =>
      insideQuotes (front ++ text) entry.2 || insideQuotes (front ++ text) (entry.2 + 1)).map Prod.fst := by
  induction text generalizing q front with
  | nil => rfl
  | cons c rest ih =>
    have hstep : q.step c = outside.run (front ++ [c]) := by rw [hq, run_append]; rfl
    have ih := ih _ (front ++ [c]) hstep
    simp only [List.append_assoc, List.singleton_append, List.length_append, List.length_singleton] at ih
    have h1 : insideQuotes (front ++ c :: rest) front.length = q.isOpen := by
      rw [insideQuotes, List.take_left, hq]
    have h2 : insideQuotes (front ++ c :: rest) (front.length + 1) = (q.step c).isOpen := by
      rw [insideQuotes, hstep, show front ++ c :: rest = (front ++ [c]) ++ rest by simp,
        show front.length + 1 = (front ++ [c]).length by simp, List.take_left]
    have h3 : (q.isOpen || (q.step c).isOpen) = q.encloses c := rfl
    rw [List.zipIdx_cons, List.filter_cons, h1, h2, h3, quotedFrom, ih]
    by_cases h : q.encloses c = true
    · rw [if_pos h, if_pos h]; rfl
    · rw [if_neg h, if_neg h]

/-- the quoted characters by their positions -/
theorem quotedText_eq_filter (text : Fragment) :
    quotedText text = (text.zipIdx.filter fun entry =>
      insideQuotes text entry.2 || insideQuotes text (entry.2 + 1)).map Prod.fst :=
  quotedFrom_eq_filter .outside [] text rfl

theorem quotedFrom_append (q : Quoting) (first second : Fragment) :
    quotedFrom q (first ++ second) = quotedFrom q first ++ quotedFrom (q.run first) second := by
  induction first generalizing q with
  | nil => rfl
  | cons c rest ih =>
    simp only [List.cons_append, quotedFrom, ih, run_cons]
    split
    · rfl
    · rfl

theorem quotedFrom_cons_outside {c : Char} (h : isMark c = false) (rest : Fragment) :
    quotedFrom .outside (c :: rest) = quotedFrom .outside rest := by
  simp [quotedFrom, encloses, step, isOpen, h]

/-- nothing of a plain text outside quotations is quoted -/
theorem quotedFrom_plain_outside {text : Fragment} (h : Plain text) : quotedFrom .outside text = [] := by
  induction text with
  | nil => rfl
  | cons c rest ih =>
    rw [plain_cons] at h
    have hm : isMark c = false := by
      have := h.1
      simp only [isPlain, Bool.and_eq_true, Bool.not_eq_true'] at this
      exact this.1
    rw [quotedFrom_cons_outside hm, ih h.2]

theorem quotedFrom_cons_inside (mark : Char) (escaped : Bool) (c : Char) (rest : Fragment) :
    quotedFrom (.inside mark escaped) (c :: rest) = c :: quotedFrom ((inside mark escaped).step c) rest := by
  simp [quotedFrom, encloses, isOpen]

/-- a reader inside a quotation collects all, or all up to its mark and what is quoted behind it -/
theorem quotedFrom_inside (mark : Char) (escaped : Bool) (text : Fragment) :
    quotedFrom (.inside mark escaped) text = text ∨ ∃ front rest, text = front ++ mark :: rest ∧
      quotedFrom (.inside mark escaped) text = front ++ mark :: quotedFrom .outside rest := by
  induction text generalizing escaped with
  | nil => exact Or.inl rfl
  | cons c rest ih =>
    rw [quotedFrom_cons_inside]
    rcases step_inside_cases mark escaped c with ⟨hstep, rfl⟩ | ⟨escaped', hstep⟩
    · exact Or.inr ⟨[], rest, rfl, by rw [hstep]; rfl⟩
    · rw [hstep]
      rcases ih escaped' with h | ⟨front, tail, h1, h2⟩
      · exact Or.inl (by rw [h])
      · exact Or.inr ⟨c :: front, tail, by rw [h1]; rfl, by rw [h2]; rfl⟩

/-- what is quoted behind the start of a text begins with a mark -/
theorem quotedFrom_outside (text : Fragment) :
    quotedFrom .outside text = [] ∨ ∃ mark rest, isMark mark = true ∧ quotedFrom .outside text = mark :: rest := by
  induction text with
  | nil => exact Or.inl rfl
  | cons c rest ih =>
    by_cases hc : isMark c = true
    · exact Or.inr ⟨c, _, hc, by simp [quotedFrom, encloses, step, isOpen, hc]; rfl⟩
    · rw [quotedFrom_cons_outside (by simpa using hc)]
      exact ih

end Fragment

end SqlDialects
