/-
Replacing every match of a pattern in a text, from left to right: the match that begins first is replaced, and the
search goes on behind it, so matches never overlap and replaced text is not looked at again.

A pattern sees the character before a position and the text from there on. What it finds covers at least one
character.

- `replaceFrom_of_none`, `replaceFrom_of_match`: one step of the search; every law of a rule goes through them.
- `replaceAll_eq_self`: a text in which the pattern finds nothing stays as it is.
-/

namespace SqlDialects.Text

/-- what a pattern finds: the text it covers and the text to put in its place -/
structure Match where
  matched : List Char
  replacement : List Char
deriving DecidableEq, Repr

/-- a pattern looks at a position: the character before it, if any, and the text that begins there -/
abbrev Pattern := Option Char → List Char → Option Match

/-- the search from a position whose next `skip` characters were covered by the match before -/
def replaceFrom (pattern : Pattern) : (before : Option Char) → (skip : Nat) → List Char → List Char
  | _, _, [] => []
  | _, skip + 1, c :: rest => replaceFrom pattern (some c) skip rest
  | before, 0, c :: rest =>
    match pattern before (c :: rest) with
    | none => c :: replaceFrom pattern (some c) 0 rest
    | some found => found.replacement ++ replaceFrom pattern (some c) (found.matched.length - 1) rest

/-- the text with every match replaced -/
def replaceAll (pattern : Pattern) (text : List Char) : List Char := replaceFrom pattern none 0 text

/-- the last character of a text that stands behind `before`, or that character if the text is empty -/
def lastOr : (before : Option Char) → List Char → Option Char
  | before, [] => before
  | _, c :: rest => lastOr (some c) rest

theorem replaceFrom_skip (pattern : Pattern) (before : Option Char) (covered rest : List Char) :
    replaceFrom pattern before covered.length (covered ++ rest) = replaceFrom pattern (lastOr before covered) 0 rest := by
  induction covered generalizing before with
  | nil => rfl
  | cons c cs ih =>
    simp only [List.length_cons, List.cons_append, replaceFrom, ih, lastOr]

theorem replaceFrom_of_none {pattern : Pattern} {before : Option Char} {c : Char} {rest : List Char}
    (h : pattern before (c :: rest) = none) :
    replaceFrom pattern before 0 (c :: rest) = c :: replaceFrom pattern (some c) 0 rest := by
  simp [replaceFrom, h]

theorem replaceFrom_of_match {pattern : Pattern} {before : Option Char} {c : Char} {found rest out : List Char}
    (h : pattern before (c :: (found ++ rest)) = some ⟨c :: found, out⟩) :
    replaceFrom pattern before 0 (c :: (found ++ rest)) =
      out ++ replaceFrom pattern (lastOr before (c :: found)) 0 rest := by
  simp only [replaceFrom, h, List.length_cons, Nat.add_sub_cancel, replaceFrom_skip, lastOr]

/-- the pattern finds nothing anywhere in the text that follows `before` -/
def NoMatch (pattern : Pattern) : (before : Option Char) → List Char → Prop
  | _, [] => True
  | before, c :: rest => pattern before (c :: rest) = none ∧ NoMatch pattern (some c) rest

theorem replaceFrom_eq_self {pattern : Pattern} {before : Option Char} {text : List Char}
    (h : NoMatch pattern before text) : replaceFrom pattern before 0 text = text := by
  induction text generalizing before with
  | nil => rfl
  | cons c rest ih => rw [replaceFrom_of_none h.1, ih h.2]

theorem replaceAll_eq_self {pattern : Pattern} {text : List Char} (h : NoMatch pattern none text) :
    replaceAll pattern text = text :=
  replaceFrom_eq_self h

end SqlDialects.Text
