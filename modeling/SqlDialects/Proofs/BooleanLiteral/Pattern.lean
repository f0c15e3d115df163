/-
What is edited where booleans are compared: the literal behind the operator.

- `finds_comparison`: what the pattern finds, by its shape.
- `interchangeable_apply`: no reader notices the rule.
- `telltale_apply`: the rule leaves what is quoted alone exactly if it finds nothing there.
- `advances_apply`: it leaves the text alone exactly if it finds nothing in it.
-/
import SqlDialects.Proofs.Reading.Order
import SqlDialects.Rule.BooleanLiteral

namespace SqlDialects.BooleanLiteral

open Text Fragment Cursor

/-- the digit that stands for a literal in some case -/
inductive Literal : (literal : Fragment) → (digit : Char) → Prop
  | isTrue {literal : Fragment} : Spells trueWord literal → Literal literal '1'
  | isFalse {literal : Fragment} : Spells falseWord literal → Literal literal '0'

/-- a comparison up to its literal: a word, an operator, and blanks around the operator -/
inductive Left : Fragment → Prop
  | mk {operand lead operator trail : Fragment} : operand ≠ [] → (∀ c ∈ operand, isWord c = true) → Blank lead →
      operator = ['='] ∨ operator = ['<', '>'] → Blank trail → Left (operand ++ lead ++ operator ++ trail)

/-- a comparison with a literal that is not the beginning of something longer -/
inductive Comparison : Option Char → Match → Option Char → Prop
  | mk {before next : Option Char} {left literal : Fragment} {digit : Char} : Left left → Literal literal digit →
      (∀ c, next = some c → isBlank c = true) → Comparison before ⟨left ++ literal, left ++ [digit]⟩ next

/-! ## Literals -/

theorem isWord_trueWord : ∀ k ∈ trueWord, isWord k = true := List.all_eq_true.1 (by decide)

theorem isWord_falseWord : ∀ k ∈ falseWord, isWord k = true := List.all_eq_true.1 (by decide)

theorem Literal.isWord {literal : Fragment} {digit : Char} (h : Literal literal digit) :
    ∀ c ∈ literal, isWord c = true := by
  cases h with
  | isTrue h => exact h.isWord isWord_trueWord
  | isFalse h => exact h.isWord isWord_falseWord

theorem endsLiteral_iff {rest : Fragment} : endsLiteral rest = true ↔ ∀ c, rest.head? = some c → isBlank c = true := by
  cases rest with
  | nil => simp [endsLiteral]
  | cons c rest => simp [endsLiteral]

theorem isLiteral_iff {word text : Fragment} : isLiteral word text = true ↔
    ∃ literal rest, Spells word literal ∧ text = literal ++ rest ∧ ∀ c, rest.head? = some c → isBlank c = true := by
  unfold isLiteral
  cases h : afterKeyword word text with
  | none =>
    refine ⟨?_, ?_⟩
    · intro hf; cases hf
    · intro hread
      obtain ⟨literal, rest, hw, rfl, -⟩ := hread
      rw [afterKeyword_eq_some_iff.2 ⟨literal, hw, rfl⟩] at h; cases h
  | some rest =>
    obtain ⟨literal, hw, rfl⟩ := afterKeyword_eq_some_iff.1 h
    rw [endsLiteral_iff]
    refine ⟨?_, ?_⟩
    · intro hrest; exact ⟨literal, rest, hw, rfl, hrest⟩
    · intro h
      obtain ⟨literal', rest', hw', heq, hrest⟩ := h
      have := List.append_inj heq (hw.length_eq.trans hw'.length_eq.symm)
      rw [this.2]; exact hrest

/-- the literals differ in their first letter, so no text begins with both -/
theorem not_spells_both {a b rest rest' : Fragment} (ha : Spells trueWord a) (hb : Spells falseWord b) :
    a ++ rest ≠ b ++ rest' := by
  intro h
  cases ha with
  | cons h1 _ =>
    cases hb with
    | cons h2 _ =>
      obtain ⟨rfl, -⟩ := List.cons.inj h
      simp only [sameLetter, Bool.or_eq_true, Bool.and_eq_true, beq_iff_eq] at h1 h2
      rcases h1 with ((h1 | ⟨h1, -⟩) | ⟨h1, -⟩) | ⟨h1, -⟩
      · rcases h2 with ((h2 | ⟨h2, -⟩) | ⟨h2, -⟩) | ⟨h2, -⟩
        · rw [h1] at h2; exact absurd h2 (by decide)
        all_goals exact absurd h2 (by decide)
      all_goals exact absurd h1 (by decide)

theorem literal?_eq_some_iff {text : Fragment} {length : Nat} {digit : Char} : literal? text = some (length, digit) ↔
    ∃ literal rest, Literal literal digit ∧ literal.length = length ∧ text = literal ++ rest ∧
      ∀ c, rest.head? = some c → isBlank c = true := by
  unfold literal?
  by_cases ht : isLiteral trueWord text = true
  · obtain ⟨literal, rest, hw, htext, hrest⟩ := isLiteral_iff.1 ht
    rw [if_pos ht]
    refine ⟨?_, ?_⟩
    · intro h
      cases h
      exact ⟨literal, rest, .isTrue hw, hw.length_eq, htext, hrest⟩
    · intro h
      obtain ⟨literal', rest', hl, rfl, htext', -⟩ := h
      cases hl with
      | isTrue hw' => rw [hw'.length_eq]
      | isFalse hw' => exact absurd (htext.symm.trans htext') (not_spells_both hw hw')
  · rw [if_neg ht]
    by_cases hf : isLiteral falseWord text = true
    · obtain ⟨literal, rest, hw, htext, hrest⟩ := isLiteral_iff.1 hf
      rw [if_pos hf]
      refine ⟨?_, ?_⟩
      · intro h
        cases h
        exact ⟨literal, rest, .isFalse hw, hw.length_eq, htext, hrest⟩
      · intro h
        obtain ⟨literal', rest', hl, rfl, htext', hrest'⟩ := h
        cases hl with
        | isTrue hw' => exact absurd (isLiteral_iff.2 ⟨_, _, hw', htext', hrest'⟩) ht
        | isFalse hw' => rw [hw'.length_eq]
    · rw [if_neg hf]
      refine ⟨?_, ?_⟩
      · intro h; cases h
      · intro h
        obtain ⟨literal', rest', hl, rfl, htext', hrest'⟩ := h
        cases hl with
        | isTrue hw' => exact absurd (isLiteral_iff.2 ⟨_, _, hw', htext', hrest'⟩) ht
        | isFalse hw' => exact absurd (isLiteral_iff.2 ⟨_, _, hw', htext', hrest'⟩) hf

/-! ## Comparisons -/

theorem operator?_eq_some_iff {text operator : Fragment} :
    operator? text = some operator ↔ (operator = ['='] ∨ operator = ['<', '>']) ∧ operator <+: text := by
  refine ⟨?_, ?_⟩
  · intro h
    unfold operator? at h
    split at h
    · cases h; exact ⟨Or.inl rfl, _, rfl⟩
    · cases h; exact ⟨Or.inr rfl, _, rfl⟩
    · cases h
  · intro h
    obtain ⟨rfl | rfl, rest, rfl⟩ := h
    · rfl
    · rfl

theorem head_operator {operator : Fragment} (h : operator = ['='] ∨ operator = ['<', '>']) (rest : Fragment) :
    ∀ c, (operator ++ rest).head? = some c → isWord c = false ∧ isBlank c = false := by
  rcases h with rfl | rfl
  all_goals intro c hc; cases hc; decide

theorem left_of_left? {text left : Fragment} (h : left? text = some left) :
    Left left ∧ ∃ rest, text = left ++ rest ∧ ∀ c, rest.head? = some c → isBlank c = false := by
  simp only [left?] at h
  split at h
  · cases h
  · rename_i hoperand
    split at h
    · cases h
    · rename_i operator hoperator
      cases h
      -- each run is as long as it can be, so the text is peeled from the left, one run at a time
      obtain ⟨body, htext, hword, -⟩ := takeWhile_eq_iff.1 (rfl : text.takeWhile isWord = _)
      generalize text.takeWhile isWord = operand at *
      subst htext
      rw [← List.drop_drop, ← List.drop_drop, List.drop_left] at *
      obtain ⟨body', htext', hblank, -⟩ := takeWhile_eq_iff.1 (rfl : body.takeWhile isBlank = _)
      generalize body.takeWhile isBlank = lead at *
      subst htext'
      rw [List.drop_left] at *
      obtain ⟨hop, tail, rfl⟩ := operator?_eq_some_iff.1 hoperator
      rw [List.drop_left]
      obtain ⟨after, htail, hblank', hnext⟩ := takeWhile_eq_iff.1 (rfl : tail.takeWhile isBlank = _)
      refine ⟨.mk hoperand hword hblank hop hblank', after, ?_, hnext⟩
      conv => lhs; rw [htail]
      simp

theorem Left.left?_eq {left rest : Fragment} (h : Left left) (hnext : ∀ c, rest.head? = some c → isBlank c = false) :
    left? (left ++ rest) = some left := by
  obtain ⟨hoperand, hword, hblank, hop, hblank'⟩ := h
  rename_i operand lead operator trail
  have hstop : ∀ c, (lead ++ (operator ++ (trail ++ rest))).head? = some c → isWord c = false := by
    intro c hc
    cases lead with
    | nil => exact (head_operator hop _ c hc).1
    | cons d lead =>
      simp only [List.cons_append, List.head?_cons, Option.some.injEq] at hc
      rw [← hc]; exact isWord_of_isBlank (hblank d List.mem_cons_self)
  have hrun : (operand ++ (lead ++ (operator ++ (trail ++ rest)))).takeWhile isWord = operand :=
    takeWhile_eq_iff.2 ⟨_, rfl, hword, hstop⟩
  have hrun' : (lead ++ (operator ++ (trail ++ rest))).takeWhile isBlank = lead :=
    takeWhile_eq_iff.2 ⟨_, rfl, hblank, fun c hc => (head_operator hop _ c hc).2⟩
  have hoperator : operator? (operator ++ (trail ++ rest)) = some operator :=
    operator?_eq_some_iff.2 ⟨hop, List.prefix_append _ _⟩
  have hrun'' : (trail ++ rest).takeWhile isBlank = trail := takeWhile_eq_iff.2 ⟨rest, rfl, hblank', hnext⟩
  simp only [left?, List.append_assoc, ← List.drop_drop, hrun, List.drop_left, hrun', hoperator, hrun'',
    if_neg hoperand]

/-- what is read up to a literal: a word, an operator and all the blanks around it -/
theorem left?_eq_some_iff {text left : Fragment} : left? text = some left ↔
    Left left ∧ ∃ rest, text = left ++ rest ∧ ∀ c, rest.head? = some c → isBlank c = false := by
  refine ⟨left_of_left?, ?_⟩
  intro h
  obtain ⟨hleft, rest, rfl, hnext⟩ := h
  exact hleft.left?_eq hnext

theorem take_comparison (left literal rest : Fragment) :
    (left ++ (literal ++ rest)).take (left.length + literal.length) = left ++ literal := by
  rw [← List.append_assoc]; exact List.take_left' List.length_append

theorem shape_of_comparison {before : Option Char} {text : Fragment} {found : Match}
    (h : comparison before text = some found) :
    ∃ rest, text = found.matched ++ rest ∧ Comparison before found rest.head? := by
  simp only [comparison] at h
  split at h
  · cases h
  · rename_i left hleft
    split at h
    · cases h
    · rename_i length digit hliteral
      obtain ⟨hshape, tail, rfl, -⟩ := left?_eq_some_iff.1 hleft
      rw [List.drop_left] at hliteral
      obtain ⟨literal, rest, hl, rfl, rfl, hnext⟩ := literal?_eq_some_iff.1 hliteral
      rw [take_comparison] at h
      cases h
      exact ⟨rest, by simp, .mk hshape hl hnext⟩

theorem Literal.ne_nil {literal : Fragment} {digit : Char} (h : Literal literal digit) : literal ≠ [] := by
  rintro rfl
  cases h with
  | isTrue hw => cases hw
  | isFalse hw => cases hw

theorem Comparison.find {before : Option Char} {rest : Fragment} {found : Match}
    (h : Comparison before found rest.head?) : comparison before (found.matched ++ rest) = some found := by
  obtain ⟨hleft, hl, hnext⟩ := h
  rename_i left literal digit
  have hread : left? (left ++ (literal ++ rest)) = some left :=
    hleft.left?_eq (head_of_isWord hl.ne_nil hl.isWord rest)
  have hliteral : literal? (literal ++ rest) = some (literal.length, digit) :=
    literal?_eq_some_iff.2 ⟨literal, rest, hl, rfl, rfl, hnext⟩
  simp only [comparison, List.append_assoc, hread, List.drop_left, hliteral, take_comparison]

theorem finds_comparison : Pattern.Finds comparison Comparison := by
  refine fun before text found => ⟨shape_of_comparison, ?_⟩
  intro h
  obtain ⟨rest, rfl, h⟩ := h
  exact h.find

theorem flat_operator {operator : Fragment} (h : operator = ['='] ∨ operator = ['<', '>']) : Flat operator := by
  rcases h with rfl | rfl
  all_goals decide

theorem Left.flat {left : Fragment} (h : Left left) : Flat left := by
  obtain ⟨hoperand, hword, hblank, hop, hblank'⟩ := h
  exact flat_append.2 ⟨flat_append.2 ⟨flat_append.2 ⟨flat_of_isWord hword, flat_of_isBlank hblank⟩,
    flat_operator hop⟩, flat_of_isBlank hblank'⟩

theorem Left.ne_nil {left : Fragment} (h : Left left) : left ≠ [] := by
  obtain ⟨hoperand, _, _, _, _⟩ := h
  simp [hoperand]

theorem Literal.flat_digit {literal : Fragment} {digit : Char} (h : Literal literal digit) : Flat [digit] := by
  cases h with
  | isTrue _ => decide
  | isFalse _ => decide

theorem Comparison.gentle {before next : Option Char} {found : Match} (h : Comparison before found next) :
    found.Gentle := by
  obtain ⟨hleft, hl, hnext⟩ := h
  have hmatched := flat_append.2 ⟨hleft.flat, flat_of_isWord hl.isWord⟩
  have hreplacement := flat_append.2 ⟨hleft.flat, hl.flat_digit⟩
  exact
    { matched_plain := hmatched.plain
      replacement_plain := hreplacement.plain
      matched_ne_nil := by simp [hleft.ne_nil]
      replacement_ne_nil := by simp
      parens_eq := hmatched.parens_eq_nil.trans hreplacement.parens_eq_nil.symm }

theorem gentle_comparison : comparison.Gentle := finds_comparison.gentle fun _ _ _ h => h.gentle

/-- **No reader notices that literals became digits.** -/
theorem interchangeable_apply (needs : Capabilities) (sql : Fragment) {s : Cursor} (hs : s.quoting.Proper) :
    s.Interchangeable sql (apply needs sql) := by
  unfold apply
  split
  · exact gentle_comparison.interchangeable_replaceAll sql hs
  · exact .refl s sql

theorem Literal.traces_lt {literal : Fragment} {digit : Char} (h : Literal literal digit) :
    traces literal < traces [digit] := by
  cases h with
  | isTrue hw => rw [traces_of_spells hw (by decide)]; decide
  | isFalse hw => rw [traces_of_spells hw (by decide)]; decide

theorem telling_comparison : comparison.Telling := by
  intro before text found hfound
  obtain ⟨rest, -, hshape⟩ := (finds_comparison before text found).1 hfound
  obtain ⟨hleft, hl, hnext⟩ := hshape
  have hlt := hl.traces_lt
  rw [traces_append, traces_append]; omega

/-- the rule leaves what is quoted alone exactly if no comparison with a literal is quoted -/
theorem telltale_apply (needs : Capabilities) (sql : Fragment) :
    Telltale (needs.integerBooleans = true → NoMatch comparison none (quotedText sql))
      (quotedText sql) (quotedText (apply needs sql)) := by
  unfold apply
  cases h : needs.integerBooleans with
  | false => exact .refl (by intro hf; cases hf) _
  | true =>
    have hedit := gentle_comparison.telltale telling_comparison none sql .outside trivial
    exact hedit.congr ⟨fun hno _ => hno, fun hall => hall rfl⟩

theorem advances_apply (needs : Capabilities) (sql : Fragment) :
    Advances (needs.integerBooleans = true → NoMatch comparison none sql) sql (apply needs sql) := by
  unfold apply
  cases h : needs.integerBooleans with
  | false => exact .refl (by intro hf; cases hf) _
  | true => exact (gentle_comparison.advances telling_comparison sql).congr ⟨fun h _ => h, fun h => h rfl⟩

end SqlDialects.BooleanLiteral
