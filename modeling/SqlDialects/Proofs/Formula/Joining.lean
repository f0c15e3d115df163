/-
What the rule makes of a formula, and how that is read.

- `Formula.standsAlone`: a formula can be an argument of a call.
- `Formula.joinCalls_text`, `Formula.apply_joined`: the text of a formula is joined as the formula is.
- `Formula.lexemes_joined`: the lexemes of a joined formula.
-/
import SqlDialects.Proofs.Expression.Joining
import SqlDialects.Proofs.Formula.Grammar

namespace SqlDialects

open Text Fragment Cursor FieldConcat

/-! ## Operators -/

theorem Gap.isBlank_head (gap : Gap) (hne : gap.text ≠ []) {rest : Fragment} {c : Char}
    (h : (gap.text ++ rest).head? = some c) : isBlank c = true := by
  rw [List.head?_append, List.head?_eq_some_head hne, Option.some_or, Option.some.injEq] at h
  rw [← h]
  exact gap.blank _ (List.head_mem hne)

theorem isWord_of_toLower {word keyword : Fragment} (hk : 'i' ∉ keyword ∧ 'k' ∉ keyword ∧ 's' ∉ keyword)
    (hword : ∀ k ∈ keyword, isWord k = true) (h : word.map Char.toLower = keyword) : ∀ c ∈ word, isWord c = true :=
  ((spells_iff_toLower hk).2 h).isWord hword

namespace Symbol

variable (symbol : Symbol)

/-- an operator is a sign, or a word with blanks on both sides -/
theorem cases_spelling :
    (∃ c, symbol.spelling = [c] ∧ (c = '=' ∨ c = '+' ∨ c = '*') ∧ signLexemes c = [.operator symbol.operator]) ∨
      (symbol.spelling ≠ [] ∧ (∀ c ∈ symbol.spelling, isWord c = true) ∧
        Lexeme.ofWord symbol.spelling = .operator symbol.operator ∧ symbol.lead.text ≠ [] ∧ symbol.trail.text ≠ []) := by
  obtain ⟨operator, lead, spelling, trail, spelled, apart⟩ := symbol
  cases spelled with
  | equals => exact Or.inl ⟨'=', rfl, Or.inl rfl, rfl⟩
  | plus => exact Or.inl ⟨'+', rfl, Or.inr (Or.inl rfl), rfl⟩
  | times => exact Or.inl ⟨'*', rfl, Or.inr (Or.inr rfl), rfl⟩
  | and h =>
    refine Or.inr ⟨?_, isWord_of_toLower (by decide) (List.all_eq_true.1 (by decide)) h,
      by rw [Lexeme.ofWord, if_pos h], apart (Or.inl rfl)⟩
    rintro rfl; cases h
  | or h =>
    refine Or.inr ⟨?_, isWord_of_toLower (by decide) (List.all_eq_true.1 (by decide)) h, ?_, apart (Or.inr rfl)⟩
    · rintro rfl; cases h
    · rw [Lexeme.ofWord, if_neg (by rw [h]; decide), if_pos h]

theorem flat_spelling : Flat symbol.spelling := by
  rcases symbol.cases_spelling with hsign | hword
  · obtain ⟨c, hspelling, hc, -⟩ := hsign
    rw [hspelling]
    rcases hc with rfl | rfl | rfl
    all_goals decide
  · exact flat_of_isWord hword.2.1

theorem flat_text : Flat symbol.text :=
  flat_append.2 ⟨flat_append.2 ⟨flat_of_isBlank symbol.lead.blank, symbol.flat_spelling⟩,
    flat_of_isBlank symbol.trail.blank⟩

theorem comma_not_mem : ',' ∉ symbol.text := by
  have hspelling : ',' ∉ symbol.spelling := by
    rcases symbol.cases_spelling with hsign | hword
    · obtain ⟨c, hspelling, hc, -⟩ := hsign
      rw [hspelling]
      rcases hc with rfl | rfl | rfl
      all_goals decide
    · exact not_mem_of_isWord hword.2.1 (by decide)
  simp [Symbol.text, symbol.lead.comma_not_mem, hspelling, symbol.trail.comma_not_mem]

/-- in front of an operator is a blank, or the sign -/
theorem head_cases {rest : Fragment} {c : Char} (h : (symbol.text ++ rest).head? = some c) :
    isBlank c = true ∨ c = '=' ∨ c = '+' ∨ c = '*' := by
  rw [Symbol.text, List.append_assoc, List.append_assoc] at h
  by_cases hlead : symbol.lead.text = []
  · rcases symbol.cases_spelling with hsign | hword
    · obtain ⟨d, hspelling, hd, -⟩ := hsign
      rw [hlead, hspelling, List.nil_append, List.singleton_append, List.head?_cons, Option.some.injEq] at h
      exact Or.inr (h ▸ hd)
    · exact absurd hlead hword.2.2.2.1
  · exact Or.inl (symbol.lead.isBlank_head hlead h)

theorem parted (rest : Fragment) : Parted (symbol.text ++ rest) := by
  intro c hc
  rcases symbol.head_cases hc with hb | rfl | rfl | rfl
  · exact ⟨isWord_of_isBlank hb, ne_of_isBlank hb (by decide)⟩
  all_goals decide

end Symbol

/-! ## Layout -/

theorem neutral_enclose {text : Fragment} (h : ∀ {s : Cursor}, s.quoting = .outside → s.Neutral text) (enclosed : Bool)
    {s : Cursor} (hs : s.quoting = .outside) : s.Neutral (enclose enclosed text) := by
  unfold enclose
  split
  · exact Neutral.parenthesized hs (h hs)
  · exact h hs

theorem unseparated_enclose {text : Fragment} (hn : ∀ {s : Cursor}, s.quoting = .outside → s.Neutral text)
    (hu : ∀ {s : Cursor}, s.quoting = .outside → 0 ≤ s.depth → s.Unseparated text) (enclosed : Bool) {s : Cursor}
    (hs : s.quoting = .outside) (hd : 0 ≤ s.depth) : s.Unseparated (enclose enclosed text) := by
  unfold enclose
  split
  · exact unseparated_parenthesized hs hd (hn hs)
  · exact hu hs hd

theorem trimmed_enclose {text : Fragment} (h : Trimmed text) (enclosed : Bool) : Trimmed (enclose enclosed text) := by
  unfold enclose
  split
  · refine ⟨fun c hc => ?_, fun c hc => ?_⟩
    · rw [← Option.some.inj hc]; decide
    · rw [List.getLast?_concat, Option.some.injEq] at hc
      rw [← hc]; decide
  · exact h

theorem enclose_ne_nil {text : Fragment} (h : text ≠ []) (enclosed : Bool) : enclose enclosed text ≠ [] := by
  unfold enclose
  split
  · exact List.cons_ne_nil _ _
  · exact h

theorem trimmed_append {a b : Fragment} (ha : Trimmed a) (hb : Trimmed b) (hne : a ≠ []) (hne' : b ≠ [])
    (middle : Fragment) : Trimmed (a ++ middle ++ b) := by
  refine ⟨fun c hc => ha.1 c ?_, fun c hc => hb.2 c ?_⟩
  · obtain ⟨d, a, rfl⟩ := List.exists_cons_of_ne_nil hne
    exact hc
  · rw [List.getLast?_append, List.getLast?_eq_some_getLast hne'] at hc
    rw [List.getLast?_eq_some_getLast hne']; exact hc

mutual

theorem Formula.neutral_text : (formula : Formula) → {s : Cursor} → s.quoting = .outside → s.Neutral formula.text
  | .name name, _, hs => neutral_of_flat hs name.isFlat
  | .binary left symbol right, _, hs => by
    rw [Formula.text]
    exact ((neutral_enclose left.neutral_text _ hs).append (neutral_of_flat hs symbol.flat_text)).append
      (neutral_enclose right.neutral_text _ hs)
  | .concat name operands, _, hs => by
    rw [Formula.text]
    exact name.neutral_call hs (operands.neutral_text hs)

theorem Operands.neutral_text : (operands : Operands) → {s : Cursor} → s.quoting = .outside → s.Neutral operands.text
  | .last lead value trail, _, hs => by
    rw [Operands.text]
    exact ((lead.neutral_text hs).append (value.neutral_text hs)).append (trail.neutral_text hs)
  | .next lead value trail others, _, hs => by
    rw [Operands.text]
    exact (((lead.neutral_text hs).append (value.neutral_text hs)).append (trail.neutral_text hs)).append
      ((others.neutral_text hs).cons (step_outside_of_flat hs (by decide)))

end

theorem Formula.unseparated_text : (formula : Formula) → {s : Cursor} → s.quoting = .outside → 0 ≤ s.depth →
    s.Unseparated formula.text
  | .name token, _, _, _ => unseparated_of_not_mem token.comma_not_mem
  | .binary left symbol right, s, hs, hd => by
    have hleft := neutral_enclose left.neutral_text (left.encloses symbol.level) hs
    rw [Formula.text]
    refine unseparated_append (unseparated_append
      (unseparated_enclose left.neutral_text left.unseparated_text _ hs hd) ?_) ?_
    · exact unseparated_of_not_mem symbol.comma_not_mem
    · rw [(hleft.append (neutral_of_flat hs symbol.flat_text)).back]
      exact unseparated_enclose right.neutral_text right.unseparated_text _ hs hd
  | .concat function operands, _, hs, hd => by
    rw [Formula.text]
    exact function.unseparated_call hs hd (operands.neutral_text hs)

theorem Formula.text_ne_nil (formula : Formula) : formula.text ≠ [] := by
  cases formula with
  | name name => exact name.nonempty
  | binary left symbol right =>
    have hspelling : symbol.spelling ≠ [] := by
      rcases symbol.cases_spelling with hsign | hword
      · obtain ⟨c, hspelling, -⟩ := hsign
        rw [hspelling]; exact List.cons_ne_nil c []
      · exact hword.1
    simp [Formula.text, Symbol.text, hspelling]
  | concat name operands => simp [Formula.text]

theorem Formula.trimmed_text (formula : Formula) : Trimmed formula.text := by
  induction formula with
  | name token => exact trimmed_of_not_blank token.not_blank
  | binary left symbol right ihleft ihright =>
    rw [Formula.text]
    exact trimmed_append (trimmed_enclose ihleft _) (trimmed_enclose ihright _) (enclose_ne_nil left.text_ne_nil _)
      (enclose_ne_nil right.text_ne_nil _) symbol.text
  | concat function operands =>
    rw [Formula.text]
    exact function.trimmed_call

theorem Formula.standsAlone (formula : Formula) : StandsAlone formula.text :=
  ⟨formula.neutral_text rfl, formula.unseparated_text rfl (Int.le_refl 0), formula.trimmed_text, formula.text_ne_nil⟩

theorem Operands.arguments_text (operands : Operands) : arguments operands.text = operands.texts := by
  induction operands with
  | last lead value trail => rw [Operands.text, value.standsAlone.arguments_last, Operands.texts]
  | next lead value trail others ih => rw [Operands.text, value.standsAlone.arguments_next, ih, Operands.texts]

theorem Operands.not_blank (operands : Operands) : operands.text.all isBlank = false := by
  cases operands with
  | last lead value trail => exact value.standsAlone.not_blank lead.text trail.text
  | next lead value trail others =>
    have hnot := value.standsAlone.not_blank lead.text (trail.text ++ ',' :: others.text)
    rwa [← List.append_assoc] at hnot

/-! ## Joining -/

variable {joiner rest : Fragment}

theorem joinCalls_symbol (symbol : Symbol) (rest : Fragment) :
    joinCalls joiner .outside none (symbol.text ++ rest) = symbol.text ++ joinCalls joiner .outside none rest := by
  have hspelling : joinCalls joiner .outside none (symbol.spelling ++ (symbol.trail.text ++ rest)) =
      symbol.spelling ++ joinCalls joiner .outside none (symbol.trail.text ++ rest) := by
    rcases symbol.cases_spelling with hsign | hword
    · obtain ⟨c, hc, hcases, -⟩ := hsign
      rw [hc, List.singleton_append, List.singleton_append]
      rcases hcases with rfl | rfl | rfl
      all_goals rw [joinCalls_sign (by decide), joinCalls_before (by decide)]; rfl
    · obtain ⟨-, -, -, -, htrail⟩ := hword
      have hboundary : Boundary (symbol.trail.text ++ rest) :=
        fun c hc => Or.inl (symbol.trail.isBlank_head htrail hc)
      exact joinCalls_token symbol.flat_spelling hboundary.parted none
  rw [Symbol.text, List.append_assoc, List.append_assoc, joinCalls_gap, hspelling, joinCalls_gap]
  simp only [List.append_assoc]

/-- what is within parentheses is joined as it is by itself -/
theorem joinCalls_enclose {text out : Fragment} (h : ∀ {rest : Fragment}, Parted rest →
    joinCalls joiner .outside none (text ++ rest) = out ++ joinCalls joiner .outside none rest) (enclosed : Bool)
    (hr : Parted rest) : joinCalls joiner .outside none (enclose enclosed text ++ rest) =
      enclose enclosed out ++ joinCalls joiner .outside none rest := by
  unfold enclose
  split
  · have hopen : Quoting.outside.step '(' = .outside := by decide
    have hclose : Parted (')' :: rest) := (boundary_cons (Or.inr (Or.inr rfl)) rest).parted
    rw [List.append_assoc, List.cons_append, joinCalls_sign (by decide), hopen, joinCalls_before (by decide),
      List.singleton_append, h hclose, joinCalls_close hr]
    simp
  · exact h hr

theorem parted_nil : Parted [] := by intro c hc; cases hc

mutual

/-- the text of a formula is joined as the formula is, whatever stands behind it -/
theorem Formula.joinCalls_text : (formula : Formula) → {rest : Fragment} → Parted rest →
    joinCalls joiner .outside none (formula.text ++ rest) =
      formula.joined joiner ++ joinCalls joiner .outside none rest
  | .name name, _, hr => by
    rw [Formula.text, Formula.joined]
    exact joinCalls_token name.isFlat hr none
  | .binary left symbol right, rest, hr => by
    rw [Formula.text, Formula.joined, List.append_assoc, List.append_assoc,
      joinCalls_enclose left.joinCalls_text _ (symbol.parted _), joinCalls_symbol,
      joinCalls_enclose right.joinCalls_text _ hr]
    simp only [List.append_assoc]
  | .concat name operands, rest, hr => by
    have hin := wellFormed_of_neutral rfl (operands.neutral_text (s := .start) rfl)
    obtain ⟨hcall, hclose⟩ := isConcat_closedCall name.is_concat hin rest
    rw [Formula.text, show name.text ++ '(' :: operands.text ++ [')'] ++ rest =
      name.text ++ '(' :: operands.text ++ ')' :: rest by simp, joinCalls_call hcall hclose operands.not_blank,
      operands.arguments_text, operands.joinCalls_texts, joinCalls_parted hr, Formula.joined]

/-- the arguments, each read by itself -/
theorem Operands.joinCalls_texts : (operands : Operands) →
    joiner.intercalate (operands.texts.map (joinCalls joiner .outside none)) = operands.joined joiner
  | .last _ value _ => by
    rw [Operands.texts, Operands.joined, List.map_singleton, List.intercalate_singleton,
      joinCalls_of_append (value.joinCalls_text parted_nil)]
  | .next _ value _ others => by
    have hothers := others.joinCalls_texts
    rw [Operands.texts, Operands.joined, List.map_cons, joinCalls_of_append (value.joinCalls_text parted_nil), ← hothers]
    cases others
    all_goals rw [Operands.texts, List.map_cons, List.intercalate_cons_cons]

end

/-- **The rule joins the calls of a formula.** -/
theorem Formula.apply_joined (needs : Capabilities) (operator : String) (formula : Formula) :
    FieldConcat.apply { needs with concatOperator := some operator } formula.text =
      formula.joined (' ' :: operator.toList ++ [' ']) :=
  joinCalls_of_append (formula.joinCalls_text parted_nil)

end SqlDialects
