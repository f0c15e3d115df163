/-
What the layout of an expression guarantees to a reader.

- `Expression.neutral_text`, `Arguments.neutral_text`: expressions and argument lists are neutral outside quotations.
- `Expression.unseparated_text`: no comma of an expression separates arguments of a call around it.
- `Expression.trimmed_text`: an expression neither begins nor ends with a blank.
- `StandsAlone`: what a text is like that can be an argument of a call.
- `Arguments.arguments_text`: the text of an argument list is cut into the texts of its values.
-/
import SqlDialects.Proofs.Call.Arguments
import SqlDialects.Proofs.Expression.Grammar
import SqlDialects.Proofs.Text.Keyword

namespace SqlDialects

open Text Fragment Cursor

/-! ## Quotations -/

section Enclosed

variable {mark : Char} (d : Int)

theorem step_enclosed {c : Char} (h1 : c ≠ mark) (h2 : c ≠ '\\') :
    (⟨.inside mark false, d⟩ : Cursor).step c = ⟨.inside mark false, d⟩ := by
  simp [Cursor.step, Quoting.step, h1, h2]

theorem step_backslash : (⟨.inside mark false, d⟩ : Cursor).step '\\' = ⟨.inside mark true, d⟩ := by
  simp [Cursor.step, Quoting.step]

theorem step_escaped (c : Char) : (⟨.inside mark true, d⟩ : Cursor).step c = ⟨.inside mark false, d⟩ := by
  simp [Cursor.step, Quoting.step]

/-- the depth stays as long as a quotation is open -/
theorem Enclosed.neutral {body : Fragment} (h : Enclosed mark body) :
    (⟨.inside mark false, d⟩ : Cursor).Neutral body := by
  induction h with
  | nil => exact neutral_nil _
  | plain h1 h2 _ ih => exact ih.cons (step_enclosed d h1 h2)
  | escaped c _ ih =>
    refine ⟨by rw [run_cons, run_cons, step_backslash, step_escaped, ih.back], ?_⟩
    rw [lowest_cons, lowest_cons, step_backslash, step_escaped, ih.floor]; simp

theorem not_separates_inside (escaped : Bool) (c : Char) : ¬ (⟨.inside mark escaped, d⟩ : Cursor).Separates c := by
  intro h
  obtain ⟨h, -⟩ := h
  cases h

theorem Enclosed.unseparated {body : Fragment} (h : Enclosed mark body) :
    (⟨.inside mark false, d⟩ : Cursor).Unseparated body := by
  induction h with
  | nil => trivial
  | plain h1 h2 _ ih => exact ⟨not_separates_inside d _ _, by rw [step_enclosed d h1 h2]; exact ih⟩
  | escaped c _ ih =>
    refine ⟨not_separates_inside d _ _, ?_⟩
    rw [step_backslash]
    exact ⟨not_separates_inside d _ _, by rw [step_escaped]; exact ih⟩

end Enclosed

namespace Quotation

variable (quotation : Quotation)

/-- a mark is no parenthesis, no comma, no blank and no letter -/
theorem mark_cases : quotation.mark = '\'' ∨ quotation.mark = '"' ∨ quotation.mark = '`' := by
  have := quotation.isMark
  simp only [Quoting.isMark, Bool.or_eq_true, beq_iff_eq] at this
  rcases this with (h | h) | h <;> simp [h]

theorem step_open (d : Int) :
    (⟨.outside, d⟩ : Cursor).step quotation.mark = ⟨.inside quotation.mark false, d⟩ := by
  rcases quotation.mark_cases with h | h | h <;> simp [Cursor.step, Quoting.step, Quoting.isMark, nesting, h]

theorem step_close (d : Int) :
    (⟨.inside quotation.mark false, d⟩ : Cursor).step quotation.mark = ⟨.outside, d⟩ := by
  rcases quotation.mark_cases with h | h | h <;> simp [Cursor.step, Quoting.step, h]

theorem neutral_text {s : Cursor} (hs : s.quoting = .outside) : s.Neutral quotation.text := by
  obtain ⟨q, d⟩ := s
  simp only at hs; subst hs
  have hin := quotation.enclosed.neutral d
  refine ⟨?_, ?_⟩
  · rw [text, List.cons_append, run_cons, step_open, run_append, hin.back, run_cons, step_close, run_nil]
  · rw [text, List.cons_append, lowest_cons, step_open, lowest_append, hin.back, hin.floor, lowest_cons, step_close,
      lowest_nil]
    simp

theorem unseparated_text {s : Cursor} (hs : s.quoting = .outside) : s.Unseparated quotation.text := by
  obtain ⟨q, d⟩ := s
  simp only at hs; subst hs
  have hcomma : quotation.mark ≠ ',' := by rcases quotation.mark_cases with h | h | h <;> simp [h]
  refine ⟨fun h => hcomma h.2.1, ?_⟩
  rw [step_open]
  refine unseparated_append (quotation.enclosed.unseparated d) ?_
  rw [(quotation.enclosed.neutral d).back]
  exact ⟨fun h => hcomma h.2.1, trivial⟩

theorem trimmed_text : Trimmed quotation.text := by
  have hblank : isBlank quotation.mark = false := by
    rcases quotation.mark_cases with h | h | h <;> rw [h] <;> decide
  refine ⟨fun c hc => ?_, fun c hc => ?_⟩
  · simp only [text, List.cons_append, List.head?_cons, Option.some.injEq] at hc
    rw [← hc]; exact hblank
  · rw [text, List.getLast?_concat, Option.some.injEq] at hc
    rw [← hc]; exact hblank

end Quotation

/-! ## Names and numbers -/

theorem Token.isFlat (token : Token) : Flat token.text := by
  intro c hc
  rcases token.chars c hc with h | rfl
  · exact isFlat_of_isWord h
  · decide

theorem trimmed_of_not_blank {text : Fragment} (h : ∀ c ∈ text, isBlank c = false) : Trimmed text :=
  ⟨fun c hc => h c (List.mem_of_mem_head? hc), fun c hc => h c (List.mem_of_getLast? hc)⟩

theorem isBlank_of_isWord {c : Char} (h : isWord c = true) : isBlank c = false := by
  cases hb : isBlank c with
  | false => rfl
  | true => rw [isWord_of_isBlank hb] at h; cases h

theorem Token.not_blank (token : Token) : ∀ c ∈ token.text, isBlank c = false := by
  intro c hc
  rcases token.chars c hc with h | rfl
  · exact isBlank_of_isWord h
  · decide

theorem Token.comma_not_mem (token : Token) : ',' ∉ token.text := by
  intro h
  rcases token.chars _ h with h | h
  · exact absurd h (by decide)
  · exact absurd h (by decide)

/-! ## Calls -/

/-- what is between parentheses is deeper than its surroundings, so no comma there separates -/
theorem unseparated_parenthesized {s : Cursor} (hs : s.quoting = .outside) (hd : 0 ≤ s.depth) {inner : Fragment}
    (h : (s.deeper 1).Neutral inner) : s.Unseparated ('(' :: inner ++ [')']) := by
  have hopen : s.step '(' = s.deeper 1 := by simp [Cursor.step, deeper, hs, Quoting.step, Quoting.isMark, nesting]
  refine ⟨fun hsep => absurd hsep.2.1 (by decide), ?_⟩
  rw [hopen]
  refine unseparated_append (unseparated_of_lowest_pos ?_) (unseparated_of_not_mem (by decide))
  rw [h.floor]; simp only [deeper]; omega

namespace FunctionName

variable (name : FunctionName) {inner : Fragment}

theorem comma_not_mem : ',' ∉ name.text := not_mem_of_isWord name.chars (by decide)

theorem neutral_call {s : Cursor} (hs : s.quoting = .outside) (h : (s.deeper 1).Neutral inner) :
    s.Neutral (name.text ++ '(' :: inner ++ [')']) := by
  rw [List.append_assoc]
  exact (neutral_of_flat hs (flat_of_isWord name.chars)).append (Neutral.parenthesized hs h)

theorem unseparated_call {s : Cursor} (hs : s.quoting = .outside) (hd : 0 ≤ s.depth) (h : (s.deeper 1).Neutral inner) :
    s.Unseparated (name.text ++ '(' :: inner ++ [')']) := by
  rw [List.append_assoc]
  refine unseparated_append (unseparated_of_not_mem name.comma_not_mem) ?_
  rw [(neutral_of_flat hs (flat_of_isWord name.chars)).back]
  exact unseparated_parenthesized hs hd h

theorem trimmed_call : Trimmed (name.text ++ '(' :: inner ++ [')']) := by
  refine ⟨fun c hc => ?_, fun c hc => ?_⟩
  · obtain ⟨d, rest, hname⟩ := List.exists_cons_of_ne_nil name.nonempty
    simp only [hname, List.cons_append, List.head?_cons, Option.some.injEq] at hc
    rw [← hc]; exact isBlank_of_isWord (name.chars d (by rw [hname]; exact List.mem_cons_self))
  · rw [List.getLast?_concat, Option.some.injEq] at hc
    rw [← hc]; decide

end FunctionName

/-! ## Expressions -/

theorem Gap.neutral_text (gap : Gap) {s : Cursor} (hs : s.quoting = .outside) : s.Neutral gap.text :=
  neutral_of_flat hs (flat_of_isBlank gap.blank)

mutual

theorem Expression.neutral_text : (e : Expression) → {s : Cursor} → s.quoting = .outside → s.Neutral e.text
  | .token token, _, hs => neutral_of_flat hs token.isFlat
  | .quotation quotation, _, hs => quotation.neutral_text hs
  | .emptyCall name gap, _, hs => name.neutral_call hs (gap.neutral_text hs)
  | .call name arguments, _, hs => name.neutral_call hs (arguments.neutral_text hs)

theorem Arguments.neutral_text : (a : Arguments) → {s : Cursor} → s.quoting = .outside → s.Neutral a.text
  | .last lead value trail, _, hs => ((lead.neutral_text hs).append (value.neutral_text hs)).append (trail.neutral_text hs)
  | .next lead value trail others, _, hs =>
    (((lead.neutral_text hs).append (value.neutral_text hs)).append (trail.neutral_text hs)).append
      ((others.neutral_text hs).cons (step_outside_of_flat hs (by decide)))

end

theorem Expression.unseparated_text (e : Expression) {s : Cursor} (hs : s.quoting = .outside) (hd : 0 ≤ s.depth) :
    s.Unseparated e.text := by
  cases e with
  | token token => exact unseparated_of_not_mem token.comma_not_mem
  | quotation quotation => exact quotation.unseparated_text hs
  | emptyCall name gap => exact name.unseparated_call hs hd (gap.neutral_text hs)
  | call name arguments => exact name.unseparated_call hs hd (arguments.neutral_text hs)

theorem Expression.trimmed_text (e : Expression) : Trimmed e.text := by
  cases e with
  | token token => exact trimmed_of_not_blank token.not_blank
  | quotation quotation => exact quotation.trimmed_text
  | emptyCall name gap => exact name.trimmed_call
  | call name arguments => exact name.trimmed_call

theorem Expression.text_ne_nil (e : Expression) : e.text ≠ [] := by
  cases e with
  | token token => exact token.nonempty
  | quotation quotation => simp [Expression.text, Quotation.text]
  | emptyCall name gap => simp [Expression.text]
  | call name arguments => simp [Expression.text]

/-! ## Argument lists -/

theorem Gap.comma_not_mem (gap : Gap) : ',' ∉ gap.text := by
  intro h
  exact absurd (gap.blank _ h) (by decide)

theorem padded_gaps (text : Fragment) (lead trail : Gap) : Padded text (lead.text ++ text ++ trail.text) :=
  ⟨lead.text, trail.text, lead.blank, trail.blank, rfl⟩

/-- what a text is like that can be an argument of a call, whatever the blanks around it are -/
structure StandsAlone (text : Fragment) : Prop where
  neutral : start.Neutral text
  unseparated : start.Unseparated text
  trimmed : Trimmed text
  ne_nil : text ≠ []

namespace StandsAlone

variable {text : Fragment} (h : StandsAlone text) (lead trail : Gap)

include h

/-- with blanks around it, it is one piece of an argument list -/
theorem unseparated_padded : start.Unseparated (lead.text ++ text ++ trail.text) :=
  (padded_gaps text lead trail).unseparated_iff.2 h.unseparated

theorem arguments_last : arguments (lead.text ++ text ++ trail.text) = [text] := by
  rw [arguments, cutFrom_unseparated (h.unseparated_padded lead trail), List.map_singleton,
    (padded_gaps text lead trail).trim_eq h.trimmed]

theorem arguments_next (rest : Fragment) :
    arguments (lead.text ++ text ++ trail.text ++ ',' :: rest) = text :: arguments rest := by
  have hback : start.run (lead.text ++ text ++ trail.text) = start := ((padded_gaps text lead trail).neutral rfl h.neutral).back
  have hsep : (start.run (lead.text ++ text ++ trail.text)).Separates ',' := by
    rw [hback]; exact start_separates.1
  rw [arguments, cutFrom_comma (h.unseparated_padded lead trail) hsep, hback, start_separates.2, List.map_cons,
    (padded_gaps text lead trail).trim_eq h.trimmed, arguments]

/-- an argument list in which it stands is more than blanks -/
theorem not_blank (front back : Fragment) : (front ++ text ++ back).all isBlank = false := by
  obtain ⟨c, rest, hc⟩ := List.exists_cons_of_ne_nil h.ne_nil
  rw [List.all_eq_false]
  exact ⟨c, by simp [hc], by simp [h.trimmed.1 c (by rw [hc]; rfl)]⟩

end StandsAlone

theorem Expression.standsAlone (e : Expression) : StandsAlone e.text :=
  ⟨e.neutral_text rfl, e.unseparated_text rfl (Int.le_refl 0), e.trimmed_text, e.text_ne_nil⟩

theorem Arguments.arguments_text (a : Arguments) : arguments a.text = a.texts := by
  match a with
  | .last lead value trail => rw [Arguments.text, value.standsAlone.arguments_last, Arguments.texts]
  | .next lead value trail others =>
    rw [Arguments.text, value.standsAlone.arguments_next, others.arguments_text, Arguments.texts]

/-- an argument list is more than blanks -/
theorem Arguments.not_blank (a : Arguments) : a.text.all isBlank = false := by
  cases a with
  | last lead value trail => exact value.standsAlone.not_blank lead.text trail.text
  | next lead value trail others =>
    have hnot := value.standsAlone.not_blank lead.text (trail.text ++ ',' :: others.text)
    rwa [← List.append_assoc] at hnot

end SqlDialects
