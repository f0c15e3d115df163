/-
Joining the calls of an expression.

Each kind of text is passed in the same way, whatever follows it: blanks, names, quotations and parentheses are kept,
and a call is found nowhere but at the name of a `CONCAT` call.

- `joinCalls_parted`: behind an expression the reader may as well start afresh.
- `Expression.joinCalls_text`, `Arguments.joinCalls_text`: the text of an expression is joined as the expression is.
- `apply_text`: the rule translates every expression, at any depth and in any layout.
-/
import SqlDialects.Dialect.Builtin
import SqlDialects.Proofs.Expression.Layout
import SqlDialects.Proofs.FieldConcat.Induction

namespace SqlDialects

open Text Fragment

namespace FieldConcat

variable {joiner rest : Fragment}

/-! ## Where no call begins -/

theorem callAt?_inside (mark : Char) (escaped : Bool) (before : Option Char) (text : Fragment) :
    callAt? (.inside mark escaped) before text = none := by simp [callAt?]

/-- what may stand behind an expression: nothing, a blank, a comma or a closing parenthesis -/
def Boundary (text : Fragment) : Prop := ∀ c, text.head? = some c → isBlank c = true ∨ c = ',' ∨ c = ')'

/-- a text in front of which a word ends, and no call opens -/
def Parted (text : Fragment) : Prop := ∀ c, text.head? = some c → isWord c = false ∧ c ≠ '('

theorem Boundary.parted (h : Boundary rest) : Parted rest := by
  intro c hc
  rcases h c hc with hb | rfl | rfl
  · exact ⟨isWord_of_isBlank hb, ne_of_isBlank hb (by decide)⟩
  · decide
  · decide

theorem joinCalls_parted (h : Parted rest) (quoting : Quoting) (before : Option Char) :
    joinCalls joiner quoting before rest = joinCalls joiner quoting none rest := by
  cases rest with
  | nil => rw [joinCalls_nil, joinCalls_nil]
  | cons c tail =>
    have hc := not_letter_of_not_word (h c rfl).1
    rw [joinCalls_sign hc, joinCalls_sign hc]

/-! ## Texts that are kept -/

theorem joinCalls_gap (gap : Gap) (rest : Fragment) :
    joinCalls joiner .outside none (gap.text ++ rest) = gap.text ++ joinCalls joiner .outside none rest := by
  obtain ⟨text, hb⟩ := gap
  induction text with
  | nil => rfl
  | cons c text ih =>
    have hc : isBlank c = true := hb c List.mem_cons_self
    have hword := isWord_of_isBlank hc
    rw [List.cons_append, joinCalls_sign (not_letter_of_not_word hword),
      joinCalls_before (by simp [startsWord, hword]),
      Quoting.step_outside_of_plain ((flat_of_isBlank hb).plain c List.mem_cons_self),
      ih fun d hd => hb d (List.mem_cons_of_mem c hd), List.cons_append]

/-- up to where words are parted there is no parenthesis that a name could stand before -/
theorem afterKeyword_token {text : Fragment} (ht : '(' ∉ text) (hr : Parted rest) :
    afterKeyword opening (text ++ rest) = none := by
  cases h : afterKeyword opening (text ++ rest) with
  | none => rfl
  | some body =>
    obtain ⟨found, hf, heq⟩ := afterKeyword_eq_some_iff.1 h
    rw [opening_eq] at hf
    obtain ⟨word, hw, rfl⟩ := spells_call.1 hf
    have hword := hw.isWord isWord_callName
    -- the parenthesis lies behind the text, so what follows begins with a word character or with it
    rw [List.append_assoc, List.singleton_append, List.append_eq_append_iff] at heq
    rcases heq with ⟨tail, hword', hrest⟩ | ⟨tail, htext, hparen⟩
    · cases tail with
      | nil => exact absurd rfl (hr '(' (by rw [hrest]; rfl)).2
      | cons c tail =>
        have hc := (hr c (by rw [hrest]; rfl)).1
        rw [hword c (by rw [hword']; simp)] at hc; cases hc
    · cases tail with
      | nil =>
        rw [List.nil_append] at hparen
        exact absurd rfl (hr '(' (by rw [← hparen]; rfl)).2
      | cons c tail =>
        simp only [List.cons_append, List.cons.injEq] at hparen
        exact absurd (by rw [htext, ← hparen.1]; simp) ht

theorem joinCalls_token {text : Fragment} (ht : Flat text) (hr : Parted rest) (before : Option Char) :
    joinCalls joiner .outside before (text ++ rest) = text ++ joinCalls joiner .outside none rest := by
  induction text generalizing before with
  | nil => exact joinCalls_parted hr _ _
  | cons c text ih =>
    have hparen : '(' ∉ c :: text := ht.open_not_mem
    have hcall : callAt? .outside before (c :: (text ++ rest)) = none := by
      rw [callAt?, ← List.cons_append, afterKeyword_token hparen hr, ite_self]
    rw [List.cons_append, joinCalls_skip hcall, Quoting.step_outside_of_plain (ht.plain c List.mem_cons_self),
      ih fun d hd => ht d (List.mem_cons_of_mem c hd), List.cons_append]

theorem joinCalls_quotation (quotation : Quotation) (hr : Parted rest) :
    joinCalls joiner .outside none (quotation.text ++ rest) = quotation.text ++ joinCalls joiner .outside none rest := by
  obtain ⟨mark, body, hm, hbody⟩ := quotation
  have henclosed (before : Option Char) : joinCalls joiner (.inside mark false) before (body ++ mark :: rest) =
      body ++ mark :: joinCalls joiner .outside none rest := by
    have hne : mark ≠ '\\' := by rintro rfl; cases hm
    induction hbody generalizing before with
    | nil =>
      rw [List.nil_append, List.nil_append, joinCalls_skip (callAt?_inside mark false before _), Quoting.step,
        if_neg hne, if_pos rfl, joinCalls_parted hr]
    | plain h1 h2 _ ih =>
      rw [List.cons_append, joinCalls_skip (callAt?_inside mark false before _), Quoting.step, if_neg h2, if_neg h1, ih]
      rfl
    | escaped c _ ih =>
      rw [List.cons_append, List.cons_append, joinCalls_skip (callAt?_inside mark false before _), Quoting.step,
        if_pos rfl, joinCalls_skip (callAt?_inside mark true _ _), Quoting.step, ih]
      rfl
  have hletter : sameLetter 'c' mark = false := by
    rcases Quotation.mark_cases ⟨mark, body, hm, hbody⟩ with h | h | h <;> simp only at h <;> rw [h] <;> decide
  have hopen : Quoting.outside.step mark = .inside mark false := by simp [Quoting.step, hm]
  simp only [Quotation.text, List.cons_append, List.append_assoc, List.nil_append]
  rw [joinCalls_sign hletter, hopen, henclosed]

/-! ## Calls -/

theorem spells_iff_isConcat (name : FunctionName) : Spells callName name.text ↔ name.isConcat = true := by
  rw [spells_iff_toLower (by decide), FunctionName.isConcat, beq_iff_eq]; rfl

/-- behind a word character the name of a call cannot begin -/
theorem joinCalls_word {text : Fragment} (ht : ∀ c ∈ text, isWord c = true) {before : Option Char}
    (hb : startsWord before = false) (rest : Fragment) :
    joinCalls joiner .outside before (text ++ '(' :: rest) = text ++ '(' :: joinCalls joiner .outside none rest := by
  have hparen : Quoting.outside.step '(' = .outside := by decide
  induction text generalizing before with
  | nil => rw [List.nil_append, List.nil_append, joinCalls_sign (by decide), hparen, joinCalls_before (by decide)]
  | cons c text ih =>
    have hc := ht c List.mem_cons_self
    rw [List.cons_append, joinCalls_skip (by simp [callAt?, hb]),
      Quoting.step_outside_of_plain ((flat_of_isWord ht).plain c List.mem_cons_self),
      ih (fun d hd => ht d (List.mem_cons_of_mem c hd)) (by simp [startsWord, hc]), List.cons_append]

theorem joinCalls_name {name : FunctionName} (h : name.isConcat = false) (rest : Fragment) :
    joinCalls joiner .outside none (name.text ++ '(' :: rest) =
      name.text ++ '(' :: joinCalls joiner .outside none rest := by
  have hcall : callAt? .outside none (name.text ++ '(' :: rest) = none := by
    cases hc : callAt? .outside none (name.text ++ '(' :: rest) with
    | none => rfl
    | some body =>
      obtain ⟨-, -, word, hw, heq⟩ := callAt?_eq_some_iff.1 hc
      obtain ⟨rfl, -⟩ := eq_of_append_sign (not_mem_of_isWord name.chars (by decide))
        (not_mem_of_isWord (hw.isWord isWord_callName) (by decide)) heq
      rw [(spells_iff_isConcat name).1 hw] at h; cases h
  obtain ⟨c, text, hname⟩ := List.exists_cons_of_ne_nil name.nonempty
  have hword : ∀ d ∈ c :: text, isWord d = true := by rw [← hname]; exact name.chars
  rw [hname, List.cons_append] at hcall ⊢
  rw [joinCalls_skip hcall, Quoting.step_outside_of_plain ((flat_of_isWord hword).plain c List.mem_cons_self),
    joinCalls_word (fun d hd => hword d (List.mem_cons_of_mem c hd)) (by simp [startsWord, hword c List.mem_cons_self]),
    List.cons_append]

theorem joinCalls_close (hr : Parted rest) :
    joinCalls joiner .outside none (')' :: rest) = ')' :: joinCalls joiner .outside none rest := by
  rw [joinCalls_sign (by decide), joinCalls_parted hr]; rfl

theorem boundary_cons {c : Char} (h : isBlank c = true ∨ c = ',' ∨ c = ')') (rest : Fragment) : Boundary (c :: rest) := by
  intro d hd
  simp only [List.head?_cons, Option.some.injEq] at hd
  rw [← hd]; exact h

theorem Boundary.gap (hr : Boundary rest) (gap : Gap) : Boundary (gap.text ++ rest) := by
  obtain ⟨text, hb⟩ := gap
  cases text with
  | nil => exact hr
  | cons c text => exact boundary_cons (Or.inl (hb c List.mem_cons_self)) _

theorem isConcat_closedCall {name : FunctionName} (h : name.isConcat = true) {inner : Fragment} (hin : inner.WellFormed)
    (rest : Fragment) : callAt? .outside none (name.text ++ '(' :: inner ++ ')' :: rest) = some (inner ++ ')' :: rest) ∧
      splitAtClose (inner ++ ')' :: rest) = some (inner, rest) := by
  refine ⟨callAt?_eq_some_iff.2 ⟨rfl, rfl, name.text, (spells_iff_isConcat name).2 h, by simp⟩, ?_⟩
  exact splitAtClose_eq_some_iff.2 ⟨rfl, hin⟩

theorem joinCalls_emptyCall (name : FunctionName) (gap : Gap) (hr : Parted rest) :
    joinCalls joiner .outside none ((Expression.emptyCall name gap).text ++ rest) =
      (Expression.emptyCall name gap).text ++ joinCalls joiner .outside none rest := by
  have htext : (Expression.emptyCall name gap).text ++ rest = name.text ++ '(' :: (gap.text ++ ')' :: rest) := by
    simp [Expression.text]
  cases h : name.isConcat with
  | false =>
    rw [htext, joinCalls_name h, joinCalls_gap, joinCalls_close hr]
    simp [Expression.text]
  | true =>
    have hin := wellFormed_of_neutral rfl (gap.neutral_text (s := .start) rfl)
    obtain ⟨hcall, hclose⟩ := isConcat_closedCall h hin rest
    obtain ⟨word, hc⟩ := closedCall_of_callAt? hcall hclose
    have hblank : gap.text.all isBlank = true := all_isBlank_iff.2 gap.blank
    rw [htext, show name.text ++ '(' :: (gap.text ++ ')' :: rest) = name.text ++ '(' :: gap.text ++ ')' :: rest by simp,
      joinCalls_empty hcall hclose hblank, joinCalls_parted hr]
    congr 1
    rw [show name.text ++ '(' :: gap.text ++ ')' :: rest = (name.text ++ '(' :: gap.text ++ [')']) ++ rest by simp]
    rw [Expression.text]
    apply List.take_left'
    have hlen := ((spells_iff_isConcat name).2 h).length_eq
    simp only [List.length_append, List.length_cons, List.length_nil, length_opening, hlen, callName]; omega

theorem boundary_nil : Boundary [] := by intro c hc; cases hc

/-- a text that is joined in the same way whatever stands behind it -/
theorem joinCalls_of_append {text out : Fragment}
    (h : joinCalls joiner .outside none (text ++ []) = out ++ joinCalls joiner .outside none []) :
    joinCalls joiner .outside none text = out := by
  rwa [joinCalls_nil, List.append_nil, List.append_nil] at h

end FieldConcat

/-! ## Expressions -/

open FieldConcat

variable {joiner rest : Fragment}

mutual

/-- the text of an expression is joined as the expression is, whatever stands behind it -/
theorem Expression.joinCalls_text : (e : Expression) → {rest : Fragment} → Boundary rest →
    joinCalls joiner .outside none (e.text ++ rest) = e.joined joiner ++ joinCalls joiner .outside none rest
  | .token token, _, hr => joinCalls_token token.isFlat hr.parted none
  | .quotation quotation, _, hr => joinCalls_quotation quotation hr.parted
  | .emptyCall name gap, _, hr => joinCalls_emptyCall name gap hr.parted
  | .call name arguments, rest, hr => by
    have htext : (Expression.call name arguments).text ++ rest =
        name.text ++ '(' :: arguments.text ++ ')' :: rest := by simp [Expression.text]
    cases h : name.isConcat with
    | false =>
      rw [htext, List.append_assoc, List.cons_append, joinCalls_name h,
        arguments.joinCalls_text (boundary_cons (Or.inr (Or.inr rfl)) rest), joinCalls_close hr.parted]
      simp [Expression.joined, h]
    | true =>
      have hin := wellFormed_of_neutral rfl (arguments.neutral_text (s := .start) rfl)
      obtain ⟨hcall, hclose⟩ := isConcat_closedCall h hin rest
      rw [htext, joinCalls_call hcall hclose arguments.not_blank, arguments.arguments_text, arguments.joinCalls_texts,
        joinCalls_parted hr.parted, Expression.joined, if_pos h]

/-- each value of an argument list, read by itself -/
theorem Arguments.joinCalls_texts : (a : Arguments) →
    a.texts.map (joinCalls joiner .outside none) = a.joinedValues joiner
  | .last _ value _ => by
    rw [Arguments.texts, Arguments.joinedValues, List.map_singleton,
      joinCalls_of_append (value.joinCalls_text boundary_nil)]
  | .next _ value _ others => by
    rw [Arguments.texts, Arguments.joinedValues, List.map_cons, others.joinCalls_texts,
      joinCalls_of_append (value.joinCalls_text boundary_nil)]

/-- an argument list that stays between its parentheses -/
theorem Arguments.joinCalls_text : (a : Arguments) → {rest : Fragment} → Boundary rest →
    joinCalls joiner .outside none (a.text ++ rest) = a.joinedText joiner ++ joinCalls joiner .outside none rest
  | .last lead value trail, rest, hr => by
    simp only [Arguments.text, Arguments.joinedText, List.append_assoc]
    rw [joinCalls_gap, value.joinCalls_text (hr.gap trail), joinCalls_gap]
  | .next lead value trail others, rest, hr => by
    have hcomma := boundary_cons (Or.inr (Or.inl rfl)) (others.text ++ rest)
    have hstep : Quoting.outside.step ',' = .outside := by decide
    simp only [Arguments.text, Arguments.joinedText, List.append_assoc, List.cons_append]
    rw [joinCalls_gap, value.joinCalls_text (hcomma.gap trail), joinCalls_gap, joinCalls_sign (by decide), hstep,
      joinCalls_before (by decide), others.joinCalls_text hr]

end

/-- **The rule translates every expression**: whatever its depth and its layout and whatever the operator, each `CONCAT`
call with arguments becomes its arguments with the operator between them, and all else stays as it is written. -/
theorem FieldConcat.apply_text (needs : Capabilities) (operator : String) (e : Expression) :
    FieldConcat.apply { needs with concatOperator := some operator } e.text =
      e.joined (' ' :: operator.toList ++ [' ']) :=
  joinCalls_of_append (e.joinCalls_text boundary_nil)

/-- a call within a call, a quoted comma behind an escaped mark, a longer name and a call without arguments -/
theorem FieldConcat.apply_text_nested :
    FieldConcat.apply Dialect.pgsql.capabilities
        "CONCAT( 'it\\'s, ' , concat(a.b,my_concat(c, d)) ,Concat( ) )".toList =
      "'it\\'s, ' || a.b || my_concat(c, d) || Concat( )".toList := by
  let none : Gap := ⟨[], by decide⟩
  let space : Gap := ⟨[' '], by decide⟩
  let c : Token := ⟨['c'], by decide, List.forall_mem_singleton.2 (Or.inl rfl)⟩
  let d : Token := ⟨['d'], by decide, List.forall_mem_singleton.2 (Or.inl rfl)⟩
  have hfield : ∀ c ∈ ['a', '.', 'b'], isWord c = true ∨ c = '.' :=
    List.forall_mem_cons.2 ⟨Or.inl rfl, List.forall_mem_cons.2 ⟨Or.inr rfl, List.forall_mem_singleton.2 (Or.inl rfl)⟩⟩
  let field : Token := ⟨['a', '.', 'b'], by decide, hfield⟩
  have hend : Enclosed '\'' "s, ".toList :=
    .plain (by decide) (by decide) (.plain (by decide) (by decide) (.plain (by decide) (by decide) .nil))
  have hbody : Enclosed '\'' "it\\'s, ".toList :=
    .plain (by decide) (by decide) (.plain (by decide) (by decide) (.escaped '\'' hend))
  let literal : Quotation := ⟨'\'', "it\\'s, ".toList, by decide, hbody⟩
  let longer : Expression := .call ⟨"my_concat".toList, by decide, List.all_eq_true.1 (by decide)⟩
    (.next none (.token c) none (.last space (.token d) none))
  let inner : Expression := .call ⟨"concat".toList, by decide, List.all_eq_true.1 (by decide)⟩
    (.next none (.token field) none (.last none longer none))
  let empty : Expression := .emptyCall ⟨"Concat".toList, by decide, List.all_eq_true.1 (by decide)⟩ space
  let outer : Expression := .call ⟨"CONCAT".toList, by decide, List.all_eq_true.1 (by decide)⟩
    (.next space (.quotation literal) space (.next space inner space (.last none empty space)))
  exact FieldConcat.apply_text Dialect.pgsql.capabilities "||" outer

end SqlDialects
