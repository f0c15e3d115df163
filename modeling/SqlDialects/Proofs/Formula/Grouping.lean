/-
Whether a joined formula still groups its operands as it did. A call keeps its arguments apart by its commas and its
parentheses; the operator that takes its place does so only for arguments that bind at least as tightly.

- `Formula.lexemes_translated`: the lexemes of a formula whose calls were joined for `sqlite`.
- `Formula.denotes_translated`: they denote one tree; it is the tree of the formula exactly if no parenthesis is missing.
- `Formula.eval_flat`: calls within calls may be told apart or not, if the operator is associative.
-/
import SqlDialects.Dialect.Builtin
import SqlDialects.Proofs.Formula.Joining

namespace SqlDialects

open Text FieldConcat

/-! ## Lexemes of text -/

/-- a text in front of which a name ends -/
def NameEnds (text : Fragment) : Prop := ∀ c, text.head? = some c → isNameChar c = false

variable {rest : Fragment}

theorem isNameChar_of_isBlank {c : Char} (h : isBlank c = true) : isNameChar c = false := by
  rw [isNameChar, isWord_of_isBlank h, Bool.false_or, beq_eq_false_iff_ne]
  exact ne_of_isBlank h (by decide)

theorem nameEnds_cons {c : Char} (h : isNameChar c = false) (rest : Fragment) : NameEnds (c :: rest) := by
  intro d hd
  rw [← Option.some.inj hd]; exact h

theorem lexemesFrom_sign {c : Char} (hc : isNameChar c = false) (hbar : c ≠ '|') (rest : Fragment) :
    lexemesFrom (.word []) (c :: rest) = signLexemes c ++ lexemesFrom (.word []) rest := by
  simp [lexemesFrom, hc, hbar, Pending.lexemes]

theorem lexemesFrom_gap (gap : Gap) (rest : Fragment) :
    lexemesFrom (.word []) (gap.text ++ rest) = lexemesFrom (.word []) rest := by
  obtain ⟨text, hb⟩ := gap
  induction text with
  | nil => rfl
  | cons c text ih =>
    have hc : isBlank c = true := hb c List.mem_cons_self
    have hbar : c ≠ '|' := ne_of_isBlank hc (by decide)
    rw [List.cons_append, lexemesFrom_sign (isNameChar_of_isBlank hc) hbar, signLexemes, if_pos hc, List.nil_append,
      ih fun d hd => hb d (List.mem_cons_of_mem c hd)]

theorem lexemesFrom_word {front text : Fragment} (h : ∀ c ∈ text, isNameChar c = true) (rest : Fragment) :
    lexemesFrom (.word front) (text ++ rest) = lexemesFrom (.word (front ++ text)) rest := by
  induction text generalizing front with
  | nil => rw [List.nil_append, List.append_nil]
  | cons c text ih =>
    rw [List.cons_append, lexemesFrom, if_pos (h c List.mem_cons_self),
      ih fun d hd => h d (List.mem_cons_of_mem c hd), List.append_assoc, List.singleton_append]

theorem lexemesFrom_name {text : Fragment} (hne : text ≠ []) (h : ∀ c ∈ text, isNameChar c = true)
    (hr : NameEnds rest) : lexemesFrom (.word []) (text ++ rest) = .ofWord text :: lexemesFrom (.word []) rest := by
  rw [lexemesFrom_word h, List.nil_append]
  cases rest with
  | nil => simp [lexemesFrom, Pending.lexemes, hne]
  | cons c rest =>
    have hc : isNameChar c = false := hr c rfl
    simp only [lexemesFrom, Pending.lexemes, hc, Bool.false_eq_true, if_false, if_neg hne, if_pos, List.nil_append]
    split
    · rfl
    · rfl

theorem Symbol.nameEnds (symbol : Symbol) (rest : Fragment) : NameEnds (symbol.text ++ rest) := by
  intro c hc
  rcases symbol.head_cases hc with hb | rfl | rfl | rfl
  · exact isNameChar_of_isBlank hb
  all_goals decide

theorem lexemesFrom_symbol (symbol : Symbol) (rest : Fragment) :
    lexemesFrom (.word []) (symbol.text ++ rest) = .operator symbol.operator :: lexemesFrom (.word []) rest := by
  have hspelling : lexemesFrom (.word []) (symbol.spelling ++ (symbol.trail.text ++ rest)) =
      .operator symbol.operator :: lexemesFrom (.word []) (symbol.trail.text ++ rest) := by
    rcases symbol.cases_spelling with hsign | hword
    · obtain ⟨c, hspelling, hc, hlexeme⟩ := hsign
      have hnot : isNameChar c = false ∧ c ≠ '|' := by rcases hc with rfl | rfl | rfl <;> decide
      rw [hspelling, List.singleton_append, lexemesFrom_sign hnot.1 hnot.2, hlexeme, List.singleton_append]
    · obtain ⟨hne, hchars, hlexeme, -, htrail⟩ := hword
      rw [← hlexeme]
      have hends : NameEnds (symbol.trail.text ++ rest) :=
        fun c hc => isNameChar_of_isBlank (symbol.trail.isBlank_head htrail hc)
      exact lexemesFrom_name hne (fun c hc => by rw [isNameChar, hchars c hc]; rfl) hends
  rw [Symbol.text, List.append_assoc, List.append_assoc, lexemesFrom_gap, hspelling, lexemesFrom_gap]

/-- the joiner is read as the operator -/
theorem lexemesFrom_joiner (rest : Fragment) :
    lexemesFrom (.word []) (joiner "||" ++ rest) = .operator .concat :: lexemesFrom (.word []) rest := by
  have hspace : isNameChar ' ' = false := by decide
  have hbar : isNameChar '|' = false := by decide
  have hblank : signLexemes ' ' = [] := by decide
  have htext : joiner "||" ++ rest = ' ' :: '|' :: '|' :: ' ' :: rest := rfl
  rw [htext, lexemesFrom_sign hspace (by decide), hblank]
  simp [lexemesFrom, hspace, hbar, hblank, Pending.lexemes]

theorem lexemesFrom_enclose {text : Fragment} {row : List Lexeme}
    (h : ∀ {rest : Fragment}, NameEnds rest → lexemesFrom (.word []) (text ++ rest) = row ++ lexemesFrom (.word []) rest)
    (enclosed : Bool) (hr : NameEnds rest) : lexemesFrom (.word []) (enclose enclosed text ++ rest) =
      encloseRow enclosed row ++ lexemesFrom (.word []) rest := by
  unfold enclose encloseRow
  split
  · have hopen : signLexemes '(' = [.opening] := by decide
    have hclose : signLexemes ')' = [.closing] := by decide
    rw [List.append_assoc, List.cons_append, lexemesFrom_sign (by decide) (by decide), hopen, List.singleton_append,
      List.singleton_append, h (nameEnds_cons (by decide) rest), lexemesFrom_sign (by decide) (by decide), hclose]
    simp
  · exact h hr

mutual

/-- a joined formula is cut into the lexemes of its row, whatever stands behind it -/
theorem Formula.lexemes_joined : (formula : Formula) → {rest : Fragment} → NameEnds rest →
    lexemesFrom (.word []) (formula.joined (joiner "||") ++ rest) = formula.row ++ lexemesFrom (.word []) rest
  | .name name, _, hr => by
    have hchars : ∀ c ∈ name.text, isNameChar c = true := by
      intro c hc
      rcases name.chars c hc with h | rfl
      · rw [isNameChar, h]; rfl
      · decide
    rw [Formula.joined, Formula.row, lexemesFrom_name name.nonempty hchars hr, name.not_keyword, List.singleton_append]
  | .binary left symbol right, rest, hr => by
    rw [Formula.joined, Formula.row, List.append_assoc, List.append_assoc,
      lexemesFrom_enclose left.lexemes_joined _ (symbol.nameEnds _), lexemesFrom_symbol,
      lexemesFrom_enclose right.lexemes_joined _ hr, List.append_assoc, List.cons_append]
  | .concat _ operands, _, hr => by
    rw [Formula.joined, Formula.row, operands.lexemes_joined hr]

theorem Operands.lexemes_joined : (operands : Operands) → {rest : Fragment} → NameEnds rest →
    lexemesFrom (.word []) (operands.joined (joiner "||") ++ rest) = operands.row ++ lexemesFrom (.word []) rest
  | .last _ value _, _, hr => by rw [Operands.joined, Operands.row, value.lexemes_joined hr]
  | .next _ value _ others, rest, hr => by
    have hjoiner : NameEnds (joiner "||" ++ (others.joined (joiner "||") ++ rest)) := nameEnds_cons (by decide) _
    rw [Operands.joined, Operands.row, List.append_assoc, List.append_assoc, value.lexemes_joined hjoiner,
      lexemesFrom_joiner, others.lexemes_joined hr, List.append_assoc, List.cons_append]

end

/-! ## Grouping -/

namespace Formula

variable (formula : Formula)

/-- what the rule makes of the formula for `sqlite` -/
def translated : Fragment := FieldConcat.apply Dialect.sqlite.capabilities formula.text

theorem lexemes_translated : lexemes formula.translated = formula.row := by
  have hjoined : formula.translated = formula.joined (joiner "||") :=
    formula.apply_joined Dialect.sqlite.capabilities "||"
  have hends : NameEnds [] := by intro c hc; cases hc
  have hlexemes := formula.lexemes_joined hends
  rw [hjoined, lexemes, ← List.append_nil (formula.joined (joiner "||")), hlexemes]
  exact List.append_nil formula.row

/-- **What a joined formula denotes.** Its text is read as one tree. That is the tree of the formula, with each call as
its arguments and the operator between them, exactly if no operand is left that needs parentheses and has none. Where
the arguments of a call within a call count as arguments of the outer one, the same holds of the formula so written. -/
theorem denotes_translated :
    (∃ tree, Denotes formula.translated tree ∧ ∀ tree', Denotes formula.translated tree' → tree' = tree) ∧
    (Denotes formula.translated formula.tree ↔ formula.missing = 0) ∧
    (Denotes formula.translated formula.flat.tree ↔ formula.flat.missing = 0) := by
  have hflat := formula.flat.written
  rw [formula.row_flat] at hflat
  unfold Denotes
  rw [formula.lexemes_translated]
  refine ⟨?_, formula.written.reads_iff, hflat.reads_iff⟩
  obtain ⟨tree, htree⟩ := formula.written.exists_reads
  exact ⟨tree, htree, fun tree' h => h.unique htree⟩

end Formula

/-- a sum does not stay together when the call around it is joined -/
theorem grouping_lost_sum :
    ¬ Denotes (FieldConcat.apply Dialect.sqlite.capabilities "CONCAT(a + b, c)".toList)
      (.binary .concat (.binary .plus (.name ['a']) (.name ['b'])) (.name ['c'])) := by
  let none : Gap := ⟨[], by intro c hc; cases hc⟩
  let space : Gap := ⟨[' '], List.all_eq_true.1 (by decide)⟩
  let a : Name := ⟨⟨['a'], by decide, List.forall_mem_singleton.2 (Or.inl rfl)⟩, by decide⟩
  let b : Name := ⟨⟨['b'], by decide, List.forall_mem_singleton.2 (Or.inl rfl)⟩, by decide⟩
  let c : Name := ⟨⟨['c'], by decide, List.forall_mem_singleton.2 (Or.inl rfl)⟩, by decide⟩
  let plus : Symbol := ⟨.plus, space, ['+'], space, .plus, by decide⟩
  let function : ConcatName := ⟨⟨"CONCAT".toList, by decide, List.all_eq_true.1 (by decide)⟩, by decide⟩
  let formula : Formula :=
    .concat function (.next none (.binary (.name a) plus (.name b)) none (.last space (.name c) none))
  have hmissing : formula.missing = 1 := by decide
  have hdenotes := formula.denotes_translated.2.1
  rw [hmissing] at hdenotes
  exact fun h => absurd (hdenotes.1 h) (by decide)

/-! ## Associative operators -/

/-- the value of a tree, if the operators compute as given -/
def Tree.eval {α : Type} (value : Fragment → α) (compute : Operator → α → α → α) : Tree → α
  | .name text => value text
  | .binary operator left right => compute operator (left.eval value compute) (right.eval value compute)

/-- it makes no difference which of two joins is computed first -/
def JoinsAssociatively {α : Type} (compute : Operator → α → α → α) : Prop :=
  ∀ x y z, compute .concat (compute .concat x y) z = compute .concat x (compute .concat y z)

variable {α : Type} (value : Fragment → α) {compute : Operator → α → α → α}

theorem Operands.eval_treeBehind (h : JoinsAssociatively compute) (left : Tree) (operands : Operands) :
    (operands.treeBehind left).eval value compute =
      compute .concat (left.eval value compute) (operands.tree.eval value compute) := by
  induction operands generalizing left with
  | last lead operand trail => rw [Operands.treeBehind, Operands.tree, Tree.eval]
  | next lead operand trail others ih => rw [Operands.treeBehind, Operands.tree, ih, ih, Tree.eval, h]

theorem Operands.eval_append (h : JoinsAssociatively compute) (operands more : Operands) :
    (operands.append more).tree.eval value compute =
      compute .concat (operands.tree.eval value compute) (more.tree.eval value compute) := by
  induction operands with
  | last lead operand trail => rw [Operands.append, Operands.tree, Operands.tree, more.eval_treeBehind value h]
  | next lead operand trail others ih =>
    rw [Operands.append, Operands.tree, Operands.tree, Operands.eval_treeBehind value h,
      Operands.eval_treeBehind value h, ih, h]

mutual

/-- **Calls within calls** may be told apart or not: if the operator is associative, both trees have one value. -/
theorem Formula.eval_flat (h : JoinsAssociatively compute) : (formula : Formula) →
    formula.flat.tree.eval value compute = formula.tree.eval value compute
  | .name name => by rw [Formula.flat]
  | .binary left symbol right => by
    rw [Formula.flat, Formula.tree, Formula.tree, Tree.eval, Tree.eval, left.eval_flat h, right.eval_flat h]
  | .concat name operands => by rw [Formula.flat, Formula.tree, Formula.tree, operands.eval_flat h]

theorem Formula.eval_spliced (h : JoinsAssociatively compute) (lead trail : Gap) : (formula : Formula) →
    (formula.spliced lead trail).tree.eval value compute = formula.tree.eval value compute
  | .name name => by rw [Formula.spliced, Operands.tree]
  | .binary left symbol right => by
    rw [Formula.spliced, Operands.tree, Formula.tree, Formula.tree, Tree.eval, Tree.eval, left.eval_flat h,
      right.eval_flat h]
  | .concat name operands => by rw [Formula.spliced, Formula.tree, operands.eval_flat h]

theorem Operands.eval_flat (h : JoinsAssociatively compute) : (operands : Operands) →
    operands.flat.tree.eval value compute = operands.tree.eval value compute
  | .last lead operand trail => by rw [Operands.flat, Operands.tree, operand.eval_spliced h]
  | .next lead operand trail others => by
    rw [Operands.flat, Operands.tree, Operands.eval_append value h, Operands.eval_treeBehind value h,
      operand.eval_spliced h, others.eval_flat h]

end

end SqlDialects
