/-
How text with operators is read: it is cut into lexemes, and these are grouped by how tightly the operators bind.

- `lexemes`: the words, operators and parentheses of a text; blanks keep them apart and mean nothing else.
- `Reads`: the tree that a row of lexemes denotes; operators of one level group to the left.
- `Reads.unique`, `Written.exists_reads`: it is one tree at most, and one at least if the row alternates as it should.
- `Written`: a row for a tree in which some parentheses are missing; `Written.reads_iff`: it denotes that tree exactly if
  none is missing.
-/
import Mathlib.Algebra.Ring.Int.Defs
import SqlDialects.Text.Blank
import SqlDialects.Text.Word

namespace SqlDialects

open Text

/-! ## Operators and trees -/

/-- the binary operators, from the one that binds least to the one that binds tightest -/
inductive Operator where
  | or
  | and
  | equals
  | plus
  | times
  | concat
deriving DecidableEq, Repr

def Operator.level : Operator → Nat
  | .or => 0
  | .and => 1
  | .equals => 2
  | .plus => 3
  | .times => 4
  | .concat => 5

/-- what an expression means: which operator takes which operands -/
inductive Tree where
  | name (text : List Char)
  | binary (operator : Operator) (left right : Tree)
deriving DecidableEq, Repr

/-- the parentheses that a tree needs around it at a place that is open to operators of that level and tighter ones -/
def Tree.needs (level : Nat) : Tree → Nat
  | .name _ => 0
  | .binary operator _ _ => if operator.level < level then 1 else 0

/-- the parentheses that a tree needs within -/
def Tree.parens : Tree → Nat
  | .name _ => 0
  | .binary operator left right =>
    left.parens + left.needs operator.level + (right.parens + right.needs (operator.level + 1))

theorem Tree.needs_zero (tree : Tree) : tree.needs 0 = 0 := by cases tree <;> simp [needs]

theorem Tree.needs_le_one (tree : Tree) (level : Nat) : tree.needs level ≤ 1 := by
  cases tree with
  | name text => exact Nat.zero_le 1
  | binary operator left right =>
    rw [needs]
    split
    · exact Nat.le_refl 1
    · exact Nat.zero_le 1

/-! ## Lexemes -/

inductive Lexeme where
  | word (text : List Char)
  | operator (operator : Operator)
  | opening
  | closing
  | other (c : Char)
deriving DecidableEq, Repr

/-- a name with its qualifiers is one lexeme -/
def isNameChar (c : Char) : Bool := isWord c || c == '.'

/-- keywords are read without regard to case -/
def Lexeme.ofWord (text : List Char) : Lexeme :=
  if text.map Char.toLower = ['a', 'n', 'd'] then .operator .and
  else if text.map Char.toLower = ['o', 'r'] then .operator .or
  else .word text

/-- the lexeme of a single sign; a blank is none -/
def signLexemes (c : Char) : List Lexeme :=
  if isBlank c then []
  else if c = '=' then [.operator .equals]
  else if c = '+' then [.operator .plus]
  else if c = '*' then [.operator .times]
  else if c = '(' then [.opening]
  else if c = ')' then [.closing]
  else [.other c]

/-- what was read of a lexeme that may go on: a word, or one of two bars -/
inductive Pending where
  | word (text : List Char)
  | bar

def Pending.lexemes : Pending → List Lexeme
  | .word text => if text = [] then [] else [.ofWord text]
  | .bar => [.other '|']

def lexemesFrom : Pending → List Char → List Lexeme
  | pending, [] => pending.lexemes
  | .word text, c :: rest =>
    if isNameChar c then lexemesFrom (.word (text ++ [c])) rest
    else if c = '|' then Pending.lexemes (.word text) ++ lexemesFrom .bar rest
    else Pending.lexemes (.word text) ++ signLexemes c ++ lexemesFrom (.word []) rest
  | .bar, c :: rest =>
    if c = '|' then .operator .concat :: lexemesFrom (.word []) rest
    else if isNameChar c then .other '|' :: lexemesFrom (.word [c]) rest
    else .other '|' :: signLexemes c ++ lexemesFrom (.word []) rest

/-- the lexemes of a text, from left to right -/
def lexemes (text : List Char) : List Lexeme := lexemesFrom (.word []) text

/-! ## Grouping -/

/-- what a row of lexemes denotes at a place that is open to operators of that level and tighter ones -/
inductive Reads : (level : Nat) → List Lexeme → Tree → Prop where
  | name {level : Nat} {text : List Char} : Reads level [.word text] (.name text)
  | enclosed {level : Nat} {row : List Lexeme} {tree : Tree} :
      Reads 0 row tree → Reads level (.opening :: row ++ [.closing]) tree
  | binary {level : Nat} {operator : Operator} {a b : List Lexeme} {left right : Tree} : level ≤ operator.level →
      Reads operator.level a left → Reads (operator.level + 1) b right →
      Reads level (a ++ .operator operator :: b) (.binary operator left right)

/-- the text is read as that tree -/
def Denotes (text : List Char) (tree : Tree) : Prop := Reads 0 (lexemes text) tree

/-! ## Depth -/

variable {level level' : Nat} {row a b : List Lexeme} {tree tree' : Tree}

def Lexeme.nesting : Lexeme → Int
  | .opening => 1
  | .closing => -1
  | _ => 0

@[simp] theorem nesting_operator (operator : Operator) : (Lexeme.operator operator).nesting = 0 := rfl

@[simp] theorem nesting_opening : Lexeme.opening.nesting = 1 := rfl

/-- the parentheses that a row leaves open -/
def depth (row : List Lexeme) : Int := (row.map Lexeme.nesting).sum

theorem depth_cons (x : Lexeme) (row : List Lexeme) : depth (x :: row) = x.nesting + depth row := by
  rw [depth, depth, List.map_cons, List.sum_cons]

theorem depth_append (a b : List Lexeme) : depth (a ++ b) = depth a + depth b := by
  rw [depth, depth, depth, List.map_append, List.sum_append]

/-- every parenthesis of the row is closed, and none before it was opened -/
structure Balanced (row : List Lexeme) : Prop where
  depth_eq : depth row = 0
  front_nonneg : ∀ a b, row = a ++ b → 0 ≤ depth a

theorem Balanced.append (ha : Balanced a) (hb : Balanced b) : Balanced (a ++ b) := by
  refine ⟨by rw [depth_append, ha.depth_eq, hb.depth_eq]; rfl, fun front back h => ?_⟩
  rcases List.append_eq_append_iff.1 h with hlong | hshort
  · obtain ⟨more, rfl, hmore⟩ := hlong
    have := hb.front_nonneg more back hmore
    rw [depth_append, ha.depth_eq]; omega
  · obtain ⟨more, rfl, -⟩ := hshort
    exact ha.front_nonneg front more rfl

theorem balanced_of_nesting {x : Lexeme} (h : x.nesting = 0) : Balanced [x] := by
  refine ⟨by rw [depth_cons, h]; rfl, fun front back heq => ?_⟩
  cases front with
  | nil => exact Int.le_refl 0
  | cons y front =>
    obtain ⟨hy, hnil⟩ := List.cons.inj heq
    rw [(List.append_eq_nil_iff.1 hnil.symm).1, depth_cons, ← hy, h]; exact Int.le_refl 0

theorem Balanced.enclosed (h : Balanced row) : Balanced (.opening :: row ++ [.closing]) := by
  have hdepth := h.depth_eq
  refine ⟨by rw [List.cons_append, depth_cons, depth_append, hdepth]; rfl, fun front back heq => ?_⟩
  cases front with
  | nil => exact Int.le_refl 0
  | cons x front =>
    obtain ⟨hx, hrest⟩ := List.cons.inj heq
    rw [depth_cons, ← hx]
    rcases List.append_eq_append_iff.1 hrest with hlong | hshort
    · obtain ⟨more, rfl, hmore⟩ := hlong
      rw [depth_append, hdepth]
      cases more with
      | nil => decide
      | cons y more =>
        obtain ⟨hy, hnil⟩ := List.cons.inj hmore
        rw [(List.append_eq_nil_iff.1 hnil.symm).1, ← hy]; decide
    · obtain ⟨more, hmore, -⟩ := hshort
      have := h.front_nonneg front more hmore
      rw [nesting_opening]; omega

theorem Reads.balanced (h : Reads level row tree) : Balanced row := by
  induction h with
  | name => exact balanced_of_nesting rfl
  | enclosed _ ih => exact ih.enclosed
  | binary _ _ _ ihl ihr => exact ihl.append ((balanced_of_nesting rfl).append ihr)

/-! ## One tree at most -/

/-- two ways to cut a row at one of its lexemes -/
theorem cut_cases {α : Type} {x y : α} {a b a' b' : List α} (h : a ++ x :: b = a' ++ y :: b') :
    (a = a' ∧ x = y ∧ b = b') ∨ (∃ m, a' = a ++ x :: m ∧ b = m ++ y :: b') ∨
      ∃ m, a = a' ++ y :: m ∧ b' = m ++ x :: b := by
  rcases List.append_eq_append_iff.1 h with hlong | hlong
  · obtain ⟨m, ha, hm⟩ := hlong
    cases m with
    | nil =>
      obtain ⟨hx, hb⟩ := List.cons.inj hm
      exact Or.inl ⟨by rw [ha, List.append_nil], hx, hb⟩
    | cons z m =>
      obtain ⟨rfl, hb⟩ := List.cons.inj hm
      exact Or.inr (Or.inl ⟨m, ha, hb⟩)
  · obtain ⟨m, ha, hm⟩ := hlong
    cases m with
    | nil =>
      obtain ⟨hy, hb⟩ := List.cons.inj hm
      exact Or.inl ⟨by rw [ha, List.append_nil], hy.symm, hb.symm⟩
    | cons z m =>
      obtain ⟨rfl, hb⟩ := List.cons.inj hm
      exact Or.inr (Or.inr ⟨m, ha, hb⟩)

variable {operator : Operator}

theorem word_ne_operator {text : List Char} : [Lexeme.word text] ≠ a ++ .operator operator :: b := by
  intro h
  cases a with
  | nil => cases (List.cons.inj h).1
  | cons x a => exact absurd (List.cons.inj h).2 (by simp)

/-- within parentheses no operator is exposed -/
theorem depth_ne_zero_of_enclosed (hrow : Balanced row)
    (h : .opening :: row ++ [.closing] = a ++ .operator operator :: b) : depth a ≠ 0 := by
  cases a with
  | nil => cases (List.cons.inj h).1
  | cons x a =>
    obtain ⟨hx, hrest⟩ := List.cons.inj h
    rcases cut_cases hrest with hlast | hbehind | hwithin
    · cases hlast.2.1
    · obtain ⟨m, -, hnil⟩ := hbehind
      cases m <;> cases hnil
    · obtain ⟨m, hm, -⟩ := hwithin
      have := hrow.front_nonneg a _ hm
      rw [depth_cons, ← hx, nesting_opening]; omega

/-- an operator outside all parentheses binds as tightly as the place asks for -/
theorem Reads.exposed (h : Reads level row tree) (hrow : row = a ++ .operator operator :: b) (hdepth : depth a = 0) :
    level ≤ operator.level := by
  induction h generalizing a b with
  | name => exact absurd hrow word_ne_operator
  | enclosed hinner _ => exact absurd hdepth (depth_ne_zero_of_enclosed hinner.balanced hrow)
  | binary hlevel hl _ ihl ihr =>
    rcases cut_cases hrow with hhere | hright | hleft
    · obtain ⟨-, hop, -⟩ := hhere
      cases hop
      exact hlevel
    · obtain ⟨m, rfl, hm⟩ := hright
      have hm' : depth m = 0 := by
        rw [depth_append, hl.balanced.depth_eq, depth_cons, nesting_operator] at hdepth; omega
      have := ihr hm hm'
      omega
    · obtain ⟨m, hm, -⟩ := hleft
      exact Nat.le_trans hlevel (ihl hm hdepth)

/-- at a place where an operator is exposed, nothing is a name or enclosed -/
theorem Reads.binary_of_exposed (h : Reads level row tree) (hrow : row = a ++ .operator operator :: b)
    (hdepth : depth a = 0) : ∃ operator' left right a' b', tree = .binary operator' left right ∧
      row = a' ++ .operator operator' :: b' ∧ Reads operator'.level a' left ∧ Reads (operator'.level + 1) b' right := by
  cases h with
  | name => exact absurd hrow word_ne_operator
  | enclosed hinner => exact absurd hdepth (depth_ne_zero_of_enclosed hinner.balanced hrow)
  | binary _ hl hr => exact ⟨_, _, _, _, _, rfl, rfl, hl, hr⟩

/-- of two operators that a row is read by, none is on the left of the other -/
theorem not_left_of {operator' : Operator} {a' b' : List Lexeme} {left left' right : Tree}
    (hl : Reads operator.level a left) (hr : Reads (operator.level + 1) b right) (hl' : Reads operator'.level a' left')
    {m : List Lexeme} (ha : a' = a ++ .operator operator :: m) (hb : b = m ++ .operator operator' :: b') : False := by
  have hm : depth m = 0 := by
    have hdepth := hl'.balanced.depth_eq
    rw [ha, depth_append, hl.balanced.depth_eq, depth_cons, nesting_operator] at hdepth; omega
  have h1 := hl'.exposed ha hl.balanced.depth_eq
  have h2 := hr.exposed hb hm
  omega

/-- **A row of lexemes denotes one tree at most.** -/
theorem Reads.unique (h : Reads level row tree) (h' : Reads level' row tree') : tree = tree' := by
  induction h generalizing level' tree' with
  | name =>
    generalize hrow : [Lexeme.word _] = row at h'
    cases h' with
    | name => cases hrow; rfl
    | enclosed _ => cases (List.cons.inj hrow).1
    | binary _ _ _ => exact absurd hrow word_ne_operator
  | enclosed hinner ih =>
    generalize hrow : Lexeme.opening :: _ ++ [Lexeme.closing] = row at h'
    cases h' with
    | name => cases (List.cons.inj hrow).1
    | enclosed hinner' =>
      have hinside := List.append_cancel_right (List.cons.inj hrow).2
      subst hinside
      exact ih hinner'
    | binary _ hl _ => exact absurd hl.balanced.depth_eq (depth_ne_zero_of_enclosed hinner.balanced hrow)
  | binary _ hl hr ihl ihr =>
    obtain ⟨operator', left', right', a', b', rfl, hrow, hl', hr'⟩ := h'.binary_of_exposed rfl hl.balanced.depth_eq
    rcases cut_cases hrow with hhere | hbehind | hbefore
    · obtain ⟨rfl, hop, rfl⟩ := hhere
      cases hop
      rw [ihl hl', ihr hr']
    · obtain ⟨m, ha, hb⟩ := hbehind
      exact (not_left_of hl hr hl' ha hb).elim
    · obtain ⟨m, ha, hb⟩ := hbefore
      exact (not_left_of hl' hr' hl ha hb).elim

/-! ## One tree at least -/

/-- one more operator and something enclosed or a name behind it -/
theorem Reads.append_operand (h : Reads level row tree) (hlevel : level ≤ operator.level)
    (hb : ∀ level, ∃ tree', Reads level b tree') : ∃ tree', Reads level (row ++ .operator operator :: b) tree' := by
  obtain ⟨right, hright⟩ := hb (operator.level + 1)
  induction h with
  | name => exact ⟨_, .binary hlevel .name hright⟩
  | enclosed hinner _ => exact ⟨_, .binary hlevel hinner.enclosed hright⟩
  | @binary level operator' c d left right' hlevel' hl hr _ ihr =>
    rcases Nat.lt_or_ge operator'.level operator.level with hlt | hge
    · -- it binds tighter than the last operator, so it takes what is behind that one
      obtain ⟨tree', htree⟩ := ihr hlt
      rw [List.append_assoc, List.cons_append]
      exact ⟨_, .binary hlevel' hl htree⟩
    · exact ⟨_, .binary hlevel (.binary hge hl hr) hright⟩

/-- two rows that denote something, and an operator between them -/
theorem Reads.append (ha : Reads 0 a tree) (hb : Reads level b tree') :
    ∀ operator, ∃ tree'', Reads 0 (a ++ .operator operator :: b) tree'' := by
  induction hb generalizing a tree with
  | name => exact fun _ => ha.append_operand (Nat.zero_le _) fun _ => ⟨_, .name⟩
  | enclosed hinner _ => exact fun _ => ha.append_operand (Nat.zero_le _) fun _ => ⟨_, hinner.enclosed⟩
  | binary _ _ _ ihl ihr =>
    intro operator
    obtain ⟨_, hleft⟩ := ihl ha operator
    obtain ⟨tree'', hright⟩ := ihr hleft _
    exact ⟨tree'', by simpa using hright⟩

/-! ## Missing parentheses -/

/-- a row for the tree at a place of that level: no parenthesis is superfluous, and so many are missing -/
inductive Written : (level : Nat) → List Lexeme → Tree → (missing : Nat) → Prop where
  | name {level : Nat} {text : List Char} : Written level [.word text] (.name text) 0
  | binary {level m n : Nat} {operator : Operator} {a b : List Lexeme} {left right : Tree} : level ≤ operator.level →
      Written operator.level a left m → Written (operator.level + 1) b right n →
      Written level (a ++ .operator operator :: b) (.binary operator left right) (m + n)
  | enclosed {level m : Nat} {row : List Lexeme} {tree : Tree} : tree.needs level = 1 → Written 0 row tree m →
      Written level (.opening :: row ++ [.closing]) tree m
  | missing {level m : Nat} {row : List Lexeme} {tree : Tree} : tree.needs level = 1 → Written 0 row tree m →
      Written level row tree (m + 1)

theorem needs_eq_zero {left right : Tree} (h : level ≤ operator.level) :
    (Tree.binary operator left right).needs level = 0 := by
  rw [Tree.needs, if_neg (Nat.not_lt.2 h)]

variable {m : Nat}

/-- the parentheses of the row and those that are missing are those of the tree -/
theorem Written.count_eq (h : Written level row tree m) : row.count .opening + m = tree.parens + tree.needs level := by
  induction h with
  | name => rfl
  | binary hlevel _ _ ihl ihr =>
    rw [List.count_append, List.count_cons, needs_eq_zero hlevel, Tree.parens, if_neg (by simp)]
    omega
  | enclosed hneeds _ ih =>
    rw [Tree.needs_zero] at ih
    rw [List.cons_append, List.count_cons, List.count_append, hneeds, if_pos (by decide),
      show [Lexeme.closing].count .opening = 0 from rfl]
    omega
  | missing hneeds _ ih =>
    rw [Tree.needs_zero] at ih
    omega

/-- a row that denotes a tree has the parentheses that the tree needs -/
theorem Reads.parens_le (h : Reads level row tree) : tree.parens + tree.needs level ≤ row.count .opening := by
  induction h with
  | name => exact Nat.le_refl 0
  | @enclosed level row tree _ ih =>
    have := tree.needs_le_one level
    rw [List.cons_append, List.count_cons, List.count_append, if_pos (by decide)]
    omega
  | binary hlevel _ _ ihl ihr =>
    rw [List.count_append, List.count_cons, needs_eq_zero hlevel, Tree.parens]
    omega

theorem Written.reads (h : Written level row tree m) (hm : m = 0) : Reads level row tree := by
  induction h with
  | name => exact .name
  | binary hlevel _ _ ihl ihr => exact .binary hlevel (ihl (by omega)) (ihr (by omega))
  | enclosed _ _ ih => exact .enclosed (ih hm)
  | missing _ _ _ => exact absurd hm (Nat.succ_ne_zero _)

/-- **A row denotes the tree that it was written for** exactly if no parenthesis is missing. -/
theorem Written.reads_iff (h : Written 0 row tree m) : Reads 0 row tree ↔ m = 0 := by
  refine ⟨fun hreads => ?_, h.reads⟩
  have hcount := h.count_eq
  have hparens := hreads.parens_le
  omega

/-- and some tree in any case -/
theorem Written.exists_reads (h : Written level row tree m) : ∃ tree', Reads 0 row tree' := by
  induction h with
  | name => exact ⟨_, .name⟩
  | binary _ _ _ ihl ihr =>
    obtain ⟨_, hl⟩ := ihl
    obtain ⟨_, hr⟩ := ihr
    exact hl.append hr _
  | enclosed _ _ ih =>
    obtain ⟨tree', htree⟩ := ih
    exact ⟨tree', .enclosed htree⟩
  | missing _ _ ih => exact ih

end SqlDialects
