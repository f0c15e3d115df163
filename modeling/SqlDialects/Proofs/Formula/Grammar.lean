/-
Formulas: names, binary operators and calls of `CONCAT`, with parentheses only where an operand binds less tightly than
the operator it belongs to. A call needs none, whatever its arguments are.

- `Formula.text`: the formula as it is written; `Formula.joined`: with its calls joined.
- `Formula.row`: the lexemes of the joined formula; `Formula.tree`: what it should denote, each call as its arguments
  with the operator between them.
- `Formula.missing`: how many parentheses the joined formula lacks for that (`Formula.written`).
- `Formula.flat`: arguments that are calls themselves, in one row with the others (`Formula.row_flat`).
-/
import SqlDialects.Proofs.Expression.Grammar
import SqlDialects.Proofs.Formula.Reading

namespace SqlDialects

open Text

/-! ## Names and operators as they are written -/

/-- a name that is no keyword -/
structure Name extends Token where
  not_keyword : Lexeme.ofWord text = .word text

/-- the name of `CONCAT`, in some case -/
structure ConcatName extends FunctionName where
  is_concat : toFunctionName.isConcat = true

inductive Operator.Spelled : Operator → Fragment → Prop where
  | equals : Spelled .equals ['=']
  | plus : Spelled .plus ['+']
  | times : Spelled .times ['*']
  | and {word : Fragment} : word.map Char.toLower = ['a', 'n', 'd'] → Spelled .and word
  | or {word : Fragment} : word.map Char.toLower = ['o', 'r'] → Spelled .or word

/-- an operator with the blanks around it; a keyword needs some on both sides -/
structure Symbol where
  operator : Operator
  lead : Gap
  spelling : Fragment
  trail : Gap
  spelled : operator.Spelled spelling
  apart : operator = .and ∨ operator = .or → lead.text ≠ [] ∧ trail.text ≠ []

def Symbol.text (symbol : Symbol) : Fragment := symbol.lead.text ++ symbol.spelling ++ symbol.trail.text

def Symbol.level (symbol : Symbol) : Nat := symbol.operator.level

/-! ## Formulas -/

mutual

inductive Formula where
  | name (name : Name)
  | binary (left : Formula) (symbol : Symbol) (right : Formula)
  | concat (name : ConcatName) (operands : Operands)

/-- one argument or more, each with the blanks before and behind it -/
inductive Operands where
  | last (lead : Gap) (value : Formula) (trail : Gap)
  | next (lead : Gap) (value : Formula) (trail : Gap) (others : Operands)

end

/-- induction on the operands of operators, where the arguments of a call are settled before -/
@[elab_as_elim, induction_eliminator]
theorem Formula.induction {motive : Formula → Prop} (name : ∀ name, motive (.name name))
    (binary : ∀ left symbol right, motive left → motive right → motive (.binary left symbol right))
    (concat : ∀ name operands, motive (.concat name operands)) : (formula : Formula) → motive formula
  | .name token => name token
  | .binary left symbol right => binary left symbol right (left.induction name binary concat)
      (right.induction name binary concat)
  | .concat function operands => concat function operands

/-- induction on a row of arguments, where their values are settled before -/
@[elab_as_elim, induction_eliminator]
theorem Operands.induction {motive : Operands → Prop} (last : ∀ lead value trail, motive (.last lead value trail))
    (next : ∀ lead value trail others, motive others → motive (.next lead value trail others)) :
    (operands : Operands) → motive operands
  | .last lead value trail => last lead value trail
  | .next lead value trail others => next lead value trail others (others.induction last next)

/-- whether the formula is written with parentheses where operators of that level and tighter ones may stand -/
def Formula.encloses (level : Nat) : Formula → Bool
  | .binary _ symbol _ => symbol.level < level
  | _ => false

def enclose (enclosed : Bool) (text : Fragment) : Fragment := if enclosed then '(' :: text ++ [')'] else text

mutual

def Formula.text : Formula → Fragment
  | .name name => name.text
  | .binary left symbol right => enclose (left.encloses symbol.level) left.text ++ symbol.text ++
      enclose (right.encloses (symbol.level + 1)) right.text
  | .concat name operands => name.text ++ '(' :: operands.text ++ [')']

def Operands.text : Operands → Fragment
  | .last lead value trail => lead.text ++ value.text ++ trail.text
  | .next lead value trail others => lead.text ++ value.text ++ trail.text ++ ',' :: others.text

end

/-- the arguments as they are written, without the blanks around them -/
def Operands.texts : Operands → List Fragment
  | .last _ value _ => [value.text]
  | .next _ value _ others => value.text :: others.texts

mutual

def Formula.joined (joiner : Fragment) : Formula → Fragment
  | .name name => name.text
  | .binary left symbol right => enclose (left.encloses symbol.level) (left.joined joiner) ++ symbol.text ++
      enclose (right.encloses (symbol.level + 1)) (right.joined joiner)
  | .concat _ operands => operands.joined joiner

def Operands.joined (joiner : Fragment) : Operands → Fragment
  | .last _ value _ => value.joined joiner
  | .next _ value _ others => value.joined joiner ++ joiner ++ others.joined joiner

end

/-! ## What a formula means -/

mutual

/-- each call as its arguments with the operator between them -/
def Formula.tree : Formula → Tree
  | .name name => .name name.text
  | .binary left symbol right => .binary symbol.operator left.tree right.tree
  | .concat _ operands => operands.tree

def Operands.tree : Operands → Tree
  | .last _ value _ => value.tree
  | .next _ value _ others => others.treeBehind value.tree

/-- the operands behind what stands in front of them -/
def Operands.treeBehind (left : Tree) : Operands → Tree
  | .last _ value _ => .binary .concat left value.tree
  | .next _ value _ others => others.treeBehind (.binary .concat left value.tree)

end

/-- the parentheses that are missing around a formula at a place of that level -/
def Formula.lacks (level : Nat) (formula : Formula) : Nat :=
  if formula.encloses level then 0 else formula.tree.needs level

mutual

/-- the operands that need parentheses once the calls are joined, and have none -/
def Formula.missing : Formula → Nat
  | .name _ => 0
  | .binary left symbol right =>
    left.missing + left.lacks symbol.level + (right.missing + right.lacks (symbol.level + 1))
  | .concat _ operands => operands.missing

def Operands.missing : Operands → Nat
  | .last _ value _ => value.missing
  | .next _ value _ others => value.missing + value.tree.needs Operator.concat.level + others.missingBehind

def Operands.missingBehind : Operands → Nat
  | .last _ value _ => value.missing + value.tree.needs (Operator.concat.level + 1)
  | .next _ value _ others => value.missing + value.tree.needs (Operator.concat.level + 1) + others.missingBehind

end

/-! ## The lexemes of a joined formula -/

def encloseRow (enclosed : Bool) (row : List Lexeme) : List Lexeme :=
  if enclosed then .opening :: row ++ [.closing] else row

mutual

def Formula.row : Formula → List Lexeme
  | .name name => [.word name.text]
  | .binary left symbol right => encloseRow (left.encloses symbol.level) left.row ++ .operator symbol.operator ::
      encloseRow (right.encloses (symbol.level + 1)) right.row
  | .concat _ operands => operands.row

def Operands.row : Operands → List Lexeme
  | .last _ value _ => value.row
  | .next _ value _ others => value.row ++ .operator .concat :: others.row

end

/-- a row for a tree may stand at any place, with one more parenthesis missing if it needs one there -/
theorem Written.at {row : List Lexeme} {tree : Tree} {m : Nat} (h : Written 0 row tree m) (level : Nat) :
    Written level row tree (m + tree.needs level) := by
  cases hneeds : tree.needs level with
  | succ n =>
    have hone : tree.needs level = 1 := by
      have := tree.needs_le_one level
      omega
    rw [show n = 0 by omega]
    exact .missing hone h
  | zero =>
    rw [Nat.add_zero]
    cases h with
    | name => exact .name
    | binary _ hl hr =>
      refine .binary ?_ hl hr
      rw [Tree.needs] at hneeds
      refine Nat.le_of_not_lt fun hlt => ?_
      rw [if_pos hlt] at hneeds; cases hneeds
    | enclosed hzero _ => rw [Tree.needs_zero] at hzero; cases hzero
    | missing hzero _ => rw [Tree.needs_zero] at hzero; cases hzero

/-- a formula that is enclosed needs to be -/
theorem Formula.needs_of_encloses {formula : Formula} {level : Nat} (h : formula.encloses level = true) :
    formula.tree.needs level = 1 := by
  cases formula with
  | name name => cases h
  | binary left symbol right =>
    have hlevel : symbol.operator.level < level := of_decide_eq_true h
    rw [Formula.tree, Tree.needs, if_pos hlevel]
  | concat name operands => cases h

theorem Formula.written_at {formula : Formula} (h : Written 0 formula.row formula.tree formula.missing) (level : Nat) :
    Written level (encloseRow (formula.encloses level) formula.row) formula.tree
      (formula.missing + formula.lacks level) := by
  unfold encloseRow Formula.lacks
  split
  · rename_i henclosed
    exact .enclosed (Formula.needs_of_encloses henclosed) h
  · exact h.at level

mutual

/-- **The row of a joined formula** is one for its tree, with some parentheses missing. -/
theorem Formula.written : (formula : Formula) → Written 0 formula.row formula.tree formula.missing
  | .name name => by
    rw [Formula.row, Formula.tree, Formula.missing]
    exact .name
  | .binary left symbol right => by
    rw [Formula.row, Formula.tree, Formula.missing]
    exact .binary (Nat.zero_le _) (Formula.written_at left.written _) (Formula.written_at right.written _)
  | .concat name operands => by
    rw [Formula.row, Formula.tree, Formula.missing]
    exact operands.written

theorem Operands.written : (operands : Operands) → Written 0 operands.row operands.tree operands.missing
  | .last _ value _ => by
    rw [Operands.row, Operands.tree, Operands.missing]
    exact value.written
  | .next _ value _ others => by
    rw [Operands.row, Operands.tree, Operands.missing]
    exact others.writtenBehind (value.written.at _) (Nat.zero_le _)

theorem Operands.writtenBehind : (operands : Operands) → {row : List Lexeme} → {left : Tree} → {level m : Nat} →
    Written Operator.concat.level row left m → level ≤ Operator.concat.level →
    Written level (row ++ .operator .concat :: operands.row) (operands.treeBehind left) (m + operands.missingBehind)
  | .last _ value _, _, _, _, _, hleft, hlevel => by
    rw [Operands.row, Operands.treeBehind, Operands.missingBehind]
    exact .binary hlevel hleft (value.written.at _)
  | .next _ value _ others, row, _, _, m, hleft, hlevel => by
    rw [Operands.row, Operands.treeBehind, Operands.missingBehind, ← Nat.add_assoc]
    have hmore := others.writtenBehind (.binary (Nat.le_refl _) hleft (value.written.at _)) hlevel
    rwa [List.append_assoc, List.cons_append] at hmore

end

/-! ## Calls within calls -/

def Operands.append : Operands → Operands → Operands
  | .last lead value trail, more => .next lead value trail more
  | .next lead value trail others, more => .next lead value trail (others.append more)

mutual

/-- the formula with its calls in one row with the calls that are their arguments -/
def Formula.flat : Formula → Formula
  | .name name => .name name
  | .binary left symbol right => .binary left.flat symbol right.flat
  | .concat name operands => .concat name operands.flat

/-- an argument, or those of the call that it is -/
def Formula.spliced (lead trail : Gap) : Formula → Operands
  | .name name => .last lead (.name name) trail
  | .binary left symbol right => .last lead (.binary left.flat symbol right.flat) trail
  | .concat _ operands => operands.flat

def Operands.flat : Operands → Operands
  | .last lead value trail => value.spliced lead trail
  | .next lead value trail others => (value.spliced lead trail).append others.flat

end

theorem Operands.row_append (operands more : Operands) :
    (operands.append more).row = operands.row ++ .operator .concat :: more.row := by
  induction operands with
  | last lead value trail => rw [Operands.append, Operands.row, Operands.row]
  | next lead value trail others ih =>
    rw [Operands.append, Operands.row, Operands.row, ih, List.append_assoc, List.cons_append]

theorem Formula.encloses_flat (formula : Formula) (level : Nat) :
    formula.flat.encloses level = formula.encloses level := by
  cases formula with
  | name name => rw [Formula.flat]
  | binary left symbol right => rw [Formula.flat]; rfl
  | concat name operands => rw [Formula.flat]; rfl

mutual

/-- a call within a call leaves no trace once both are joined -/
theorem Formula.row_flat : (formula : Formula) → formula.flat.row = formula.row
  | .name name => by rw [Formula.flat]
  | .binary left symbol right => by
    rw [Formula.flat, Formula.row, Formula.row, left.row_flat, right.row_flat, left.encloses_flat, right.encloses_flat]
  | .concat name operands => by rw [Formula.flat, Formula.row, Formula.row, operands.row_flat]

theorem Formula.row_spliced (lead trail : Gap) : (formula : Formula) → (formula.spliced lead trail).row = formula.row
  | .name name => by rw [Formula.spliced, Operands.row]
  | .binary left symbol right => by
    rw [Formula.spliced, Operands.row, Formula.row, Formula.row, left.row_flat, right.row_flat, left.encloses_flat,
      right.encloses_flat]
  | .concat name operands => by rw [Formula.spliced, Formula.row, operands.row_flat]

theorem Operands.row_flat : (operands : Operands) → operands.flat.row = operands.row
  | .last lead value trail => by rw [Operands.flat, Operands.row, value.row_spliced]
  | .next lead value trail others => by
    rw [Operands.flat, Operands.row, Operands.row_append, value.row_spliced, others.row_flat]

end

end SqlDialects
