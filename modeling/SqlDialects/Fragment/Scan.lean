/-
Positions in SQL text: a scanner tells of each character outside quotations where it stands and how many parentheses are
open behind it, and calls are closed and cut at the positions that it tells of.

- `Scanner` keeps an account of quotations of its own: the mark that closes the one it is in, if any.
- `scan`: what a scanner shows that begins outside quotations at some position of a text.
- `closing?`: the position of the parenthesis that closes the call whose arguments begin at some position.
- `cutAtCommas`: the arguments of a call, cut at the positions of the commas between them and trimmed.
-/
import SqlDialects.Fragment.Call

namespace SqlDialects

open Text

/-- a character outside quotations: its position, and the depth of parentheses behind it -/
structure Sighting where
  index : Nat
  char : Char
  depth : Int
deriving DecidableEq, Repr

/-- the depth of parentheses, the mark that closes the quotation, and whether the next character is escaped there -/
structure Scanner where
  depth : Int
  mark : Option Char
  escaped : Bool
deriving DecidableEq, Repr

namespace Scanner

/-- before the first character -/
def start : Scanner := ⟨0, none, false⟩

def step (s : Scanner) (c : Char) : Scanner :=
  match s.mark with
  | some mark =>
    if s.escaped then { s with escaped := false }
    else if c = '\\' then { s with escaped := true }
    else if c = mark then { s with mark := none }
    else s
  | none =>
    if Quoting.isMark c then { s with mark := some c }
    else if c = '(' then { s with depth := s.depth + 1 }
    else if c = ')' then { s with depth := s.depth - 1 }
    else s

end Scanner

namespace Sighting

/-- a parenthesis that closes the call in which scanning began -/
def Closes (seen : Sighting) : Prop := seen.char = ')' ∧ seen.depth < 0

/-- a comma between two arguments of the text in which scanning began -/
def Separates (seen : Sighting) : Prop := seen.char = ',' ∧ seen.depth = 0

instance (seen : Sighting) : Decidable seen.Closes := inferInstanceAs (Decidable (_ ∧ _))

instance (seen : Sighting) : Decidable seen.Separates := inferInstanceAs (Decidable (_ ∧ _))

end Sighting

namespace Fragment

/-- what a scanner shows of the text that begins at position `index` -/
def scanFrom (s : Scanner) (index : Nat) : Fragment → List Sighting
  | [] => []
  | c :: rest =>
    if s.mark.isNone then ⟨index, c, (s.step c).depth⟩ :: scanFrom (s.step c) (index + 1) rest
    else scanFrom (s.step c) (index + 1) rest

/-- the characters outside quotations from position `first` on, for a scanner that begins there -/
def scan (text : Fragment) (first : Nat) : List Sighting := scanFrom .start first (text.drop first)

/-- position of the parenthesis that closes the call whose arguments begin at position `first` -/
def closing? (text : Fragment) (first : Nat) : Option Nat :=
  ((scan text first).find? (·.Closes)).map Sighting.index

/-- the arguments that were cut off, and the position at which the next one begins -/
structure Cutting where
  done : List Fragment
  next : Nat
deriving DecidableEq, Repr

def Cutting.step (inner : Fragment) (cutting : Cutting) (seen : Sighting) : Cutting :=
  if seen.Separates then ⟨cutting.done ++ [trim (inner.extract cutting.next seen.index)], seen.index + 1⟩ else cutting

/-- the last argument ends with the text -/
def Cutting.finish (inner : Fragment) (cutting : Cutting) : List Fragment :=
  cutting.done ++ [trim (inner.drop cutting.next)]

/-- the arguments of a call, given the text between its parentheses -/
def cutAtCommas (inner : Fragment) : List Fragment :=
  ((scan inner 0).foldl (Cutting.step inner) ⟨[], 0⟩).finish inner

end Fragment

end SqlDialects
