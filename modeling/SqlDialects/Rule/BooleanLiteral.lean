/-
Boolean literals in comparisons: `flag = true` as `flag = 1`, for dialects that store booleans as integers.

A comparison is a word, `=` or `<>`, and `true` or `false` in any case, with blanks allowed between them; behind the
literal the text ends or goes on with a blank. Comparisons are found from left to right and do not overlap, so in
`a = true = false` the second literal stays.
-/
import SqlDialects.Dialect.Basic
import SqlDialects.Fragment.Quoting
import SqlDialects.Text.Keyword
import SqlDialects.Text.Substitution
import SqlDialects.Text.Word

namespace SqlDialects.BooleanLiteral

open Text

/-- the comparison operator at the front of `text` -/
def operator? : Fragment → Option Fragment
  | '=' :: _ => some ['=']
  | '<' :: '>' :: _ => some ['<', '>']
  | _ => none

/-- behind a literal the text ends or goes on with a blank -/
def endsLiteral : Fragment → Bool
  | [] => true
  | c :: _ => isBlank c

def trueWord : Fragment := ['t', 'r', 'u', 'e']

def falseWord : Fragment := ['f', 'a', 'l', 's', 'e']

/-- `text` begins with the literal, and the literal ends there -/
def isLiteral (word text : Fragment) : Bool :=
  match afterKeyword word text with
  | none => false
  | some rest => endsLiteral rest

/-- the boolean literal at the front of `text`: how long it is, and the digit that stands for it -/
def literal? (text : Fragment) : Option (Nat × Char) :=
  if isLiteral trueWord text then some (trueWord.length, '1')
  else if isLiteral falseWord text then some (falseWord.length, '0')
  else none

/-- the text of a comparison up to its literal: a word, an operator, and blanks around the operator -/
def left? (text : Fragment) : Option Fragment :=
  let operand := text.takeWhile isWord
  if operand = [] then none
  else
    let lead := (text.drop operand.length).takeWhile isBlank
    match operator? (text.drop (operand.length + lead.length)) with
    | none => none
    | some operator =>
      let trail := (text.drop (operand.length + lead.length + operator.length)).takeWhile isBlank
      some (operand ++ lead ++ operator ++ trail)

/-- a comparison with a boolean literal, the literal to be written as a digit -/
def comparison : Pattern := fun _ text =>
  match left? text with
  | none => none
  | some left =>
    match literal? (text.drop left.length) with
    | none => none
    | some (length, digit) => some ⟨text.take (left.length + length), left ++ [digit]⟩

def apply (needs : Capabilities) (sql : Fragment) : Fragment :=
  if needs.integerBooleans then replaceAll comparison sql else sql

end SqlDialects.BooleanLiteral
