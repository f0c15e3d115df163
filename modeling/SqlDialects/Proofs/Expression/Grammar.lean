/-
SQL expressions as they are written: names and numbers, quotations, and calls. An expression carries its layout: the
spelling of names and the blanks around every argument are part of it.

- `Expression.text`: the expression as it is written.
- `Expression.joined`: the expression with each `CONCAT` call replaced by its arguments, joined; what stands between the
  parentheses of any other call keeps its layout, and a `CONCAT` call without arguments stays.
-/
import SqlDialects.Fragment.Quoting
import SqlDialects.Proofs.Text.Blank
import SqlDialects.Text.Word

namespace SqlDialects

open Text

/-- blanks, or nothing -/
structure Gap where
  text : Fragment
  blank : Blank text

/-- a name or a number: word characters and dots -/
structure Token where
  text : Fragment
  nonempty : text ≠ []
  chars : ∀ c ∈ text, isWord c = true ∨ c = '.'

/-- what may stand between two marks: any character but the mark and the backslash, or a backslash and any character -/
inductive Enclosed (mark : Char) : Fragment → Prop where
  | nil : Enclosed mark []
  | plain {c : Char} {rest : Fragment} : c ≠ mark → c ≠ '\\' → Enclosed mark rest → Enclosed mark (c :: rest)
  | escaped (c : Char) {rest : Fragment} : Enclosed mark rest → Enclosed mark ('\\' :: c :: rest)

/-- a string literal or a quoted name -/
structure Quotation where
  mark : Char
  body : Fragment
  isMark : Quoting.isMark mark = true
  enclosed : Enclosed mark body

def Quotation.text (quotation : Quotation) : Fragment := quotation.mark :: quotation.body ++ [quotation.mark]

structure FunctionName where
  text : Fragment
  nonempty : text ≠ []
  chars : ∀ c ∈ text, isWord c = true

/-- the function that concatenates fields, in any case -/
def FunctionName.isConcat (name : FunctionName) : Bool := name.text.map Char.toLower == ['c', 'o', 'n', 'c', 'a', 't']

mutual

inductive Expression where
  | token (token : Token)
  | quotation (quotation : Quotation)
  | emptyCall (name : FunctionName) (gap : Gap)
  | call (name : FunctionName) (arguments : Arguments)

/-- one argument or more, each with the blanks before and behind it -/
inductive Arguments where
  | last (lead : Gap) (value : Expression) (trail : Gap)
  | next (lead : Gap) (value : Expression) (trail : Gap) (others : Arguments)

end

mutual

def Expression.text : Expression → Fragment
  | .token token => token.text
  | .quotation quotation => quotation.text
  | .emptyCall name gap => name.text ++ '(' :: gap.text ++ [')']
  | .call name arguments => name.text ++ '(' :: arguments.text ++ [')']

def Arguments.text : Arguments → Fragment
  | .last lead value trail => lead.text ++ value.text ++ trail.text
  | .next lead value trail others => lead.text ++ value.text ++ trail.text ++ ',' :: others.text

end

/-- the values of the arguments as they are written, without the blanks around them -/
def Arguments.texts : Arguments → List Fragment
  | .last _ value _ => [value.text]
  | .next _ value _ others => value.text :: others.texts

mutual

def Expression.joined (joiner : Fragment) : Expression → Fragment
  | .token token => token.text
  | .quotation quotation => quotation.text
  | .emptyCall name gap => name.text ++ '(' :: gap.text ++ [')']
  | .call name arguments =>
    if name.isConcat then joiner.intercalate (arguments.joinedValues joiner)
    else name.text ++ '(' :: arguments.joinedText joiner ++ [')']

/-- the values of the arguments in order, joined within, without the blanks around them -/
def Arguments.joinedValues (joiner : Fragment) : Arguments → List Fragment
  | .last _ value _ => [value.joined joiner]
  | .next _ value _ others => value.joined joiner :: others.joinedValues joiner

/-- the arguments with their commas and blanks, joined within -/
def Arguments.joinedText (joiner : Fragment) : Arguments → Fragment
  | .last lead value trail => lead.text ++ value.joined joiner ++ trail.text
  | .next lead value trail others => lead.text ++ value.joined joiner ++ trail.text ++ ',' :: others.joinedText joiner

end

end SqlDialects
