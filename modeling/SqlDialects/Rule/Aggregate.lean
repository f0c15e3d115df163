/-
The aggregate that concatenates: `GROUP_CONCAT(field SEPARATOR s)` and its spellings elsewhere.

A call runs from `group_concat(` to the last closing parenthesis of its line, and holds something. Calls inside it are
not told apart, so a line has at most one call. Within a call, in this order and as the dialect asks for:

- `separatorPhrase`: blanks, `SEPARATOR`, blanks become a comma and a space;
- `fieldBeforeComma`: each `(field,` is cast to text;
- `functionName`: each `group_concat(` takes the dialect's name.
-/
import SqlDialects.Dialect.Basic
import SqlDialects.Fragment.Quoting
import SqlDialects.Text.Keyword
import SqlDialects.Text.Substitution
import SqlDialects.Text.Word

namespace SqlDialects.Aggregate

open Text

/-- the opening of a call, in any case -/
def opening : Fragment := ['g', 'r', 'o', 'u', 'p', '_', 'c', 'o', 'n', 'c', 'a', 't', '(']

def separatorWord : Fragment := ['s', 'e', 'p', 'a', 'r', 'a', 't', 'o', 'r']

/-- the word `SEPARATOR` with the blanks around it, at least one on each side -/
def separatorPhrase : Pattern := fun _ text =>
  let lead := text.takeWhile isBlank
  if lead = [] then none
  else
    match afterKeyword separatorWord (text.drop lead.length) with
    | none => none
    | some rest =>
      let trail := rest.takeWhile isBlank
      if trail = [] then none
      else some ⟨text.take (lead.length + separatorWord.length + trail.length), [',', ' ']⟩

/-- what a field name is made of: word characters, dots, brackets and hyphens -/
def isFieldChar (c : Char) : Bool := isWord c || c == '.' || c == '[' || c == ']' || c == '-'

/-- the cast of a field to text -/
def castSuffix : Fragment := [':', ':', 'V', 'A', 'R', 'C', 'H', 'A', 'R']

/-- a field name between an opening parenthesis and a comma, to be cast to text -/
def fieldBeforeComma : Pattern := fun _ text =>
  match text with
  | '(' :: rest =>
    let field := rest.takeWhile isFieldChar
    if field = [] then none
    else
      match rest.drop field.length with
      | ',' :: _ => some ⟨'(' :: field ++ [','], '(' :: field ++ castSuffix ++ [',']⟩
      | _ => none
  | _ => none

/-- the opening of a call, to be given another name -/
def functionName (name : Fragment) : Pattern := fun _ text =>
  (afterKeyword opening text).map fun _ => ⟨text.take opening.length, name ++ ['(']⟩

/-- a call as the dialect writes it -/
def adaptCall (needs : Capabilities) (call : Fragment) : Fragment :=
  let call := if needs.inlineSeparator then replaceAll separatorPhrase call else call
  let call := if needs.castAggregateArgs then replaceAll fieldBeforeComma call else call
  match needs.aggregateFunction with
  | none => call
  | some name => replaceAll (functionName name.toList) call

/-- the text up to its last closing parenthesis, that included; nothing if there is none -/
def throughLastClose (text : Fragment) : Fragment := (text.reverse.dropWhile (· != ')')).reverse

/-- the call that begins at the front of `text`, if it has arguments and ends on the same line -/
def callAt? (text : Fragment) : Option Fragment :=
  match afterKeyword opening text with
  | none => none
  | some rest =>
    let arguments := throughLastClose (rest.takeWhile (!isLineBreak ·))
    if arguments.length ≤ 1 then none else some (text.take opening.length ++ arguments)

/-- a call, to be written as the dialect writes it -/
def call (needs : Capabilities) : Pattern := fun _ text =>
  (callAt? text).map fun found => ⟨found, adaptCall needs found⟩

/-- whether the dialect asks for any change of a call -/
def active (needs : Capabilities) : Bool := needs.inlineSeparator || needs.aggregateFunction.isSome

def apply (needs : Capabilities) (sql : Fragment) : Fragment :=
  if active needs then replaceAll (call needs) sql else sql

end SqlDialects.Aggregate
