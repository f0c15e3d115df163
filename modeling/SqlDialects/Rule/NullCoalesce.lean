/-
Replacing null: `IFNULL(` under the name that the dialect has for it. The name must stand on its own; what it is called
with is left alone.
-/
import SqlDialects.Dialect.Basic
import SqlDialects.Fragment.Quoting
import SqlDialects.Text.Keyword
import SqlDialects.Text.Substitution
import SqlDialects.Text.Word

namespace SqlDialects.NullCoalesce

open Text

/-- the opening of a call, in any case -/
def opening : Fragment := ['i', 'f', 'n', 'u', 'l', 'l', '(']

/-- the opening of a call that does not end a longer name, to be given another name -/
def functionName (name : Fragment) : Pattern := fun before text =>
  if startsWord before then (afterKeyword opening text).map fun _ => ⟨text.take opening.length, name ++ ['(']⟩
  else none

def apply (needs : Capabilities) (sql : Fragment) : Fragment :=
  match needs.coalesceFunction with
  | none => sql
  | some name => replaceAll (functionName name.toList) sql

end SqlDialects.NullCoalesce
