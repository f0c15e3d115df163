/-
The pipeline: the rules one after the other, each on what the one before left.

A rule counts as applied when it changed the text; a rule that runs twice can be counted twice.

- `Adapted.run_append`: running two lists of rules one after the other is running them together.
- `Adapted.sql_run`: the text is the same as if nothing were counted.
-/
import SqlDialects.Rule.Aggregate
import SqlDialects.Rule.BooleanLiteral
import SqlDialects.Rule.FieldConcat
import SqlDialects.Rule.NullCoalesce

namespace SqlDialects

/-- a named rule: what it makes of a fragment for a dialect with given capabilities -/
structure Rule where
  name : String
  apply : Capabilities → Fragment → Fragment

namespace Rule

def aggregateConcat : Rule := ⟨"aggregate_concat", Aggregate.apply⟩

def fieldConcat : Rule := ⟨"field_concat", FieldConcat.apply⟩

def nullCoalesce : Rule := ⟨"null_coalesce", NullCoalesce.apply⟩

def booleanLiteral : Rule := ⟨"boolean_literal", BooleanLiteral.apply⟩

/-- the aggregate comes before the concatenation of fields, whose name ends its own -/
def defaults : List Rule := [aggregateConcat, fieldConcat, nullCoalesce, booleanLiteral]

/-- the default rule of that name -/
def ofName? (name : String) : Option Rule := defaults.find? (·.name == name)

/-- a rule that adds the same text behind every fragment -/
def appending (name : String) (text : Fragment) : Rule := ⟨name, fun _ sql => sql ++ text⟩

end Rule

/-- a fragment, adapted, and the names of the rules that changed it, in order -/
structure Adapted where
  sql : Fragment
  applied : List String
deriving DecidableEq, Repr

namespace Adapted

def step (needs : Capabilities) (done : Adapted) (rule : Rule) : Adapted :=
  let next := rule.apply needs done.sql
  if next = done.sql then done else ⟨next, done.applied ++ [rule.name]⟩

def run (needs : Capabilities) (done : Adapted) (rules : List Rule) : Adapted := rules.foldl (step needs) done

theorem run_append (needs : Capabilities) (done : Adapted) (first second : List Rule) :
    run needs done (first ++ second) = run needs (run needs done first) second :=
  List.foldl_append

theorem sql_step (needs : Capabilities) (done : Adapted) (rule : Rule) :
    (step needs done rule).sql = rule.apply needs done.sql := by
  unfold step
  by_cases h : rule.apply needs done.sql = done.sql
  · simp [h]
  · simp [h]

/-- the text does not depend on what was counted: each rule works on what the one before left -/
theorem sql_run (needs : Capabilities) (done : Adapted) (rules : List Rule) :
    (run needs done rules).sql = rules.foldl (fun sql rule => rule.apply needs sql) done.sql := by
  induction rules generalizing done with
  | nil => rfl
  | cons rule rules ih => simp only [run, List.foldl_cons] at ih ⊢; rw [ih, sql_step]

end Adapted

/-- a fragment adapted by the rules, from the first to the last -/
def adapt (rules : List Rule) (needs : Capabilities) (sql : Fragment) : Adapted :=
  Adapted.run needs ⟨sql, []⟩ rules

/-- an expression cast to a type, where the dialect wants comparisons to be cast -/
def castExpression (needs : Capabilities) (expression type : String) : String :=
  if needs.explicitCasts then "CAST(" ++ expression ++ " AS " ++ type ++ ")" else expression

end SqlDialects
