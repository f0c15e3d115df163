/-
Checking translated SQL with an external parser. The parser accepts a text or stops with an error. Errors of its own
kind are objections to the text and become messages; any other error is a fault of the parser and is passed on.

- `validate_of_unknown`: for a name without a grammar the parser is not asked.
- `validate_of_known`: for any other it is asked once; what each verdict comes to.
-/
import SqlDialects.Trace

namespace SqlDialects

/-- kinds of error that reading by a grammar can end with; the last two are no verdict on the text -/
inductive ParserError.Kind where
  | general
  | parse
  | token
  | unsupported
  | optimize
  | schema
  | execute
  | badValue
  | tooDeep
deriving DecidableEq, Repr

/-- whether the parser objects to the text, rather than failing itself -/
def ParserError.Kind.isObjection : ParserError.Kind → Bool
  | badValue => false
  | tooDeep => false
  | _ => true

structure ParserError where
  kind : ParserError.Kind
  message : String
deriving DecidableEq, Repr

/-- an external parser: the error that it ends with, or `none` when it accepts -/
abbrev Parser := Fragment → Grammar → Option ParserError

/-- the messages about a text in the dialect of that name; none if the text is valid -/
def validate (parser : Parser) (sql : Fragment) (dialect : String) : Traced ParserError (List String) :=
  match Grammar.ofName? dialect with
  | none => pure ["Unknown dialect '" ++ dialect ++ "' \u2014 skipping SQL validation"]
  | some grammar => do
    Traced.emit (.parse sql grammar)
    match parser sql grammar with
    | none => pure []
    | some e => if e.kind.isObjection then pure [e.message] else Traced.fail e

theorem validate_of_unknown {parser : Parser} {sql : Fragment} {dialect : String} (h : Grammar.ofName? dialect = none) :
    (validate parser sql dialect).events = [] := by
  simp [validate, h]

theorem validate_of_known {parser : Parser} {sql : Fragment} {dialect : String} {grammar : Grammar}
    (h : Grammar.ofName? dialect = some grammar) :
    validate parser sql dialect =
      ⟨[.parse sql grammar],
        match parser sql grammar with
        | none => .ok []
        | some e => if e.kind.isObjection then .ok [e.message] else .error e⟩ := by
  simp only [validate, h]
  rw [Traced.bind_of_ok _ (Traced.outcome_emit _)]
  cases parser sql grammar with
  | none => rfl
  | some e => by_cases he : e.kind.isObjection = true <;> simp [he, Traced.fail]

end SqlDialects
