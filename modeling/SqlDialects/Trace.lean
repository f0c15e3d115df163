/-
What a computation does besides giving an answer: it writes log records and talks to an external parser and to a
database connection.

`Traced ε α` pairs the events, in the order in which they happened, with the answer or the error that ended the
computation. Events before an error are kept.

- `bind_of_ok`, `bind_of_error`: one computation after another.
-/
import SqlDialects.Dialect.Grammar
import SqlDialects.Fragment.Quoting

namespace SqlDialects

/-- the part of the library that a log record comes from -/
inductive Channel where
  | translator
  | dialect
  | rules
  | schema
deriving DecidableEq, Repr

inductive Severity where
  | debug
  | info
  | warning
deriving DecidableEq, Repr

structure Record where
  channel : Channel
  severity : Severity
  message : String
deriving DecidableEq, Repr

inductive Event where
  | log (record : Record)
  /-- the external parser was given a text to read by a grammar -/
  | parse (sql : Fragment) (grammar : Grammar)
  /-- the connection was asked for a value of its configuration -/
  | readConfig (key : String)
  | statement (sql : String)
  | update (sql : String)
deriving DecidableEq, Repr

namespace Event

def record? : Event → Option Record
  | log record => some record
  | _ => none

/-- whether the event is a call of the database connection -/
def isConnectionCall : Event → Bool
  | readConfig _ => true
  | statement _ => true
  | update _ => true
  | _ => false

end Event

/-- the events of a computation, and how it ended -/
structure Traced (ε α : Type) where
  events : List Event
  outcome : Except ε α

namespace Traced

variable {ε α β : Type}

protected def pure (a : α) : Traced ε α := ⟨[], .ok a⟩

protected def bind (first : Traced ε α) (next : α → Traced ε β) : Traced ε β :=
  match first.outcome with
  | .error e => ⟨first.events, .error e⟩
  | .ok a =>
    let second := next a
    ⟨first.events ++ second.events, second.outcome⟩

instance : Monad (Traced ε) where
  pure := Traced.pure
  bind := Traced.bind

/-- stops with an error -/
def fail (e : ε) : Traced ε α := ⟨[], .error e⟩

def emit (event : Event) : Traced ε Unit := ⟨[event], .ok ()⟩

def log (channel : Channel) (severity : Severity) (message : String) : Traced ε Unit :=
  emit (.log ⟨channel, severity, message⟩)

def ofExcept (outcome : Except ε α) : Traced ε α := ⟨[], outcome⟩

/-- the same computation with its error told in other words -/
def mapError {δ : Type} (f : ε → δ) (x : Traced ε α) : Traced δ α := ⟨x.events, x.outcome.mapError f⟩

def records (x : Traced ε α) : List Record := x.events.filterMap Event.record?

@[simp] theorem events_pure (a : α) : (pure a : Traced ε α).events = [] := rfl

@[simp] theorem outcome_pure (a : α) : (pure a : Traced ε α).outcome = .ok a := rfl

@[simp] theorem events_emit (event : Event) : (emit event : Traced ε Unit).events = [event] := rfl

@[simp] theorem outcome_emit (event : Event) : (emit event : Traced ε Unit).outcome = .ok () := rfl

theorem bind_of_ok {first : Traced ε α} {a : α} (next : α → Traced ε β) (h : first.outcome = .ok a) :
    (first >>= next) = ⟨first.events ++ (next a).events, (next a).outcome⟩ := by
  show Traced.bind first next = _
  simp [Traced.bind, h]

theorem bind_of_error {first : Traced ε α} {e : ε} (next : α → Traced ε β) (h : first.outcome = .error e) :
    (first >>= next) = ⟨first.events, .error e⟩ := by
  show Traced.bind first next = _
  simp [Traced.bind, h]

end Traced

end SqlDialects
