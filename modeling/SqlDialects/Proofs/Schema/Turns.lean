/-
Attempts to clear the SQL mode that take turns. Which statements fail may change with every statement issued: the
connection is told by the number of statements before.

- `Admin.Turns`, `inTurn`: attempts one after another, with the connection as each of them finds it.
- `once_inTurn`: the mode is cleared once at most, by the attempt that says so and raises the flag.
-/
import SqlDialects.Proofs.Schema.StrictMode

namespace SqlDialects

def Event.statement? : Event → Option String
  | statement sql => some sql
  | _ => none

namespace Admin

/-! ## Calls of the connection -/

def connectionCalls (events : List Event) : List Event := events.filter Event.isConnectionCall

def statements (events : List Event) : List String := events.filterMap Event.statement?

/-- the number of statements issued so far -/
def issued (events : List Event) : Nat := (statements events).length

/-- how many times the SQL mode was cleared, by the statements that did not fail where they stood -/
def successes (connection : Nat → Connection) (events : List Event) : Nat :=
  (statements events).zipIdx.countP fun (sql, before) => sql == clearMode && !(connection before).fails sql

variable {connection : Nat → Connection} {admin : Admin}

@[simp] theorem connectionCalls_append (events more : List Event) :
    connectionCalls (events ++ more) = connectionCalls events ++ connectionCalls more := List.filter_append ..

@[simp] theorem connectionCalls_nil : connectionCalls [] = [] := rfl

@[simp] theorem connectionCalls_cons_statement (sql : String) (events : List Event) :
    connectionCalls (.statement sql :: events) = .statement sql :: connectionCalls events := rfl

@[simp] theorem connectionCalls_cons_log (record : Record) (events : List Event) :
    connectionCalls (.log record :: events) = connectionCalls events := rfl

@[simp] theorem statements_append (events more : List Event) :
    statements (events ++ more) = statements events ++ statements more := List.filterMap_append

@[simp] theorem statements_nil : statements [] = [] := rfl

@[simp] theorem statements_cons_statement (sql : String) (events : List Event) :
    statements (.statement sql :: events) = sql :: statements events := rfl

@[simp] theorem statements_cons_log (record : Record) (events : List Event) :
    statements (.log record :: events) = statements events := rfl

theorem statements_connectionCalls (events : List Event) : statements (connectionCalls events) = statements events := by
  rw [statements, connectionCalls, List.filterMap_filter]
  congr 1
  funext event
  cases event <;> rfl

@[simp] theorem issued_connectionCalls (events : List Event) : issued (connectionCalls events) = issued events := by
  rw [issued, statements_connectionCalls, issued]

theorem successes_connectionCalls (connection : Nat → Connection) (events : List Event) :
    successes connection (connectionCalls events) = successes connection events := by
  rw [successes, successes, statements_connectionCalls]

theorem successes_append (events more : List Event) : successes connection (events ++ more) =
    successes connection events + ((statements more).zipIdx (issued events)).countP
      fun (sql, before) => sql == clearMode && !(connection before).fails sql := by
  simp only [successes, statements_append, List.zipIdx_append, List.countP_append, Nat.zero_add, issued]

theorem connectionCalls_questions (admin : Admin) : connectionCalls admin.questions = admin.questions := by
  unfold questions
  cases admin.strict <;> rfl

theorem statements_questions (admin : Admin) : statements admin.questions = [] := by
  unfold questions
  cases admin.strict <;> rfl

/-! ## Outcomes -/

/-- the answer says that the mode was cleared -/
def clears : Except StatementFailed Bool → Bool
  | .ok cleared => cleared
  | .error _ => false

@[simp] theorem noting_ok_false (admin : Admin) : admin.noting (.ok false) = admin := rfl

@[simp] theorem noting_error (admin : Admin) (e : StatementFailed) : admin.noting (.error e) = admin := rfl

@[simp] theorem strictModeDisabled_noting (admin : Admin) (outcome : Except StatementFailed Bool) :
    (admin.noting outcome).strictModeDisabled = (admin.strictModeDisabled || clears outcome) := by
  match outcome with
  | .ok true => simp [noting, clears]
  | .ok false => simp [noting, clears]
  | .error e => simp [noting, clears]

@[simp] theorem translator_noting (admin : Admin) (outcome : Except StatementFailed Bool) :
    (admin.noting outcome).translator = admin.translator := by
  unfold noting
  split <;> rfl

/-! ## Turns -/

/-- attempts that have had their turn: what they left behind, and what they answered -/
structure Turns where
  admin : Admin
  events : List Event
  outcomes : List (Except StatementFailed Bool)

/-- what the next attempt to have its turn comes to -/
def Turns.next (connection : Nat → Connection) (turns : Turns) : Admin × Traced StatementFailed Bool :=
  turns.admin.disableStrictMode (connection (issued turns.events))

def turn (connection : Nat → Connection) (turns : Turns) : Turns :=
  ⟨(turns.next connection).1, turns.events ++ (turns.next connection).2.events,
    turns.outcomes ++ [(turns.next connection).2.outcome]⟩

/-- so many attempts, one after another -/
def inTurn (connection : Nat → Connection) (admin : Admin) : Nat → Turns
  | 0 => ⟨admin, [], []⟩
  | attempts + 1 => turn connection (inTurn connection admin attempts)

/-- the flag is up once the mode was cleared, which happened once at most -/
structure Turns.Once (connection : Nat → Connection) (turns : Turns) : Prop where
  active : turns.admin.active = true
  cleared : turns.outcomes.countP clears = turns.admin.strictModeDisabled.toNat
  successes : successes connection turns.events = turns.admin.strictModeDisabled.toNat

theorem once_turn {turns : Turns} (h : turns.Once connection) : (turn connection turns).Once connection := by
  obtain ⟨hactive, hcleared, hsuccesses⟩ := h
  have hattempt := attempt_clearStrictMode turns.admin (connection (issued turns.events))
  simp only [turn, Turns.next, disableStrictMode]
  generalize turns.admin.clearStrictMode _ = attempt at hattempt
  cases hattempt with
  | needless => exact ⟨hactive, by simpa [clears] using hcleared, by simpa [clears] using hsuccesses⟩
  | lax =>
    refine ⟨hactive, by simpa [clears] using hcleared, ?_⟩
    simpa [successes_append, statements_questions, clears] using hsuccesses
  | failed _ _ _ hfails =>
    refine ⟨hactive, by simpa [clears] using hcleared, ?_⟩
    simpa [successes_append, statements_questions, hfails, clears] using hsuccesses
  | cleared _ hdown _ hfails =>
    rw [hdown] at hcleared hsuccesses
    refine ⟨hactive, ?_, ?_⟩
    · simp [List.countP_append, hcleared, clears]
    · simp [successes_append, statements_questions, hsuccesses, hfails, clears, clearedRecord]

theorem once_inTurn (connection : Nat → Connection) (hactive : admin.active = true)
    (hdown : admin.strictModeDisabled = false) (attempts : Nat) :
    (inTurn connection admin attempts).Once connection := by
  induction attempts with
  | zero => exact ⟨hactive, by simp [inTurn, hdown], by simp [inTurn, hdown, successes, statements]⟩
  | succ attempts ih => exact once_turn ih

theorem length_outcomes_inTurn (attempts : Nat) : (inTurn connection admin attempts).outcomes.length = attempts := by
  induction attempts with
  | zero => rfl
  | succ attempts ih => rw [inTurn, turn, List.length_append, ih]; rfl

end Admin

end SqlDialects
