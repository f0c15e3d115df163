/-
Runs of an administration: any calls in any order, while the configuration of the connection and the statements that
fail may be others in every call.

- `Admin.history`: the calls of a run, each with what it did, what it answered, and the flag before and after it.
- `lawful_perform`: what one call does, whichever it is and whatever came before.
- `clearedOnce_history`: the flag is down until the one call that clears the SQL mode, and up for ever after.
-/
import Mathlib.Algebra.GroupWithZero.Nat
import SqlDialects.Proofs.Schema.StrictMode

namespace SqlDialects

namespace Admin

/-! ## Calls and runs -/

/-- the operations of an administration -/
inductive Operation where
  | disableStrictMode
  | convertTimestamps (table : String) (columns : Columns)
deriving DecidableEq, Repr

inductive Answer where
  | disabled (outcome : Except StatementFailed Bool)
  | converted (outcome : Except StatementFailed Unit)

/-- a call and what came of it; the flag is `strictModeDisabled` -/
structure Call where
  operation : Operation
  connection : Connection
  events : List Event
  answer : Answer
  flagBefore : Bool
  flagAfter : Bool

/-- the call cleared the SQL mode, and says so -/
def Call.cleared (call : Call) : Bool :=
  match call.answer with
  | .disabled (.ok cleared) => cleared
  | _ => false

/-- how many times the SQL mode was cleared on the connection during the call -/
def Call.successes (call : Call) : Nat :=
  if call.connection.fails clearMode then 0 else call.events.count (.statement clearMode)

def Call.connectionCalls (call : Call) : List Event := call.events.filter Event.isConnectionCall

/-- the administration after a call, and the call -/
def perform (admin : Admin) (connection : Connection) : Operation → Admin × Call
  | .disableStrictMode =>
    let (next, attempt) := admin.disableStrictMode connection
    (next, ⟨.disableStrictMode, connection, attempt.events, .disabled attempt.outcome, admin.strictModeDisabled,
      next.strictModeDisabled⟩)
  | .convertTimestamps table columns =>
    let conversion := admin.convertTimestamps connection table columns
    (admin, ⟨.convertTimestamps table columns, connection, conversion.events, .converted conversion.outcome,
      admin.strictModeDisabled, admin.strictModeDisabled⟩)

/-- the calls of a run, each on the connection as it is then -/
def history (admin : Admin) : List (Operation × Connection) → List Call
  | [] => []
  | (operation, connection) :: rest =>
    (admin.perform connection operation).2 :: (admin.perform connection operation).1.history rest

theorem history_cons (admin : Admin) (operation : Operation) (connection : Connection)
    (rest : List (Operation × Connection)) : admin.history ((operation, connection) :: rest) =
      (admin.perform connection operation).2 :: (admin.perform connection operation).1.history rest := rfl

/-! ## One call -/

/-- what a call may do: `admin` tells the driver and the strictness it was built with, the call itself the flag -/
structure Call.Lawful (admin : Admin) (call : Call) : Prop where
  /-- the flag goes up with the call that clears the mode, and never down -/
  flag_eq : call.flagAfter = (call.flagBefore || call.cleared)
  /-- the mode is cleared only while the flag is down -/
  down_of_cleared : call.cleared = true → call.operation = .disableStrictMode ∧ call.flagBefore = false
  /-- the statement succeeds in the call that clears the mode, once, and in no other -/
  successes_eq : call.successes = if call.cleared then 1 else 0
  /-- as long as the flag is down the statement is issued wherever it applies, after a failure again -/
  issued_iff : .statement clearMode ∈ call.events ↔ call.operation = .disableStrictMode ∧ admin.active = true ∧
    call.flagBefore = false ∧ admin.configuredStrict call.connection = true
  /-- where the statement fails the caller is told -/
  failed_iff : call.answer = .disabled (.error ⟨clearMode⟩) ↔
    .statement clearMode ∈ call.events ∧ call.connection.fails clearMode = true
  /-- an attempt that fails leaves the flag down -/
  down_of_failed : ∀ e, call.answer = .disabled (.error e) → call.flagAfter = false
  /-- other operations leave the flag as it is -/
  kept : call.operation ≠ .disableStrictMode → call.flagAfter = call.flagBefore
  /-- with the flag up there is nothing to do -/
  quiet : call.operation = .disableStrictMode → call.flagBefore = true → call.connectionCalls = []
  /-- the configuration is read only where the administration was not told -/
  asked : ∀ key, .readConfig key ∈ call.events →
    call.operation = .disableStrictMode ∧ admin.strict = none ∧ key = "strict"
  /-- for another driver nothing happens on the connection -/
  inactive : admin.active = false → call.connectionCalls = [] ∧ call.cleared = false

theorem mem_questions {admin : Admin} {event : Event} :
    event ∈ admin.questions ↔ admin.strict = none ∧ event = .readConfig "strict" := by
  unfold questions
  cases admin.strict <;> simp

theorem count_questions (admin : Admin) (sql : String) : admin.questions.count (.statement sql) = 0 := by
  rw [List.count_eq_zero, mem_questions]
  intro h; cases h.2

theorem lawful_disableStrictMode (admin : Admin) (connection : Connection) :
    (admin.perform connection .disableStrictMode).2.Lawful admin := by
  have hattempt := attempt_clearStrictMode admin connection
  simp only [perform, disableStrictMode]
  generalize admin.clearStrictMode connection = attempt at *
  cases hattempt with
  | needless h =>
    have hidle (strict : Prop) : ¬ (admin.active = true ∧ admin.strictModeDisabled = false ∧ strict) := by
      rintro ⟨ha, hd, -⟩
      rcases h with h | h
      · rw [h] at ha; cases ha
      · rw [h] at hd; cases hd
    constructor <;> simp [noting, Call.cleared, Call.successes, Call.connectionCalls, hidle]
  | lax ha hd hs =>
    constructor <;> simp [noting, Call.cleared, Call.successes, Call.connectionCalls, ha, hd, hs, mem_questions,
      count_questions]
  | failed ha hd hs hf =>
    constructor <;> simp [noting, Call.cleared, Call.successes, Call.connectionCalls, ha, hd, hs, hf, mem_questions]
  | cleared ha hd hs hf =>
    constructor <;> simp [noting, Call.cleared, Call.successes, Call.connectionCalls, ha, hd, hs, hf, mem_questions,
      count_questions, clearedRecord]

theorem lawful_convertTimestamps (admin : Admin) (connection : Connection) (table : String) (columns : Columns) :
    (admin.perform connection (.convertTimestamps table columns)).2.Lawful admin := by
  have hevents {event : Event} (h : event ∈ (admin.convertTimestamps connection table columns).events) :
      admin.active = true ∧ Conversion (admin.translator.tablePrefix ++ table) event := event_of_convertTimestamps h
  simp only [perform]
  generalize admin.convertTimestamps connection table columns = conversion at *
  have hmode : .statement clearMode ∉ conversion.events := fun h => not_conversion_clearMode _ (hevents h).2
  have hasked (key : String) : .readConfig key ∉ conversion.events := by
    intro h; cases (hevents h).2
  refine
    { flag_eq := by simp [Call.cleared]
      down_of_cleared := by simp [Call.cleared]
      successes_eq := by simp [Call.successes, Call.cleared, List.count_eq_zero.2 hmode]
      issued_iff := by simp [hmode]
      failed_iff := by simp [hmode]
      down_of_failed := by simp
      kept := fun _ => rfl
      quiet := by simp
      asked := fun key h => absurd h (hasked key)
      inactive := fun h => ⟨?_, rfl⟩ }
  rw [Call.connectionCalls, List.filter_eq_nil_iff]
  intro event hevent
  rw [h] at hevents
  exact absurd (hevents hevent).1 Bool.false_ne_true

theorem lawful_perform (admin : Admin) (connection : Connection) (operation : Operation) :
    (admin.perform connection operation).2.Lawful admin := by
  cases operation with
  | disableStrictMode => exact lawful_disableStrictMode admin connection
  | convertTimestamps table columns => exact lawful_convertTimestamps admin connection table columns

/-- a call changes nothing of the administration but the flag -/
theorem perform_eq (admin : Admin) (connection : Connection) (operation : Operation) :
    (admin.perform connection operation).2.flagBefore = admin.strictModeDisabled ∧
      (admin.perform connection operation).1 =
        { admin with strictModeDisabled := (admin.perform connection operation).2.flagAfter } := by
  cases operation with
  | disableStrictMode =>
    refine ⟨rfl, ?_⟩
    simp only [perform, disableStrictMode]
    generalize (admin.clearStrictMode connection).outcome = outcome
    unfold noting
    split <;> rfl
  | convertTimestamps table columns => exact ⟨rfl, rfl⟩

/-! ## Runs -/

theorem lawful_history {admin : Admin} {calls : List (Operation × Connection)} {call : Call}
    (h : call ∈ admin.history calls) : call.Lawful admin := by
  induction calls generalizing admin with
  | nil => cases h
  | cons first rest ih =>
    obtain ⟨operation, connection⟩ := first
    rw [history_cons] at h
    rcases List.mem_cons.1 h with rfl | h
    · exact lawful_perform admin connection operation
    · -- nothing that the law says of a call depends on the flag of the administration
      have hlawful := ih h
      rw [(perform_eq admin connection operation).2] at hlawful
      exact { hlawful with }

/-- with the flag up, no call clears the mode or takes the flag down -/
theorem history_up {admin : Admin} (hup : admin.strictModeDisabled = true) {calls : List (Operation × Connection)}
    {call : Call} (h : call ∈ admin.history calls) :
    call.cleared = false ∧ call.flagBefore = true ∧ call.flagAfter = true := by
  induction calls generalizing admin with
  | nil => cases h
  | cons first rest ih =>
    obtain ⟨operation, connection⟩ := first
    have hlawful := lawful_perform admin connection operation
    obtain ⟨hbefore, hnext⟩ := perform_eq admin connection operation
    have hafter := hlawful.flag_eq
    rw [hup] at hbefore
    rw [hbefore, Bool.true_or] at hafter
    rw [history_cons] at h
    rcases List.mem_cons.1 h with rfl | h
    · refine ⟨?_, hbefore, hafter⟩
      cases hc : (admin.perform connection operation).2.cleared with
      | false => rfl
      | true => rw [(hlawful.down_of_cleared hc).2] at hbefore; cases hbefore
    · refine ih ?_ h
      rw [hnext]; exact hafter

/-- the flag over a run that begins with it down -/
inductive FlagHistory (calls : List Call) : Prop
  | down : (∀ call ∈ calls, call.cleared = false ∧ call.flagBefore = false ∧ call.flagAfter = false) →
      FlagHistory calls
  | raised (earlier : List Call) (call : Call) (later : List Call) : calls = earlier ++ call :: later →
      call.operation = .disableStrictMode → call.cleared = true → call.flagBefore = false → call.flagAfter = true →
      (∀ call ∈ earlier, call.cleared = false ∧ call.flagBefore = false ∧ call.flagAfter = false) →
      (∀ call ∈ later, call.cleared = false ∧ call.flagBefore = true ∧ call.flagAfter = true) → FlagHistory calls

theorem flagHistory_history {admin : Admin} (hdown : admin.strictModeDisabled = false)
    (calls : List (Operation × Connection)) : FlagHistory (admin.history calls) := by
  induction calls generalizing admin with
  | nil => exact .down fun call h => by cases h
  | cons first rest ih =>
    obtain ⟨operation, connection⟩ := first
    have hlawful := lawful_perform admin connection operation
    obtain ⟨hbefore, hnext⟩ := perform_eq admin connection operation
    have hafter := hlawful.flag_eq
    rw [hdown] at hbefore
    rw [hbefore, Bool.false_or] at hafter
    rw [history_cons]
    cases hc : (admin.perform connection operation).2.cleared with
    | true =>
      rw [hc] at hafter
      refine .raised [] _ _ rfl (hlawful.down_of_cleared hc).1 hc hbefore hafter (fun call h => by cases h) ?_
      intro call h
      exact history_up (by rw [hnext]; exact hafter) h
    | false =>
      rw [hc] at hafter
      have hfirst := And.intro hc (And.intro hbefore hafter)
      have hdown' : (admin.perform connection operation).1.strictModeDisabled = false := by rw [hnext]; exact hafter
      rcases ih hdown' with hrest | ⟨earlier, call, later, hrest, hop, hcleared, hlow, hup, hearlier, hlater⟩
      · exact .down (List.forall_mem_cons.2 ⟨hfirst, hrest⟩)
      · refine .raised (_ :: earlier) call later ?_ hop hcleared hlow hup (List.forall_mem_cons.2 ⟨hfirst, hearlier⟩)
          hlater
        rw [hrest, List.cons_append]

theorem FlagHistory.sum_cleared_le {calls : List Call} (h : FlagHistory calls) :
    (calls.map fun call => if call.cleared then 1 else 0).sum ≤ 1 := by
  have hnone {calls : List Call} (h : ∀ call ∈ calls, call.cleared = false) :
      (calls.map fun call => if call.cleared then 1 else 0).sum = 0 := by
    rw [List.sum_eq_zero_iff_forall_eq_nat]
    intro n hn
    obtain ⟨call, hcall, rfl⟩ := List.mem_map.1 hn
    rw [h call hcall]; rfl
  cases h with
  | down hall => rw [hnone fun call hcall => (hall call hcall).1]; exact Nat.zero_le 1
  | raised earlier call later hcalls _ hcleared _ _ hearlier hlater =>
    rw [hcalls, List.map_append, List.map_cons, List.sum_append, List.sum_cons,
      hnone fun call hcall => (hearlier call hcall).1, hnone fun call hcall => (hlater call hcall).1, hcleared]
    simp

/-- what may be said of all runs -/
structure ClearedOnce (admin : Admin) (calls : List Call) : Prop where
  flag : FlagHistory calls
  lawful : ∀ call ∈ calls, call.Lawful admin
  successes_le : (calls.map Call.successes).sum ≤ 1
  /-- for another driver the flag stays down, and nothing happens on the connection -/
  inactive : admin.active = false → ∀ call ∈ calls, call.connectionCalls = [] ∧ call.flagAfter = false

/-- **The SQL mode is cleared once at most**, in every run of an administration that was just built: by the call that
says so, which raises the flag for ever. Attempts that fail leave it down, and the next one tries again. -/
theorem clearedOnce_history (translator : Translator) (strict : Option Bool) (calls : List (Operation × Connection)) :
    ClearedOnce { translator, strict } (history { translator, strict } calls) := by
  have hflag : FlagHistory (history { translator, strict } calls) := flagHistory_history rfl calls
  have hlawful : ∀ call ∈ history { translator, strict } calls, call.Lawful { translator, strict } :=
    fun call h => lawful_history h
  refine ⟨hflag, hlawful, ?_, ?_⟩
  · rw [List.map_congr_left fun call h => (hlawful call h).successes_eq]
    exact hflag.sum_cleared_le
  · intro hactive call hcall
    refine ⟨((hlawful call hcall).inactive hactive).1, ?_⟩
    cases hflag with
    | down hall => exact (hall call hcall).2.2
    | raised earlier raising later hcalls _ hcleared =>
      have hmem : raising ∈ history { translator, strict } calls := by rw [hcalls]; simp
      rw [((hlawful raising hmem).inactive hactive).2] at hcleared; cases hcleared

/-- a failure, the attempt after it, and one that is needless -/
example : ((history { translator := ⟨Dialect.mysql, "", [], true⟩, strict := none }
    [(.disableStrictMode, ⟨fun _ => .null, fun _ => true⟩), (.disableStrictMode, ⟨fun _ => .null, fun _ => false⟩),
      (.disableStrictMode, ⟨fun _ => .null, fun _ => false⟩)]).map fun call => (call.successes, call.flagAfter)) =
    [(0, false), (1, true), (0, true)] := by decide

end Admin

end SqlDialects
