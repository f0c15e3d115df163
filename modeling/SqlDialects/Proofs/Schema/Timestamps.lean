/-
The conversion of timestamps as a script of events, played until the connection refuses a call.

- `Connection.Played`: a script is played to its end, or up to and including the first call that is refused; the error is
  that of this call.
- `Played.andThen`: scripts are played one after the other; `Played.connectionCalls`: what the connection sees of it.
- `played_convertColumns`: the conversion plays the script of its columns, one record and two calls for each.
- `stopsAtFailure_convertTimestamps`: so it stops exactly at the first failure, leaves the administration alone, and
  begins at the first column again when it is repeated.
-/
import SqlDialects.Proofs.Schema.History
import SqlDialects.Proofs.Schema.Turns

namespace SqlDialects

/-- the SQL that an event hands to the connection -/
def Event.sql? : Event → Option String
  | statement sql => some sql
  | update sql => some sql
  | _ => none

namespace Connection

/-- the event is a call that fails -/
def refuses (connection : Connection) (event : Event) : Bool := event.sql?.any connection.fails

/-- **What comes of a script**: all of it, or what leads up to the first call that is refused, and that call. -/
inductive Played (connection : Connection) : (script : List Event) → Traced StatementFailed Unit → Prop
  | through {script : List Event} : (∀ event ∈ script, connection.refuses event = false) →
      Played connection script ⟨script, .ok ()⟩
  | stopped {done later : List Event} {event : Event} {sql : String} :
      (∀ event ∈ done, connection.refuses event = false) → event.sql? = some sql → connection.fails sql = true →
      Played connection (done ++ event :: later) ⟨done ++ [event], .error ⟨sql⟩⟩

variable {connection : Connection} {script more : List Event} {event : Event} {sql : String}

theorem refuses_of_sql? (h : event.sql? = some sql) : connection.refuses event = connection.fails sql := by
  simp [refuses, h]

theorem isConnectionCall_of_sql? (h : event.sql? = some sql) : event.isConnectionCall = true := by
  cases event <;> first | rfl | cases h

namespace Played

theorem log (record : Record) : Played connection [.log record] ⟨[.log record], .ok ()⟩ :=
  .through (by simp [refuses, Event.sql?])

theorem call (h : event.sql? = some sql) : Played connection [event] (connection.call event sql) := by
  rw [call_eq]
  cases hfails : connection.fails sql with
  | true =>
    have hstopped : Played connection ([] ++ [event]) ⟨[] ++ [event], .error ⟨sql⟩⟩ := .stopped (by simp) h hfails
    exact hstopped
  | false => exact .through (by simp [refuses_of_sql? h, hfails])

/-- a script is played behind another one if that was played to its end -/
theorem andThen {x : Traced StatementFailed Unit} {next : Unit → Traced StatementFailed Unit}
    (h : Played connection script x) (hnext : Played connection more (next ())) :
    Played connection (script ++ more) (x >>= next) := by
  cases h with
  | through hscript =>
    rw [Traced.bind_answer]
    generalize next () = y at hnext ⊢
    cases hnext with
    | through hmore => exact .through (List.forall_mem_append.2 ⟨hscript, hmore⟩)
    | stopped hdone hsql hfails =>
      simp only [← List.append_assoc]
      exact .stopped (List.forall_mem_append.2 ⟨hscript, hdone⟩) hsql hfails
  | stopped hdone hsql hfails =>
    rw [Traced.bind_failure, List.append_assoc, List.cons_append]
    exact .stopped hdone hsql hfails

/-- what the connection sees: the calls of the script, up to and including the first that is refused -/
theorem connectionCalls {x : Traced StatementFailed Unit} (h : Played connection script x) :
    Played connection (Admin.connectionCalls script) ⟨Admin.connectionCalls x.events, x.outcome⟩ := by
  have hcalls {events : List Event} (h : ∀ event ∈ events, connection.refuses event = false) :
      ∀ event ∈ Admin.connectionCalls events, connection.refuses event = false :=
    fun event he => h event (List.mem_filter.1 he).1
  cases h with
  | through hscript => exact .through (hcalls hscript)
  | stopped hdone hsql hfails =>
    have hcall (later : List Event) : Admin.connectionCalls (_ :: later) = _ :: Admin.connectionCalls later :=
      List.filter_cons_of_pos (isConnectionCall_of_sql? hsql)
    rw [Admin.connectionCalls_append, Admin.connectionCalls_append, hcall, hcall]
    exact .stopped (hcalls hdone) hsql hfails

/-- where nothing is refused the script is played to its end -/
theorem eq_script {x : Traced StatementFailed Unit} (h : Played connection script x)
    (hall : ∀ event ∈ script, connection.refuses event = false) : x = ⟨script, .ok ()⟩ := by
  cases h with
  | through => rfl
  | stopped _ hsql hfails =>
    have hnot := hall _ (List.mem_append_right _ List.mem_cons_self)
    rw [refuses_of_sql? hsql, hfails] at hnot; cases hnot

end Played

end Connection

namespace Admin

variable {connection : Connection}

/-! ## The script -/

def convertingRecord (table column : String) : Record :=
  ⟨.schema, .info, "Converting " ++ table ++ "." ++ column ++ " to nullable TIMESTAMP"⟩

/-- a record and two calls for each column, in order -/
def conversionScript (table : String) (columns : List String) : List Event :=
  columns.flatMap fun column => [.log (convertingRecord table column), .statement (nullableStatement table column),
    .update (clearZeroDates table column)]

/-- the calls among them -/
def conversionCalls (table : String) (columns : List String) : List Event :=
  columns.flatMap fun column => [.statement (nullableStatement table column), .update (clearZeroDates table column)]

theorem conversionScript_cons (table column : String) (columns : List String) :
    conversionScript table (column :: columns) = [.log (convertingRecord table column)] ++
      ([.statement (nullableStatement table column)] ++ ([.update (clearZeroDates table column)])) ++
      conversionScript table columns := List.flatMap_cons

theorem connectionCalls_conversionScript (table : String) (columns : List String) :
    connectionCalls (conversionScript table columns) = conversionCalls table columns := by
  induction columns with
  | nil => rfl
  | cons column columns ih => rw [conversionScript_cons, connectionCalls_append, ih]; rfl

theorem length_conversionCalls (table : String) (columns : List String) :
    (conversionCalls table columns).length = 2 * columns.length := by
  induction columns with
  | nil => rfl
  | cons column columns ih =>
    rw [conversionCalls, List.flatMap_cons, ← conversionCalls, List.length_append, ih, List.length_cons]
    simp; omega

theorem played_convertColumn (connection : Connection) (table column : String) :
    connection.Played ([.log (convertingRecord table column)] ++
      ([.statement (nullableStatement table column)] ++ [.update (clearZeroDates table column)]))
      (convertColumn connection table column) :=
  (Connection.Played.log _).andThen ((Connection.Played.call rfl).andThen (Connection.Played.call rfl))

theorem played_convertColumns (connection : Connection) (table : String) (columns : List String) :
    connection.Played (conversionScript table columns) (convertColumns connection table columns) := by
  induction columns with
  | nil => exact .through (by simp [conversionScript])
  | cons column columns ih =>
    rw [conversionScript_cons]
    exact (played_convertColumn connection table column).andThen ih

/-! ## Records -/

/-- a column that is begun leaves one record and is one first call, whether it fails or not -/
theorem begun_convertColumn (connection : Connection) (table column : String) :
    (convertColumn connection table column).records = [convertingRecord table column] ∧
      issued (convertColumn connection table column).events = 1 := by
  have hlog : Traced.log (ε := StatementFailed) .schema .info
      ("Converting " ++ table ++ "." ++ column ++ " to nullable TIMESTAMP") =
      ⟨[.log (convertingRecord table column)], .ok ()⟩ := rfl
  rw [convertColumn, hlog, Traced.bind_answer, Connection.execute, Connection.call_eq]
  cases connection.fails (nullableStatement table column) with
  | true => exact ⟨rfl, rfl⟩
  | false =>
    rw [if_neg Bool.false_ne_true, Traced.bind_answer, Connection.update, Connection.call_eq]
    exact ⟨rfl, rfl⟩

/-- **One record for each column that was begun**, and so for each first call. -/
theorem records_convertColumns (connection : Connection) (table : String) (columns : List String) :
    (convertColumns connection table columns).records =
      (columns.take (issued (convertColumns connection table columns).events)).map (convertingRecord table) := by
  induction columns with
  | nil => rfl
  | cons column columns ih =>
    obtain ⟨hrecords, hissued⟩ := begun_convertColumn connection table column
    rw [convertColumns]
    cases houtcome : (convertColumn connection table column).outcome with
    | error e =>
      rw [Traced.bind_of_error _ houtcome]
      show (convertColumn connection table column).records = _
      rw [hrecords, hissued]; rfl
    | ok _ =>
      rw [Traced.bind_of_ok _ houtcome]
      have hsum : issued ((convertColumn connection table column).events ++
          (convertColumns connection table columns).events) =
          issued (convertColumns connection table columns).events + 1 := by
        rw [issued, statements_append, List.length_append, ← issued, hissued, ← issued, Nat.add_comm]
      calc _ = (convertColumn connection table column).records ++ (convertColumns connection table columns).records :=
            List.filterMap_append
        _ = _ := by rw [hrecords, ih, hsum]; rfl

/-! ## The conversion -/

/-- what the connection, the log and the caller see of a conversion -/
structure StopsAtFailure (connection : Connection) (table : String) (columns : List String)
    (conversion : Traced StatementFailed Unit) : Prop where
  /-- two calls a column in order, up to and including the first that fails, whose error is the answer -/
  calls : connection.Played (conversionCalls table columns) ⟨connectionCalls conversion.events, conversion.outcome⟩
  /-- each record stands in front of the calls it announces -/
  script : connection.Played (conversionScript table columns) conversion
  /-- a record for each column begun -/
  records : conversion.records = (columns.take (issued conversion.events)).map (convertingRecord table)

/-- **The conversion stops exactly at the first failure.** The administration is as it was, the flag included, so that a
repetition, once nothing fails any more, plays the whole script: two calls for each column, also for one that was
converted before. -/
theorem stopsAtFailure_convertTimestamps {admin : Admin} (hactive : admin.active = true) (connection : Connection)
    (table : String) (columns : Columns) :
    let prefixed := admin.translator.tablePrefix ++ table
    let operation := Operation.convertTimestamps table columns
    StopsAtFailure connection prefixed columns.names (admin.convertTimestamps connection table columns) ∧
      (admin.perform connection operation).1 = admin ∧
      (conversionCalls prefixed columns.names).length = 2 * columns.names.length ∧
      ∀ later : Connection, (∀ event ∈ conversionCalls prefixed columns.names, later.refuses event = false) →
        connectionCalls ((admin.perform connection operation).1.convertTimestamps later table columns).events =
            conversionCalls prefixed columns.names ∧
          ((admin.perform connection operation).1.convertTimestamps later table columns).outcome = .ok () := by
  have hplayed (connection : Connection) : StopsAtFailure connection (admin.translator.tablePrefix ++ table)
      columns.names (admin.convertTimestamps connection table columns) := by
    have hscript := played_convertColumns connection (admin.translator.tablePrefix ++ table) columns.names
    rw [convertTimestamps, if_pos hactive]
    refine ⟨?_, hscript, records_convertColumns _ _ _⟩
    rw [← connectionCalls_conversionScript]
    exact hscript.connectionCalls
  refine ⟨hplayed connection, rfl, length_conversionCalls _ _, fun later hlater => ?_⟩
  have hall := (hplayed later).calls.eq_script hlater
  simp only [Traced.mk.injEq] at hall
  exact hall

/-- the second statement for the second column fails: the third column is not begun, and a repetition begins at the
first again, which is named twice and so converted twice -/
theorem stopsAtFailure_secondColumn :
    let admin : Admin := { translator := ⟨Dialect.mysql, "shop_", [], true⟩, strict := none }
    let columns := Columns.several ["paid", "sent", "paid"]
    let connection : Connection := ⟨fun _ => .null, (· == clearZeroDates "shop_orders" "sent")⟩
    let repaired : Connection := ⟨fun _ => .null, fun _ => false⟩
    admin.active = true ∧
      StopsAtFailure connection "shop_orders" columns.names (admin.convertTimestamps connection "orders" columns) ∧
      connectionCalls (admin.convertTimestamps connection "orders" columns).events =
        conversionCalls "shop_orders" ["paid", "sent"] ∧
      (admin.convertTimestamps connection "orders" columns).outcome = .error ⟨clearZeroDates "shop_orders" "sent"⟩ ∧
      (connectionCalls ((admin.perform connection (.convertTimestamps "orders" columns)).1.convertTimestamps repaired
        "orders" columns).events).length = 6 := by
  intro admin columns connection repaired
  have hactive : admin.active = true := by decide
  obtain ⟨hstops, -, hlength, hrepeat⟩ := stopsAtFailure_convertTimestamps hactive connection "orders" columns
  have hall : ∀ event ∈ conversionCalls "shop_orders" columns.names, repaired.refuses event = false := by decide
  refine ⟨hactive, hstops, by decide, rfl, ?_⟩
  rw [(hrepeat repaired hall).1]
  exact hlength

end Admin

end SqlDialects
