/-
One attempt to clear the SQL mode, and what the conversion of timestamps does besides.

- `attempt_clearStrictMode`: an attempt is needless, finds the session lax, fails, or clears the mode; what it asks of
  the connection and what it answers is told by that.
- `event_of_convertTimestamps`: the conversion reads no configuration and never issues the statement that clears the
  mode.
-/
import SqlDialects.Schema.Admin

namespace SqlDialects

namespace Traced

variable {ε α β : Type}

theorem bind_answer (events : List Event) (a : α) (next : α → Traced ε β) :
    (⟨events, .ok a⟩ >>= next : Traced ε β) = ⟨events ++ (next a).events, (next a).outcome⟩ :=
  bind_of_ok next rfl

theorem bind_failure (events : List Event) (e : ε) (next : α → Traced ε β) :
    (⟨events, .error e⟩ >>= next : Traced ε β) = ⟨events, .error e⟩ :=
  bind_of_error next rfl

/-- an event of two computations, one after the other, is one of the first, or of the second if that is reached -/
theorem mem_events_bind {first : Traced ε α} {next : α → Traced ε β} {event : Event}
    (h : event ∈ (first >>= next).events) : event ∈ first.events ∨ ∃ a, event ∈ (next a).events := by
  cases ho : first.outcome with
  | error e => rw [bind_of_error next ho] at h; exact Or.inl h
  | ok a =>
    rw [bind_of_ok next ho] at h
    exact (List.mem_append.1 h).imp_right fun h => ⟨a, h⟩

end Traced

namespace Admin

variable {admin : Admin} {connection : Connection}

/-! ## Strict mode -/

/-- whether the session counts as strict -/
def configuredStrict (admin : Admin) (connection : Connection) : Bool :=
  admin.strict.getD (connection.config "strict" != .bool false)

/-- what the connection is asked to find that out -/
def questions (admin : Admin) : List Event := if admin.strict.isNone then [.readConfig "strict"] else []

theorem isStrict_eq {ε : Type} (admin : Admin) (connection : Connection) :
    (admin.isStrict connection : Traced ε Bool) = ⟨admin.questions, .ok (admin.configuredStrict connection)⟩ := by
  unfold isStrict questions configuredStrict
  cases admin.strict with
  | some strict => rfl
  | none => rfl

/-- the record of an attempt that cleared the mode -/
def clearedRecord : Event := .log ⟨.schema, .info, "Strict mode disabled"⟩

/-- **What an attempt to clear the mode comes to.** -/
inductive Attempt (admin : Admin) (connection : Connection) : Traced StatementFailed Bool → Prop
  | needless : admin.active = false ∨ admin.strictModeDisabled = true → Attempt admin connection ⟨[], .ok false⟩
  | lax : admin.active = true → admin.strictModeDisabled = false → admin.configuredStrict connection = false →
      Attempt admin connection ⟨admin.questions, .ok false⟩
  | failed : admin.active = true → admin.strictModeDisabled = false → admin.configuredStrict connection = true →
      connection.fails clearMode = true →
      Attempt admin connection ⟨admin.questions ++ [.statement clearMode], .error ⟨clearMode⟩⟩
  | cleared : admin.active = true → admin.strictModeDisabled = false → admin.configuredStrict connection = true →
      connection.fails clearMode = false →
      Attempt admin connection ⟨admin.questions ++ [.statement clearMode, clearedRecord], .ok true⟩

theorem attempt_clearStrictMode (admin : Admin) (connection : Connection) :
    Attempt admin connection (admin.clearStrictMode connection) := by
  unfold clearStrictMode
  cases ha : admin.active with
  | false => exact .needless (Or.inl ha)
  | true =>
    cases hd : admin.strictModeDisabled with
    | true => exact .needless (Or.inr hd)
    | false =>
      cases hs : admin.configuredStrict connection with
      | false =>
        have hlax := Attempt.lax ha hd hs
        simpa [isStrict_eq, hs, Traced.bind_answer] using hlax
      | true =>
        cases hf : connection.fails clearMode with
        | true =>
          have hfailed := Attempt.failed ha hd hs hf
          simpa [isStrict_eq, hs, Connection.execute, Connection.call_eq, hf, Traced.bind_answer, Traced.bind_failure]
            using hfailed
        | false =>
          have hcleared := Attempt.cleared ha hd hs hf
          simpa [isStrict_eq, hs, Connection.execute, Connection.call_eq, hf, Traced.bind_answer, Traced.log,
            Traced.emit, clearedRecord] using hcleared

/-- what an attempt comes to is told by the administration and the connection -/
theorem Attempt.unique {attempt other : Traced StatementFailed Bool} (h : Attempt admin connection attempt)
    (hother : Attempt admin connection other) : attempt = other := by
  cases h <;> cases hother <;> simp_all

theorem Attempt.eq {attempt : Traced StatementFailed Bool} (h : Attempt admin connection attempt) :
    admin.clearStrictMode connection = attempt := (attempt_clearStrictMode admin connection).unique h

/-! ## Timestamps -/

/-- the events of a conversion: a record, the first statement for a column, or the second -/
inductive Conversion (table : String) : Event → Prop
  | record (record : Record) : Conversion table (.log record)
  | nullable (column : String) : Conversion table (.statement (nullableStatement table column))
  | zeroDates (column : String) : Conversion table (.update (clearZeroDates table column))

theorem conversion_of_convertColumn {table column : String} {event : Event}
    (h : event ∈ (convertColumn connection table column).events) : Conversion table event := by
  rcases Traced.mem_events_bind h with h | ⟨_, h⟩
  · rw [List.mem_singleton.1 h]; exact .record _
  · rcases Traced.mem_events_bind h with h | ⟨_, h⟩
    · rw [Connection.execute, Connection.call_eq] at h
      rw [List.mem_singleton.1 h]; exact .nullable column
    · rw [Connection.update, Connection.call_eq] at h
      rw [List.mem_singleton.1 h]; exact .zeroDates column

theorem conversion_of_convertColumns {table : String} {columns : List String} {event : Event}
    (h : event ∈ (convertColumns connection table columns).events) : Conversion table event := by
  induction columns with
  | nil => cases h
  | cons column columns ih =>
    rcases Traced.mem_events_bind h with h | ⟨_, h⟩
    · exact conversion_of_convertColumn h
    · exact ih h

theorem event_of_convertTimestamps {table : String} {columns : Columns} {event : Event}
    (h : event ∈ (admin.convertTimestamps connection table columns).events) :
    admin.active = true ∧ Conversion (admin.translator.tablePrefix ++ table) event := by
  unfold convertTimestamps at h
  split at h
  · rename_i hactive
    exact ⟨hactive, conversion_of_convertColumns h⟩
  · cases h

/-- the statements of a conversion begin with another word -/
theorem not_conversion_clearMode (table : String) : ¬ Conversion table (.statement clearMode) := by
  intro h
  generalize he : Event.statement clearMode = event at h
  cases h with
  | record => cases he
  | zeroDates => cases he
  | nullable column =>
    have hhead := congrArg (fun sql => sql.toList.head?) (Event.statement.inj he)
    have hset : clearMode.toList.head? = some 'S' := rfl
    have halter : (nullableStatement table column).toList.head? = some 'A' := by
      delta nullableStatement
      simp only [String.toList_append, List.append_assoc]
      rfl
    simp only [hset, halter] at hhead
    cases hhead

end Admin

end SqlDialects
