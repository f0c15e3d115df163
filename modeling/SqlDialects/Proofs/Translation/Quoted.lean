/-
What translation does to quoted text: to string literals, quoted names, and the marks around them. Only the joining of
fields knows of quotations; the other default rules edit what they find wherever it stands.

- `Capabilities.LeavesQuoted`: no rule that the dialect asks for finds anything in the quoted text of the fragment.
- `telltale_adapt`: the quoted text survives the default rules exactly then. Later rules do not restore what earlier
  ones edited.
- `quotedText_translated_iff`: so it is for every built-in dialect, and only for the reference does all quoted text of
  all fragments survive.
-/
import SqlDialects.Proofs.Aggregate.Quoted
import SqlDialects.Proofs.Translation.WellFormed

namespace SqlDialects

open Text Fragment

/-- no rule finds anything to edit in the quoted text of the fragment -/
structure Capabilities.LeavesQuoted (needs : Capabilities) (sql : Fragment) : Prop where
  aggregate : Aggregate.active needs = true → Aggregate.LeavesQuoted needs .outside sql
  coalesce : ∀ name ∈ needs.coalesceFunction,
    NoMatch (NullCoalesce.functionName name.toList) none (quotedText sql)
  booleans : needs.integerBooleans = true → NoMatch BooleanLiteral.comparison none (quotedText sql)

/-- every new name leaves a trace in the place of the old one -/
structure Capabilities.TellingNames (needs : Capabilities) : Prop where
  aggregate : ∀ name ∈ needs.aggregateFunction, traces Aggregate.callName < traces name.toList
  coalesce : ∀ name ∈ needs.coalesceFunction, traces NullCoalesce.callName < traces name.toList

theorem tellingNames_builtin (driver : Driver) : (Dialect.builtin driver).capabilities.TellingNames := by
  cases driver
  all_goals exact ⟨by decide, by decide⟩

/-- **The quoted text that the default rules leave tells whether they edited any of it.** -/
theorem telltale_adapt {needs : Capabilities} (hn : needs.FlatNames) (ht : needs.TellingNames) (sql : Fragment) :
    Telltale (needs.LeavesQuoted sql) (quotedText sql) (quotedText (adapt Rule.defaults needs sql).sql) := by
  rw [sql_adapt_defaults]
  have haggregate := Aggregate.telltale_apply hn.aggregate ht.aggregate sql
  -- the joining of fields has nothing to tell: it keeps the quoted text
  rw [← FieldConcat.quotedText_apply hn.concat (Aggregate.apply needs sql)] at haggregate
  have hcoalesce := haggregate.andThen
    (Q := fun quoted => ∀ name ∈ needs.coalesceFunction,
      NoMatch (NullCoalesce.functionName name.toList) none quoted)
    (NullCoalesce.telltale_apply hn.coalesce ht.coalesce _)
  have hbooleans := hcoalesce.andThen
    (Q := fun quoted => needs.integerBooleans = true → NoMatch BooleanLiteral.comparison none quoted)
    (BooleanLiteral.telltale_apply needs _)
  refine hbooleans.congr ?_
  refine ⟨?_, ?_⟩
  · intro h
    obtain ⟨⟨h1, h2⟩, h3⟩ := h
    exact ⟨h1, h2, h3⟩
  · intro h; exact ⟨⟨h.aggregate, h.coalesce⟩, h.booleans⟩

/-! ## Built-in dialects -/

/-- an opening of the function in a literal is edited -/
theorem not_leavesQuoted_of_coalesce {needs : Capabilities} {name : String} (h : needs.coalesceFunction = some name) :
    ¬ needs.LeavesQuoted "'IFNULL('".toList := by
  intro hleaves
  have hno := (hleaves.coalesce name h).2.1
  cases hno

/-- a comparison in a literal is edited -/
theorem not_leavesQuoted_of_booleans {needs : Capabilities} (h : needs.integerBooleans = true) :
    ¬ needs.LeavesQuoted "'a=true '".toList := by
  intro hleaves
  have hno := (hleaves.booleans h).2.1
  cases hno

/-- only the reference dialect leaves all quoted text alone -/
theorem leavesQuoted_builtin_iff (driver : Driver) :
    (∀ sql, (Dialect.builtin driver).capabilities.LeavesQuoted sql) ↔ driver = .reference := by
  cases driver with
  | mysql =>
    refine ⟨fun _ => rfl, fun _ sql => ⟨?_, ?_, ?_⟩⟩
    · intro h; cases h
    · intro name h; cases h
    · intro h; cases h
  | sqlite =>
    refine ⟨?_, ?_⟩
    · intro h; exact absurd (h _) (not_leavesQuoted_of_booleans rfl)
    · intro h; cases h
  | _ =>
    refine ⟨?_, ?_⟩
    · intro h; exact absurd (h _) (not_leavesQuoted_of_coalesce rfl)
    · intro h; cases h

/-- **When quoted text survives translation**: for a built-in dialect, exactly if no rule of the dialect finds anything
in it. Only the reference dialect keeps it in every fragment. -/
theorem Translator.quotedText_translated_iff (driver : Driver) :
    (∀ sql, quotedText ((builtin driver).translated sql) = quotedText sql ↔
      (Dialect.builtin driver).capabilities.LeavesQuoted sql) ∧
    ((∀ sql, quotedText ((builtin driver).translated sql) = quotedText sql) ↔ driver = .reference) := by
  have hiff (sql : Fragment) : quotedText ((builtin driver).translated sql) = quotedText sql ↔
      (Dialect.builtin driver).capabilities.LeavesQuoted sql := by
    have htells := telltale_adapt (flatNames_builtin driver) (tellingNames_builtin driver) sql
    rw [translated_builtin]
    exact htells.eq_iff
  refine ⟨hiff, ?_⟩
  rw [← leavesQuoted_builtin_iff]
  exact forall_congr' hiff

end SqlDialects
