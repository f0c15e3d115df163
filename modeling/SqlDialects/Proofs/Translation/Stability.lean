/-
Whether a translation translates to itself. A text is translated once more where an edit brought something that a rule
edits: a call of the aggregate runs to the end of its line, and the joining of fields takes line breaks away; a joined
call can stand in the middle of a name; and what an edit looked past is seen the next time.

- `Stable`: translating the translation changes nothing; it is so exactly if no rule has anything left to edit
  (`stable_iff_settled`).
- `settled_of_not_joined`: where functions are renamed and no call was joined, nothing is left to edit.
- `stable_builtin`: so for the built-in dialects, of which some are stable on all fragments and others are not.
-/
import SqlDialects.Proofs.Aggregate.Renamed
import SqlDialects.Proofs.Expression.Joining
import SqlDialects.Proofs.NullCoalesce.Renamed
import SqlDialects.Proofs.Translation.Needs
import SqlDialects.Proofs.Translation.Progress

namespace SqlDialects

open Text Fragment

/-- the new names stand on one line and end with none of the functions that the rules look for -/
structure Capabilities.ApartNames (needs : Capabilities) : Prop where
  aggregate : ∀ name ∈ needs.aggregateFunction,
    Aggregate.OneLine name.toList ∧ Apart Aggregate.callName name.toList
  coalesce : ∀ name ∈ needs.coalesceFunction, Aggregate.OneLine name.toList ∧ Apart Aggregate.callName name.toList ∧
    Apart FieldConcat.callName name.toList ∧ Apart NullCoalesce.callName name.toList

theorem apartNames_builtin (driver : Driver) : (Dialect.builtin driver).capabilities.ApartNames := by
  cases driver
  all_goals exact ⟨by decide, by decide⟩

variable {needs : Capabilities}

/-! ## Renamed functions -/

/-- renaming `IFNULL` brings no call of the aggregate -/
theorem noMatch_call_coalesced (hn : needs.FlatNames) (ha : needs.ApartNames) {sql : Fragment}
    (h : NoMatch (Aggregate.call needs) none sql) : NoMatch (Aggregate.call needs) none (NullCoalesce.apply needs sql) := by
  unfold NullCoalesce.apply
  cases hname : needs.coalesceFunction with
  | none => exact h
  | some name =>
    have hflat := hn.coalesce name hname
    obtain ⟨hline, hapart, -⟩ := ha.coalesce name hname
    exact Aggregate.noMatch_call_replaceAll (NullCoalesce.finds_functionName name.toList)
      (NullCoalesce.gentle_functionName hflat).covers NullCoalesce.isWord_callName hflat hline hapart h

/-- and no call to join -/
theorem joinable_of_coalesced (hn : needs.FlatNames) (ha : needs.ApartNames) {sql : Fragment}
    (h : FieldConcat.Joinable .outside none (NullCoalesce.apply needs sql)) : FieldConcat.Joinable .outside none sql := by
  unfold NullCoalesce.apply at h
  cases hname : needs.coalesceFunction with
  | none => rwa [hname] at h
  | some name =>
    rw [hname] at h
    obtain ⟨-, -, hapart, -⟩ := ha.coalesce name hname
    exact NullCoalesce.joinable_of_replaceFrom (hn.coalesce name hname) hapart none sql .outside trivial h

/-- the rules leave no call of `IFNULL` that is to be renamed -/
theorem noMatch_functionName_adapt (hn : needs.FlatNames) (ha : needs.ApartNames)
    (hbooleans : needs.integerBooleans = true → needs.coalesceFunction = none) (sql : Fragment) :
    ∀ name ∈ needs.coalesceFunction,
      NoMatch (NullCoalesce.functionName name.toList) none (adapt Rule.defaults needs sql).sql := by
  intro name hname
  have hinactive : needs.integerBooleans ≠ true := fun hb => by rw [hbooleans hb] at hname; cases hname
  rw [sql_adapt_defaults, BooleanLiteral.apply, if_neg hinactive]
  exact NullCoalesce.noMatch_apply hname (hn.coalesce name hname) (ha.coalesce name hname).2.2.2 _

/-- **Where functions are renamed and no call was joined, nothing is left to edit.** -/
theorem settled_of_not_joined (hn : needs.FlatNames) (ha : needs.ApartNames)
    (hrenamed : Aggregate.active needs = true → needs.aggregateFunction ≠ none) (hbooleans : needs.integerBooleans = false)
    {sql : Fragment} (h : Rule.fieldConcat.name ∉ (adapt Rule.defaults needs sql).applied) :
    needs.Settled (adapt Rule.defaults needs sql).sql := by
  rw [mem_applied_concat_iff hn, not_and] at h
  have hkept : FieldConcat.apply needs (Aggregate.apply needs sql) = Aggregate.apply needs sql :=
    (FieldConcat.advances_apply hn.concat _).eq_iff.2 h
  have hout : (adapt Rule.defaults needs sql).sql = NullCoalesce.apply needs (Aggregate.apply needs sql) := by
    rw [sql_adapt_defaults, hkept, BooleanLiteral.apply, hbooleans, if_neg Bool.false_ne_true]
  refine ⟨fun hactive => ?_, fun hoperator hjoin => ?_, ?_, fun hb => ?_⟩
  · rw [hout]
    obtain ⟨name, hname⟩ := Option.ne_none_iff_exists'.1 (hrenamed hactive)
    have hnone := Aggregate.noMatch_apply hname hn.aggregate (fun name hname => (ha.aggregate name hname).1)
      (ha.aggregate name hname).2 sql
    exact Aggregate.settled_of_noMatch (noMatch_call_coalesced hn ha hnone)
  · rw [hout] at hjoin
    exact h hoperator (joinable_of_coalesced hn ha hjoin)
  · exact noMatch_functionName_adapt hn ha (fun hb => by rw [hbooleans] at hb; cases hb) sql
  · rw [hbooleans] at hb; cases hb

namespace Translator

/-! ## Built-in dialects -/

/-- translating the translation of the fragment changes nothing -/
def Stable (translator : Translator) (sql : Fragment) : Prop :=
  translator.translated (translator.translated sql) = translator.translated sql

theorem stable_iff_settled (driver : Driver) (sql : Fragment) :
    (builtin driver).Stable sql ↔ (Dialect.builtin driver).capabilities.Settled ((builtin driver).translated sql) := by
  have hadvances := advances_adapt (flatNames_builtin driver) (tellingNames_builtin driver) ((builtin driver).translated sql)
  rw [Stable, translated_builtin]
  exact hadvances.eq_iff

theorem stable_of_not_joined {driver : Driver} (hdriver : driver ≠ .sqlite) {sql : Fragment}
    (h : Rule.fieldConcat.name ∉ (adapt Rule.defaults (Dialect.builtin driver).capabilities sql).applied) :
    (builtin driver).Stable sql := by
  have hsettled := settled_of_not_joined (flatNames_builtin driver) (apartNames_builtin driver)
    (by cases driver <;> first | decide | exact absurd rfl hdriver)
    (by cases driver <;> first | rfl | exact absurd rfl hdriver) h
  rw [stable_iff_settled, translated_builtin]
  exact hsettled

theorem stable_of_no_operator {driver : Driver} (hdriver : driver ≠ .sqlite)
    (h : (Dialect.builtin driver).capabilities.concatOperator = none) (sql : Fragment) : (builtin driver).Stable sql := by
  refine stable_of_not_joined hdriver ?_
  rw [mem_applied_concat_iff (flatNames_builtin driver), h]
  exact fun hmem => hmem.1 rfl

/-- a call that stands on two lines, within a call of the aggregate -/
theorem joinCalls_lines (joiner : Fragment) :
    FieldConcat.joinCalls joiner .outside none "group_concat(concat(\na))".toList = "group_concat(a)".toList := by
  let aggregate : FunctionName := ⟨"group_concat".toList, by decide, List.all_eq_true.1 (by decide)⟩
  have hcall : FieldConcat.callAt? .outside none "concat(\na))".toList = some "\na))".toList := by decide
  have hclose : splitAtClose "\na))".toList = some ("\na".toList, [')']) := by decide
  have hkept {text : Fragment} (h : text.any (sameLetter 'c') = false) (before : Option Char) :
      FieldConcat.joinCalls joiner .outside before text = text := FieldConcat.joinCalls_eq_self h _ before
  calc FieldConcat.joinCalls joiner .outside none "group_concat(concat(\na))".toList
      = aggregate.text ++ '(' :: FieldConcat.joinCalls joiner .outside none "concat(\na))".toList :=
        FieldConcat.joinCalls_name (show aggregate.isConcat = false by decide) _
    _ = aggregate.text ++ '(' :: (['a'] ++ [')']) := by
        rw [FieldConcat.joinCalls_call hcall hclose (by decide), show arguments "\na".toList = [['a']] by decide,
          List.map_singleton, List.intercalate_singleton, hkept (by decide), hkept (by decide)]

/-- a call of the aggregate ends on its line; it runs over another call when that was joined to one line -/
theorem not_stable_lines {driver : Driver} (h : (Dialect.builtin driver).capabilities = Dialect.pgsql.capabilities) :
    ¬ (builtin driver).Stable "group_concat(concat(\na))".toList := by
  have honce : (adapt Rule.defaults Dialect.pgsql.capabilities "group_concat(concat(\na))".toList).sql =
      "group_concat(a)".toList := by
    rw [sql_adapt_defaults, Aggregate.apply_eq_self _ (by decide),
      show FieldConcat.apply Dialect.pgsql.capabilities _ = _ from joinCalls_lines _,
      NullCoalesce.apply_eq_self _ (by decide)]
    rfl
  have hcall : Aggregate.callAt? "group_concat(a)".toList = some "group_concat(a)".toList := by decide
  rw [stable_iff_settled, translated_builtin, h, honce]
  intro hsettled
  have hno := hsettled.aggregate rfl [] _ _ rfl hcall (Aggregate.functionName "string_agg".toList)
    (by simp [Aggregate.edits, Dialect.pgsql])
  revert hno
  decide

/-- what is compared with a comparison is edited when that comparison was -/
theorem not_stable_comparisons : ¬ (builtin .sqlite).Stable "a = true = true".toList := by
  have honce : (adapt Rule.defaults Dialect.sqlite.capabilities "a = true = true".toList).sql =
      "a = 1 = true".toList := by
    rw [sql_adapt_defaults, apply_apply_eq_self _ (by decide) (by decide), NullCoalesce.apply_eq_self _ (by decide)]
    decide
  rw [stable_iff_settled, translated_builtin, show Dialect.builtin .sqlite = Dialect.sqlite from rfl, honce]
  intro hsettled
  have hno := hsettled.booleans rfl
  revert hno
  decide

/-- **When a translation translates to itself**: exactly if no rule has anything left to edit in it, where no call of
`IFNULL` is ever left. For every dialect but `sqlite` it is so if no call was joined. On all fragments it is so only for
the two dialects that have no operator to join with. -/
theorem stable_builtin (driver : Driver) :
    (∀ sql, (builtin driver).Stable sql ↔
      (Dialect.builtin driver).capabilities.Settled ((builtin driver).translated sql)) ∧
    (∀ sql, ∀ name ∈ (Dialect.builtin driver).capabilities.coalesceFunction,
      NoMatch (NullCoalesce.functionName name.toList) none ((builtin driver).translated sql)) ∧
    (driver ≠ .sqlite → ∀ sql,
      Rule.fieldConcat.name ∉ (adapt Rule.defaults (Dialect.builtin driver).capabilities sql).applied →
      (builtin driver).Stable sql) ∧
    ((∀ sql, (builtin driver).Stable sql) ↔ driver = .mysql ∨ driver = .sqlsrv) := by
  refine ⟨stable_iff_settled driver, fun sql => ?_, fun hdriver sql => stable_of_not_joined hdriver, ?_⟩
  · rw [translated_builtin]
    exact noMatch_functionName_adapt (flatNames_builtin driver) (apartNames_builtin driver)
      (by cases driver <;> decide) sql
  · cases driver with
    | mysql => exact ⟨fun _ => Or.inl rfl, fun _ => stable_of_no_operator (by decide) rfl⟩
    | sqlsrv => exact ⟨fun _ => Or.inr rfl, fun _ => stable_of_no_operator (by decide) rfl⟩
    | pgsql => exact ⟨fun h => absurd (h _) (not_stable_lines rfl), fun h => by simp at h⟩
    | postgis => exact ⟨fun h => absurd (h _) (not_stable_lines rfl), fun h => by simp at h⟩
    | sqlite => exact ⟨fun h => absurd (h _) not_stable_comparisons, fun h => by simp at h⟩

end Translator

end SqlDialects
