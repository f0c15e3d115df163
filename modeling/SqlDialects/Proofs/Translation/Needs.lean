/-
Capabilities that ask for a change, and fragments that are changed.

- `askNothing_of_forall_eq`: if the default rules keep every fragment, the capabilities ask for nothing.

For each capability there are two fragments that its rule makes the same and that the rules before it keep: a name in two
spellings, or a separator with more blanks or fewer. So one of the two is changed, whatever the names and the operator
of the dialect are.
-/
import SqlDialects.Proofs.Aggregate.Calls
import SqlDialects.Proofs.FieldConcat.Induction
import SqlDialects.Proofs.Translation.Basic

namespace SqlDialects

open Text Fragment

/-- what makes two fragments the same changes one of them -/
theorem exists_changed {f : Fragment → Fragment} {a b : Fragment} (hne : a ≠ b) (h : f a = f b) : ∃ sql, f sql ≠ sql := by
  by_cases ha : f a = a
  · refine ⟨b, fun hb => hne ?_⟩
    rw [← ha, h, hb]
  · exact ⟨a, ha⟩

/-! ## The aggregate -/

namespace Aggregate

variable {needs : Capabilities}

/-- a fragment that is a call -/
theorem apply_call (h : active needs = true) {text : Fragment} (hcall : callAt? text = some text) :
    apply needs text = adaptCall needs text := by
  cases text with
  | nil => cases hcall
  | cons c rest =>
    have hfind : call needs none (c :: (rest ++ [])) = some ⟨c :: rest, adaptCall needs (c :: rest)⟩ := by
      rw [List.append_nil, call, hcall]; rfl
    have hfront := replaceAll_front hfind trivial
    rw [List.append_nil, List.append_nil] at hfront
    rw [apply, if_pos h, hfront]

/-- a call in which there is nothing to edit but the name -/
theorem adaptCall_name {name : String} (h : needs.aggregateFunction = some name) {call : Fragment}
    (hseparator : replaceAll separatorPhrase call = call) (hfield : replaceAll fieldBeforeComma call = call) :
    adaptCall needs call = replaceAll (functionName name.toList) call := by
  simp only [adaptCall, h, hseparator, ite_self, hfield]

/-- a name in two spellings, or a separator with more blanks or fewer -/
theorem exists_apply_eq (h : active needs = true) : ∃ a b, a ≠ b ∧ apply needs a = apply needs b := by
  cases hname : needs.aggregateFunction with
  | some name =>
    have hlower : replaceAll (functionName name.toList) ('g' :: ("roup_concat(".toList ++ ['a', ')'])) =
        (name.toList ++ ['(']) ++ ['a', ')'] := replaceAll_front rfl ⟨rfl, rfl, trivial⟩
    have hupper : replaceAll (functionName name.toList) ('G' :: ("ROUP_CONCAT(".toList ++ ['a', ')'])) =
        (name.toList ++ ['(']) ++ ['a', ')'] := replaceAll_front rfl ⟨rfl, rfl, trivial⟩
    refine ⟨"group_concat(a)".toList, "GROUP_CONCAT(a)".toList, by decide, ?_⟩
    rw [apply_call h (by decide), apply_call h (by decide), adaptCall_name hname (by decide) (by decide),
      adaptCall_name hname (by decide) (by decide)]
    exact hlower.trans hupper.symm
  | none =>
    have hsep : needs.inlineSeparator = true := by
      rw [active, hname] at h
      simpa using h
    have hsame : replaceAll separatorPhrase "group_concat(a separator b)".toList =
        replaceAll separatorPhrase "group_concat(a  separator b)".toList := by decide
    refine ⟨"group_concat(a separator b)".toList, "group_concat(a  separator b)".toList, by decide, ?_⟩
    rw [apply_call h (by decide), apply_call h (by decide), adaptCall, adaptCall, if_pos hsep, if_pos hsep, hsame]

/-- where one dialect finds calls, all do -/
theorem apply_eq_self (needs : Capabilities) {sql : Fragment} (h : NoMatch (call {}) none sql) : apply needs sql = sql := by
  have hno : NoMatch (call needs) none sql := by
    refine (noMatch_congr fun before text => ?_).1 h
    rw [call, call, Option.map_eq_none_iff, Option.map_eq_none_iff]
  rw [apply, replaceAll_eq_self hno, ite_self]

end Aggregate

/-! ## The concatenation of fields -/

namespace FieldConcat

theorem apply_eq_self (needs : Capabilities) {sql : Fragment} (h : sql.any (sameLetter 'c') = false) :
    apply needs sql = sql := by
  unfold apply
  split
  · rfl
  · exact joinCalls_eq_self h _ _

/-- a call with one argument becomes that argument -/
theorem joinCalls_unary (joiner : Fragment) {word : Fragment} (hw : Spells callName word) :
    joinCalls joiner .outside none (word ++ ['(', 'a', ')']) = ['a'] := by
  have hcall : callAt? .outside none (word ++ ['(', 'a', ')']) = some ['a', ')'] :=
    callAt?_eq_some_iff.2 ⟨rfl, rfl, word, hw, rfl⟩
  have hclose : splitAtClose ['a', ')'] = some (['a'], []) := by decide
  have hargument : joinCalls joiner .outside none ['a'] = ['a'] := joinCalls_eq_self (by decide) _ _
  rw [joinCalls_call hcall hclose (by decide), joinCalls_nil, show arguments ['a'] = [['a']] by decide,
    List.map_singleton, hargument, List.intercalate_singleton]
  rfl

theorem apply_unary {needs : Capabilities} {operator : String} (h : needs.concatOperator = some operator)
    {word : Fragment} (hw : word.map Char.toLower = callName) : apply needs (word ++ ['(', 'a', ')']) = ['a'] := by
  unfold apply
  rw [h]
  exact joinCalls_unary _ ((spells_iff_toLower (by decide)).2 hw)

end FieldConcat

/-! ## Replacing null -/

namespace NullCoalesce

theorem apply_eq_self (needs : Capabilities) {sql : Fragment} (h : NoMatch (functionName []) none sql) :
    apply needs sql = sql := by
  unfold apply
  split
  · rfl
  · rename_i name hname
    refine replaceAll_eq_self ((noMatch_congr fun before text => ?_).1 h)
    unfold functionName
    split
    · rw [Option.map_eq_none_iff, Option.map_eq_none_iff]
    · exact Iff.rfl

theorem apply_opening {needs : Capabilities} {name : String} (h : needs.coalesceFunction = some name) :
    apply needs "ifnull(".toList = apply needs "IFNULL(".toList := by
  have hlower : replaceAll (functionName name.toList) ('i' :: ("fnull(".toList ++ [])) = (name.toList ++ ['(']) ++ [] :=
    replaceAll_front rfl trivial
  have hupper : replaceAll (functionName name.toList) ('I' :: ("FNULL(".toList ++ [])) = (name.toList ++ ['(']) ++ [] :=
    replaceAll_front rfl trivial
  unfold apply
  rw [h]
  exact hlower.trans hupper.symm

end NullCoalesce

/-! ## All rules -/

variable {needs : Capabilities}

/-- a fragment that the first two rules keep, whatever the dialect -/
theorem apply_apply_eq_self (needs : Capabilities) {sql : Fragment} (ha : NoMatch (Aggregate.call {}) none sql)
    (hc : sql.any (sameLetter 'c') = false) : FieldConcat.apply needs (Aggregate.apply needs sql) = sql := by
  rw [Aggregate.apply_eq_self needs ha, FieldConcat.apply_eq_self needs hc]

theorem exists_changed_of_active (h : Aggregate.active needs = true) :
    ∃ sql, (adapt Rule.defaults needs sql).sql ≠ sql := by
  obtain ⟨a, b, hne, heq⟩ := Aggregate.exists_apply_eq h
  refine exists_changed hne ?_
  rw [sql_adapt_defaults, sql_adapt_defaults, heq]

theorem exists_changed_of_concat {operator : String} (h : needs.concatOperator = some operator) :
    ∃ sql, (adapt Rule.defaults needs sql).sql ≠ sql := by
  have happly {word : Fragment} (hw : word.map Char.toLower = FieldConcat.callName)
      (hno : NoMatch (Aggregate.call {}) none (word ++ ['(', 'a', ')'])) :
      FieldConcat.apply needs (Aggregate.apply needs (word ++ ['(', 'a', ')'])) = ['a'] := by
    rw [Aggregate.apply_eq_self needs hno, FieldConcat.apply_unary h hw]
  refine exists_changed (a := "concat".toList ++ ['(', 'a', ')']) (b := "CONCAT".toList ++ ['(', 'a', ')'])
    (by decide) ?_
  rw [sql_adapt_defaults, sql_adapt_defaults, happly (by decide) (by decide), happly (by decide) (by decide)]

theorem exists_changed_of_coalesce {name : String} (h : needs.coalesceFunction = some name) :
    ∃ sql, (adapt Rule.defaults needs sql).sql ≠ sql := by
  refine exists_changed (a := "ifnull(".toList) (b := "IFNULL(".toList) (by decide) ?_
  rw [sql_adapt_defaults, sql_adapt_defaults, apply_apply_eq_self needs (by decide) (by decide),
    apply_apply_eq_self needs (by decide) (by decide), NullCoalesce.apply_opening h]

theorem exists_changed_of_booleans (h : needs.integerBooleans = true) :
    ∃ sql, (adapt Rule.defaults needs sql).sql ≠ sql := by
  have hsame : BooleanLiteral.apply needs "a=true".toList = BooleanLiteral.apply needs "a=TRUE".toList := by
    rw [BooleanLiteral.apply, BooleanLiteral.apply, if_pos h, if_pos h]
    decide
  refine exists_changed (a := "a=true".toList) (b := "a=TRUE".toList) (by decide) ?_
  rw [sql_adapt_defaults, sql_adapt_defaults, apply_apply_eq_self needs (by decide) (by decide),
    apply_apply_eq_self needs (by decide) (by decide), NullCoalesce.apply_eq_self needs (by decide),
    NullCoalesce.apply_eq_self needs (by decide), hsame]

/-- **Capabilities that ask for a change get one**: if the default rules keep every fragment, there is nothing that the
capabilities ask for. -/
theorem askNothing_of_forall_eq (h : ∀ sql, (adapt Rule.defaults needs sql).sql = sql) : needs.AskNothing := by
  have hkept : ¬ ∃ sql, (adapt Rule.defaults needs sql).sql ≠ sql := by
    intro hchanged
    obtain ⟨sql, hne⟩ := hchanged
    exact hne (h sql)
  refine ⟨?_, ?_, ?_, ?_⟩
  · rw [← Bool.not_eq_true]
    intro hactive; exact hkept (exists_changed_of_active hactive)
  · rw [Option.eq_none_iff_forall_ne_some]
    intro operator hoperator; exact hkept (exists_changed_of_concat hoperator)
  · rw [Option.eq_none_iff_forall_ne_some]
    intro name hname; exact hkept (exists_changed_of_coalesce hname)
  · rw [← Bool.not_eq_true]
    intro hbooleans; exact hkept (exists_changed_of_booleans hbooleans)

end SqlDialects
