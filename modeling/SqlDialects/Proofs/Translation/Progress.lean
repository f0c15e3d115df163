/-
What the rules report. A rule is listed if the text it left is another one than the text it was given; so the list is
worth something only if no rule takes back what another one did.

- `Adapted.run_cases`: of rules that go onwards, either none is listed and the text is the same, or some are and the text
  comes later.
- `Capabilities.Settled`, `advances_adapt`: the default rules keep a text exactly if each of them has nothing to edit.
- `mem_applied_adapt_iff`: a rule whose name is its own is listed if it changed the text that the rules before it left.
- `reported_builtin`: what the list says for the built-in dialects.
-/
import SqlDialects.Proofs.Aggregate.Change
import SqlDialects.Proofs.BooleanLiteral.Pattern
import SqlDialects.Proofs.FieldConcat.Change
import SqlDialects.Proofs.NullCoalesce.Pattern
import SqlDialects.Proofs.Translation.Quoted

namespace SqlDialects

open Text Fragment

/-! ## Rules that go onwards -/

/-- what the rule makes of a text is the text itself or comes later -/
def Rule.Onward (needs : Capabilities) (rule : Rule) : Prop :=
  ∀ sql, rule.apply needs sql = sql ∨ Later sql (rule.apply needs sql)

namespace Adapted

theorem step_cases {needs : Capabilities} {rule : Rule} (h : rule.Onward needs) (done : Adapted) :
    step needs done rule = done ∨
      (Later done.sql (step needs done rule).sql ∧ (step needs done rule).applied = done.applied ++ [rule.name]) := by
  unfold step
  rcases h done.sql with heq | hlater
  · exact Or.inl (if_pos heq)
  · refine Or.inr ?_
    simp only [if_neg hlater.ne]
    exact ⟨hlater, trivial⟩

/-- **No rule takes back what another one did**: the rules of a run list nothing and leave the text as it was, or they
list something and the text comes later. -/
theorem run_cases {needs : Capabilities} {rules : List Rule} (h : ∀ rule ∈ rules, rule.Onward needs) (done : Adapted) :
    run needs done rules = done ∨
      (Later done.sql (run needs done rules).sql ∧ ∃ name names,
        (run needs done rules).applied = done.applied ++ name :: names) := by
  induction rules generalizing done with
  | nil => exact Or.inl rfl
  | cons rule rules ih =>
    have hrun : run needs done (rule :: rules) = run needs (step needs done rule) rules := rfl
    rw [hrun]
    have hrest := ih (fun rule hr => h rule (List.mem_cons_of_mem _ hr)) (step needs done rule)
    rcases step_cases (h rule List.mem_cons_self) done with hstep | ⟨hlater, happlied⟩
    · rwa [hstep] at hrest ⊢
    · refine Or.inr ?_
      rcases hrest with hsame | ⟨hlater', name, names, hnames⟩
      · rw [hsame]; exact ⟨hlater, rule.name, [], happlied⟩
      · refine ⟨hlater.trans hlater', rule.name, name :: names, ?_⟩
        rw [hnames, happlied, List.append_assoc]; rfl

theorem applied_eq_iff {needs : Capabilities} {rules : List Rule} (h : ∀ rule ∈ rules, rule.Onward needs)
    (done : Adapted) : (run needs done rules).applied = done.applied ↔ (run needs done rules).sql = done.sql := by
  rcases run_cases h done with hsame | ⟨hlater, name, names, happlied⟩
  · rw [hsame]; exact ⟨fun _ => rfl, fun _ => rfl⟩
  · refine ⟨fun heq => ?_, fun heq => absurd heq hlater.ne⟩
    rw [happlied] at heq
    simp at heq

end Adapted

/-! ## The default rules -/

/-- no default rule that the dialect asks for has anything to edit in the text -/
structure Capabilities.Settled (needs : Capabilities) (sql : Fragment) : Prop where
  aggregate : Aggregate.active needs = true → Aggregate.Settled needs sql
  concat : needs.concatOperator ≠ none → ¬ FieldConcat.Joinable .outside none sql
  coalesce : ∀ name ∈ needs.coalesceFunction, NoMatch (NullCoalesce.functionName name.toList) none sql
  booleans : needs.integerBooleans = true → NoMatch BooleanLiteral.comparison none sql

variable {needs : Capabilities}

/-- **What the default rules leave tells whether they had anything to edit.** -/
theorem advances_adapt (hn : needs.FlatNames) (ht : needs.TellingNames) (sql : Fragment) :
    Advances (needs.Settled sql) sql (adapt Rule.defaults needs sql).sql := by
  rw [sql_adapt_defaults]
  have haggregate := Aggregate.advances_apply hn.aggregate ht.aggregate sql
  have hconcat := haggregate.andThen
    (Q := fun text => needs.concatOperator ≠ none → ¬ FieldConcat.Joinable .outside none text)
    (FieldConcat.advances_apply hn.concat _)
  have hcoalesce := hconcat.andThen
    (Q := fun text => ∀ name ∈ needs.coalesceFunction, NoMatch (NullCoalesce.functionName name.toList) none text)
    (NullCoalesce.advances_apply hn.coalesce ht.coalesce _)
  have hbooleans := hcoalesce.andThen
    (Q := fun text => needs.integerBooleans = true → NoMatch BooleanLiteral.comparison none text)
    (BooleanLiteral.advances_apply needs _)
  refine hbooleans.congr ⟨?_, fun h => ⟨⟨⟨h.aggregate, h.concat⟩, h.coalesce⟩, h.booleans⟩⟩
  rintro ⟨⟨⟨h1, h2⟩, h3⟩, h4⟩
  exact ⟨h1, h2, h3, h4⟩

theorem Rule.Onward.of_advances {rule : Rule} {alone : Fragment → Prop}
    (h : ∀ sql, Advances (alone sql) sql (rule.apply needs sql)) : rule.Onward needs :=
  fun sql => (h sql).imp And.right And.right

theorem onward_defaults (hn : needs.FlatNames) (ht : needs.TellingNames) : ∀ rule ∈ Rule.defaults, rule.Onward needs := by
  intro rule hrule
  simp only [Rule.defaults, List.mem_cons, List.not_mem_nil, or_false] at hrule
  rcases hrule with rfl | rfl | rfl | rfl
  · exact .of_advances (Aggregate.advances_apply hn.aggregate ht.aggregate)
  · exact .of_advances (FieldConcat.advances_apply hn.concat)
  · exact .of_advances (NullCoalesce.advances_apply hn.coalesce ht.coalesce)
  · exact .of_advances (BooleanLiteral.advances_apply needs)

/-! ## The list -/

theorem Adapted.mem_applied_run {rules : List Rule} {done : Adapted} {name : String}
    (h : ∀ rule ∈ rules, rule.name ≠ name) : name ∈ (run needs done rules).applied ↔ name ∈ done.applied := by
  induction rules generalizing done with
  | nil => exact Iff.rfl
  | cons rule rules ih =>
    have hname := h rule List.mem_cons_self
    rw [run, List.foldl_cons, ← run, ih fun rule hr => h rule (List.mem_cons_of_mem _ hr), step]
    split
    · exact Iff.rfl
    · simp [Ne.symm hname]

/-- a rule whose name no other rule has is listed if it changed what the rules before it left -/
theorem mem_applied_adapt_iff {first last : List Rule} {rule : Rule}
    (h : ∀ other ∈ first ++ last, other.name ≠ rule.name) (sql : Fragment) :
    rule.name ∈ (adapt (first ++ rule :: last) needs sql).applied ↔
      rule.apply needs (adapt first needs sql).sql ≠ (adapt first needs sql).sql := by
  rw [List.forall_mem_append] at h
  have hfirst : rule.name ∉ (adapt first needs sql).applied := by
    rw [adapt, Adapted.mem_applied_run h.1]; exact List.not_mem_nil
  rw [adapt, Adapted.run_append, ← adapt, Adapted.run, List.foldl_cons, ← Adapted.run, Adapted.mem_applied_run h.2,
    Adapted.step]
  split
  · rename_i heq; exact ⟨fun hmem => absurd hmem hfirst, fun hne => absurd heq hne⟩
  · rename_i hne; exact ⟨fun _ => hne, fun _ => by simp⟩

/-- the joining of fields is listed if there was a call to join in the text that the rule was given -/
theorem mem_applied_concat_iff (hn : needs.FlatNames) (sql : Fragment) :
    Rule.fieldConcat.name ∈ (adapt Rule.defaults needs sql).applied ↔
      needs.concatOperator ≠ none ∧ FieldConcat.Joinable .outside none (Aggregate.apply needs sql) := by
  have haggregate : (adapt [Rule.aggregateConcat] needs sql).sql = Aggregate.apply needs sql :=
    Adapted.sql_run needs ⟨sql, []⟩ [Rule.aggregateConcat]
  have hchanged := (FieldConcat.advances_apply hn.concat (Aggregate.apply needs sql)).eq_iff
  calc Rule.fieldConcat.name ∈ (adapt Rule.defaults needs sql).applied
      ↔ FieldConcat.apply needs (adapt [Rule.aggregateConcat] needs sql).sql ≠
          (adapt [Rule.aggregateConcat] needs sql).sql :=
        mem_applied_adapt_iff (show ∀ other ∈ [Rule.aggregateConcat] ++ [Rule.nullCoalesce, Rule.booleanLiteral],
          other.name ≠ Rule.fieldConcat.name by decide) sql
    _ ↔ needs.concatOperator ≠ none ∧ FieldConcat.Joinable .outside none (Aggregate.apply needs sql) := by
        rw [haggregate, ne_eq, hchanged, Classical.not_imp, not_not]

/-- what the list of the applied rules says of a fragment -/
structure Reported (needs : Capabilities) (sql : Fragment) : Prop where
  /-- it is empty exactly if the fragment was kept -/
  nothing_iff : (adapt Rule.defaults needs sql).applied = [] ↔ (adapt Rule.defaults needs sql).sql = sql
  /-- and so it is with the rules between any two: none takes back what an earlier one did -/
  between_iff : ∀ first middle last, Rule.defaults = first ++ middle ++ last →
    ((adapt (first ++ middle) needs sql).applied = (adapt first needs sql).applied ↔
      (adapt (first ++ middle) needs sql).sql = (adapt first needs sql).sql)
  /-- the joining of fields is listed exactly if there was a call to join in the text that the rule was given -/
  concat_iff : Rule.fieldConcat.name ∈ (adapt Rule.defaults needs sql).applied ↔
    needs.concatOperator ≠ none ∧ FieldConcat.Joinable .outside none (Aggregate.apply needs sql)

/-- **The list of the applied rules tells the truth**, for every built-in dialect and every fragment. -/
theorem reported_builtin (driver : Driver) (sql : Fragment) : Reported (Dialect.builtin driver).capabilities sql := by
  have hn := flatNames_builtin driver
  have ht := tellingNames_builtin driver
  generalize (Dialect.builtin driver).capabilities = needs at hn ht ⊢
  have honward := onward_defaults hn ht
  refine ⟨Adapted.applied_eq_iff honward ⟨sql, []⟩, fun first middle last hsplit => ?_, mem_applied_concat_iff hn sql⟩
  have hmiddle : ∀ rule ∈ middle, rule.Onward needs := by
    intro rule hr
    exact honward rule (by rw [hsplit]; simp [hr])
  rw [adapt, Adapted.run_append]
  exact Adapted.applied_eq_iff hmiddle _

end SqlDialects
