/-
Rules that are done after one pass. Where a dialect has other names for the functions, the rule that gives them leaves
none of the old names behind, so it finds nothing the second time.

- `eq_nil_of_noMatch`: that no call of the aggregate is found, told by the lines of the text.
- `castTwice_of_apply`: no field is cast twice, by one pass or by several.
- `OnePass`: what holds of both rules for a dialect that renames; `onePass_builtin`: for which of the built-in dialects.
-/
import SqlDialects.Proofs.Aggregate.Spans
import SqlDialects.Proofs.Translation.Stability

namespace SqlDialects

open Text Fragment

/-! ## The aggregate -/

namespace Aggregate

variable {needs : Capabilities}

/-- each line of a text stands in it in front of its end or of a line break -/
theorem exists_of_mem_splitOn {text line : Fragment} (h : line ∈ text.splitOn '\n') :
    ∃ front rest, text = front ++ line ++ rest ∧ EndsLine rest := by
  suffices hlines : ∀ lines : List Fragment, line ∈ lines →
      ∃ front rest, ['\n'].intercalate lines = front ++ line ++ rest ∧ EndsLine rest by
    have htext := hlines _ h
    rwa [List.intercalate_splitOn] at htext
  intro lines hmem
  induction lines with
  | nil => cases hmem
  | cons first lines ih =>
    cases lines with
    | nil =>
      rw [List.mem_singleton.1 hmem, List.intercalate_singleton]
      exact ⟨[], [], by simp, by intro c hc; cases hc⟩
    | cons next lines =>
      rw [List.intercalate_cons_cons]
      rcases List.mem_cons.1 hmem with rfl | hmem
      · refine ⟨[], '\n' :: ['\n'].intercalate (next :: lines), by simp, ?_⟩
        intro c hc
        rw [← Option.some.inj hc]; rfl
      · obtain ⟨front, rest, htext, hrest⟩ := ih hmem
        exact ⟨first ++ ['\n'] ++ front, rest, by rw [htext]; simp, hrest⟩

/-- where no call is found, an opening is followed on its line by no parenthesis that closes, or by that alone -/
theorem eq_nil_of_noMatch {text line : Fragment} (h : NoMatch (call needs) none text) (hline : line ∈ text.splitOn '\n')
    {front word body rest : Fragment} (hw : Spells callName word)
    (htext : line = front ++ word ++ '(' :: body ++ ')' :: rest) : body = [] := by
  cases body with
  | nil => rfl
  | cons c body =>
    obtain ⟨front', rest', rfl, hends⟩ := exists_of_mem_splitOn hline
    have hone : OneLine (c :: (body ++ ')' :: rest)) :=
      fun d hd => oneLine_of_mem_splitOn hline d (by rw [htext]; simp_all)
    have hcloses : ClosesLater (c :: (body ++ ')' :: rest) ++ rest') := by
      rw [ClosesLater, firstLine_of_endsLine hone hends]
      simp
    rw [htext, show front' ++ (front ++ word ++ '(' :: c :: body ++ ')' :: rest) ++ rest' =
      (front' ++ front) ++ (word ++ '(' :: (c :: (body ++ ')' :: rest) ++ rest')) by simp] at h
    exact absurd hcloses ((noMatch_iff (findsOpenings_call needs)).1 h (front' ++ front) word _ rfl hw trivial)

/-- a field cast to text and then once more -/
def castTwice : Fragment := castSuffix ++ castSuffix

/-- the name neither continues a cast nor holds one -/
def Uncast (name : Fragment) : Prop := (∀ c ∈ name.head?, c ∉ castTwice) ∧ ':' ∉ name

instance (name : Fragment) : Decidable (Uncast name) :=
  inferInstanceAs (Decidable ((∀ c ∈ name.head?, c ∉ castTwice) ∧ ':' ∉ name))

theorem clearOf_separatorPhrase : separatorPhrase.ClearOf castTwice := by
  refine ⟨?_, ?_, ?_⟩
  all_goals
    intro before text found hfound
    obtain ⟨rest, -, hshape⟩ := (finds_separatorPhrase before text found).1 hfound
    obtain ⟨-, -, -, -, -, -⟩ := hshape
  · exact ⟨',', rfl, by decide⟩
  · exact ⟨' ', rfl, by decide⟩
  · intro h
    have hcolon : ':' ∉ [',', ' '] := by decide
    exact absurd (h.subset (show ':' ∈ castTwice by decide)) hcolon

/-- the one cast that is added is not enough for two -/
theorem clearOf_fieldBeforeComma : fieldBeforeComma.ClearOf castTwice := by
  refine ⟨?_, ?_, ?_⟩
  all_goals
    intro before text found hfound
    obtain ⟨rest, -, hshape⟩ := (finds_fieldBeforeComma before text found).1 hfound
    obtain ⟨-, hchars⟩ := hshape
    rename_i field
  · exact ⟨'(', rfl, by decide⟩
  · exact ⟨',', by rw [List.getLast?_concat], by decide⟩
  · intro h
    have hfield : field.count ':' = 0 := List.count_eq_zero.2 fun hmem => absurd (hchars ':' hmem) (by decide)
    have hcount := h.sublist.count_le ':'
    rw [List.count_append, List.count_append, List.count_cons, hfield] at hcount
    exact absurd hcount (by decide)

theorem clearOf_functionName {name : Fragment} (hname : Uncast name) : (functionName name).ClearOf castTwice := by
  refine ⟨?_, ?_, ?_⟩
  all_goals
    intro before text found hfound
    obtain ⟨rest, -, hshape⟩ := (finds_functionName name before text found).1 hfound
    obtain ⟨-, hw⟩ := hshape
  · cases hfirst : name with
    | nil => exact ⟨'(', rfl, by decide⟩
    | cons c name' => exact ⟨c, rfl, hname.1 c (by rw [hfirst]; rfl)⟩
  · exact ⟨'(', by rw [List.getLast?_concat], by decide⟩
  · intro h
    have hcolon := h.subset (show ':' ∈ castTwice by decide)
    rcases List.mem_append.1 hcolon with hmem | hmem
    · exact absurd hmem hname.2
    · exact absurd hmem (by decide)

theorem clearOf_of_mem_edits (hname : ∀ name ∈ needs.aggregateFunction, Uncast name.toList) {edit : Pattern}
    (h : edit ∈ edits needs) : edit.ClearOf castTwice := by
  rcases mem_edits_cases h with rfl | rfl | ⟨name, hmem, rfl⟩
  · exact clearOf_separatorPhrase
  · exact clearOf_fieldBeforeComma
  · exact clearOf_functionName (hname name hmem)

/-- the edits of a call, one after the other, bring no second cast -/
theorem castTwice_of_foldl {patterns : List Pattern} (hcov : ∀ edit ∈ patterns, edit.Covers)
    (hp : ∀ edit ∈ patterns, edit.ClearOf castTwice) {call : Fragment}
    (h : castTwice <:+: patterns.foldl (fun call edit => replaceAll edit call) call) : castTwice <:+: call := by
  induction patterns generalizing call with
  | nil => exact h
  | cons edit patterns ih =>
    rw [List.forall_mem_cons] at hcov hp
    exact infix_of_replaceFrom hcov.1 hp.1 none call (ih hcov.2 hp.2 h)

variable {name : String} (hname : needs.aggregateFunction = some name)
  (hflat : ∀ name ∈ needs.aggregateFunction, Flat name.toList)
  (hline : ∀ name ∈ needs.aggregateFunction, OneLine name.toList)
  (huncast : ∀ name ∈ needs.aggregateFunction, Uncast name.toList)

include hname hflat hline huncast

theorem clearOf_call : (call needs).ClearOf castTwice := by
  refine ⟨?_, ?_, ?_⟩
  all_goals
    intro before text found hfound
    have hrenamed := renames_call hname (hflat name hname) before text found hfound
    obtain ⟨call, hcall, rfl⟩ := Option.map_eq_some_iff.1 hfound
    obtain ⟨rest, -, hone⟩ := callAt?_eq_some_iff.1 hcall
  · obtain ⟨more, hmore⟩ := hrenamed
    cases hfirst : name.toList with
    | nil => exact ⟨'(', by rw [hmore, hfirst]; rfl, by decide⟩
    | cons c name' => exact ⟨c, by rw [hmore, hfirst]; rfl, (huncast name hname).1 c (by rw [hfirst]; rfl)⟩
  · exact ⟨')', (closes_adaptCall hflat hline hone).2, by decide⟩
  · intro h
    rw [adaptCall_eq_foldl] at h
    exact castTwice_of_foldl (fun edit he => covers_of_mem_edits he)
      (fun edit he => clearOf_of_mem_edits huncast he) h

/-- **No field is cast twice**, unless it was before. -/
theorem castTwice_of_apply (sql : Fragment) (h : castTwice <:+: apply needs sql) : castTwice <:+: sql := by
  have hactive : active needs = true := by rw [active, hname]; simp
  rw [apply, if_pos hactive] at h
  exact infix_of_replaceFrom (covers_call needs) (clearOf_call hname hflat hline huncast) none sql h

end Aggregate

/-! ## Both rules -/

/-- the rules that rename have nothing left to rename after one pass -/
structure OnePass (needs : Capabilities) : Prop where
  /-- on no line is an opening of the aggregate followed by something and then a parenthesis that closes -/
  aggregate : ∀ sql, ∀ line ∈ (Aggregate.apply needs sql).splitOn '\n', ∀ front word body rest,
    Spells Aggregate.callName word → line = front ++ word ++ '(' :: body ++ ')' :: rest → body = []
  /-- no call of `IFNULL` is left that does not end a longer name -/
  coalesce : ∀ sql front word rest, Spells NullCoalesce.callName word → startsWord front.getLast? = true →
    NullCoalesce.apply needs sql ≠ front ++ word ++ '(' :: rest
  aggregate_again : ∀ sql, Aggregate.apply needs (Aggregate.apply needs sql) = Aggregate.apply needs sql
  coalesce_again : ∀ sql, NullCoalesce.apply needs (NullCoalesce.apply needs sql) = NullCoalesce.apply needs sql
  /-- no field is cast twice that was not in the fragment -/
  cast : ∀ sql, Aggregate.castSuffix ++ Aggregate.castSuffix <:+: Aggregate.apply needs sql →
    Aggregate.castSuffix ++ Aggregate.castSuffix <:+: sql

theorem onePass_of_renamed {needs : Capabilities} (hn : needs.FlatNames) (ha : needs.ApartNames)
    (haggregate : needs.aggregateFunction ≠ none) (hcoalesce : needs.coalesceFunction ≠ none)
    (huncast : ∀ name ∈ needs.aggregateFunction, Aggregate.Uncast name.toList) : OnePass needs := by
  obtain ⟨aggregate, hname⟩ := Option.ne_none_iff_exists'.1 haggregate
  obtain ⟨coalesce, hname'⟩ := Option.ne_none_iff_exists'.1 hcoalesce
  have hline : ∀ name ∈ needs.aggregateFunction, Aggregate.OneLine name.toList := fun name h => (ha.aggregate name h).1
  have hnone (sql : Fragment) : NoMatch (Aggregate.call needs) none (Aggregate.apply needs sql) :=
    Aggregate.noMatch_apply hname hn.aggregate hline (ha.aggregate aggregate hname).2 sql
  have hnone' (sql : Fragment) :
      NoMatch (NullCoalesce.functionName coalesce.toList) none (NullCoalesce.apply needs sql) :=
    NullCoalesce.noMatch_apply hname' (hn.coalesce coalesce hname') (ha.coalesce coalesce hname').2.2.2 sql
  refine ⟨?aggregate, ?coalesce, ?aggregateAgain, ?coalesceAgain, ?cast⟩
  case aggregate =>
    intro sql line hmem front word body rest hw htext
    exact Aggregate.eq_nil_of_noMatch (hnone sql) hmem hw htext
  case coalesce =>
    intro sql front word rest hw hstart htext
    rw [← lastOr_none] at hstart
    rw [List.append_assoc] at htext
    exact (noMatch_iff (NullCoalesce.finds_functionName coalesce.toList).findsOpenings).1 (hnone' sql) front word rest htext
      hw hstart trivial
  case aggregateAgain =>
    intro sql
    conv => lhs; rw [Aggregate.apply]
    rw [replaceAll_eq_self (hnone sql), ite_self]
  case coalesceAgain =>
    intro sql
    conv => lhs; rw [NullCoalesce.apply]
    rw [hname']
    exact replaceAll_eq_self (hnone' sql)
  case cast =>
    intro sql
    exact Aggregate.castTwice_of_apply hname hn.aggregate hline huncast sql

/-- a dialect that keeps the name of the aggregate keeps its calls -/
theorem not_onePass {needs : Capabilities}
    (h : Aggregate.apply needs "group_concat(a)".toList = "group_concat(a)".toList) : ¬ OnePass needs := by
  intro hone
  have hbody := hone.aggregate "group_concat(a)".toList "group_concat(a)".toList (by rw [h]; decide) [] Aggregate.callName
    ['a'] [] ((spells_iff_toLower (by decide)).2 rfl) rfl
  cases hbody

theorem uncast_builtin (driver : Driver) :
    ∀ name ∈ (Dialect.builtin driver).capabilities.aggregateFunction, Aggregate.Uncast name.toList := by
  intro name hname
  cases driver with
  | mysql | sqlite => cases hname
  | pgsql | postgis | sqlsrv =>
    cases hname
    refine ⟨?_, by decide⟩
    intro c hc
    cases hc
    decide

/-- **The rules that rename are done after one pass** for the built-in dialects that have other names for the functions,
and for no others. -/
theorem onePass_builtin (driver : Driver) :
    OnePass (Dialect.builtin driver).capabilities ↔ driver = .pgsql ∨ driver = .postgis ∨ driver = .sqlsrv := by
  have hrenamed (haggregate : (Dialect.builtin driver).capabilities.aggregateFunction ≠ none)
      (hcoalesce : (Dialect.builtin driver).capabilities.coalesceFunction ≠ none) :=
    onePass_of_renamed (flatNames_builtin driver) (apartNames_builtin driver) haggregate hcoalesce (uncast_builtin driver)
  cases driver with
  | mysql => exact iff_of_false (not_onePass rfl) (by decide)
  | sqlite => exact iff_of_false (not_onePass (by decide)) (by decide)
  | pgsql => exact iff_of_true (hrenamed (by decide) (by decide)) (by decide)
  | postgis => exact iff_of_true (hrenamed (by decide) (by decide)) (by decide)
  | sqlsrv => exact iff_of_true (hrenamed (by decide) (by decide)) (by decide)

end SqlDialects
