/-
Functions whose names end with the name of a function that the rules look for, as `GROUP_CONCAT` itself ends with `CONCAT`.
The rules that join calls and replace null ask where a name begins. The rule for the aggregate does not.

- `Calls`: the text calls a function by just this name; this can be computed.
- `LongerNames`: every opening that the rules look for ends a longer name.
- `settled_iff_noMatch`: where the aggregate has another name, nothing is left to edit only if no call of it is found.
- `longerNames_builtin`: what the rules of the built-in dialects leave alone of such a text.
-/
import SqlDialects.Proofs.Aggregate.Lines
import SqlDialects.Proofs.Translation.Progress

namespace SqlDialects

open Text Fragment

/-! ## Calls by name -/

/-- the name of the function, in some case, stands in front of a parenthesis and is not the end of a longer name -/
def Calls (function sql : Fragment) : Prop :=
  ∃ front word body, sql = front ++ (word ++ '(' :: body) ∧ Spells function word ∧ startsWord (lastOr none front) = true

/-- the text has openings of the three functions only at the end of longer names -/
structure LongerNames (sql : Fragment) : Prop where
  aggregate : ¬ Calls Aggregate.callName sql
  concat : ¬ Calls FieldConcat.callName sql
  coalesce : ¬ Calls NullCoalesce.callName sql

variable {function sql : Fragment}

theorem calls_iff : Calls function sql ↔ ∃ i < sql.length, startsWord (lastOr none (sql.take i)) = true ∧
    (afterKeyword (function ++ ['(']) (sql.drop i)).isSome = true := by
  refine ⟨?_, ?_⟩
  · rintro ⟨front, word, body, rfl, hw, hstart⟩
    refine ⟨front.length, by simp, by rwa [List.take_left], ?_⟩
    rw [List.drop_left, Option.isSome_iff_exists]
    exact ⟨body, afterKeyword_eq_some_iff.2 ⟨word ++ ['('], spells_call.2 ⟨word, hw, rfl⟩, by simp⟩⟩
  · rintro ⟨i, -, hstart, hkeyword⟩
    obtain ⟨body, hbody⟩ := Option.isSome_iff_exists.1 hkeyword
    obtain ⟨found, hfound, htext⟩ := afterKeyword_eq_some_iff.1 hbody
    obtain ⟨word, hw, rfl⟩ := spells_call.1 hfound
    refine ⟨sql.take i, word, body, ?_, hw, hstart⟩
    rw [show word ++ '(' :: body = word ++ ['('] ++ body by simp, ← htext, List.take_append_drop]

instance (function sql : Fragment) : Decidable (Calls function sql) := decidable_of_iff _ calls_iff.symm

/-! ## The rules that ask where a name begins -/

/-- without a call by that name there is none to join -/
theorem FieldConcat.not_joinable_of_not_calls (h : ¬ Calls callName sql) : ¬ Joinable .outside none sql := by
  rintro ⟨front, inner, after, ⟨-, hstart, word, hw, htext⟩, -⟩
  exact h ⟨front, word, inner ++ ')' :: after, by rw [htext, List.append_assoc], hw, hstart⟩

/-- and none to rename -/
theorem NullCoalesce.noMatch_of_not_calls (h : ¬ Calls callName sql) (name : Fragment) :
    NoMatch (functionName name) none sql :=
  (noMatch_iff (finds_functionName name).findsOpenings).2 fun front word body htext hw hstart _ =>
    h ⟨front, word, body, htext, hw, hstart⟩

/-! ## The rule for the aggregate -/

namespace Aggregate

variable {needs : Capabilities}

/-- a longer name ends with that of the aggregate, and what it is called with closes on its line, behind something -/
def EndsLongerName (sql : Fragment) : Prop :=
  ∃ front c word body, sql = front ++ c :: (word ++ '(' :: body) ∧ isWord c = true ∧ Spells callName word ∧
    ClosesLater body

/-- **Where the aggregate has another name**, nothing is left to edit only if no call of it is found. -/
theorem settled_iff_noMatch {name : String} (hname : needs.aggregateFunction = some name) :
    Settled needs sql ↔ NoMatch (call needs) none sql := by
  refine ⟨fun hsettled => ?_, settled_of_noMatch⟩
  rw [noMatch_iff (findsOpenings_call needs)]
  intro front word body htext hw _ hcloses
  obtain ⟨found, hfound⟩ := Option.ne_none_iff_exists'.1
    ((findsOpenings_call needs none _).2 ⟨trivial, word, body, hw, rfl, hcloses⟩)
  obtain ⟨matched, hcall, -⟩ := Option.map_eq_some_iff.1 hfound
  have hedit : functionName name.toList ∈ edits needs := by simp [edits, hname]
  have hno := hsettled front _ matched htext hcall _ hedit
  -- the call that is found begins with its opening
  obtain ⟨rest, -, hone⟩ := callAt?_eq_some_iff.1 hcall
  obtain ⟨hw', -, -, -⟩ := hone
  rename_i word' inner
  exact (noMatch_iff (finds_functionName name.toList).findsOpenings).1 hno [] word' (inner ++ [')']) (by simp) hw' trivial
    trivial

/-- a call of the aggregate by a longer name is all that is found -/
theorem noMatch_iff_of_not_calls (h : ¬ Calls callName sql) : NoMatch (call needs) none sql ↔ ¬ EndsLongerName sql := by
  rw [noMatch_iff (findsOpenings_call needs)]
  refine ⟨?_, ?_⟩
  · rintro hno ⟨front, c, word, body, htext, -, hw, hcloses⟩
    exact hno (front ++ [c]) word body (by simpa using htext) hw trivial hcloses
  · intro hno front word body htext hw _ hcloses
    cases hlast : startsWord (lastOr none front) with
    | true => exact h ⟨front, word, body, htext, hw, hlast⟩
    | false =>
      rcases List.eq_nil_or_concat front with rfl | ⟨start, c, rfl⟩
      · cases hlast
      · rw [List.concat_eq_append] at htext hlast
        rw [lastOr_concat, startsWord, Bool.not_eq_false'] at hlast
        exact hno ⟨start, c, word, body, by simpa using htext, hlast, hw, hcloses⟩

end Aggregate

/-! ## Built-in dialects -/

/-- **Only two of the rules respect longer names.** In a text with no call by just these names, calls are not joined and null
is not replaced. The rule for the aggregate leaves the text alone exactly if it finds nothing to edit in the calls of
longer names; where the aggregate has another name, exactly if no longer name that ends with the old one is called. -/
theorem longerNames_builtin (driver : Driver) (h : LongerNames sql) :
    FieldConcat.apply (Dialect.builtin driver).capabilities sql = sql ∧
    NullCoalesce.apply (Dialect.builtin driver).capabilities sql = sql ∧
    (Aggregate.apply (Dialect.builtin driver).capabilities sql = sql ↔
      (Aggregate.active (Dialect.builtin driver).capabilities = true →
        Aggregate.Settled (Dialect.builtin driver).capabilities sql)) ∧
    ((Dialect.builtin driver).capabilities.aggregateFunction ≠ none →
      (Aggregate.apply (Dialect.builtin driver).capabilities sql = sql ↔ ¬ Aggregate.EndsLongerName sql)) := by
  have hn := flatNames_builtin driver
  have ht := tellingNames_builtin driver
  have haggregate := (Aggregate.advances_apply hn.aggregate ht.aggregate sql).eq_iff
  refine ⟨?concat, ?coalesce, haggregate, ?renamed⟩
  case concat =>
    exact (FieldConcat.advances_apply hn.concat sql).eq_iff.2 fun _ => FieldConcat.not_joinable_of_not_calls h.concat
  case coalesce =>
    exact (NullCoalesce.advances_apply hn.coalesce ht.coalesce sql).eq_iff.2 fun name _ =>
      NullCoalesce.noMatch_of_not_calls h.coalesce name.toList
  case renamed =>
    intro hrenamed
    obtain ⟨name, hname⟩ := Option.ne_none_iff_exists'.1 hrenamed
    have hactive : Aggregate.active (Dialect.builtin driver).capabilities = true := by
      rw [Aggregate.active, hname]; simp
    rw [haggregate, Aggregate.settled_iff_noMatch hname,
      Aggregate.noMatch_iff_of_not_calls h.aggregate]
    exact ⟨fun hno => hno hactive, fun hno _ => hno⟩

/-- the end of a name that is not the one of the aggregate is replaced -/
theorem longerNames_myGroupConcat :
    LongerNames "SELECT MY_GROUP_CONCAT(a) FROM t".toList ∧
    Aggregate.EndsLongerName "SELECT MY_GROUP_CONCAT(a) FROM t".toList ∧
    FieldConcat.apply Dialect.pgsql.capabilities "SELECT MY_GROUP_CONCAT(a) FROM t".toList =
      "SELECT MY_GROUP_CONCAT(a) FROM t".toList ∧
    NullCoalesce.apply Dialect.pgsql.capabilities "SELECT MY_GROUP_CONCAT(a) FROM t".toList =
      "SELECT MY_GROUP_CONCAT(a) FROM t".toList ∧
    Aggregate.apply Dialect.pgsql.capabilities "SELECT MY_GROUP_CONCAT(a) FROM t".toList =
      "SELECT MY_string_agg(a) FROM t".toList := by
  have hlonger : LongerNames "SELECT MY_GROUP_CONCAT(a) FROM t".toList := ⟨by decide, by decide, by decide⟩
  obtain ⟨hconcat, hcoalesce, -, hrenamed⟩ := longerNames_builtin .pgsql hlonger
  have happly : Aggregate.apply Dialect.pgsql.capabilities "SELECT MY_GROUP_CONCAT(a) FROM t".toList =
      "SELECT MY_string_agg(a) FROM t".toList := by decide
  refine ⟨hlonger, not_not.1 (mt (hrenamed (by decide)).2 ?_), hconcat, hcoalesce, happly⟩
  show Aggregate.apply Dialect.pgsql.capabilities _ ≠ _
  rw [happly]
  decide

end SqlDialects
