/-
What the parser is asked to read. The registry and the parser know the same names, so a translator that validates asks
once for each fragment, whatever was registered before it was built.

- `KnownAlike`: what registry and parser make of a name; `knownAlike`: they agree on every name.
- `Registry.Reaches`: the dialect that a choice leads to, told by what was registered; `Tracks.outcome_resolve_iff`: that
  is the one that the registry gives.
- `Translator.AsksOnce`: the parser is asked to read a translation and nothing else, and only its own objections are
  passed on.
- `Translator.asksOnce_run`: so it is for every translator that can be built, after every run of the registry.
-/
import SqlDialects.Proofs.Dialect.LastWrite
import SqlDialects.Proofs.Translation.Validation

namespace SqlDialects

/-- what the parser was asked to read, if it was asked -/
def Event.parserCall? : Event → Option (Fragment × Grammar)
  | parse sql grammar => some (sql, grammar)
  | _ => none

/-- what the parser was asked to read, and by which grammar -/
def Traced.parserCalls {ε α : Type} (x : Traced ε α) : List (Fragment × Grammar) := x.events.filterMap Event.parserCall?

/-- the message about a name that the parser has no grammar for -/
def unknownDialect (name : String) : String := "Unknown dialect '" ++ name ++ "' \u2014 skipping SQL validation"

variable {name : String} {driver : Driver} {dialect : Dialect} {parser : Parser} {sql : Fragment}

/-! ## Names -/

theorem Driver.ofText?_eq_some_iff : Driver.ofText? name = some driver ↔ name = driver.text := by
  refine ⟨fun h => ?_, ?_⟩
  · unfold ofText? at h
    split at h
    all_goals cases h
    all_goals rfl
  · rintro rfl
    exact ofText?_text driver

/-- a dialect is built in under the names of the drivers, and under no other -/
theorem Registry.under_builtin (name : String) : builtin.under name = (Driver.ofText? name).map Dialect.builtin := by
  cases h : Driver.ofText? name with
  | some driver =>
    obtain rfl := Driver.ofText?_eq_some_iff.1 h
    cases driver with
    | mysql => rfl
    | pgsql => rfl
    | postgis => rfl
    | sqlite => rfl
    | sqlsrv => rfl
  | none =>
    rw [under, Option.map_none, List.find?_eq_none]
    intro dialect _ hdialect
    have hname : name = dialect.driver.text := (beq_iff_eq.1 hdialect).symm
    rw [Driver.ofText?_eq_some_iff.2 hname] at h
    cases h

theorem Registry.get_builtin_iff : builtin.get name = .ok dialect ↔
    ∃ driver, Driver.ofText? (Text.lowercase name) = some driver ∧ Dialect.builtin driver = dialect := by
  rw [get, under_builtin]
  cases Driver.ofText? (Text.lowercase name) with
  | none => simp
  | some driver => simp

theorem validate_eq_of_unknown (h : Grammar.ofName? name = none) (parser : Parser) (sql : Fragment) :
    validate parser sql name = pure [unknownDialect name] := by
  unfold validate unknownDialect
  rw [h]

theorem parserCalls_validate (parser : Parser) (sql : Fragment) (name : String) :
    (validate parser sql name).parserCalls = (Grammar.ofName? name).toList.map fun grammar => (sql, grammar) := by
  cases h : Grammar.ofName? name with
  | none => rw [Traced.parserCalls, validate_of_unknown h, List.filterMap_nil, Option.toList_none, List.map_nil]
  | some grammar =>
    rw [Traced.parserCalls, validate_of_known h, Option.toList_some, List.map_singleton]
    exact List.filterMap_cons_some rfl

/-- The registry and the parser agree on a name. -/
structure KnownAlike (name : String) : Prop where
  found_iff : (∃ dialect, Registry.builtin.get name = .ok dialect) ↔ Grammar.ofName? name ≠ none
  asked_iff : ∀ parser sql, (validate parser sql name).parserCalls ≠ [] ↔ Grammar.ofName? name ≠ none
  /-- the grammar is that of the dialect found -/
  grammar : ∀ dialect, Registry.builtin.get name = .ok dialect → Grammar.ofName? name = some (.ofDriver dialect.driver)
  /-- a name without a grammar is reported instead -/
  reported : Grammar.ofName? name = none → ∀ parser sql, validate parser sql name = pure [unknownDialect name]

theorem knownAlike (name : String) : KnownAlike name where
  found_iff := by
    simp only [Registry.get_builtin_iff, Grammar.ofName?]
    cases Driver.ofText? (Text.lowercase name) with
    | none => simp
    | some driver => simp
  asked_iff parser sql := by
    rw [parserCalls_validate]
    cases Grammar.ofName? name with
    | none => simp
    | some grammar => simp
  grammar dialect h := by
    obtain ⟨driver, hdriver, rfl⟩ := Registry.get_builtin_iff.1 h
    rw [Dialect.driver_builtin, Grammar.ofName?, hdriver, Option.map_some]
  reported h := validate_eq_of_unknown h

/-! ## Dialects that can be reached -/

namespace Registry

/-- the dialect that a choice leads to, where `history` is what the registry was asked for -/
inductive Reaches (history : List Request) : DialectChoice → Dialect → Prop where
  | given (dialect : Dialect) : Reaches history (.given dialect) dialect
  | registered {name : String} {dialect : Dialect} :
      RegisteredLast history (Text.lowercase name) dialect → Reaches history (.named name) dialect
  | reference {name : String} {dialect : Dialect} : ¬ Registered history (Text.lowercase name) →
      RegisteredLast history Driver.reference.text dialect → Reaches history (.named name) dialect

variable {history : List Request} {registry : Registry} {choice : DialectChoice}

theorem Tracks.outcome_resolve_iff (h : Tracks history registry) :
    (registry.resolve choice).outcome = .ok dialect ↔ Reaches history choice dialect := by
  have hreference : Text.lowercase Driver.reference.text = Driver.reference.text := by decide +kernel
  cases choice with
  | given other =>
    refine ⟨fun hother => ?_, ?_⟩
    · cases hother; exact .given dialect
    · rintro ⟨-⟩; rfl
  | named name =>
    rw [resolve_named]
    cases hget : registry.get name with
    | ok other =>
      have hlast := h.get_eq_ok_iff.1 hget
      refine ⟨fun hother => ?_, fun hreached => ?_⟩
      · cases hother; exact .registered hlast
      · cases hreached with
        | registered hdialect =>
          exact congrArg _ (Except.ok.inj (hget.symm.trans (h.get_eq_ok_iff.2 hdialect)))
        | reference hnot _ => exact absurd (registered_iff.2 ⟨other, hlast⟩) hnot
    | error e =>
      have hnot : ¬ Registered history (Text.lowercase name) := by
        rw [← h.mem_available_iff]; exact (get_eq_error_iff.1 hget).1
      show registry.get Driver.reference.text = .ok dialect ↔ _
      rw [h.get_eq_ok_iff, hreference]
      refine ⟨fun hlast => .reference hnot hlast, fun hreached => ?_⟩
      cases hreached with
      | registered hdialect => exact absurd (registered_iff.2 ⟨dialect, hdialect⟩) hnot
      | reference _ hlast => exact hlast

end Registry

/-! ## Translators -/

namespace Translator

/-- the translator that a choice of dialect and the other options make -/
def of (dialect : Dialect) (options : TranslatorOptions) : Translator :=
  ⟨dialect, options.tablePrefix, options.rules, options.validates⟩

theorem outcome_create_iff {registry : Registry} {options : TranslatorOptions} {translator : Translator} :
    (create registry options).outcome = .ok translator ↔
      ∃ dialect, (registry.resolve options.dialect).outcome = .ok dialect ∧ of dialect options = translator := by
  rw [create]
  cases h : (registry.resolve options.dialect).outcome with
  | ok dialect => rw [Traced.bind_of_ok _ h]; simp [of]
  | error e => rw [Traced.bind_of_error _ h]; simp

theorem parserCalls_ruleEvents (dialect : Dialect) (adapted : Adapted) :
    (ruleEvents dialect adapted).filterMap Event.parserCall? = [] := by
  rw [ruleEvents, List.filterMap_map, List.filterMap_eq_nil_iff]
  intro rule _
  rfl

theorem warning_injective {a b : String} (h : warning a = warning b) : a = b := by
  have h : ("SQL validation: " ++ a).toList = ("SQL validation: " ++ b).toList := congrArg String.toList h
  rw [String.toList_append, String.toList_append] at h
  exact String.toList_inj.1 (List.append_cancel_left h)

/-- The parser is asked to read `text` by a grammar, once, and nothing else is passed on than what it has to say. -/
structure AsksOnce (translator : Translator) (parser : Parser) (sql text : Fragment) (grammar : Grammar) : Prop where
  calls : (translator.translateChecked parser sql).parserCalls = [(text, grammar)]
  answered : ∀ checked, (translator.translateChecked parser sql).outcome = .ok checked →
    checked.sql = text ∧ checked.warnings = (parser.objections text grammar).map warning
  /-- an error is the parser's own, and no objection -/
  failed : ∀ e, (translator.translateChecked parser sql).outcome = .error e →
    parser text grammar = some e ∧ e.kind.isObjection = false
  /-- an unknown dialect is reported only if the parser says so itself -/
  unknown : ∀ checked name, (translator.translateChecked parser sql).outcome = .ok checked →
    warning (unknownDialect name) ∈ checked.warnings → ∃ e, parser text grammar = some e ∧ e.message = unknownDialect name

variable {translator : Translator}

theorem parserCalls_translateChecked (hv : translator.validates = true) (parser : Parser) (sql : Fragment) :
    (translator.translateChecked parser sql).parserCalls =
      [((adapt translator.rules translator.dialect.capabilities sql).sql, .ofDriver translator.driver)] := by
  have hvalidate := parserCalls_validate parser (adapt translator.rules translator.dialect.capabilities sql).sql
    translator.driver.text
  rw [Grammar.ofName?_text] at hvalidate
  rw [Traced.parserCalls, translateChecked_validated hv]
  simp only [List.filterMap_append, parserCalls_ruleEvents, List.nil_append]
  exact hvalidate

/-- **A translator that validates asks once**, whatever its dialect is and wherever it comes from. -/
theorem asksOnce (hv : translator.validates = true) (parser : Parser) (sql : Fragment) :
    translator.AsksOnce parser sql (adapt translator.rules translator.dialect.capabilities sql).sql
      (.ofDriver translator.driver) := by
  have hobjections : translator.objections parser sql =
      parser.objections (adapt translator.rules translator.dialect.capabilities sql).sql (.ofDriver translator.driver) := by
    rw [objections, hv, if_pos rfl]
  have hanswered : ∀ checked, (translator.translateChecked parser sql).outcome = .ok checked →
      checked = translator.checkedAs (adapt translator.rules translator.dialect.capabilities sql)
        (translator.objections parser sql) := by
    intro checked hc
    rw [outcome_of_not_breaksOn ((answers_iff_not_breaksOn translator parser sql).1 ⟨checked, hc⟩)] at hc
    exact (Except.ok.inj hc).symm
  refine ⟨parserCalls_translateChecked hv parser sql, fun checked hc => ?_, fun e he => ?_, fun checked name hc hmem => ?_⟩
  · rw [hanswered checked hc, hobjections]
    exact ⟨rfl, rfl⟩
  · by_cases hb : translator.BreaksOn parser sql
    · obtain ⟨-, e', he', hkind⟩ := hb
      rw [outcome_of_breaksOn hv he' hkind] at he
      obtain rfl := Except.error.inj he
      exact ⟨he', hkind⟩
    · rw [outcome_of_not_breaksOn hb] at he; cases he
  · rw [hanswered checked hc, hobjections] at hmem
    obtain ⟨message, hm, heq⟩ := List.mem_map.1 hmem
    obtain rfl := warning_injective heq
    obtain ⟨e, he, hmessage⟩ := List.mem_map.1 hm
    exact ⟨e, Option.mem_toList.1 he, hmessage⟩

/-- **The parser is asked about every translation once, by a grammar that it knows.** The registry of the built-in
dialects and the parser know the same names. Whatever was registered since, and whatever name or dialect a translator is
built from, its driver has a grammar; a fragment that it translates and validates is read by that grammar, as it is
answered or would have been answered without validation. -/
theorem asksOnce_run :
    (∀ name, KnownAlike name) ∧
    ∀ (requests : List Registry.Request) (options : TranslatorOptions) (translator : Translator),
      ((create (Registry.builtin.run requests) options).outcome = .ok translator ↔
        ∃ dialect, Registry.Reaches (Registry.startup ++ requests) options.dialect dialect ∧
          of dialect options = translator) ∧
      ((create (Registry.builtin.run requests) options).outcome = .ok translator → options.validates = true →
        ∃ grammar, Grammar.ofName? translator.driver.text = some grammar ∧
          ∀ parser sql, ∃ plain, (translator.unvalidated.translateChecked parser sql).outcome = .ok plain ∧
            translator.AsksOnce parser sql plain.sql grammar) := by
  refine ⟨knownAlike, fun requests options translator => ⟨?_, fun hcreate hv => ?_⟩⟩
  · have htracks := Registry.tracks_run Registry.tracks_builtin requests
    rw [outcome_create_iff]
    exact exists_congr fun dialect => and_congr_left' htracks.outcome_resolve_iff
  · obtain ⟨dialect, -, rfl⟩ := outcome_create_iff.1 hcreate
    refine ⟨_, Grammar.ofName?_text _, fun parser sql => ?_⟩
    refine ⟨checkedAs (of dialect options) (adapt options.rules dialect.capabilities sql) [], ?_,
      asksOnce hv parser sql⟩
    rw [translateChecked_unvalidated rfl]; rfl

/-- a dialect that was removed: the one that stands in for it decides how the parser reads, and a parser that gives up
was asked all the same -/
theorem asksOnce_removed :
    (create (Registry.builtin.run [.reset, .register Dialect.mysql])
      { dialect := .named "SQLite", rules := [.appending "tag" " -- x".toList] }).outcome =
        .ok ⟨Dialect.mysql, "", [.appending "tag" " -- x".toList], true⟩ ∧
    (translateChecked ⟨Dialect.mysql, "", [.appending "tag" " -- x".toList], true⟩ exhausted
      "SELECT 1".toList).parserCalls = [("SELECT 1 -- x".toList, .mysql)] := by
  have hcreate : (create (Registry.builtin.run [.reset, .register Dialect.mysql])
      { dialect := .named "SQLite", rules := [.appending "tag" " -- x".toList] }).outcome =
        .ok ⟨Dialect.mysql, "", [.appending "tag" " -- x".toList], true⟩ := by rfl
  obtain ⟨grammar, hgrammar, hasks⟩ := (asksOnce_run.2 _ _ _).2 hcreate rfl
  obtain ⟨plain, hplain, honce⟩ := hasks exhausted "SELECT 1".toList
  have hsql : plain.sql = "SELECT 1 -- x".toList := by
    rw [translateChecked_unvalidated rfl] at hplain
    rw [← Except.ok.inj hplain]
    rfl
  rw [Grammar.ofName?_text] at hgrammar
  refine ⟨hcreate, ?_⟩
  rw [honce.calls, hsql, ← Option.some.inj hgrammar]
  rfl

end Translator

end SqlDialects
