/-
The rule for the aggregate and the rule for `IFNULL` in either order. Calls of the two functions stand in one another,
share parentheses with the fields that are cast and end on one line, and still no edit of one rule touches what the
other one looks for.

- `independent_separatorPhrase`, `independent_fieldBeforeComma`, `independent_functionName`: the edits of a call and the
  renaming of `IFNULL` are independent.
- `adaptCall_renamed`, `independent_call`: so are the calls, which end with the same parenthesis on the same line.
- `apply_comm`: the rules commute, for all names that end in different ways; `coalesce_aggregate_comm`: so they do for
  the built-in dialects.
-/
import SqlDialects.Proofs.Call.Independence
import SqlDialects.Proofs.NullCoalesce.Signs
import SqlDialects.Proofs.Translation.Stability

namespace SqlDialects

open Text Fragment

namespace Aggregate

open NullCoalesce (EndsInStop stop_of_isBlank covers_functionName replaceFrom_append replaceFrom_of_paren_not_mem
  exists_of_replaceFrom_append)

variable {name : Fragment} {needs : Capabilities} {before : Option Char}

/-! ## What the rule edits -/

/-- the name of the aggregate does not end with that of the other function -/
theorem not_suffix_of_spells {word : Fragment} (hw : Spells callName word) :
    ∀ w, Spells NullCoalesce.callName w → ¬ w <:+ word :=
  fun _ hw' => (NullCoalesce.apart_of_spells (by decide) hw').not_suffix hw

theorem SeparatorPhrase.endsInStop {next : Option Char} {found : Match} (h : SeparatorPhrase before found next) :
    EndsInStop found.matched := by
  obtain ⟨-, -, -, hblank, htrail, -⟩ := h
  rename_i lead word trail
  obtain ⟨front, last, rfl⟩ := (List.eq_nil_or_concat trail).resolve_left htrail
  exact ⟨lead ++ word ++ front, last, by simp, stop_of_isBlank (hblank last (by simp))⟩

theorem ofSigns_separatorPhrase : separatorPhrase.OfSigns := by
  intro before text found hfound
  obtain ⟨rest, rfl, hblank, hlead, -, -, -, -⟩ := (finds_separatorPhrase before text found).1 hfound
  rename_i lead word trail
  obtain ⟨c, lead, rfl⟩ := List.exists_cons_of_ne_nil hlead
  obtain ⟨hc, hne⟩ := stop_of_isBlank (hblank c List.mem_cons_self)
  exact ⟨c, lead ++ word ++ trail ++ rest, ',', [' '], by simp, rfl, hc, by decide, iff_of_false hne (by decide)⟩

theorem ofSigns_fieldBeforeComma : fieldBeforeComma.OfSigns := by
  intro before text found hfound
  obtain ⟨rest, rfl, -, -⟩ := (finds_fieldBeforeComma before text found).1 hfound
  rename_i field
  exact ⟨'(', field ++ [','] ++ rest, '(', field ++ castSuffix ++ [','], by simp, by simp, by decide, by decide, Iff.rfl⟩

/-- behind its parenthesis the renaming leaves a field alone -/
theorem replaceFrom_field {field : Fragment} (hfield : Flat field) :
    replaceFrom (NullCoalesce.functionName name) before 0 ('(' :: field ++ [',']) = '(' :: field ++ [','] := by
  rw [List.cons_append, NullCoalesce.replaceFrom_paren, replaceFrom_of_paren_not_mem (by simp [hfield.open_not_mem])]

/-- an opening that does not end with the name of the function is kept, and what stands behind it is renamed on its own -/
theorem replaceFrom_opening {word : Fragment} (hparen : '(' ∉ word)
    (hends : ∀ w, Spells NullCoalesce.callName w → ¬ w <:+ word) (before : Option Char) (body : Fragment) :
    replaceFrom (NullCoalesce.functionName name) before 0 (word ++ ['('] ++ body) =
      replaceFrom (NullCoalesce.functionName name) before 0 (word ++ ['(']) ++
        replaceFrom (NullCoalesce.functionName name) (some '(') 0 body := by
  rw [List.append_assoc, List.singleton_append, NullCoalesce.replaceFrom_word hparen hends,
    NullCoalesce.replaceFrom_word hparen hends, List.append_assoc]
  rfl

section

variable (hname : ∀ c ∈ name, isWord c = true)

include hname

/-- a match follows the renaming if it and what takes its place end in stops -/
theorem follows_of_endsInStop {pattern : Pattern} {found : Match} {rest : Fragment} (hm : EndsInStop found.matched)
    (hr : EndsInStop found.replacement)
    (hrenamed : pattern before (replaceFrom (NullCoalesce.functionName name) before 0 found.matched ++
        replaceFrom (NullCoalesce.functionName name) (lastOr before found.matched) 0 rest) =
      some ⟨replaceFrom (NullCoalesce.functionName name) before 0 found.matched,
        replaceFrom (NullCoalesce.functionName name) before 0 found.replacement⟩) :
    Follows pattern (NullCoalesce.functionName name) before found rest :=
  ⟨replaceFrom_append hname hm before (hm.startsWord_lastOr before) rest, hrenamed,
    fun out => replaceFrom_append hname hr before (hm.startsWord_lastOr before) out⟩

/-! ## The separator -/

/-- a text begins with a blank after the renaming if it did before -/
theorem head_renamed {text : Fragment} :
    (∀ c, (replaceFrom (NullCoalesce.functionName name) before 0 text).head? = some c → isBlank c = false) ↔
      ∀ c, text.head? = some c → isBlank c = false := by
  have hsame (c : Char) (hc : isBlank c = true) :
      (replaceFrom (NullCoalesce.functionName name) before 0 text).head? = some c ↔ text.head? = some c :=
    NullCoalesce.head?_replaceFrom hname (stop_of_isBlank hc) before
  simp only [← Bool.not_eq_true]
  exact forall_congr' fun c => ⟨fun h hc hb => h ((hsame c hb).2 hc) hb, fun h hc hb => h ((hsame c hb).1 hc) hb⟩

/-- what stands behind the phrase may be renamed -/
theorem separatorPhrase_renamed {found : Match} {before' : Option Char} {rest : Fragment} :
    SeparatorPhrase before found (replaceFrom (NullCoalesce.functionName name) before' 0 rest).head? ↔
      SeparatorPhrase before found rest.head? := by
  refine ⟨?_, ?_⟩
  · rintro ⟨hblank, hlead, hw, hblank', htrail, hnext⟩
    exact .mk hblank hlead hw hblank' htrail ((head_renamed hname).1 hnext)
  · rintro ⟨hblank, hlead, hw, hblank', htrail, hnext⟩
    exact .mk hblank hlead hw hblank' htrail ((head_renamed hname).2 hnext)

theorem independent_separatorPhrase :
    Independent separatorPhrase (NullCoalesce.functionName name) NullCoalesce.callName name := by
  refine independent_of_signs gentle_separatorPhrase.covers (fun _ _ => rfl) ofSigns_separatorPhrase
    (NullCoalesce.finds_functionName name) NullCoalesce.isWord_callName hname ?renamed ?follows
  case renamed =>
    intro before text hnone
    cases hfound : separatorPhrase before (replaceFrom (NullCoalesce.functionName name) before 0 text) with
    | none => rfl
    | some found =>
      -- the phrase holds no parenthesis, so it stood in the text before
      obtain ⟨out, htext, hshape⟩ := (finds_separatorPhrase _ _ found).1 hfound
      obtain ⟨rest, rfl, rfl⟩ := exists_of_replaceFrom_append hname hshape.endsInStop hshape.flat_matched.open_not_mem
        (hshape.endsInStop.startsWord_lastOr before) htext
      rw [(finds_separatorPhrase _ _ found).2 ⟨rest, rfl, (separatorPhrase_renamed hname).1 hshape⟩] at hnone
      cases hnone
  case follows =>
    intro before found rest hfound
    obtain ⟨rest', htext, hshape⟩ := (finds_separatorPhrase _ _ found).1 hfound
    obtain rfl := List.append_cancel_left htext
    have hreplacement : found.replacement = [',', ' '] := by
      obtain ⟨-, -, -, -, -, -⟩ := hshape
      rfl
    refine follows_of_endsInStop hname hshape.endsInStop ⟨[','], ' ', hreplacement, by decide⟩ ?_
    rw [replaceFrom_of_paren_not_mem hshape.flat_matched.open_not_mem,
      replaceFrom_of_paren_not_mem (show '(' ∉ found.replacement by rw [hreplacement]; decide)]
    exact (finds_separatorPhrase _ _ found).2 ⟨_, rfl, (separatorPhrase_renamed hname).2 hshape⟩

/-! ## The cast of a field -/

theorem independent_fieldBeforeComma (hne : name ≠ []) :
    Independent fieldBeforeComma (NullCoalesce.functionName name) NullCoalesce.callName name := by
  have hfinds := NullCoalesce.finds_functionName name
  refine independent_of_signs gentle_fieldBeforeComma.covers (fun _ _ => rfl) ofSigns_fieldBeforeComma hfinds
    NullCoalesce.isWord_callName hname ?renamed ?follows
  case renamed =>
    intro before text hnone
    cases hfound : fieldBeforeComma before (replaceFrom (NullCoalesce.functionName name) before 0 text) with
    | none => rfl
    | some found =>
      obtain ⟨out, htext, hfield, hchars⟩ := (finds_fieldBeforeComma _ _ found).1 hfound
      rename_i field
      have hflat : Flat field := fun c hc => isFlat_of_isFieldChar (hchars c hc)
      have hends : EndsInStop (field ++ [',']) := ⟨field, ',', rfl, by decide⟩
      -- the parenthesis is not the one behind a new name, as nothing stands before it
      rw [List.cons_append, List.cons_append] at htext
      rcases replaceFrom_front (covers_functionName hname) hfinds.renames (flat_of_isWord hname).open_not_mem
        List.not_mem_nil (show _ = [] ++ '(' :: _ from htext) with ⟨body, rfl, hbody⟩ | hempty
      · obtain ⟨rest, rfl, -⟩ := exists_of_replaceFrom_append hname hends (by simp [hflat.open_not_mem])
          (hends.startsWord_lastOr none) hbody.symm
        rw [(finds_fieldBeforeComma _ _ _).2 ⟨rest, by simp, .mk hfield hchars⟩] at hnone; cases hnone
      · exact absurd (List.suffix_nil.1 hempty) hne
  case follows =>
    intro before found rest hfound
    obtain ⟨rest', -, hfield, hchars⟩ := (finds_fieldBeforeComma _ _ found).1 hfound
    rename_i field
    have hflat : Flat field := fun c hc => isFlat_of_isFieldChar (hchars c hc)
    have hcast : Flat (field ++ castSuffix) := flat_append.2 ⟨hflat, by decide⟩
    refine follows_of_endsInStop hname ⟨'(' :: field, ',', rfl, by decide⟩
      ⟨'(' :: field ++ castSuffix, ',', rfl, by decide⟩ ?_
    have hreplacement : replaceFrom (NullCoalesce.functionName name) before 0 ('(' :: field ++ castSuffix ++ [',']) =
        '(' :: field ++ castSuffix ++ [','] := replaceFrom_field hcast
    rw [replaceFrom_field hflat, hreplacement]
    exact (finds_fieldBeforeComma _ _ _).2 ⟨_, rfl, .mk hfield hchars⟩

/-! ## The name of the aggregate -/

variable (hapart : Apart callName name)

include hapart

theorem independent_functionName {other : Fragment} (hother : Flat other) (hapart' : Apart NullCoalesce.callName other) :
    Independent (functionName other) (NullCoalesce.functionName name) NullCoalesce.callName name := by
  refine independent_of_openings (gentle_functionName hother).covers (fun _ _ => rfl) (finds_functionName other).renames
    (finds_functionName other).findsOpenings (NullCoalesce.finds_functionName name) (covers_functionName hname)
    (fun _ _ => trivial) NullCoalesce.isWord_callName isWord_callName (flat_of_isWord hname).open_not_mem
    hother.open_not_mem hapart hapart' (fun _ hw => NullCoalesce.apart_of_spells (by decide) hw) ?follows
  case follows =>
    intro before found rest hfound
    obtain ⟨rest', -, -, hw⟩ := (finds_functionName _ _ _ found).1 hfound
    have hparen := paren_not_mem isWord_callName hw
    have hends := not_suffix_of_spells hw
    have hends' : ∀ w, Spells NullCoalesce.callName w → ¬ w <:+ other := fun _ hw' => hapart'.not_suffix' hw'
    refine ⟨?_, ?_, ?_⟩
    · rw [lastOr_concat]
      exact replaceFrom_opening hparen hends before rest
    · rw [NullCoalesce.replaceFrom_word hparen hends, NullCoalesce.replaceFrom_word hother.open_not_mem hends']
      exact (finds_functionName _ _ _ _).2 ⟨_, rfl, .mk trivial hw⟩
    · intro out
      rw [lastOr_concat]
      exact replaceFrom_opening hother.open_not_mem hends' before out

/-! ## Calls -/

theorem independent_of_mem_edits (hn : ∀ other ∈ needs.aggregateFunction, Flat other.toList)
    (hapart' : ∀ other ∈ needs.aggregateFunction, Apart NullCoalesce.callName other.toList) {edit : Pattern}
    (h : edit ∈ edits needs) : Independent edit (NullCoalesce.functionName name) NullCoalesce.callName name := by
  rcases mem_edits_cases h with rfl | rfl | ⟨other, hother, rfl⟩
  · exact independent_separatorPhrase hname
  · refine independent_fieldBeforeComma hname ?_
    rintro rfl
    exact absurd hapart (by decide)
  · exact independent_functionName hname hapart (hn other hother) (hapart' other hother)

/-- **A renamed call is adapted as the call is.** -/
theorem adaptCall_renamed (hn : ∀ other ∈ needs.aggregateFunction, Flat other.toList)
    (hapart' : ∀ other ∈ needs.aggregateFunction, Apart NullCoalesce.callName other.toList) (before : Option Char)
    (call : Fragment) : adaptCall needs (replaceFrom (NullCoalesce.functionName name) before 0 call) =
      replaceFrom (NullCoalesce.functionName name) before 0 (adaptCall needs call) := by
  rw [adaptCall_eq_foldl, adaptCall_eq_foldl]
  exact foldl_comm (NullCoalesce.finds_functionName name) (covers_functionName hname)
    (fun before rest => NullCoalesce.functionName_of_not_word before (by decide) rest)
    (fun edit he => independent_of_mem_edits hname hapart hn hapart' he) before call

omit hapart in
theorem inline_coalesced : Inline (NullCoalesce.functionName name) :=
  inline_of_renaming (NullCoalesce.finds_functionName name) (covers_functionName hname) NullCoalesce.isWord_callName
    (flat_of_isWord hname) fun c hc => isLineBreak_of_isWord (hname c hc)

omit hapart in
/-- a call ends with the same parenthesis after the renaming -/
theorem OneLineCall.renamed {call rest : Fragment} (h : OneLineCall call rest) (before before' : Option Char) :
    OneLineCall (replaceFrom (NullCoalesce.functionName name) before 0 call)
      (replaceFrom (NullCoalesce.functionName name) before' 0 rest) := by
  have hinline := inline_coalesced hname
  obtain ⟨hw, hne, hbody, hlast⟩ := h
  rename_i word body
  rw [List.append_assoc, List.cons_append,
    NullCoalesce.replaceFrom_word (paren_not_mem isWord_callName hw) (not_suffix_of_spells hw),
    NullCoalesce.replaceFrom_stop hname (by decide), ← List.cons_append, ← List.append_assoc]
  refine .mk hw (NullCoalesce.replaceFrom_ne_nil hne _) ?_ fun h => hlast (hinline.mem_firstLine before' rest h)
  exact mem_replaceFrom hinline.covers (fun before text found h _ => hinline.replacement before text found h) _ body hbody

/-- **The calls are independent of the renaming**, if the names end in different ways. -/
theorem independent_call {other : String} (hother : needs.aggregateFunction = some other) (hflat : Flat other.toList)
    (hline : OneLine other.toList) (hapart' : Apart NullCoalesce.callName other.toList) :
    Independent (call needs) (NullCoalesce.functionName name) NullCoalesce.callName name := by
  have hnames {P : Fragment → Prop} (h : P other.toList) : ∀ name ∈ needs.aggregateFunction, P name.toList := by
    rw [hother]
    rintro _ ⟨⟩
    exact h
  refine independent_of_openings (covers_call needs) (fun _ _ => rfl) (renames_call hother hflat)
    (findsOpenings_call needs) (NullCoalesce.finds_functionName name) (covers_functionName hname)
    ((inline_coalesced hname).closesLater _) NullCoalesce.isWord_callName isWord_callName
    (flat_of_isWord hname).open_not_mem hflat.open_not_mem hapart hapart'
    (fun _ hw => NullCoalesce.apart_of_spells (by decide) hw) ?follows
  case follows =>
    intro before found rest hfound
    obtain ⟨matched, hcall, rfl⟩ := Option.map_eq_some_iff.1 hfound
    obtain ⟨rest', htext, hone⟩ := callAt?_eq_some_iff.1 hcall
    obtain rfl := List.append_cancel_left htext
    have hends {text : Fragment} (h : text.getLast? = some ')') : EndsInStop text := by
      obtain ⟨front, rfl⟩ := List.getLast?_eq_some_iff.1 h
      exact ⟨front, ')', rfl, by decide⟩
    refine follows_of_endsInStop hname (hends hone.closesLine.closed)
      (hends (closes_adaptCall (hnames hflat) (hnames hline) hone).2) ?_
    rw [← adaptCall_renamed hname hapart (hnames hflat) (hnames hapart') before matched, call,
      (hone.renamed hname before (lastOr before matched)).callAt?_eq, Option.map_some]

end

end Aggregate

/-! ## The rules -/

/-- **The rules commute** where the aggregate has another name whenever `IFNULL` has one, and the names are words of one
line that end with none of the functions that the rules look for. -/
theorem apply_comm {needs : Capabilities} (hn : needs.FlatNames) (ha : needs.ApartNames)
    (haggregate : ∀ name ∈ needs.aggregateFunction, Apart NullCoalesce.callName name.toList)
    (hcoalesce : ∀ name ∈ needs.coalesceFunction, ∀ c ∈ name.toList, isWord c = true)
    (hboth : needs.coalesceFunction ≠ none → needs.aggregateFunction ≠ none) (sql : Fragment) :
    NullCoalesce.apply needs (Aggregate.apply needs sql) = Aggregate.apply needs (NullCoalesce.apply needs sql) := by
  unfold NullCoalesce.apply
  cases hcoalesced : needs.coalesceFunction with
  | none => rfl
  | some name =>
    obtain ⟨other, hother⟩ := Option.ne_none_iff_exists'.1 (hboth (by rw [hcoalesced]; exact Option.some_ne_none name))
    have hactive : Aggregate.active needs = true := by rw [Aggregate.active, hother]; simp
    have hname := hcoalesce name hcoalesced
    obtain ⟨-, hapart, -⟩ := ha.coalesce name hcoalesced
    obtain ⟨hline, -⟩ := ha.aggregate other hother
    have hindependent := Aggregate.independent_call hname hapart hother (hn.aggregate other hother) hline
      (haggregate other hother)
    have hcomm := hindependent.comm (NullCoalesce.finds_functionName name.toList) (NullCoalesce.covers_functionName hname)
      (fun before rest => NullCoalesce.functionName_of_not_word before (by decide) rest) none sql
    rw [Aggregate.apply, Aggregate.apply, if_pos hactive, if_pos hactive]
    exact hcomm.symm

/-- **The rules for the aggregate and for `IFNULL` commute**, for every built-in dialect and every text: whichever comes
first, however their calls stand in one another and wherever they end. -/
theorem coalesce_aggregate_comm (driver : Driver) (sql : Fragment) :
    NullCoalesce.apply (Dialect.builtin driver).capabilities (Aggregate.apply (Dialect.builtin driver).capabilities sql) =
      Aggregate.apply (Dialect.builtin driver).capabilities
        (NullCoalesce.apply (Dialect.builtin driver).capabilities sql) := by
  have hwords : ∀ name ∈ (Dialect.builtin driver).capabilities.coalesceFunction, name.toList.all isWord = true := by
    cases driver <;> decide
  refine apply_comm (flatNames_builtin driver) (apartNames_builtin driver) ?aggregate
    (fun name hname => List.all_eq_true.1 (hwords name hname)) ?both sql
  all_goals cases driver <;> decide

/-- a call of each kind in the other, with a field that is cast between them -/
example : Aggregate.apply Dialect.pgsql.capabilities
    (NullCoalesce.apply Dialect.pgsql.capabilities "IFNULL(GROUP_CONCAT(IFNULL(a, b) SEPARATOR ';'), c)".toList) =
      "COALESCE(string_agg(COALESCE(a::VARCHAR, b), ';'), c)".toList := by cbv

end SqlDialects
