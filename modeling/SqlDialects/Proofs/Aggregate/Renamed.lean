/-
What is found after `GROUP_CONCAT` was given another name: no call of it is left, on no line.

- `Edit`: what the edits of a call have in common, so that an adapted call ends with the same parenthesis on the same line
  (`closes_adaptCall`).
- `Behind`, `renames_call`: the other edits keep the opening, so an adapted call begins with the new name.
- `noMatch_apply`: after the rule nothing is found, if the new name ends in another way; so the text is settled.
-/
import SqlDialects.Proofs.Aggregate.Change
import SqlDialects.Proofs.Aggregate.Lines

namespace SqlDialects.Aggregate

open Text Fragment

/-! ## The edits of a call -/

/-- what the edits of a call have in common: they touch no parenthesis that closes and stay on the line -/
structure Edit (pattern : Pattern) : Prop where
  covers : pattern.Covers
  opened : ∀ before text found, pattern before text = some found → ')' ∉ found.matched
  oneLine : ∀ before text found, pattern before text = some found → OneLine found.matched → OneLine found.replacement

theorem oneLine_append {a b : Fragment} : OneLine (a ++ b) ↔ OneLine a ∧ OneLine b := List.forall_mem_append

theorem edit_separatorPhrase : Edit separatorPhrase := by
  refine ⟨gentle_separatorPhrase.covers, ?_, ?_⟩
  all_goals
    intro before text found hfound
    obtain ⟨rest, -, hshape⟩ := (finds_separatorPhrase before text found).1 hfound
  · exact hshape.flat_matched.close_not_mem
  · obtain ⟨-, -, -, -, -, -⟩ := hshape
    intro _
    exact show OneLine [',', ' '] by decide

theorem edit_fieldBeforeComma : Edit fieldBeforeComma := by
  refine ⟨gentle_fieldBeforeComma.covers, ?_, ?_⟩
  all_goals
    intro before text found hfound
    obtain ⟨rest, -, hshape⟩ := (finds_fieldBeforeComma before text found).1 hfound
    obtain ⟨-, hchars⟩ := hshape
    rename_i field
  · have hfield : Flat field := fun c hc => isFlat_of_isFieldChar (hchars c hc)
    simp [hfield.close_not_mem]
  · intro h
    have hfield : OneLine field := fun c hc => h c (by simp [hc])
    exact oneLine_append.2 ⟨oneLine_append.2 ⟨List.forall_mem_cons.2 ⟨by decide, hfield⟩, by decide⟩, by decide⟩

theorem edit_functionName {name : Fragment} (hflat : Flat name) (hline : OneLine name) : Edit (functionName name) := by
  have hcov := (gentle_functionName hflat).covers
  have hinline := inline_of_renaming (finds_functionName name) hcov isWord_callName hflat hline
  refine ⟨hcov, ?_, fun before text found h _ => hinline.replacement before text found h⟩
  intro before text found hfound
  obtain ⟨rest, -, hshape⟩ := (finds_functionName _ before text found).1 hfound
  obtain ⟨-, hw⟩ := hshape
  rename_i word
  have hword := (flat_of_isWord (hw.isWord isWord_callName)).close_not_mem
  simp [hword]

theorem edit_of_mem_edits {needs : Capabilities} (hn : ∀ name ∈ needs.aggregateFunction, Flat name.toList)
    (hline : ∀ name ∈ needs.aggregateFunction, OneLine name.toList) {edit : Pattern} (h : edit ∈ edits needs) :
    Edit edit := by
  rcases mem_edits_cases h with rfl | rfl | ⟨name, hname, rfl⟩
  · exact edit_separatorPhrase
  · exact edit_fieldBeforeComma
  · exact edit_functionName (hn name hname) (hline name hname)

theorem foldl_edits {patterns : List Pattern} (hp : ∀ edit ∈ patterns, Edit edit) {call : Fragment}
    (hline : OneLine call) (hlast : call.getLast? = some ')') :
    OneLine (patterns.foldl (fun call edit => replaceAll edit call) call) ∧
      (patterns.foldl (fun call edit => replaceAll edit call) call).getLast? = some ')' := by
  induction patterns generalizing call with
  | nil => exact ⟨hline, hlast⟩
  | cons edit patterns ih =>
    obtain ⟨hcov, hopened, hone⟩ := hp edit List.mem_cons_self
    exact ih (fun edit he => hp edit (List.mem_cons_of_mem _ he)) (mem_replaceFrom hcov hone none call hline)
      (getLast?_replaceFrom hcov hopened none hlast)

theorem separatorPhrase_of_not_blank (before : Option Char) {c : Char} (h : isBlank c = false) (rest : Fragment) :
    separatorPhrase before (c :: rest) = none := by
  simp [separatorPhrase, h]

theorem separatorPhrase_of_word (before : Option Char) (c : Char) (rest : Fragment) (h : isWord c = true) :
    separatorPhrase before (c :: rest) = none := by
  refine separatorPhrase_of_not_blank before ?_ rest
  cases hb : isBlank c with
  | false => rfl
  | true => rw [isWord_of_isBlank hb] at h; cases h

theorem fieldBeforeComma_of_word (before : Option Char) (c : Char) (rest : Fragment) (h : isWord c = true) :
    fieldBeforeComma before (c :: rest) = none := by
  unfold fieldBeforeComma
  split
  · rename_i heq
    cases heq
    exact absurd h (by decide)
  · rfl

/-- the edit keeps the opening of a call, and takes place behind it -/
def Behind (edit : Pattern) : Prop :=
  ∀ word, (∀ c ∈ word, isWord c = true) → ∀ body, ∃ body', replaceAll edit (word ++ '(' :: body) = word ++ '(' :: body'

theorem behind_separatorPhrase : Behind separatorPhrase := by
  intro word hw body
  have hnone (before : Option Char) (c : Char) (tail : Fragment) (h : c :: tail <:+ word) :=
    separatorPhrase_of_word before c (tail ++ '(' :: body) (hw c (h.subset List.mem_cons_self))
  rw [replaceAll, replaceFrom_kept hnone, replaceFrom_of_none (separatorPhrase_of_not_blank _ (by decide) body)]
  exact ⟨_, rfl⟩

theorem behind_fieldBeforeComma : Behind fieldBeforeComma := by
  intro word hw body
  have hnone (before : Option Char) (c : Char) (tail : Fragment) (h : c :: tail <:+ word) :=
    fieldBeforeComma_of_word before c (tail ++ '(' :: body) (hw c (h.subset List.mem_cons_self))
  rw [replaceAll, replaceFrom_kept hnone]
  cases hfound : fieldBeforeComma (lastOr none word) ('(' :: body) with
  | none => rw [replaceFrom_of_none hfound]; exact ⟨_, rfl⟩
  | some found =>
    obtain ⟨rest, htext, hshape⟩ := (finds_fieldBeforeComma _ _ found).1 hfound
    rw [htext] at hfound ⊢
    rw [replaceFrom_match gentle_fieldBeforeComma.covers hfound]
    obtain ⟨-, -⟩ := hshape
    simp

/-- whether the dialect asks for the edit or not -/
theorem Behind.ite {edit : Pattern} (h : Behind edit) (asked : Bool) {word : Fragment} (hw : ∀ c ∈ word, isWord c = true)
    (body : Fragment) : ∃ body', (if asked then replaceAll edit (word ++ '(' :: body) else word ++ '(' :: body) =
      word ++ '(' :: body' := by
  split
  · exact h word hw body
  · exact ⟨body, rfl⟩

theorem exists_body_functionName {name word : Fragment} (hflat : Flat name) (hw : Spells callName word) (body : Fragment) :
    ∃ body', replaceAll (functionName name) (word ++ '(' :: body) = name ++ '(' :: body' :=
  ⟨_, replaceFrom_renaming (finds_functionName name) (gentle_functionName hflat).covers trivial hw body⟩

/-- an adapted call begins with the new name -/
theorem renames_call {needs : Capabilities} {name : String} (hname : needs.aggregateFunction = some name)
    (hflat : Flat name.toList) : (call needs).Renames name.toList := by
  intro before text found hfound
  obtain ⟨call, hcall, rfl⟩ := Option.map_eq_some_iff.1 hfound
  obtain ⟨rest, -, hone⟩ := callAt?_eq_some_iff.1 hcall
  obtain ⟨hw, -, -, -⟩ := hone
  rename_i word inner
  have hword := hw.isWord isWord_callName
  obtain ⟨separated, hseparated⟩ := behind_separatorPhrase.ite needs.inlineSeparator hword (inner ++ [')'])
  obtain ⟨cast, hcast⟩ := behind_fieldBeforeComma.ite needs.castAggregateArgs hword separated
  rw [← List.cons_append, ← List.append_assoc] at hseparated
  simp only [adaptCall, hname, hseparated, hcast]
  exact exists_body_functionName hflat hw cast

/-- an adapted call stays on its line, and ends with the same parenthesis -/
theorem closes_adaptCall {needs : Capabilities} (hn : ∀ name ∈ needs.aggregateFunction, Flat name.toList)
    (hline : ∀ name ∈ needs.aggregateFunction, OneLine name.toList) {call rest : Fragment} (h : OneLineCall call rest) :
    OneLine (adaptCall needs call) ∧ (adaptCall needs call).getLast? = some ')' := by
  rw [adaptCall_eq_foldl]
  exact foldl_edits (fun _ he => edit_of_mem_edits hn hline he) h.closesLine.one_line h.closesLine.closed

theorem inline_call {needs : Capabilities} (hn : ∀ name ∈ needs.aggregateFunction, Flat name.toList)
    (hline : ∀ name ∈ needs.aggregateFunction, OneLine name.toList) : Inline (call needs) := by
  refine ⟨covers_call needs, ?_, ?_, ?_, ?_⟩
  all_goals
    intro before text found hfound
    obtain ⟨call, hcall, rfl⟩ := Option.map_eq_some_iff.1 hfound
    obtain ⟨rest, -, hone⟩ := callAt?_eq_some_iff.1 hcall
  · exact hone.closesLine.one_line
  · exact (closes_adaptCall hn hline hone).1
  · exact fun _ => List.mem_of_getLast? hone.closesLine.closed
  · obtain ⟨hw, -, -, -⟩ := hone
    rename_i word body
    rw [List.append_assoc, List.cons_append]
    exact head_opening (hw.isWord isWord_callName) _

theorem noMatch_call_before {needs : Capabilities} {before before' : Option Char} {text : Fragment} :
    NoMatch (call needs) before text ↔ NoMatch (call needs) before' text :=
  noMatch_before_congr fun text => show call needs before text = call needs before' text from rfl

/-- where a text that ends with a parenthesis has no opening, a call begins behind it or nowhere -/
theorem noMatch_call_append {needs : Capabilities} {name : Fragment} {text out : Fragment}
    (hlast : text = [] ∨ text.getLast? = some ')') {before before' : Option Char}
    (h : NoMatch (functionName name) before text) (hout : NoMatch (call needs) before' out) :
    NoMatch (call needs) before' (text ++ out) := by
  induction text generalizing before before' with
  | nil => exact hout
  | cons c text ih =>
    have hclose : ')' ∈ c :: text := List.mem_of_getLast? (hlast.resolve_left (List.cons_ne_nil c text))
    have hlast' : text = [] ∨ text.getLast? = some ')' := by
      cases text with
      | nil => exact Or.inl rfl
      | cons d text => exact Or.inr (List.getLast?_cons_cons.symm.trans (hlast.resolve_left (List.cons_ne_nil c _)))
    refine ⟨?_, ih hlast' h.2 (noMatch_call_before.1 hout)⟩
    cases hsome : call needs before' (c :: (text ++ out)) with
    | none => rfl
    | some found =>
      have hopens := (findsOpenings_call needs before' _).1 (by rw [hsome]; exact Option.some_ne_none found)
      obtain ⟨-, word, body, hw, htext, -⟩ := hopens
      rw [← List.cons_append, show word ++ '(' :: body = (word ++ ['(']) ++ body by simp,
        List.append_eq_append_iff] at htext
      rcases htext with ⟨more, hopening, -⟩ | ⟨more, hopening, -⟩
      · -- the parenthesis that closes the text would be a part of the opening
        have hmem : ')' ∈ word ++ ['('] := by rw [hopening]; exact List.mem_append_left more hclose
        have hword := (flat_of_isWord (hw.isWord isWord_callName)).close_not_mem
        simp [hword] at hmem
      · have hfind : functionName name before (c :: text) = some ⟨word ++ ['('], name ++ ['(']⟩ :=
          (finds_functionName name before _ _).2 ⟨more, hopening, .mk trivial hw⟩
        rw [h.1] at hfind; cases hfind

/-- **After the function was given another name no call of it is found.** -/
theorem noMatch_apply {needs : Capabilities} {name : String} (hname : needs.aggregateFunction = some name)
    (hn : ∀ name ∈ needs.aggregateFunction, Flat name.toList)
    (hline : ∀ name ∈ needs.aggregateFunction, OneLine name.toList) (hapart : Apart callName name.toList)
    (sql : Fragment) : NoMatch (call needs) none (apply needs sql) := by
  have hactive : active needs = true := by rw [active, hname]; simp
  have hflat := hn name hname
  have hcov := covers_call needs
  rw [apply, if_pos hactive]
  refine replaceFrom_induction hcov (motive := fun before text _ => NoMatch (call needs) before
    (replaceFrom (call needs) before 0 text)) ?nil ?keep ?replace none sql
  case nil => intro before; exact trivial
  case keep =>
    intro before c rest _ hnone ih
    rw [replaceFrom_of_none hnone]
    exact ⟨none_of_kept hcov (renames_call hname hflat) hflat.open_not_mem (findsOpenings_call needs) isWord_callName
      hapart ((inline_call hn hline).closesLater _) hnone hnone, ih⟩
  case replace =>
    intro before found rest _ hfound ih
    rw [replaceFrom_match hcov hfound]
    obtain ⟨call, hcall, rfl⟩ := Option.map_eq_some_iff.1 hfound
    obtain ⟨rest', -, hone⟩ := callAt?_eq_some_iff.1 hcall
    have hlast := (closes_adaptCall hn hline hone).2
    simp only [adaptCall, hname] at hlast ⊢
    exact noMatch_call_append (Or.inr hlast) (noMatch_renamed (finds_functionName _) (gentle_functionName hflat).covers
      isWord_callName hflat.open_not_mem hapart none _) (noMatch_call_before.1 ih)

end SqlDialects.Aggregate
