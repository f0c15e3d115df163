/-
What is edited within a call of the aggregate.

- `finds_separatorPhrase`, `finds_fieldBeforeComma`, `finds_functionName`: what each pattern finds, by its shape.
- `gentle_separatorPhrase`, `gentle_fieldBeforeComma`, `gentle_functionName`: no reader notices the edits.
- `telling_separatorPhrase`, `telling_fieldBeforeComma`, `telling_functionName`: each edit leaves a trace.
-/
import SqlDialects.Proofs.Call.Renaming
import SqlDialects.Rule.Aggregate

namespace SqlDialects.Aggregate

open Text Fragment

/-! ## The separator -/

/-- the word with all the blanks around it -/
inductive SeparatorPhrase : Option Char → Match → Option Char → Prop
  | mk {before next : Option Char} {lead word trail : Fragment} : Blank lead → lead ≠ [] →
      Spells separatorWord word → Blank trail → trail ≠ [] → (∀ c, next = some c → isBlank c = false) →
      SeparatorPhrase before ⟨lead ++ word ++ trail, [',', ' ']⟩ next

theorem isWord_separatorWord : ∀ k ∈ separatorWord, isWord k = true := List.all_eq_true.1 (by decide)

theorem shape_of_separatorPhrase {before : Option Char} {text : Fragment} {found : Match}
    (h : separatorPhrase before text = some found) :
    ∃ rest, text = found.matched ++ rest ∧ SeparatorPhrase before found rest.head? := by
  simp only [separatorPhrase] at h
  split at h
  · cases h
  · rename_i hlead
    split at h
    · cases h
    · rename_i rest hrest
      split at h
      · cases h
      · rename_i htrail
        obtain ⟨body, htext, hblank, -⟩ := takeWhile_eq_iff.1 (rfl : text.takeWhile isBlank = _)
        obtain ⟨after, hafter, hblank', hnext⟩ := takeWhile_eq_iff.1 (rfl : rest.takeWhile isBlank = _)
        generalize text.takeWhile isBlank = lead at *
        generalize rest.takeWhile isBlank = trail at *
        subst htext hafter
        rw [List.drop_left] at hrest
        obtain ⟨word, hw, rfl⟩ := afterKeyword_eq_some_iff.1 hrest
        have htake : (lead ++ (word ++ (trail ++ after))).take
            (lead.length + separatorWord.length + trail.length) = lead ++ word ++ trail := by
          rw [show lead ++ (word ++ (trail ++ after)) = lead ++ word ++ trail ++ after by simp]
          exact List.take_left' (by simp [hw.length_eq, Nat.add_assoc])
        rw [htake] at h
        cases h
        exact ⟨after, by simp, .mk hblank hlead hw hblank' htrail hnext⟩

theorem SeparatorPhrase.find {before : Option Char} {rest : Fragment} {found : Match}
    (h : SeparatorPhrase before found rest.head?) : separatorPhrase before (found.matched ++ rest) = some found := by
  obtain ⟨hblank, hlead, hw, hblank', htrail, hnext⟩ := h
  rename_i lead word trail
  have hne : word ≠ [] := by rintro rfl; cases hw
  have hrun : (lead ++ word ++ trail ++ rest).takeWhile isBlank = lead :=
    takeWhile_eq_iff.2 ⟨word ++ (trail ++ rest), by simp, hblank,
      head_of_isWord hne (hw.isWord isWord_separatorWord) _⟩
  have hdrop : (lead ++ word ++ trail ++ rest).drop lead.length = word ++ (trail ++ rest) := by simp
  have hkeyword : afterKeyword separatorWord (word ++ (trail ++ rest)) = some (trail ++ rest) :=
    afterKeyword_eq_some_iff.2 ⟨word, hw, rfl⟩
  have hrun' : (trail ++ rest).takeWhile isBlank = trail := takeWhile_eq_iff.2 ⟨rest, rfl, hblank', hnext⟩
  have htake : (lead ++ word ++ trail ++ rest).take
      (lead.length + separatorWord.length + trail.length) = lead ++ word ++ trail :=
    List.take_left' (by simp [hw.length_eq, Nat.add_assoc])
  simp only [separatorPhrase, hrun, hdrop, hkeyword, hrun', htake, if_neg hlead, if_neg htrail]

theorem finds_separatorPhrase : Pattern.Finds separatorPhrase SeparatorPhrase := by
  refine fun before text found => ⟨shape_of_separatorPhrase, ?_⟩
  intro h
  obtain ⟨rest, rfl, h⟩ := h
  exact h.find

theorem SeparatorPhrase.flat_matched {before next : Option Char} {found : Match} (h : SeparatorPhrase before found next) :
    Flat found.matched := by
  obtain ⟨hblank, -, hw, hblank', -, -⟩ := h
  exact flat_append.2 ⟨flat_append.2 ⟨flat_of_isBlank hblank, flat_of_isWord (hw.isWord isWord_separatorWord)⟩,
    flat_of_isBlank hblank'⟩

theorem SeparatorPhrase.gentle {before next : Option Char} {found : Match} (h : SeparatorPhrase before found next) :
    found.Gentle := by
  have hflat := h.flat_matched
  obtain ⟨hblank, hlead, hw, hblank', htrail, hnext⟩ := h
  exact
    { matched_plain := hflat.plain
      replacement_plain := show Plain [',', ' '] by decide
      matched_ne_nil := by simp [hlead]
      replacement_ne_nil := by simp
      parens_eq := hflat.parens_eq_nil }

theorem gentle_separatorPhrase : separatorPhrase.Gentle := finds_separatorPhrase.gentle fun _ _ _ h => h.gentle

/-- a `p` is gone -/
theorem telling_separatorPhrase : separatorPhrase.Telling := by
  intro before text found hfound
  obtain ⟨rest, -, hshape⟩ := (finds_separatorPhrase before text found).1 hfound
  obtain ⟨hblank, hlead, hw, hblank', htrail, hnext⟩ := hshape
  rw [traces_append, traces_append, traces_of_blank hblank, traces_of_blank hblank', traces_of_spells hw (by decide)]
  show 0 + traces separatorWord + 0 < traces [',', ' ']
  decide

/-! ## The cast of a field -/

/-- a field name between an opening parenthesis and a comma -/
inductive FieldBeforeComma : Option Char → Match → Option Char → Prop
  | mk {before next : Option Char} {field : Fragment} : field ≠ [] → (∀ c ∈ field, isFieldChar c = true) →
      FieldBeforeComma before ⟨'(' :: field ++ [','], '(' :: field ++ castSuffix ++ [',']⟩ next

theorem isFlat_of_isFieldChar {c : Char} (h : isFieldChar c = true) : isFlat c = true := by
  simp only [isFieldChar, Bool.or_eq_true, beq_iff_eq] at h
  rcases h with (((h | rfl) | rfl) | rfl) | rfl
  · exact isFlat_of_isWord h
  all_goals decide

theorem shape_of_fieldBeforeComma {before : Option Char} {text : Fragment} {found : Match}
    (h : fieldBeforeComma before text = some found) :
    ∃ rest, text = found.matched ++ rest ∧ FieldBeforeComma before found rest.head? := by
  simp only [fieldBeforeComma] at h
  split at h
  · rename_i rest
    split at h
    · cases h
    · rename_i hfield
      split at h
      · rename_i after hafter
        obtain ⟨body, htext, hchars, -⟩ := takeWhile_eq_iff.1 (rfl : rest.takeWhile isFieldChar = _)
        generalize rest.takeWhile isFieldChar = field at *
        subst htext
        rw [List.drop_left] at hafter
        subst hafter
        cases h
        exact ⟨after, by simp, .mk hfield hchars⟩
      · cases h
  · cases h

theorem FieldBeforeComma.find {before : Option Char} {rest : Fragment} {found : Match}
    (h : FieldBeforeComma before found rest.head?) : fieldBeforeComma before (found.matched ++ rest) = some found := by
  obtain ⟨hfield, hchars⟩ := h
  rename_i field
  have hrun : (field ++ ',' :: rest).takeWhile isFieldChar = field :=
    takeWhile_eq_iff.2 ⟨',' :: rest, rfl, hchars, by intro c hc; cases hc; decide⟩
  simp only [List.cons_append, List.append_assoc, List.nil_append, fieldBeforeComma, hrun, if_neg hfield,
    List.drop_left]

theorem finds_fieldBeforeComma : Pattern.Finds fieldBeforeComma FieldBeforeComma := by
  refine fun before text found => ⟨shape_of_fieldBeforeComma, ?_⟩
  intro h
  obtain ⟨rest, rfl, h⟩ := h
  exact h.find

theorem FieldBeforeComma.gentle {before next : Option Char} {found : Match} (h : FieldBeforeComma before found next) :
    found.Gentle := by
  obtain ⟨hfield, hchars⟩ := h
  rename_i field
  have hflat : Flat field := fun c hc => isFlat_of_isFieldChar (hchars c hc)
  have hcast : Flat (field ++ castSuffix) := flat_append.2 ⟨hflat, by decide⟩
  have hplain {name : Fragment} (h : Flat name) : Plain ('(' :: name ++ [',']) :=
    plain_cons.2 ⟨by decide, plain_append.2 ⟨h.plain, by decide⟩⟩
  have hparens {name : Fragment} (h : Flat name) : parens ('(' :: name ++ [',']) = ['('] := by
    rw [show '(' :: name ++ [','] = ['('] ++ name ++ [','] by simp, parens_append, parens_append, h.parens_eq_nil]
    rfl
  exact
    { matched_plain := hplain hflat
      replacement_plain := hplain hcast
      matched_ne_nil := by simp
      replacement_ne_nil := by simp
      parens_eq := (hparens hflat).trans (hparens hcast).symm }

theorem gentle_fieldBeforeComma : fieldBeforeComma.Gentle := finds_fieldBeforeComma.gentle fun _ _ _ h => h.gentle

/-- a `V` has come -/
theorem telling_fieldBeforeComma : fieldBeforeComma.Telling := by
  intro before text found hfound
  obtain ⟨rest, -, hshape⟩ := (finds_fieldBeforeComma before text found).1 hfound
  obtain ⟨hfield, hchars⟩ := hshape
  have hcast : traces castSuffix = 1 := by decide
  simp only [traces_append, List.cons_append, traces_cons, hcast]; omega

/-! ## The name of the function -/

/-- the name of the function, without the parenthesis of `opening` -/
def callName : Fragment := ['g', 'r', 'o', 'u', 'p', '_', 'c', 'o', 'n', 'c', 'a', 't']

theorem isWord_callName : ∀ k ∈ callName, isWord k = true := List.all_eq_true.1 (by decide)

theorem opening_eq : opening = callName ++ ['('] := rfl

theorem finds_functionName (name : Fragment) :
    Pattern.Finds (functionName name) (Renaming callName name fun _ => True) := by
  intro before text found
  rw [functionName, opening_eq]
  exact rename_eq_some_iff trivial

theorem gentle_functionName {name : Fragment} (h : Flat name) : (functionName name).Gentle :=
  (finds_functionName name).gentle fun _ _ _ hr => hr.gentle isWord_callName h

theorem telling_functionName {name : Fragment} (h : traces callName < traces name) : (functionName name).Telling := by
  intro before text found hfound
  obtain ⟨rest, -, hr⟩ := (finds_functionName name before text found).1 hfound
  exact hr.traces_lt (by decide) h

end SqlDialects.Aggregate
