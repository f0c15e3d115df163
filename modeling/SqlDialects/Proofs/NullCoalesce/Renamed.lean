/-
What is found after `IFNULL` was given another name.

- `noMatch_apply`: no call of it is left, if the new name ends in another way.
- `joinable_of_replaceFrom`: nor does a call to join come up, with a name that ends in another way than `CONCAT`. Calls
  that are open stay open, because no reader notices the new name.
-/
import SqlDialects.Proofs.FieldConcat.Change
import SqlDialects.Proofs.NullCoalesce.Pattern

namespace SqlDialects.NullCoalesce

open Text Fragment Cursor

variable {name : Fragment}

/-- the function ends with another letter than those that end with `t` -/
theorem apart_of_spells {keyword word : Fragment} (hkeyword : keyword.getLast? = some 't') (h : Spells callName word) :
    Apart keyword word := by
  obtain ⟨last, more, hword⟩ := List.exists_cons_of_ne_nil
    (show word.reverse ≠ [] from fun hnil => by cases List.reverse_eq_nil_iff.1 hnil; cases h)
  have hlast : sameLetter 'l' last = true := sameLetter_of_mem_zip h ('l', last) (by simp [callName, hword])
  have hlower : last.toLower = 'l' := by simpa [sameLetter] using hlast
  obtain ⟨front, rfl⟩ := List.getLast?_eq_some_iff.1 hkeyword
  exact ⟨('t', last), by simp [hword], by simp [sameLetter, hlower]⟩

/-- nothing is found at a character that begins no spelling of the name -/
theorem functionName_of_not_word (before : Option Char) {c : Char} (h : isWord c = false) (rest : Fragment) :
    functionName name before (c :: rest) = none := by
  cases hfound : functionName name before (c :: rest) with
  | none => rfl
  | some found =>
    obtain ⟨rest', htext, -, hw⟩ := (finds_functionName name _ _ found).1 hfound
    cases hw with
    | cons hsame _ =>
      rw [List.cons_append, List.cons_append, List.cons.injEq] at htext
      rw [htext.1, isWord_of_sameLetter hsame (by decide)] at h; cases h

/-- in front of a parenthesis a word that does not end with the name of the function is kept -/
theorem replaceFrom_word {word : Fragment} (hparen : '(' ∉ word) (hends : ∀ w, Spells callName w → ¬ w <:+ word)
    (before : Option Char) (body : Fragment) : replaceFrom (functionName name) before 0 (word ++ '(' :: body) =
      word ++ '(' :: replaceFrom (functionName name) (some '(') 0 body := by
  have hnone (before : Option Char) (c : Char) (tail : Fragment) (htail : c :: tail <:+ word) :
      functionName name before (c :: (tail ++ '(' :: body)) = none := by
    cases hfound : functionName name before (c :: (tail ++ '(' :: body)) with
    | none => rfl
    | some found =>
      obtain ⟨rest, htext, -, hw⟩ := (finds_functionName name _ _ found).1 hfound
      rw [← List.cons_append, List.append_assoc, List.singleton_append] at htext
      have hparen' : '(' ∉ c :: tail := fun hmem => hparen (htail.subset hmem)
      rw [(eq_of_append_sign hparen' (paren_not_mem isWord_callName hw) htext).1] at htail
      exact absurd htail (hends _ hw)
  rw [replaceFrom_kept hnone, replaceFrom_of_none (functionName_of_not_word _ (by decide) body)]

/-- so nothing is found within a call to join -/
theorem replaceFrom_callToJoin {word : Fragment} (hw : Spells FieldConcat.callName word) (before : Option Char)
    (body : Fragment) : replaceFrom (functionName name) before 0 (word ++ '(' :: body) =
      word ++ '(' :: replaceFrom (functionName name) (some '(') 0 body :=
  replaceFrom_word (paren_not_mem FieldConcat.isWord_callName hw)
    (fun _ hw' => (apart_of_spells (by decide) hw').not_suffix hw) before body

/-- blanks and the parenthesis behind them are kept -/
theorem replaceFrom_blank {blank : Fragment} (hblank : Blank blank) (before : Option Char) (after : Fragment) :
    replaceFrom (functionName name) before 0 (blank ++ ')' :: after) =
      blank ++ ')' :: replaceFrom (functionName name) (some ')') 0 after := by
  have hnone (before : Option Char) (c : Char) (tail : Fragment) (htail : c :: tail <:+ blank) :
      functionName name before (c :: (tail ++ ')' :: after)) = none :=
    functionName_of_not_word before (isWord_of_isBlank (hblank c (htail.subset List.mem_cons_self))) _
  rw [replaceFrom_kept hnone, replaceFrom_of_none (functionName_of_not_word _ (by decide) after)]

/-- where a call to join begins: it stays open, or it has arguments, or it is passed over -/
theorem joinable_of_call_replaced (hgentle : (functionName name).Gentle) {quoting : Quoting} {before : Option Char}
    {c : Char} {rest body : Fragment} (hnone : functionName name before (c :: rest) = none)
    (hcall : FieldConcat.callAt? quoting before (c :: rest) = some body)
    (hrest : FieldConcat.Joinable (quoting.step c) (some c) (replaceFrom (functionName name) (some c) 0 rest) →
      FieldConcat.Joinable (quoting.step c) (some c) rest)
    (h : FieldConcat.Joinable quoting before (replaceFrom (functionName name) before 0 (c :: rest))) :
    FieldConcat.Joinable quoting before (c :: rest) := by
  obtain ⟨rfl, hb, word, hw, htext⟩ := FieldConcat.callAt?_eq_some_iff.1 hcall
  have hcall' : FieldConcat.callAt? .outside before (replaceFrom (functionName name) before 0 (c :: rest)) =
      some (replaceFrom (functionName name) (some '(') 0 body) :=
    FieldConcat.callAt?_eq_some_iff.2 ⟨rfl, hb, word, hw, by rw [htext, replaceFrom_callToJoin hw]⟩
  cases hclose : splitAtClose body with
  | none =>
    have hclose' : splitAtClose (replaceFrom (functionName name) (some '(') 0 body) = none := by
      rw [splitAtClose_eq_none_iff] at hclose ⊢
      rwa [← (hgentle.interchangeable_behind (some '(') body (s := start) trivial).lowest_eq]
    exact absurd h (FieldConcat.not_joinable_of_unclosed hcall' hclose')
  | some parts =>
    obtain ⟨inner, after⟩ := parts
    by_cases hargs : inner.all isBlank = false
    · exact FieldConcat.joinable_of_call hcall hclose hargs
    · have hblank : Blank inner := all_isBlank_iff.1 (by simpa using hargs)
      obtain ⟨rfl, hwf⟩ := splitAtClose_eq_some_iff.1 hclose
      rw [replaceFrom_blank hblank] at hcall'
      rw [replaceFrom_of_none hnone] at hcall' h
      rw [FieldConcat.joinable_blank hcall' (splitAtClose_eq_some_iff.2 ⟨rfl, hwf⟩) hblank] at h
      rw [FieldConcat.joinable_blank hcall hclose hblank]
      exact hrest h

/-- **No call to join comes up**: if there is none, there is none after the function was renamed. -/
theorem joinable_of_replaceFrom (hflat : Flat name) (hapart : Apart FieldConcat.callName name) (before : Option Char)
    (text : Fragment) : ∀ quoting : Quoting, quoting.Proper →
      FieldConcat.Joinable quoting before (replaceFrom (functionName name) before 0 text) →
      FieldConcat.Joinable quoting before text := by
  have hgentle := gentle_functionName hflat
  have hcov := hgentle.covers
  refine replaceFrom_induction hcov (motive := fun before text _ => ∀ quoting : Quoting, quoting.Proper →
    FieldConcat.Joinable quoting before (replaceFrom (functionName name) before 0 text) →
    FieldConcat.Joinable quoting before text) ?nil ?keep ?replace before text
  case nil => intro before quoting _ h; exact h
  case keep =>
    intro before c rest _ hnone ih quoting hproper h
    have hrest := ih (quoting.step c) (Quoting.proper_step hproper c)
    cases hcall : FieldConcat.callAt? quoting before (c :: rest) with
    | none =>
      rw [replaceFrom_of_none hnone] at h
      have hcall' := none_of_kept hcov (finds_functionName name).renames hflat.open_not_mem
        (FieldConcat.findsOpenings_callAt? quoting) FieldConcat.isWord_callName hapart (fun _ _ => trivial) hnone hcall
      rw [FieldConcat.joinable_skip hcall'] at h
      rw [FieldConcat.joinable_skip hcall]
      exact hrest h
    | some body => exact joinable_of_call_replaced hgentle hnone hcall hrest h
  case replace =>
    intro before found rest _ hfound ih quoting hproper h
    rw [replaceFrom_match hcov hfound] at h
    have hread := (hgentle.found_gentle _ _ _ hfound).1.interchangeable (s := ⟨quoting, 0⟩) hproper
    have hrun := congrArg Cursor.quoting hread.run_eq
    rw [quoting_run, quoting_run] at hrun
    obtain ⟨rest', -, -, hw⟩ := (finds_functionName name _ _ found).1 hfound
    rename_i word
    rw [lastOr_concat] at ih h
    rw [List.append_assoc, List.singleton_append, FieldConcat.joinable_name hflat.open_not_mem hapart] at h
    rw [List.append_assoc, List.singleton_append,
      FieldConcat.joinable_name (paren_not_mem isWord_callName hw) (apart_of_spells (by decide) hw), hrun]
    exact ih _ (Quoting.proper_run hproper _) h

/-- **After the function was given another name no call of it is found.** -/
theorem noMatch_apply {needs : Capabilities} {name : String} (hname : needs.coalesceFunction = some name)
    (hflat : Flat name.toList) (hapart : Apart callName name.toList) (sql : Fragment) :
    NoMatch (functionName name.toList) none (apply needs sql) := by
  unfold apply
  rw [hname]
  exact noMatch_renamed (finds_functionName name.toList) (gentle_functionName hflat).covers isWord_callName
    hflat.open_not_mem hapart none sql

end SqlDialects.NullCoalesce
