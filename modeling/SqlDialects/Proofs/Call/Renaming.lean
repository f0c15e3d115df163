/-
Renaming a function: the opening of a call takes another name.

- `Renaming`: the shape of such an edit, a name in some case with its parenthesis.
- `rename_eq_some_iff`: it is found where the text begins with that name and a parenthesis.
- `Renaming.gentle`, `Renaming.traces_lt`: with a flat name in its place the edit is gentle, and it leaves a trace if the
  names tell.
-/
import SqlDialects.Proofs.Reading.Traces
import SqlDialects.Proofs.Text.Keyword

namespace SqlDialects.Text

open Fragment

/-- the opening of a call of `function`, in some case, becomes one of `name`; `allowed` is asked of the character before -/
inductive Renaming (function name : Fragment) (allowed : Option Char → Prop) : Option Char → Match → Option Char → Prop
  | mk {before next : Option Char} {word : Fragment} : allowed before → Spells function word →
      Renaming function name allowed before ⟨word ++ ['('], name ++ ['(']⟩ next

variable {function name : Fragment} {allowed : Option Char → Prop} {before next : Option Char} {found : Match}

theorem rename_eq_some_iff {text : Fragment} (ha : allowed before) :
    (afterKeyword (function ++ ['(']) text).map
        (fun _ => (⟨text.take (function ++ ['(']).length, name ++ ['(']⟩ : Match)) = some found ↔
      ∃ rest, text = found.matched ++ rest ∧ Renaming function name allowed before found rest.head? := by
  have htake {word rest : Fragment} (hw : Spells function word) :
      (word ++ ['('] ++ rest).take (function ++ ['(']).length = word ++ ['('] :=
    List.take_left' (by simp [hw.length_eq])
  rw [Option.map_eq_some_iff]
  refine ⟨?_, ?_⟩
  · intro h
    obtain ⟨rest, h, rfl⟩ := h
    obtain ⟨opening, hopening, rfl⟩ := afterKeyword_eq_some_iff.1 h
    obtain ⟨word, hw, rfl⟩ := spells_call.1 hopening
    rw [htake hw]
    exact ⟨rest, rfl, .mk ha hw⟩
  · intro h
    obtain ⟨rest, rfl, hfound⟩ := h
    obtain ⟨_, hw⟩ := hfound
    exact ⟨rest, afterKeyword_eq_some_iff.2 ⟨_, spells_call.2 ⟨_, hw, rfl⟩, rfl⟩, by rw [htake hw]⟩

theorem Renaming.gentle (hf : ∀ k ∈ function, isWord k = true) (hn : Flat name)
    (h : Renaming function name allowed before found next) : found.Gentle := by
  obtain ⟨ha, hw⟩ := h
  rename_i word
  have hword : Flat word := flat_of_isWord (hw.isWord hf)
  exact
    { matched_plain := plain_append.2 ⟨hword.plain, by decide⟩
      replacement_plain := plain_append.2 ⟨hn.plain, by decide⟩
      matched_ne_nil := by simp
      replacement_ne_nil := by simp
      parens_eq := by rw [parens_append, parens_append, hword.parens_eq_nil, hn.parens_eq_nil] }

theorem Renaming.traces_lt (hf : function.map Char.toLower = function) (ht : traces function < traces name)
    (h : Renaming function name allowed before found next) : traces found.matched < traces found.replacement := by
  obtain ⟨ha, hw⟩ := h
  rw [traces_append, traces_append, traces_of_spells hw hf]; omega

end SqlDialects.Text
