/-
Names in lower case, character by character.

- `flatMap_lowerChar`: what becomes a plain key in lower case is the key in some case of ASCII letters.
- `lowercase_eq_iff`: so a name without `i`, `k` and `s` is a key in lower case exactly if it spells that key.
-/
import SqlDialects.Proofs.Text.Keyword
import SqlDialects.Text.Lowercase

namespace SqlDialects.Text

theorem lowerChar_eq_of_ne {c : Char} (hi : c ≠ '\u0130') (hk : c ≠ '\u212A') : lowerChar c = [c.toLower] := by
  simp [lowerChar, hi, hk]

/-- no capital of another script becomes a text without `k` and without a combining dot -/
theorem flatMap_lowerChar {name key : List Char} (hk : 'k' ∉ key) (hdot : '\u0307' ∉ key)
    (h : name.flatMap lowerChar = key) : name.map Char.toLower = key := by
  have hplain : ∀ c ∈ name, lowerChar c = [c.toLower] := by
    intro c hc
    have hmem (d : Char) (hd : d ∈ lowerChar c) : d ∈ key := h ▸ List.mem_flatMap.2 ⟨c, hc, hd⟩
    refine lowerChar_eq_of_ne ?_ ?_
    · rintro rfl; exact hdot (hmem _ (by decide))
    · rintro rfl; exact hk (hmem _ (by decide))
  rw [← h, List.flatMap_def, List.map_congr_left hplain, ← List.flatMap_def, List.map_eq_flatMap]

/-- a name that is a key of ASCII letters in some case becomes that key -/
theorem flatMap_lowerChar_of_map {name key : List Char} (hi : '\u0130' ∉ key) (hk : '\u212A' ∉ key)
    (h : name.map Char.toLower = key) : name.flatMap lowerChar = key := by
  have hplain : ∀ c ∈ name, lowerChar c = [c.toLower] := by
    intro c hc
    have hmem : c.toLower ∈ key := h ▸ List.mem_map_of_mem hc
    refine lowerChar_eq_of_ne ?_ ?_
    · rintro rfl; exact hi hmem
    · rintro rfl; exact hk hmem
  rw [List.flatMap_def, List.map_congr_left hplain, ← List.flatMap_def, ← List.map_eq_flatMap, h]

/-- for a key without the letters that have partners beyond ASCII -/
theorem lowercase_eq_iff {name key : List Char} (hletters : 'i' ∉ key ∧ 'k' ∉ key ∧ 's' ∉ key)
    (hother : '\u0307' ∉ key ∧ '\u0130' ∉ key ∧ '\u212A' ∉ key) :
    lowercase (String.ofList name) = String.ofList key ↔ Spells key name := by
  rw [spells_iff_toLower hletters, lowercase, String.toList_ofList, String.ofList_inj]
  exact ⟨flatMap_lowerChar hletters.2.1 hother.1, flatMap_lowerChar_of_map hother.2.1 hother.2.2⟩

end SqlDialects.Text
