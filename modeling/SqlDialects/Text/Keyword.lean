/-
Keywords at the front of a text, read without regard to case. Comparison is one character to one, so `i` also stands
for the dotted and the dotless `I` of Turkish, `k` for the Kelvin sign, and `s` for the long `s`; no other letter has
partners beyond ASCII.

- `afterKeyword_eq_some_iff`: the text behind a keyword is what follows as many characters as the keyword has, each
  the same letter as its partner in the keyword.
-/

namespace SqlDialects.Text

/-- whether `c` is the keyword character `k` (a lower-case letter or a sign) in some case -/
def sameLetter (k c : Char) : Bool :=
  c.toLower == k || (k == 'i' && (c == '\u0130' || c == '\u0131')) || (k == 'k' && c == '\u212A') ||
    (k == 's' && c == '\u017F')

/-- the text behind the keyword, if `text` begins with it -/
def afterKeyword : (keyword text : List Char) → Option (List Char)
  | [], rest => some rest
  | _ :: _, [] => none
  | k :: ks, c :: cs => if sameLetter k c then afterKeyword ks cs else none

/-- `Spells keyword found`: the characters of `found` are those of the keyword, each in some case -/
inductive Spells : (keyword found : List Char) → Prop where
  | nil : Spells [] []
  | cons {k c : Char} {ks cs : List Char} : sameLetter k c = true → Spells ks cs → Spells (k :: ks) (c :: cs)

theorem Spells.length_eq {keyword found : List Char} (h : Spells keyword found) : found.length = keyword.length := by
  induction h with
  | nil => rfl
  | cons _ _ ih => simp [ih]

theorem afterKeyword_eq_some_iff {keyword text rest : List Char} :
    afterKeyword keyword text = some rest ↔ ∃ found, Spells keyword found ∧ text = found ++ rest := by
  induction keyword generalizing text with
  | nil =>
    constructor
    · intro h; exact ⟨[], .nil, by simpa [afterKeyword] using h⟩
    · rintro ⟨found, hf, rfl⟩; cases hf; rfl
  | cons k ks ih =>
    cases text with
    | nil =>
      constructor
      · intro h; cases h
      · rintro ⟨found, hf, h⟩; cases hf; cases h
    | cons c cs =>
      by_cases hc : sameLetter k c = true
      · simp only [afterKeyword, hc, if_true, ih]
        constructor
        · rintro ⟨found, hf, rfl⟩; exact ⟨c :: found, .cons hc hf, rfl⟩
        · rintro ⟨found, hf, h⟩
          cases hf with
          | cons _ hrest => cases h; exact ⟨_, hrest, rfl⟩
      · simp only [afterKeyword, hc]
        constructor
        · intro h; cases h
        · rintro ⟨found, hf, h⟩
          cases hf with
          | cons hk _ => cases h; exact absurd hk hc

instance (keyword found : List Char) : Decidable (Spells keyword found) :=
  decidable_of_iff (afterKeyword keyword found = some []) (by rw [afterKeyword_eq_some_iff]; simp)

theorem length_of_afterKeyword {keyword text rest : List Char} (h : afterKeyword keyword text = some rest) :
    text.length = keyword.length + rest.length := by
  obtain ⟨found, hf, rfl⟩ := afterKeyword_eq_some_iff.1 h
  simp [hf.length_eq]

end SqlDialects.Text
