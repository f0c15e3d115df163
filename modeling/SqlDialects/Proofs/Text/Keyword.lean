/-
Texts that spell a keyword. A letter in another case is still a word character, and a sign has no other case, so a
text that spells `name(` is a name in front of the very same parenthesis.

- `sameLetter_cases`: two characters are the same letter if they are equal or both word characters.
- `spells_call`: what spells the opening of a call.
- `spells_iff_toLower`: spelling a keyword as equality of lower-case texts.
- `eq_of_append_sign`: a text begins with at most one name in front of a sign.
-/
import SqlDialects.Text.Keyword
import SqlDialects.Text.Word

namespace SqlDialects.Text

/-! ## Letters -/

theorem isWord_of_upper {c : Char} (h1 : 65 ≤ c.toNat) (h2 : c.toNat ≤ 90) : isWord c = true := by
  have hlow : c.toNat < 0x80 := by omega
  simp [isWord, isWordCode, hlow]; omega

theorem isWord_of_lower {c : Char} (h1 : 97 ≤ c.toNat) (h2 : c.toNat ≤ 122) : isWord c = true := by
  have hlow : c.toNat < 0x80 := by omega
  simp [isWord, isWordCode, hlow]; omega

theorem toLower_cases (c : Char) : c.toLower = c ∨ (isWord c.toLower = true ∧ isWord c = true) := by
  unfold Char.toLower
  split
  · rename_i h
    have h1 : 65 ≤ c.toNat := h.1
    have h2 : c.toNat ≤ 90 := h.2
    have hval : (c.val + ('a'.val - 'A'.val)).toNat = c.toNat + 32 := by
      show (c.val + 32).toNat = c.val.toNat + 32
      rw [UInt32.toNat_add]
      simp; omega
    refine Or.inr ⟨isWord_of_lower ?_ ?_, isWord_of_upper h1 h2⟩
    · show 97 ≤ (c.val + ('a'.val - 'A'.val)).toNat
      omega
    · show (c.val + ('a'.val - 'A'.val)).toNat ≤ 122
      omega
  · exact Or.inl rfl

theorem sameLetter_cases {k c : Char} (h : sameLetter k c = true) : c = k ∨ (isWord k = true ∧ isWord c = true) := by
  simp only [sameLetter, Bool.or_eq_true, Bool.and_eq_true, beq_iff_eq] at h
  rcases h with ((rfl | ⟨rfl, rfl | rfl⟩) | ⟨rfl, rfl⟩) | ⟨rfl, rfl⟩
  · exact (toLower_cases c).imp Eq.symm id
  all_goals exact Or.inr ⟨by decide +kernel, by decide +kernel⟩

theorem isWord_of_sameLetter {k c : Char} (h : sameLetter k c = true) (hk : isWord k = true) : isWord c = true := by
  rcases sameLetter_cases h with rfl | ⟨-, hc⟩
  · exact hk
  · exact hc

theorem eq_of_sameLetter {k c : Char} (h : sameLetter k c = true) (hk : isWord k = false) : c = k := by
  rcases sameLetter_cases h with rfl | ⟨hw, -⟩
  · rfl
  · rw [hk] at hw; cases hw

/-! ## Spellings -/

theorem Spells.isWord {keyword found : List Char} (h : Spells keyword found) (hk : ∀ k ∈ keyword, isWord k = true) :
    ∀ c ∈ found, isWord c = true := by
  induction h with
  | nil => intro c hc; cases hc
  | cons hsame _ ih =>
    intro c hc
    rcases List.mem_cons.1 hc with rfl | hc
    · exact isWord_of_sameLetter hsame (hk _ List.mem_cons_self)
    · exact ih (fun k h => hk k (List.mem_cons_of_mem _ h)) c hc

/-- what spells the opening of a call: the name in some case, and the parenthesis -/
theorem spells_call {name found : List Char} :
    Spells (name ++ ['(']) found ↔ ∃ word, Spells name word ∧ found = word ++ ['('] := by
  induction name generalizing found with
  | nil =>
    refine ⟨?_, ?_⟩
    · intro h
      cases h with
      | cons hc hrest => cases hrest; exact ⟨[], .nil, by rw [eq_of_sameLetter hc (by decide)]; rfl⟩
    · intro h
      obtain ⟨word, hw, rfl⟩ := h
      cases hw
      exact .cons (by decide) .nil
  | cons k ks ih =>
    refine ⟨?_, ?_⟩
    · intro h
      cases h with
      | cons hc hrest =>
        obtain ⟨word, hw, rfl⟩ := ih.1 hrest
        exact ⟨_ :: word, .cons hc hw, rfl⟩
    · intro h
      obtain ⟨word, hw, rfl⟩ := h
      cases hw with
      | cons hc hrest => exact .cons hc (ih.2 ⟨_, hrest, rfl⟩)

/-- for a keyword without `i`, `k` and `s`, case means the case of ASCII letters -/
theorem spells_iff_toLower {keyword found : List Char} (hk : 'i' ∉ keyword ∧ 'k' ∉ keyword ∧ 's' ∉ keyword) :
    Spells keyword found ↔ found.map Char.toLower = keyword := by
  induction keyword generalizing found with
  | nil =>
    rw [List.map_eq_nil_iff]
    exact ⟨fun h => by cases h; rfl, fun h => by rw [h]; exact .nil⟩
  | cons k ks ih =>
    simp only [List.mem_cons, not_or] at hk
    obtain ⟨⟨hi, hi'⟩, ⟨hkk, hkk'⟩, hs, hs'⟩ := hk
    have hsame (c : Char) : sameLetter k c = true ↔ c.toLower = k := by
      simp [sameLetter, Ne.symm hi, Ne.symm hkk, Ne.symm hs]
    have ih (found : List Char) : Spells ks found ↔ found.map Char.toLower = ks := ih ⟨hi', hkk', hs'⟩
    rw [List.map_eq_cons_iff]
    refine ⟨?_, ?_⟩
    · intro h
      cases h with
      | cons hc hrest => exact ⟨_, _, rfl, (hsame _).1 hc, (ih _).1 hrest⟩
    · intro h
      obtain ⟨c, rest, rfl, hc, hrest⟩ := h
      exact .cons ((hsame c).2 hc) ((ih rest).2 hrest)

/-- a text that begins with word characters does not begin with a blank -/
theorem head_of_isWord {word : List Char} (hne : word ≠ []) (hw : ∀ c ∈ word, isWord c = true) (rest : List Char) :
    ∀ c, (word ++ rest).head? = some c → isBlank c = false := by
  intro c hc
  obtain ⟨d, tail, rfl⟩ := List.exists_cons_of_ne_nil hne
  simp only [List.cons_append, List.head?_cons, Option.some.injEq] at hc
  have hword := hw d List.mem_cons_self
  cases hb : isBlank c with
  | false => rfl
  | true => rw [hc, isWord_of_isBlank hb] at hword; cases hword

theorem not_mem_of_isWord {c : Char} {word : List Char} (hw : ∀ d ∈ word, isWord d = true) (hc : isWord c = false) :
    c ∉ word := by
  intro hm
  rw [hw c hm] at hc; cases hc

/-- two names in front of the same sign begin a text: they are the same name -/
theorem eq_of_append_sign {sign : Char} {a b rest rest' : List Char} (ha : sign ∉ a) (hb : sign ∉ b)
    (h : a ++ sign :: rest = b ++ sign :: rest') : a = b ∧ rest = rest' := by
  induction a generalizing b with
  | nil =>
    cases b with
    | nil => simpa using h
    | cons d b => simp at h; simp [h.1] at hb
  | cons c a ih =>
    cases b with
    | nil => simp at h; simp [h.1] at ha
    | cons d b =>
      simp only [List.cons_append, List.cons.injEq] at h
      obtain ⟨rfl, h⟩ := h
      obtain ⟨rfl, rfl⟩ := ih (fun hm => ha (List.mem_cons_of_mem _ hm)) (fun hm => hb (List.mem_cons_of_mem _ hm)) h
      exact ⟨rfl, rfl⟩

end SqlDialects.Text
