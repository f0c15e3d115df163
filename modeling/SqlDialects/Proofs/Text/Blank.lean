/-
Runs of characters of one kind at the front of a text, and trimming as taking a text apart: blanks, the trimmed text,
blanks.

- `takeWhile_eq_iff`: the run at the front is what all characters are of that kind in, up to one that is not.
- `eq_of_runs`: so a text begins with one such run only; `append_cases`: where a character of two texts stands.
- `exists_trim`: every text is its trimmed text with blanks on both sides.
- `trimmed_trim`: a trimmed text neither begins nor ends with a blank.
- `trim_padded`: blanks around a text that begins and ends with none are all that is trimmed.
-/
import SqlDialects.Text.Blank

namespace SqlDialects.Text

/-! ## Runs -/

theorem takeWhile_eq_iff {p : Char → Bool} {text front : List Char} :
    text.takeWhile p = front ↔
      ∃ rest, text = front ++ rest ∧ (∀ c ∈ front, p c = true) ∧ ∀ c, rest.head? = some c → p c = false := by
  refine ⟨?_, ?_⟩
  · rintro rfl
    refine ⟨text.dropWhile p, List.takeWhile_append_dropWhile.symm, List.all_eq_true.1 List.all_takeWhile, ?_⟩
    intro c hc
    have := List.head?_dropWhile_not p text
    rw [hc] at this
    simpa using this
  · intro h
    obtain ⟨rest, rfl, hfront, hrest⟩ := h
    have hstop : rest.takeWhile p = [] := by
      cases rest with
      | nil => rfl
      | cons c rest => exact List.takeWhile_cons_of_neg (by rw [hrest c rfl]; exact Bool.false_ne_true)
    rw [List.takeWhile_append_of_pos hfront, hstop, List.append_nil]

/-- a text begins with one longest run only -/
theorem eq_of_runs {p : Char → Bool} {a b x y : List Char} (ha : ∀ c ∈ a, p c = true) (hb : ∀ c ∈ b, p c = true)
    (hx : ∀ c, x.head? = some c → p c = false) (hy : ∀ c, y.head? = some c → p c = false) (h : a ++ x = b ++ y) :
    a = b ∧ x = y := by
  have hrun : a = b := by
    rw [← takeWhile_eq_iff.2 ⟨x, rfl, ha, hx⟩, h]
    exact takeWhile_eq_iff.2 ⟨y, rfl, hb, hy⟩
  subst hrun
  exact ⟨rfl, List.append_cancel_left h⟩

/-- a character of two texts side by side stands in the first or in the second -/
theorem append_cases {a b front rest : List Char} {c : Char} (h : a ++ b = front ++ c :: rest) :
    (∃ tail, a = front ++ c :: tail ∧ rest = tail ++ b) ∨ ∃ more, front = a ++ more ∧ b = more ++ c :: rest := by
  rcases List.append_eq_append_iff.1 h with hbehind | hwithin
  · exact Or.inr hbehind
  · obtain ⟨tail, ha, hrest⟩ := hwithin
    cases tail with
    | nil => exact Or.inr ⟨[], by simpa using ha.symm, by simpa using hrest.symm⟩
    | cons d tail =>
      obtain ⟨rfl, rfl⟩ := List.cons.inj hrest
      exact Or.inl ⟨tail, ha, rfl⟩

/-! ## Blanks -/

/-- nothing but blanks, or nothing at all -/
def Blank (text : List Char) : Prop := ∀ c ∈ text, isBlank c = true

/-- the text neither begins nor ends with a blank -/
def Trimmed (text : List Char) : Prop :=
  (∀ c, text.head? = some c → isBlank c = false) ∧ ∀ c, text.getLast? = some c → isBlank c = false

theorem ne_of_isBlank {c d : Char} (hc : isBlank c = true) (hd : isBlank d = false) : c ≠ d := by
  intro h
  rw [h, hd] at hc; cases hc

theorem all_isBlank_iff {text : List Char} : text.all isBlank = true ↔ Blank text := List.all_eq_true

instance (text : List Char) : Decidable (Blank text) := decidable_of_iff (text.all isBlank = true) all_isBlank_iff

theorem blank_takeWhile (text : List Char) : Blank (text.takeWhile isBlank) := List.all_eq_true.1 List.all_takeWhile

theorem exists_trim (text : List Char) :
    ∃ lead trail, Blank lead ∧ Blank trail ∧ text = lead ++ trim text ++ trail := by
  refine ⟨text.takeWhile isBlank, ((trimLeft text).reverse.takeWhile isBlank).reverse, blank_takeWhile text, ?_, ?_⟩
  · intro c hc; exact blank_takeWhile _ c (List.mem_reverse.1 hc)
  · have hright : trimRight (trimLeft text) ++ ((trimLeft text).reverse.takeWhile isBlank).reverse = trimLeft text := by
      rw [trimRight, ← List.reverse_append, List.takeWhile_append_dropWhile, List.reverse_reverse]
    rw [trim, List.append_assoc, hright, trimLeft, List.takeWhile_append_dropWhile]

theorem trimmed_trim (text : List Char) : Trimmed (trim text) := by
  have hdrop (t : List Char) : ∀ c, (t.dropWhile isBlank).head? = some c → isBlank c = false := by
    intro c hc
    have := List.head?_dropWhile_not isBlank t
    rw [hc] at this
    simpa using this
  have hprefix : trim text <+: trimLeft text := by
    rw [trim, trimRight, ← List.reverse_suffix, List.reverse_reverse]
    exact List.dropWhile_suffix isBlank
  refine ⟨fun c hc => ?_, fun c hc => ?_⟩
  · obtain ⟨more, hmore⟩ := hprefix
    refine hdrop text c ?_
    rw [← trimLeft, ← hmore, List.head?_append, hc, Option.some_or]
  · rw [trim, trimRight, List.getLast?_reverse] at hc
    exact hdrop _ c hc

theorem dropWhile_blank_append {lead text : List Char} (hl : Blank lead)
    (ht : ∀ c, text.head? = some c → isBlank c = false) : (lead ++ text).dropWhile isBlank = text := by
  rw [List.dropWhile_append_of_pos hl]
  cases text with
  | nil => rfl
  | cons c rest => exact List.dropWhile_cons_of_neg (by rw [ht c rfl]; exact Bool.false_ne_true)

theorem trim_padded {lead text trail : List Char} (hl : Blank lead) (ht : Trimmed text) (hr : Blank trail) :
    trim (lead ++ text ++ trail) = text := by
  have hr' : Blank trail.reverse := fun c hc => hr c (List.mem_reverse.1 hc)
  cases text with
  | nil =>
    rw [trim_eq_nil_iff, all_isBlank_iff]
    intro c hc
    simp only [List.append_nil, List.mem_append] at hc
    exact hc.elim (hl c) (hr c)
  | cons d rest =>
    have hleft : trimLeft (lead ++ (d :: rest) ++ trail) = d :: rest ++ trail := by
      rw [trimLeft, List.append_assoc]
      exact dropWhile_blank_append hl fun c hc => ht.1 c hc
    rw [trim, hleft, trimRight, List.reverse_append, dropWhile_blank_append hr', List.reverse_reverse]
    intro c hc
    rw [List.head?_reverse] at hc
    exact ht.2 c hc

end SqlDialects.Text
