/-
Plain texts hold no quotation mark and no backslash, so they take no reader into a quotation or out of one. Outside
quotations a reader notices only their parentheses, inside it notices that something was read.

- `Quoting.Proper`: a reader that is inside a quotation is so because of a mark; every reader that starts outside is.
- `interchangeable_of_parens`: plain texts with the same parentheses are interchangeable, in a quotation or not.
- `Flat`: plain texts without parentheses, such as words and blanks. They are neutral outside quotations.
-/
import SqlDialects.Proofs.Reading.Depth
import SqlDialects.Text.Word

namespace SqlDialects

open Text

namespace Quoting

/-- the character opens, closes and escapes nothing -/
def isPlain (c : Char) : Bool := !isMark c && c != '\\'

/-- only a mark opens a quotation -/
def Proper : Quoting → Prop
  | outside => True
  | inside mark _ => isMark mark = true

theorem proper_step {q : Quoting} (h : q.Proper) (c : Char) : (q.step c).Proper := by
  cases q with
  | outside =>
    by_cases hc : isMark c = true
    · simp [step, Proper, hc]
    · simp [step, Proper, hc]
  | inside mark escaped =>
    cases escaped
    · simp only [step]
      split
      · exact h
      · split
        · trivial
        · exact h
    · exact h

theorem proper_run {q : Quoting} (h : q.Proper) (text : Fragment) : (q.run text).Proper := by
  induction text generalizing q with
  | nil => exact h
  | cons c rest ih => exact ih (proper_step h c)

theorem step_outside_of_plain {c : Char} (h : isPlain c = true) : outside.step c = outside := by
  simp only [isPlain, Bool.and_eq_true, Bool.not_eq_true'] at h
  simp [step, h.1]

theorem step_inside_of_plain {mark c : Char} {escaped : Bool} (hm : isMark mark = true) (h : isPlain c = true) :
    (inside mark escaped).step c = inside mark false := by
  simp only [isPlain, Bool.and_eq_true, Bool.not_eq_true', bne_iff_ne] at h
  cases escaped
  · have hne : c ≠ mark := by rintro rfl; rw [hm] at h; cases h.1
    simp [step, h.2, hne]
  · rfl

end Quoting

namespace Fragment

open Quoting

/-- no mark and no backslash -/
def Plain (text : Fragment) : Prop := ∀ c ∈ text, isPlain c = true

instance (text : Fragment) : Decidable (Plain text) := decidable_of_iff (text.all isPlain = true) List.all_eq_true

theorem plain_cons {c : Char} {text : Fragment} : Plain (c :: text) ↔ isPlain c = true ∧ Plain text := by
  simp [Plain]

theorem plain_append {a b : Fragment} : Plain (a ++ b) ↔ Plain a ∧ Plain b := by
  simp only [Plain, List.mem_append]
  exact ⟨fun h => ⟨fun c hc => h c (Or.inl hc), fun c hc => h c (Or.inr hc)⟩,
    fun h c hc => hc.elim (h.1 c) (h.2 c)⟩

/-- the parentheses of a text, in order -/
def parens (text : Fragment) : Fragment := text.filter fun c => c == '(' || c == ')'

theorem parens_append (a b : Fragment) : parens (a ++ b) = parens a ++ parens b := List.filter_append ..

theorem run_plain_outside {text : Fragment} (h : Plain text) : outside.run text = outside :=
  run_outside fun c hc => by
    have := h c hc
    simp only [isPlain, Bool.and_eq_true, Bool.not_eq_true'] at this
    exact this.1

theorem run_plain_inside {mark : Char} {escaped : Bool} {text : Fragment} (hm : isMark mark = true) (h : Plain text)
    (hne : text ≠ []) : (inside mark escaped).run text = inside mark false := by
  induction text generalizing escaped with
  | nil => exact absurd rfl hne
  | cons c rest ih =>
    rw [plain_cons] at h
    rw [run_cons, step_inside_of_plain hm h.1]
    cases rest with
    | nil => rfl
    | cons d rest => exact ih h.2 (List.cons_ne_nil d rest)

/-! ## Flat texts -/

/-- plain, and no parenthesis -/
def isFlat (c : Char) : Bool := isPlain c && c != '(' && c != ')'

def Flat (text : Fragment) : Prop := ∀ c ∈ text, isFlat c = true

instance (text : Fragment) : Decidable (Flat text) := decidable_of_iff (text.all isFlat = true) List.all_eq_true

theorem flat_append {a b : Fragment} : Flat (a ++ b) ↔ Flat a ∧ Flat b := by
  simp only [Flat, List.mem_append]
  exact ⟨fun h => ⟨fun c hc => h c (Or.inl hc), fun c hc => h c (Or.inr hc)⟩,
    fun h c hc => hc.elim (h.1 c) (h.2 c)⟩

theorem Flat.plain {text : Fragment} (h : Flat text) : Plain text := by
  intro c hc
  have := h c hc
  simp only [isFlat, Bool.and_eq_true] at this
  exact this.1.1

theorem Flat.open_not_mem {text : Fragment} (h : Flat text) : '(' ∉ text := fun hmem => absurd (h _ hmem) (by decide)

theorem Flat.close_not_mem {text : Fragment} (h : Flat text) : ')' ∉ text := fun hmem => absurd (h _ hmem) (by decide)

theorem Flat.parens_eq_nil {text : Fragment} (h : Flat text) : parens text = [] := by
  rw [parens, List.filter_eq_nil_iff]
  intro c hc
  have := h c hc
  simp only [isFlat, Bool.and_eq_true, bne_iff_ne] at this
  simp [this.1.2, this.2]

/-- the characters that are not flat, one by one -/
theorem cases_of_not_flat {c : Char} (h : isFlat c = false) :
    c = '\'' ∨ c = '"' ∨ c = '`' ∨ c = '\\' ∨ c = '(' ∨ c = ')' := by
  simp only [isFlat, isPlain, isMark, Bool.and_eq_false_iff, Bool.not_eq_false', Bool.or_eq_true, beq_iff_eq,
    bne_eq_false_iff_eq] at h
  rcases h with ((((h | h) | h) | h) | h) | h <;> simp [h]

theorem isFlat_of_isWord {c : Char} (h : isWord c = true) : isFlat c = true := by
  cases hf : isFlat c with
  | true => rfl
  | false => rcases cases_of_not_flat hf with rfl | rfl | rfl | rfl | rfl | rfl <;> exact absurd h (by decide)

theorem isFlat_of_isBlank {c : Char} (h : isBlank c = true) : isFlat c = true := by
  cases hf : isFlat c with
  | true => rfl
  | false => rcases cases_of_not_flat hf with rfl | rfl | rfl | rfl | rfl | rfl <;> exact absurd h (by decide)

theorem flat_of_isWord {text : Fragment} (h : ∀ c ∈ text, isWord c = true) : Flat text :=
  fun c hc => isFlat_of_isWord (h c hc)

theorem flat_of_isBlank {text : Fragment} (h : ∀ c ∈ text, isBlank c = true) : Flat text :=
  fun c hc => isFlat_of_isBlank (h c hc)

end Fragment

/-! ## What a reader notices of a plain text -/

namespace Cursor

open Fragment

variable {s : Cursor} {text a b : Fragment}

theorem step_outside_of_flat (hs : s.quoting = .outside) {c : Char} (h : isFlat c = true) : s.step c = s := by
  obtain ⟨q, d⟩ := s
  simp only at hs; subst hs
  simp only [isFlat, Bool.and_eq_true, bne_iff_ne] at h
  simp [step, nesting, h.1.2, h.2, Quoting.step_outside_of_plain h.1.1]

theorem interchangeable_parens (hs : s.quoting = .outside) (h : Plain text) :
    s.Interchangeable text (parens text) := by
  induction text generalizing s with
  | nil => exact .refl s []
  | cons c rest ih =>
    rw [plain_cons] at h
    have hq : (s.step c).quoting = .outside := by simp [step, hs, Quoting.step_outside_of_plain h.1]
    by_cases hc : isFlat c = true
    · have hp : parens (c :: rest) = parens rest := by
        simp only [isFlat, Bool.and_eq_true, bne_iff_ne] at hc
        simp [parens, hc.1.2, hc.2]
      have hstep := step_outside_of_flat hs hc
      have hrest := ih hs h.2
      have hle := lowest_le s rest
      rw [hp]
      refine ⟨by rw [run_cons, hstep, hrest.run_eq], ?_⟩
      rw [lowest_cons, hstep, ← hrest.lowest_eq]; omega
    · have hp : parens (c :: rest) = c :: parens rest := by
        simp only [isFlat, h.1, Bool.true_and, Bool.and_eq_true, bne_iff_ne] at hc
        simp only [parens, List.filter_cons]
        rw [if_pos (by simp only [Bool.or_eq_true, beq_iff_eq]; exact Decidable.or_iff_not_not_and_not.2 hc)]
      rw [hp]
      exact (ih hq h.2).cons

/-- flat texts are neutral outside quotations -/
theorem neutral_of_flat (hs : s.quoting = .outside) (h : Flat text) : s.Neutral text := by
  have := interchangeable_parens hs h.plain
  rw [h.parens_eq_nil] at this
  exact this.neutral_iff.2 (neutral_nil s)

/-- inside a quotation the depth stays -/
theorem run_plain_inside {mark : Char} (escaped : Bool) (d : Int) (hm : Quoting.isMark mark = true) (h : Plain text) :
    (⟨.inside mark escaped, d⟩ : Cursor).run text = ⟨(Quoting.inside mark escaped).run text, d⟩ ∧
      (⟨.inside mark escaped, d⟩ : Cursor).lowest text = d := by
  induction text generalizing escaped with
  | nil => exact ⟨rfl, rfl⟩
  | cons c rest ih =>
    rw [plain_cons] at h
    have hq : (Quoting.inside mark escaped).step c = .inside mark false := Quoting.step_inside_of_plain hm h.1
    have hstep : (⟨.inside mark escaped, d⟩ : Cursor).step c = ⟨.inside mark false, d⟩ := by simp [step, hq]
    obtain ⟨hrun, hlow⟩ := ih false h.2
    refine ⟨by rw [run_cons, hstep, hrun, Quoting.run_cons, hq], ?_⟩
    rw [lowest_cons, hstep, hlow]
    exact Int.min_self d

/-- **Plain texts with the same parentheses are interchangeable**, unless one of them is empty. -/
theorem interchangeable_of_parens (hp : s.quoting.Proper) (ha : Plain a) (hb : Plain b) (hane : a ≠ []) (hbne : b ≠ [])
    (h : parens a = parens b) : s.Interchangeable a b := by
  obtain ⟨q, d⟩ := s
  cases q with
  | outside =>
    have h1 := interchangeable_parens (s := ⟨.outside, d⟩) rfl ha
    have h2 := interchangeable_parens (s := ⟨.outside, d⟩) rfl hb
    rw [h] at h1
    exact ⟨h1.run_eq.trans h2.run_eq.symm, h1.lowest_eq.trans h2.lowest_eq.symm⟩
  | inside mark escaped =>
    obtain ⟨hrun1, hlow1⟩ := run_plain_inside escaped d hp ha
    obtain ⟨hrun2, hlow2⟩ := run_plain_inside escaped d hp hb
    refine ⟨?_, hlow1.trans hlow2.symm⟩
    rw [hrun1, hrun2, Fragment.run_plain_inside hp ha hane, Fragment.run_plain_inside hp hb hbne]

end Cursor

end SqlDialects
