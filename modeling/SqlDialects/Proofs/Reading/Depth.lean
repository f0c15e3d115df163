/-
How deep a reader gets on its way through a text, and texts that it cannot tell apart.

- `Cursor.lowest`: the lowest depth on the way (`le_lowest_iff`: no prefix of the text ends lower).
- `Cursor.Neutral`: the reader comes back to where it was and is never lower on the way.
- `Cursor.Interchangeable`: two texts lead to the same place and go equally low, so one may stand for the other in any
  longer text (`Interchangeable.append`).
- `Fragment.WellFormed`: every quotation is closed, and the parentheses outside quotations match. A well-formed text is
  neutral to every reader outside quotations (`WellFormed.neutral`).
-/
import SqlDialects.Fragment.Call

namespace SqlDialects

namespace Cursor

/-! ## The lowest depth on the way -/

/-- the lowest depth of a reader from `s` to the end of the text, both included -/
def lowest (s : Cursor) : Fragment → Int
  | [] => s.depth
  | c :: rest => min s.depth (lowest (s.step c) rest)

@[simp] theorem lowest_nil (s : Cursor) : s.lowest [] = s.depth := rfl

theorem lowest_cons (s : Cursor) (c : Char) (rest : Fragment) :
    s.lowest (c :: rest) = min s.depth ((s.step c).lowest rest) := rfl

theorem lowest_le (s : Cursor) (text : Fragment) : s.lowest text ≤ s.depth := by
  cases text with
  | nil => exact Int.le_refl _
  | cons c rest => exact Int.min_le_left _ _

theorem lowest_append (s : Cursor) (first second : Fragment) :
    s.lowest (first ++ second) = min (s.lowest first) ((s.run first).lowest second) := by
  induction first generalizing s with
  | nil => have := lowest_le s second; simp; omega
  | cons c rest ih => rw [List.cons_append, lowest_cons, ih, lowest_cons, run_cons]; omega

theorem le_lowest_iff {s : Cursor} {text : Fragment} {low : Int} :
    low ≤ s.lowest text ↔ ∀ front, front <+: text → low ≤ (s.run front).depth := by
  induction text generalizing s with
  | nil => simp
  | cons c rest ih =>
    rw [lowest_cons, Int.le_min, ih]
    refine ⟨?_, ?_⟩
    · rintro ⟨hs, hrest⟩ front hfront
      rcases List.prefix_cons_iff.1 hfront with rfl | ⟨tail, rfl, htail⟩
      · exact hs
      · exact hrest tail htail
    · intro h
      exact ⟨h [] List.nil_prefix, fun front hfront => h (c :: front) (List.cons_prefix_cons.2 ⟨rfl, hfront⟩)⟩

/-! ## Readers at other depths -/

/-- the same reader, `k` levels deeper -/
def deeper (s : Cursor) (k : Int) : Cursor := ⟨s.quoting, s.depth + k⟩

theorem step_deeper (s : Cursor) (k : Int) (c : Char) : (s.deeper k).step c = (s.step c).deeper k := by
  obtain ⟨q, d⟩ := s
  by_cases h : q = .outside
  · subst h; simp [step, deeper]; omega
  · simp [step, deeper, h]

theorem run_deeper (s : Cursor) (k : Int) (text : Fragment) : (s.deeper k).run text = (s.run text).deeper k := by
  induction text generalizing s with
  | nil => rfl
  | cons c rest ih => rw [run_cons, run_cons, step_deeper, ih]

theorem lowest_deeper (s : Cursor) (k : Int) (text : Fragment) : (s.deeper k).lowest text = s.lowest text + k := by
  induction text generalizing s with
  | nil => rfl
  | cons c rest ih =>
    rw [lowest_cons, lowest_cons, step_deeper, ih]
    simp only [deeper]; omega

theorem eq_deeper_start {s : Cursor} (h : s.quoting = .outside) : s = start.deeper s.depth := by
  cases s; simp only at h; simp [deeper, start, h]

/-! ## Neutral texts -/

/-- read from `s`, the text leads back to `s` and never below it -/
structure Neutral (s : Cursor) (text : Fragment) : Prop where
  back : s.run text = s
  floor : s.lowest text = s.depth

theorem neutral_nil (s : Cursor) : s.Neutral [] := ⟨rfl, rfl⟩

theorem Neutral.append {s : Cursor} {first second : Fragment} (h1 : s.Neutral first) (h2 : s.Neutral second) :
    s.Neutral (first ++ second) := by
  refine ⟨by rw [run_append, h1.back, h2.back], ?_⟩
  rw [lowest_append, h1.back, h1.floor, h2.floor]; omega

theorem Neutral.cons {s : Cursor} {c : Char} {rest : Fragment} (hc : s.step c = s) (h : s.Neutral rest) :
    s.Neutral (c :: rest) := by
  refine ⟨by rw [run_cons, hc, h.back], ?_⟩
  rw [lowest_cons, hc, h.floor]; omega

/-- parentheses around a text that is neutral between them -/
theorem Neutral.parenthesized {s : Cursor} {text : Fragment} (hs : s.quoting = .outside)
    (h : (s.deeper 1).Neutral text) : s.Neutral ('(' :: text ++ [')']) := by
  have hopen : s.step '(' = s.deeper 1 := by simp [step, deeper, hs, Quoting.step, Quoting.isMark, nesting]
  have hclose : (s.deeper 1).step ')' = s := by
    obtain ⟨q, d⟩ := s
    simp only at hs; subst hs
    show (⟨.outside, d + 1 + -1⟩ : Cursor) = ⟨.outside, d⟩
    rw [Int.add_neg_cancel_right]
  refine ⟨?_, ?_⟩
  · rw [List.cons_append, run_cons, hopen, run_append, h.back, run_cons, hclose, run_nil]
  · rw [List.cons_append, lowest_cons, hopen, lowest_append, h.back, h.floor, lowest_cons, hclose, lowest_nil]
    simp only [deeper]; omega

/-! ## Interchangeable texts -/

/-- read from `s`, the texts lead to the same place and go equally low -/
structure Interchangeable (s : Cursor) (a b : Fragment) : Prop where
  run_eq : s.run a = s.run b
  lowest_eq : s.lowest a = s.lowest b

namespace Interchangeable

variable {s : Cursor} {a b c d : Fragment}

theorem refl (s : Cursor) (a : Fragment) : s.Interchangeable a a := ⟨rfl, rfl⟩

theorem trans (h1 : s.Interchangeable a b) (h2 : s.Interchangeable b c) : s.Interchangeable a c :=
  ⟨h1.run_eq.trans h2.run_eq, h1.lowest_eq.trans h2.lowest_eq⟩

theorem append (h1 : s.Interchangeable a b) (h2 : (s.run a).Interchangeable c d) :
    s.Interchangeable (a ++ c) (b ++ d) := by
  refine ⟨?_, ?_⟩
  · rw [run_append, run_append, ← h1.run_eq, h2.run_eq]
  · rw [lowest_append, lowest_append, ← h1.run_eq, h1.lowest_eq, h2.lowest_eq]

theorem cons {x : Char} (h : (s.step x).Interchangeable a b) : s.Interchangeable (x :: a) (x :: b) :=
  append (refl s [x]) h

theorem of_neutral (ha : s.Neutral a) (hb : s.Neutral b) : s.Interchangeable a b :=
  ⟨ha.back.trans hb.back.symm, ha.floor.trans hb.floor.symm⟩

theorem neutral_iff (h : s.Interchangeable a b) : s.Neutral a ↔ s.Neutral b := by
  refine ⟨?_, ?_⟩
  · intro ha; exact ⟨h.run_eq ▸ ha.back, h.lowest_eq ▸ ha.floor⟩
  · intro hb; exact ⟨h.run_eq ▸ hb.back, h.lowest_eq ▸ hb.floor⟩

end Interchangeable

end Cursor

/-! ## Well-formed texts -/

namespace Fragment

open Cursor

/-- every quotation is closed, and outside quotations each parenthesis has its partner -/
structure WellFormed (text : Fragment) : Prop where
  closed : (start.run text).quoting = .outside
  never_negative : ∀ front, front <+: text → 0 ≤ (start.run front).depth
  level : (start.run text).depth = 0

theorem wellFormed_iff_neutral {text : Fragment} : text.WellFormed ↔ start.Neutral text := by
  have hle := lowest_le start text
  refine ⟨?_, ?_⟩
  · intro h
    refine ⟨by rw [eq_deeper_start h.closed, h.level]; rfl, ?_⟩
    have := le_lowest_iff.2 h.never_negative
    simp only [start] at *; omega
  · intro h
    refine ⟨by rw [h.back]; rfl, le_lowest_iff.1 ?_, by rw [h.back]; rfl⟩
    rw [h.floor]; exact Int.le_refl 0

/-- a well-formed text is neutral wherever it stands outside quotations -/
theorem WellFormed.neutral {text : Fragment} (h : text.WellFormed) {s : Cursor} (hs : s.quoting = .outside) :
    s.Neutral text := by
  obtain ⟨hback, hfloor⟩ := wellFormed_iff_neutral.1 h
  rw [eq_deeper_start hs]
  refine ⟨by rw [run_deeper, hback], ?_⟩
  rw [lowest_deeper, hfloor]; rfl

theorem wellFormed_of_neutral {text : Fragment} {s : Cursor} (hs : s.quoting = .outside) (h : s.Neutral text) :
    text.WellFormed := by
  rw [eq_deeper_start hs] at h
  obtain ⟨hback, hfloor⟩ := h
  rw [run_deeper] at hback
  rw [lowest_deeper] at hfloor
  rw [wellFormed_iff_neutral]
  refine ⟨?_, by simp only [deeper] at hfloor; omega⟩
  have hq := congrArg Cursor.quoting hback
  have hd := congrArg Cursor.depth hback
  simp only [deeper] at hq hd
  rw [eq_deeper_start hq]
  simp only [deeper, start, mk.injEq, true_and] at hd ⊢; omega

theorem wellFormed_congr {a b : Fragment} (h : start.Interchangeable a b) : a.WellFormed ↔ b.WellFormed := by
  rw [wellFormed_iff_neutral, wellFormed_iff_neutral, h.neutral_iff]

end Fragment

end SqlDialects
