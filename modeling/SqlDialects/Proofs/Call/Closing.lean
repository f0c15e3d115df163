/-
The closing parenthesis of a call.

- `splitAtClose_eq_some_iff`: a call closes at a parenthesis exactly if what stands between its parentheses is
  well-formed. So there is at most one such parenthesis.
- `splitAtClose_eq_none_iff`: a call stays open exactly if no reader of what stands behind its parenthesis falls below
  zero.
-/
import SqlDialects.Proofs.Reading.Depth

namespace SqlDialects.Fragment

open Cursor

/-- a reader that is not below zero passes a character that does not close, and is not below zero then -/
theorem depth_step_nonneg {s : Cursor} {c : Char} (hd : 0 ≤ s.depth) (hc : ¬ s.Closes c) : 0 ≤ (s.step c).depth := by
  by_cases hs : s.quoting = .outside
  · by_cases hp : c = ')'
    · have : ¬ s.depth ≤ 0 := fun h => hc ⟨hs, hp, h⟩
      simp only [step, hs, if_true, nesting, hp]
      simp; omega
    · simp only [step, hs, if_true, nesting, if_neg hp]
      split <;> omega
  · simp only [step, if_neg hs]; exact hd

/-- a reader at depth zero falls below it where it closes -/
theorem depth_step_of_closes {s : Cursor} {c : Char} (hc : s.Closes c) : (s.step c).depth < 0 := by
  obtain ⟨hs, rfl, hd⟩ := hc
  simp only [step, hs, if_true, nesting]
  simp; omega

theorem splitAtCloseFrom_eq_some_iff {s : Cursor} (hd : 0 ≤ s.depth) {text inner after : Fragment} :
    splitAtCloseFrom s text = some (inner, after) ↔
      text = inner ++ ')' :: after ∧ s.run inner = start ∧ 0 ≤ s.lowest inner := by
  induction text generalizing s inner with
  | nil => simp [splitAtCloseFrom]
  | cons c rest ih =>
    by_cases hc : s.Closes c
    · have hs : s = start := by
        obtain ⟨hq, -, hd'⟩ := hc
        have : s.depth = 0 := by omega
        cases s; simp only at hq this; subst hq this; rfl
      rw [splitAtCloseFrom, if_pos hc]
      refine ⟨?_, ?_⟩
      · intro h
        cases h
        exact ⟨by rw [hc.2.1]; rfl, hs, hd⟩
      · intro h
        obtain ⟨htext, -, hlow⟩ := h
        cases inner with
        | nil => simp only [List.nil_append, List.cons.injEq] at htext; rw [htext.2]
        | cons d inner =>
          -- an argument cannot begin with the parenthesis that closes
          simp only [List.cons_append, List.cons.injEq] at htext
          obtain ⟨rfl, -⟩ := htext
          have h1 := depth_step_of_closes hc
          have h2 := lowest_le (s.step c) inner
          rw [lowest_cons] at hlow; omega
    · have hstep := depth_step_nonneg hd hc
      rw [splitAtCloseFrom, if_neg hc, Option.map_eq_some_iff]
      refine ⟨?_, ?_⟩
      · intro h
        obtain ⟨⟨inner', after'⟩, h, he⟩ := h
        cases he
        obtain ⟨rfl, hrun, hlow⟩ := (ih hstep).1 h
        exact ⟨rfl, hrun, by rw [lowest_cons]; omega⟩
      · intro h
        obtain ⟨htext, hrun, hlow⟩ := h
        cases inner with
        | nil =>
          simp only [List.nil_append, List.cons.injEq] at htext
          rw [run_nil] at hrun
          exact absurd ⟨by rw [hrun]; rfl, htext.1, by rw [hrun]; exact Int.le_refl 0⟩ hc
        | cons d inner =>
          simp only [List.cons_append, List.cons.injEq] at htext
          obtain ⟨rfl, htext⟩ := htext
          rw [lowest_cons] at hlow
          exact ⟨(inner, after), (ih hstep).2 ⟨htext, hrun, by omega⟩, rfl⟩

/-- **A call closes where its inside is well-formed**, and nowhere else. -/
theorem splitAtClose_eq_some_iff {text inner after : Fragment} :
    splitAtClose text = some (inner, after) ↔ text = inner ++ ')' :: after ∧ inner.WellFormed := by
  have hle := lowest_le start inner
  rw [splitAtClose, splitAtCloseFrom_eq_some_iff (Int.le_refl 0), wellFormed_iff_neutral]
  refine ⟨?_, ?_⟩
  · intro h
    obtain ⟨htext, hrun, hlow⟩ := h
    exact ⟨htext, hrun, by simp only [start] at *; omega⟩
  · intro h
    obtain ⟨htext, hrun, hlow⟩ := h
    exact ⟨htext, hrun, by rw [hlow]; exact Int.le_refl 0⟩

/-- two well-formed texts that a parenthesis closes in the same text are the same -/
theorem eq_of_closing {inner inner' after after' : Fragment} (h : inner ++ ')' :: after = inner' ++ ')' :: after')
    (hwf : inner.WellFormed) (hwf' : inner'.WellFormed) : inner = inner' := by
  have hsplit : splitAtClose (inner ++ ')' :: after) = some (inner, after) := splitAtClose_eq_some_iff.2 ⟨rfl, hwf⟩
  rw [splitAtClose_eq_some_iff.2 ⟨h, hwf'⟩] at hsplit
  exact (congrArg Prod.fst (Option.some.inj hsplit)).symm

theorem splitAtCloseFrom_eq_none_iff {s : Cursor} (hd : 0 ≤ s.depth) {text : Fragment} :
    splitAtCloseFrom s text = none ↔ 0 ≤ s.lowest text := by
  induction text generalizing s with
  | nil => simp [splitAtCloseFrom, hd]
  | cons c rest ih =>
    by_cases hc : s.Closes c
    · have h1 := depth_step_of_closes hc
      have h2 := lowest_le (s.step c) rest
      rw [splitAtCloseFrom, if_pos hc, lowest_cons]
      refine ⟨?_, ?_⟩
      · intro h; cases h
      · intro h; omega
    · rw [splitAtCloseFrom, if_neg hc, Option.map_eq_none_iff, ih (depth_step_nonneg hd hc), lowest_cons]
      omega

/-- **A call stays open** exactly if no parenthesis behind it takes a reader below zero. -/
theorem splitAtClose_eq_none_iff {text : Fragment} : splitAtClose text = none ↔ 0 ≤ start.lowest text :=
  splitAtCloseFrom_eq_none_iff (Int.le_refl 0)

end SqlDialects.Fragment
