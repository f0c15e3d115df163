/-
The words of a text: the longest runs of word characters outside quotations.

- `Fragment.words`: the runs of the letters that a reader meets outside quotations.
- `runs_append_blot`: anything else ends a run, so that what stands on both sides of it has its own words.
- `RunTogether`: the words of one text are those of another, or some of them ran together there; the outcome tells which
  (`RunTogether.eq_iff`).
- `runTogether_append`: put side by side, two texts have the words of both, unless the last word of the first and the
  first word of the second become one.
-/
import Mathlib.Data.List.ReduceOption
import SqlDialects.Proofs.Reading.Plain

namespace SqlDialects

open Text

namespace Fragment

/-- the word characters outside quotations, and a blot in the place of any other character -/
def letters (q : Quoting) : Fragment → List (Option Char)
  | [] => []
  | c :: rest => (if q = .outside ∧ isWord c = true then some c else none) :: letters (q.step c) rest

/-- a letter comes first -/
def beginsRun (marks : List (Option Char)) : Bool := marks.head?.join.isSome

/-- a letter comes last -/
def endsRun (marks : List (Option Char)) : Bool := marks.getLast?.join.isSome

/-- the longest runs of letters: the pieces between the blots, as far as they are not empty -/
def runs (marks : List (Option Char)) : List Fragment :=
  ((marks.splitOnP Option.isNone).map List.reduceOption).filter fun run => !run.isEmpty

/-- the longest runs of word characters outside quotations, in order -/
def words (text : Fragment) : List Fragment := runs (letters .outside text)

example : words "SELECT x_1,'a b'c".toList = ["SELECT".toList, "x_1".toList, "c".toList] := by decide

/-! ## Letters -/

theorem letters_append (q : Quoting) (first second : Fragment) :
    letters q (first ++ second) = letters q first ++ letters (q.run first) second := by
  induction first generalizing q with
  | nil => rfl
  | cons c rest ih => rw [List.cons_append, letters, ih, letters]; rfl

theorem letters_cons_of_not_word {c : Char} (hc : isWord c = false) (q : Quoting) (rest : Fragment) :
    letters q (c :: rest) = none :: letters (q.step c) rest := by
  simp [letters, hc]

theorem isPlain_of_isWord {c : Char} (hc : isWord c = true) : Quoting.isPlain c = true := by
  have hflat := isFlat_of_isWord hc
  simp only [isFlat, Bool.and_eq_true] at hflat
  exact hflat.1.1

theorem step_outside_of_word {c : Char} (hc : isWord c = true) : Quoting.outside.step c = .outside :=
  Quoting.step_outside_of_plain (isPlain_of_isWord hc)

theorem letters_cons_word {c : Char} (hc : isWord c = true) (rest : Fragment) :
    letters .outside (c :: rest) = some c :: letters .outside rest := by
  simp [letters, hc, step_outside_of_word hc]

theorem letters_of_not_word {text : Fragment} (h : ∀ c ∈ text, isWord c = false) (q : Quoting) :
    letters q text = List.replicate text.length none := by
  induction text generalizing q with
  | nil => rfl
  | cons c rest ih =>
    rw [letters_cons_of_not_word (h c List.mem_cons_self), ih fun d hd => h d (List.mem_cons_of_mem c hd)]; rfl

/-! ## Runs -/

@[simp] theorem runs_nil : runs [] = [] := rfl

@[simp] theorem runs_blot (rest : List (Option Char)) : runs (none :: rest) = runs rest := by
  simp [runs, List.splitOnP_cons_eq_if_modifyHead]

/-- a letter belongs to the run behind it, or is one by itself -/
theorem runs_letter (c : Char) (rest : List (Option Char)) :
    runs (some c :: rest) = if beginsRun rest then extendFirst c (runs rest) else [c] :: runs rest := by
  cases rest with
  | nil => rfl
  | cons mark rest =>
    cases mark with
    | none => simp [runs, List.splitOnP_cons_eq_if_modifyHead, beginsRun]
    | some d =>
      obtain ⟨piece, pieces, hsplit⟩ := List.exists_cons_of_ne_nil (List.splitOnP_ne_nil Option.isNone rest)
      simp [runs, List.splitOnP_cons_eq_if_modifyHead, hsplit, beginsRun, extendFirst]

theorem beginsRun_append (first second : List (Option Char)) (h : first ≠ []) :
    beginsRun (first ++ second) = beginsRun first := by
  rw [beginsRun, beginsRun, List.head?_append_of_ne_nil _ h]

theorem runs_ne_nil {marks : List (Option Char)} (h : beginsRun marks = true) : runs marks ≠ [] := by
  cases marks with
  | nil => cases h
  | cons mark rest =>
    cases mark with
    | none => cases h
    | some c =>
      rw [runs_letter]
      split
      · cases runs rest <;> simp [extendFirst]
      · simp

theorem extendFirst_append {c : Char} {first : List Fragment} (h : first ≠ []) (second : List Fragment) :
    extendFirst c (first ++ second) = extendFirst c first ++ second := by
  cases first with
  | nil => exact absurd rfl h
  | cons piece pieces => rfl

theorem length_extendFirst {c : Char} {pieces : List Fragment} (h : pieces ≠ []) :
    (extendFirst c pieces).length = pieces.length := by
  cases pieces with
  | nil => exact absurd rfl h
  | cons piece pieces => rfl

theorem flatten_extendFirst (c : Char) (pieces : List Fragment) :
    (extendFirst c pieces).flatten = c :: pieces.flatten := by
  cases pieces <;> rfl

theorem flatten_runs (marks : List (Option Char)) : (runs marks).flatten = marks.reduceOption := by
  induction marks with
  | nil => rfl
  | cons mark rest ih =>
    cases mark with
    | none => rw [runs_blot, ih, List.reduceOption_cons_of_none]
    | some c =>
      rw [runs_letter, List.reduceOption_cons_of_some, ← ih]
      split
      · rw [flatten_extendFirst]
      · rfl

/-- **Side by side**, two lists have the runs of both, unless a letter meets a letter. -/
theorem runs_append {first second : List (Option Char)} (h : ¬ (endsRun first = true ∧ beginsRun second = true)) :
    runs (first ++ second) = runs first ++ runs second := by
  induction first with
  | nil => rfl
  | cons mark rest ih =>
    by_cases hrest : rest = []
    · subst hrest
      cases mark with
      | none => rfl
      | some c =>
        have hsecond : ¬ beginsRun second = true := fun hb => h ⟨rfl, hb⟩
        rw [List.singleton_append, runs_letter, if_neg hsecond]; rfl
    · have hends : endsRun (mark :: rest) = endsRun rest := by
        rw [endsRun, endsRun, List.getLast?_cons_of_ne_nil hrest]
      rw [hends] at h
      cases mark with
      | none => exact ih h
      | some c =>
        rw [List.cons_append, runs_letter, runs_letter, beginsRun_append _ _ hrest, ih h]
        split
        · rename_i hb; rw [extendFirst_append (runs_ne_nil hb)]
        · rfl

/-- where a letter meets a letter, two runs become one -/
theorem length_runs_append {first second : List (Option Char)} (hends : endsRun first = true)
    (hbegins : beginsRun second = true) :
    (runs (first ++ second)).length + 1 = (runs first).length + (runs second).length := by
  induction first with
  | nil => cases hends
  | cons mark rest ih =>
    by_cases hrest : rest = []
    · subst hrest
      cases mark with
      | none => cases hends
      | some c =>
        rw [List.singleton_append, runs_letter, if_pos hbegins, length_extendFirst (runs_ne_nil hbegins)]
        simp [runs_letter, beginsRun, Nat.add_comm]
    · have hends' : endsRun rest = true := by
        rw [endsRun, List.getLast?_cons_of_ne_nil hrest] at hends; exact hends
      have ih := ih hends'
      cases mark with
      | none => exact ih
      | some c =>
        rw [List.cons_append, runs_letter, runs_letter, beginsRun_append _ _ hrest]
        split
        · rename_i hb
          have hb' := beginsRun_append _ second hrest
          rw [hb] at hb'
          rw [length_extendFirst (runs_ne_nil hb), length_extendFirst (runs_ne_nil hb'), ih]
        · simp only [List.length_cons]; omega

/-- a blot ends a run -/
theorem runs_append_blot (first second : List (Option Char)) :
    runs (first ++ none :: second) = runs first ++ runs second := by
  rw [runs_append (by rintro ⟨-, h⟩; cases h), runs_blot]

theorem runs_blots (n : Nat) (rest : List (Option Char)) : runs (List.replicate n none ++ rest) = runs rest := by
  induction n with
  | zero => rfl
  | succ n ih => rw [List.replicate_succ, List.cons_append, runs_blot, ih]

theorem runs_append_blots (first second : List (Option Char)) {n : Nat} (hn : n ≠ 0) :
    runs (first ++ (List.replicate n none ++ second)) = runs first ++ runs second := by
  obtain ⟨n, rfl⟩ := Nat.exists_eq_succ_of_ne_zero hn
  rw [List.replicate_succ, List.cons_append, runs_append_blot, runs_blots]

theorem runs_append_blots_end (marks : List (Option Char)) (n : Nat) : runs (marks ++ List.replicate n none) = runs marks := by
  cases n with
  | zero => rw [List.replicate_zero, List.append_nil]
  | succ n =>
    rw [← List.append_nil (List.replicate _ _), runs_append_blots marks [] (Nat.succ_ne_zero n), runs_nil, List.append_nil]

/-! ## Words at the ends of a text -/

/-- the text begins with a word character -/
def BeginsInWord (text : Fragment) : Prop := ∃ c, text.head? = some c ∧ isWord c = true

/-- the text ends with a word character -/
def EndsInWord (text : Fragment) : Prop := ∃ c, text.getLast? = some c ∧ isWord c = true

theorem beginsInWord_append {a b : Fragment} : BeginsInWord (a ++ b) ↔ BeginsInWord a ∨ (a = [] ∧ BeginsInWord b) := by
  cases a with
  | nil => simp [BeginsInWord]
  | cons c a => simp [BeginsInWord]

theorem endsInWord_append {a b : Fragment} : EndsInWord (a ++ b) ↔ EndsInWord b ∨ (b = [] ∧ EndsInWord a) := by
  rcases List.eq_nil_or_concat b with rfl | ⟨front, c, rfl⟩
  · simp [EndsInWord]
  · simp [EndsInWord, ← List.append_assoc]

theorem beginsRun_letters (text : Fragment) : beginsRun (letters .outside text) = true ↔ BeginsInWord text := by
  cases text with
  | nil => simp [beginsRun, letters, BeginsInWord]
  | cons c rest => by_cases hc : isWord c = true <;> simp [beginsRun, letters, BeginsInWord, hc]

/-- no word character closes a quotation -/
theorem outside_of_step_word {q : Quoting} (hp : q.Proper) {c : Char} (hc : isWord c = true) (h : q.step c = .outside) :
    q = .outside := by
  cases q with
  | outside => rfl
  | inside mark escaped =>
    rw [Quoting.step_inside_of_plain hp (isPlain_of_isWord hc)] at h
    cases h

theorem endsRun_letters {text : Fragment} (h : Quoting.outside.run text = .outside) :
    endsRun (letters .outside text) = true ↔ EndsInWord text := by
  rcases List.eq_nil_or_concat text with rfl | ⟨front, c, rfl⟩
  · simp [endsRun, letters, EndsInWord]
  · rw [List.concat_eq_append] at h ⊢
    have hq : isWord c = true → Quoting.outside.run front = .outside := fun hc =>
      outside_of_step_word (Quoting.proper_run (q := .outside) trivial front) hc (by rwa [Quoting.run_append] at h)
    by_cases hc : isWord c = true
    · simp [endsRun, letters_append, letters, EndsInWord, hc, hq hc]
    · simp [endsRun, letters_append, letters, EndsInWord, hc]

/-! ## Words that ran together -/

/-- `joined` has the letters of `apart` in the same order; it has the same words, or fewer if some are glued -/
structure RunTogether (glued : Prop) (joined apart : List Fragment) : Prop where
  flatten_eq : joined.flatten = apart.flatten
  same_or_fewer : (¬ glued ∧ joined = apart) ∨ (glued ∧ joined.length < apart.length)

namespace RunTogether

variable {glued glued' : Prop} {a b c d : List Fragment}

theorem refl (h : ¬ glued) (a : List Fragment) : RunTogether glued a a := ⟨rfl, Or.inl ⟨h, rfl⟩⟩

theorem eq_iff (h : RunTogether glued a b) : a = b ↔ ¬ glued := by
  rcases h.same_or_fewer with ⟨hno, heq⟩ | ⟨hyes, hlt⟩
  · exact ⟨fun _ => hno, fun _ => heq⟩
  · refine ⟨fun heq => ?_, fun hno => absurd hyes hno⟩
    rw [heq] at hlt
    exact absurd hlt (Nat.lt_irrefl _)

theorem length_le (h : RunTogether glued a b) : a.length ≤ b.length := by
  rcases h.same_or_fewer with ⟨-, heq⟩ | ⟨-, hlt⟩
  · exact Nat.le_of_eq (congrArg List.length heq)
  · exact Nat.le_of_lt hlt

theorem congr (h : RunTogether glued a b) (hiff : glued ↔ glued') : RunTogether glued' a b := by rwa [← propext hiff]

/-- words that ran together in either of two steps have run together -/
theorem trans (h1 : RunTogether glued a b) (h2 : RunTogether glued' b c) : RunTogether (glued ∨ glued') a c := by
  refine ⟨h1.flatten_eq.trans h2.flatten_eq, ?_⟩
  have hle1 := h1.length_le
  have hle2 := h2.length_le
  rcases h1.same_or_fewer with ⟨hno, rfl⟩ | ⟨hyes, hlt⟩
  · rcases h2.same_or_fewer with ⟨hno', rfl⟩ | ⟨hyes', hlt'⟩
    · exact Or.inl ⟨not_or.2 ⟨hno, hno'⟩, rfl⟩
    · exact Or.inr ⟨Or.inr hyes', hlt'⟩
  · exact Or.inr ⟨Or.inl hyes, by omega⟩

theorem append (h1 : RunTogether glued a b) (h2 : RunTogether glued' c d) :
    RunTogether (glued ∨ glued') (a ++ c) (b ++ d) := by
  refine ⟨by rw [List.flatten_append, List.flatten_append, h1.flatten_eq, h2.flatten_eq], ?_⟩
  have hle1 := h1.length_le
  have hle2 := h2.length_le
  rw [List.length_append, List.length_append]
  rcases h1.same_or_fewer with ⟨hno, rfl⟩ | ⟨hyes, hlt⟩
  · rcases h2.same_or_fewer with ⟨hno', rfl⟩ | ⟨hyes', hlt'⟩
    · exact Or.inl ⟨not_or.2 ⟨hno, hno'⟩, rfl⟩
    · exact Or.inr ⟨Or.inr hyes', by omega⟩
  · exact Or.inr ⟨Or.inl hyes, by omega⟩

end RunTogether

/-- put side by side, runs run together where a letter meets a letter -/
theorem runTogether_append (first second : List (Option Char)) :
    RunTogether (endsRun first = true ∧ beginsRun second = true) (runs (first ++ second)) (runs first ++ runs second) := by
  refine ⟨by simp only [List.flatten_append, flatten_runs, List.reduceOption_append], ?_⟩
  by_cases h : endsRun first = true ∧ beginsRun second = true
  · have hlength := length_runs_append h.1 h.2
    exact Or.inr ⟨h, by rw [List.length_append]; omega⟩
  · exact Or.inl ⟨h, runs_append h⟩

/-- a letter in front changes nothing, if it joins the first run in both or in neither -/
theorem runTogether_letter {glued : Prop} {joined apart : List (Option Char)} (h : RunTogether glued (runs joined) (runs apart))
    (hbegins : beginsRun joined = beginsRun apart) (c : Char) :
    RunTogether glued (runs (some c :: joined)) (runs (some c :: apart)) := by
  have hflatten (marks : List (Option Char)) : (runs (some c :: marks)).flatten = c :: (runs marks).flatten := by
    rw [flatten_runs, List.reduceOption_cons_of_some, flatten_runs]
  refine ⟨by rw [hflatten, hflatten, h.flatten_eq], ?_⟩
  have hlength (marks : List (Option Char)) :
      (runs (some c :: marks)).length = if beginsRun marks then (runs marks).length else (runs marks).length + 1 := by
    rw [runs_letter]
    split
    · rename_i hb; exact length_extendFirst (runs_ne_nil hb)
    · rfl
  rcases h.same_or_fewer with ⟨hno, heq⟩ | ⟨hyes, hlt⟩
  · exact Or.inl ⟨hno, by rw [runs_letter, runs_letter, hbegins, heq]⟩
  · refine Or.inr ⟨hyes, ?_⟩
    rw [hlength, hlength, hbegins]
    split <;> omega

end Fragment

end SqlDialects
