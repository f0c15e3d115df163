/-
Two accounts of quotations. A scanner keeps its own from where it begins; `insideQuotes` reads the text from its front,
one position at a time.

- `Cursor.scanner`: a scanner behind a text is the reader behind it, in the scanner's words (`step_scanner`).
- `mem_scanFrom_iff`: what a scanner shows, told by the reader.
- `Tells`: what a list of sightings should tell of a text from some position on.
- `tells_scan_iff`: that is what a scanner shows exactly if it begins outside quotations, or behind the text.
-/
import SqlDialects.Fragment.Scan

namespace SqlDialects

open Fragment

namespace Cursor

/-- the scanner that stands where the reader stands -/
def scanner (s : Cursor) : Scanner :=
  match s.quoting with
  | .outside => ⟨s.depth, none, false⟩
  | .inside mark escaped => ⟨s.depth, some mark, escaped⟩

theorem mark_scanner_iff {s : Cursor} : s.scanner.mark = none ↔ s.quoting = .outside := by
  obtain ⟨quoting, depth⟩ := s
  cases quoting with
  | outside => simp [scanner]
  | inside mark escaped => simp [scanner]

/-- **The scanner and the reader go the same way**, character by character. -/
theorem step_scanner (s : Cursor) (c : Char) : s.scanner.step c = (s.step c).scanner := by
  obtain ⟨quoting, depth⟩ := s
  cases quoting with
  | outside =>
    by_cases hmark : Quoting.isMark c = true
    · have hnesting : nesting c = 0 := by
        have hopen : c ≠ '(' := by rintro rfl; cases hmark
        have hclose : c ≠ ')' := by rintro rfl; cases hmark
        simp [nesting, hopen, hclose]
      simp [scanner, Scanner.step, step, Quoting.step, hmark, hnesting]
    · simp only [scanner, Scanner.step, step, Quoting.step, hmark, if_true, nesting]
      by_cases hopen : c = '('
      · simp [hopen]
      · by_cases hclose : c = ')'
        · simp [hclose]; omega
        · simp [hopen, hclose]
  | inside mark escaped =>
    cases escaped with
    | true => simp [scanner, Scanner.step, step, Quoting.step]
    | false =>
      by_cases hescape : c = '\\'
      · simp [scanner, Scanner.step, step, Quoting.step, hescape]
      · by_cases hmark : c = mark
        · subst hmark; simp [scanner, Scanner.step, step, Quoting.step, hescape]
        · simp [scanner, Scanner.step, step, Quoting.step, hescape, hmark]

end Cursor

namespace Fragment

open Cursor

variable {s : Cursor} {index first : Nat} {c : Char} {text rest : Fragment} {seen : Sighting}

/-! ## What a scanner shows -/

theorem scanFrom_outside (h : s.quoting = .outside) (index : Nat) (c : Char) (rest : Fragment) :
    scanFrom s.scanner index (c :: rest) =
      ⟨index, c, (s.step c).depth⟩ :: scanFrom (s.step c).scanner (index + 1) rest := by
  have hdepth : (s.step c).scanner.depth = (s.step c).depth := by
    rw [scanner]; split <;> rfl
  rw [scanFrom, mark_scanner_iff.2 h, step_scanner, hdepth]; rfl

theorem scanFrom_inside (h : s.quoting ≠ .outside) (index : Nat) (c : Char) (rest : Fragment) :
    scanFrom s.scanner index (c :: rest) = scanFrom (s.step c).scanner (index + 1) rest := by
  have hmark : ¬ s.scanner.mark.isNone = true := by
    rw [Option.isNone_iff_eq_none, mark_scanner_iff]; exact h
  rw [scanFrom, if_neg hmark, step_scanner]

/-- a scanner shows a character exactly if the reader stands outside quotations in front of it, with the depth of the
reader behind it -/
theorem mem_scanFrom_iff : seen ∈ scanFrom s.scanner index text ↔
    ∃ front c tail, text = front ++ c :: tail ∧ (s.run front).quoting = .outside ∧
      seen = ⟨index + front.length, c, (s.run (front ++ [c])).depth⟩ := by
  induction text generalizing s index with
  | nil => simp [scanFrom]
  | cons d rest ih =>
    have hbehind : (∃ front c tail, d :: rest = front ++ c :: tail ∧ (s.run front).quoting = .outside ∧
        seen = ⟨index + front.length, c, (s.run (front ++ [c])).depth⟩) ↔
        (s.quoting = .outside ∧ seen = ⟨index, d, (s.step d).depth⟩) ∨
          seen ∈ scanFrom (s.step d).scanner (index + 1) rest := by
      rw [ih]
      refine ⟨?_, ?_⟩
      · intro h
        obtain ⟨front, c, tail, htext, hquote, hseen⟩ := h
        cases front with
        | nil =>
          obtain ⟨rfl, rfl⟩ := List.cons.inj htext
          exact Or.inl ⟨hquote, hseen⟩
        | cons e front =>
          obtain ⟨rfl, rfl⟩ := List.cons.inj htext
          refine Or.inr ⟨front, c, tail, rfl, hquote, ?_⟩
          rw [hseen, List.length_cons, Nat.add_assoc, Nat.add_comm 1]; rfl
      · intro h
        rcases h with ⟨hquote, hseen⟩ | ⟨front, c, tail, rfl, hquote, hseen⟩
        · exact ⟨[], d, rest, rfl, hquote, hseen⟩
        · refine ⟨d :: front, c, tail, rfl, hquote, ?_⟩
          rw [hseen, List.length_cons, Nat.add_assoc, Nat.add_comm 1]; rfl
    rw [hbehind]
    by_cases hs : s.quoting = .outside
    · rw [scanFrom_outside hs, List.mem_cons]
      simp [hs]
    · rw [scanFrom_inside hs]
      simp [hs]

theorem mem_scan_iff : seen ∈ scan text first ↔
    ∃ front c tail, text.drop first = front ++ c :: tail ∧ (start.run front).quoting = .outside ∧
      seen = ⟨first + front.length, c, (start.run (front ++ [c])).depth⟩ :=
  mem_scanFrom_iff (s := start)

/-- the positions that a scanner shows are those outside quotations -/
theorem positions_scanFrom (front rest : Fragment) (hs : s.quoting = Quoting.outside.run front) :
    (scanFrom s.scanner front.length rest).map Sighting.index =
      (List.range' front.length rest.length).filter fun i => !insideQuotes (front ++ rest) i := by
  induction rest generalizing s front with
  | nil => rfl
  | cons c rest ih =>
    have hstep : (s.step c).quoting = Quoting.outside.run (front ++ [c]) := by
      rw [Quoting.run_append, ← hs]; rfl
    have ih := ih (front ++ [c]) hstep
    rw [List.append_assoc, List.singleton_append, List.length_append, List.length_singleton] at ih
    have hhere : insideQuotes (front ++ c :: rest) front.length = s.quoting.isOpen := by
      rw [insideQuotes, List.take_left, hs]
    rw [List.length_cons, List.range'_succ, List.filter_cons, hhere, ← ih]
    cases hquote : s.quoting with
    | outside => rw [scanFrom_outside hquote]; rfl
    | inside mark escaped => rw [scanFrom_inside (by rw [hquote]; nofun)]; rfl

/-- how many more parentheses are opened than closed by the characters shown -/
def balance (shown : List Sighting) : Int :=
  (shown.map Sighting.char).count '(' - (shown.map Sighting.char).count ')'

theorem balance_cons (seen : Sighting) (shown : List Sighting) :
    balance (seen :: shown) = nesting seen.char + balance shown := by
  simp only [balance, nesting, List.map_cons, List.count_cons, beq_iff_eq]
  by_cases hopen : seen.char = '('
  · simp [hopen]; omega
  · by_cases hclose : seen.char = ')'
    · simp [hclose]; omega
    · simp [hopen, hclose]

/-- the depth shown with a character is what the characters shown up to it come to -/
theorem depth_of_scanFrom {before behind : List Sighting}
    (h : scanFrom s.scanner index text = before ++ seen :: behind) : seen.depth = s.depth + balance (before ++ [seen]) := by
  induction text generalizing s index before with
  | nil => simp [scanFrom] at h
  | cons c rest ih =>
    by_cases hs : s.quoting = .outside
    · have hstep : (s.step c).depth = s.depth + nesting c := by rw [step, if_pos hs]
      rw [scanFrom_outside hs] at h
      cases before with
      | nil =>
        obtain ⟨rfl, -⟩ := List.cons.inj h
        rw [List.nil_append, balance_cons, hstep]
        simp [balance]
      | cons shown before =>
        obtain ⟨rfl, hrest⟩ := List.cons.inj h
        rw [List.cons_append, balance_cons, ih hrest, hstep]
        exact Int.add_assoc _ _ _
    · have hstep : (s.step c).depth = s.depth := by rw [step, if_neg hs]
      rw [scanFrom_inside hs] at h
      rw [ih h, hstep]

/-! ## The two accounts -/

/-- The sightings tell of the text from position `first` on. -/
structure Tells (text : Fragment) (first : Nat) (shown : List Sighting) : Prop where
  /-- they stand at the positions outside quotations, in order -/
  positions : shown.map Sighting.index =
    (List.range text.length).filter fun i => first ≤ i && !text.insideQuotes i
  chars : ∀ seen ∈ shown, text[seen.index]? = some seen.char
  /-- parentheses are counted among the characters shown, from the first one to this one -/
  depths : ∀ before seen behind, shown = before ++ seen :: behind → seen.depth = balance (before ++ [seen])
  /-- the reader that calls are split by says the same, if it starts at `first` -/
  reader : ∀ seen ∈ shown, (start.run (text.extract first seen.index)).quoting = .outside ∧
    (start.run (text.extract first (seen.index + 1))).depth = seen.depth

theorem filter_range_eq {p : Nat → Bool} {n : Nat} (h : first ≤ n) :
    (List.range n).filter (fun i => first ≤ i && p i) = (List.range' first (n - first)).filter p := by
  have hsplit : List.range n = List.range' 0 first ++ List.range' first (n - first) := by
    rw [List.range_eq_range']
    have := List.range'_append_1 (s := 0) (m := first) (n := n - first)
    rw [Nat.zero_add, Nat.add_sub_cancel' h] at this
    exact this.symm
  have hfront : (List.range' 0 first).filter (fun i => first ≤ i && p i) = [] := by
    rw [List.filter_eq_nil_iff]
    intro i hi
    have := List.mem_range'_1.1 hi
    simp; omega
  rw [hsplit, List.filter_append, hfront, List.nil_append]
  refine List.filter_congr fun i hi => ?_
  have := List.mem_range'_1.1 hi
  simp; omega

theorem insideQuotes_eq_false_iff : text.insideQuotes index = false ↔ Quoting.outside.run (text.take index) = .outside := by
  rw [insideQuotes]
  cases Quoting.outside.run (text.take index) with
  | outside => simp [Quoting.isOpen]
  | inside mark escaped => simp [Quoting.isOpen]

theorem positions_scan (hfirst : first ≤ text.length) (h : text.insideQuotes first = false) :
    (scan text first).map Sighting.index =
      (List.range text.length).filter fun i => first ≤ i && !text.insideQuotes i := by
  have hscan := positions_scanFrom (s := start) _ (text.drop first) (insideQuotes_eq_false_iff.1 h).symm
  rw [List.take_append_drop, List.length_take_of_le hfirst, List.length_drop] at hscan
  rw [filter_range_eq hfirst]
  exact hscan

/-- what stands in a text from position `first` on -/
theorem extract_of_drop {front : Fragment} (h : text.drop first = front ++ rest) :
    text.extract first (first + front.length) = front := by
  rw [List.extract_eq_take_drop, h, Nat.add_sub_cancel_left, List.take_left]

theorem getElem?_of_drop {front : Fragment} (h : text.drop first = front ++ c :: rest) :
    text[first + front.length]? = some c := by
  rw [← List.getElem?_drop, h, List.getElem?_append_right (Nat.le_refl _), Nat.sub_self]; rfl

theorem tells_of_positions (h : (scan text first).map Sighting.index =
    (List.range text.length).filter fun i => first ≤ i && !text.insideQuotes i) : Tells text first (scan text first) where
  positions := h
  chars seen hseen := by
    obtain ⟨front, c, tail, htext, -, rfl⟩ := mem_scan_iff.1 hseen
    exact getElem?_of_drop htext
  depths before seen behind hshown := by
    have := depth_of_scanFrom (s := start) hshown
    rw [this]; exact Int.zero_add _
  reader seen hseen := by
    obtain ⟨front, c, tail, htext, hquote, rfl⟩ := mem_scan_iff.1 hseen
    have hbehind : text.drop first = (front ++ [c]) ++ tail := by rw [htext]; simp
    have hthrough : text.extract first (first + front.length + 1) = front ++ [c] := by
      rw [← extract_of_drop hbehind, List.length_append, List.length_singleton, Nat.add_assoc]
    rw [extract_of_drop htext, hthrough]
    exact ⟨hquote, rfl⟩

/-- a scanner shows the character at which it begins -/
theorem mem_scan_first (h : first < text.length) : ∃ seen ∈ scan text first, seen.index = first :=
  ⟨_, mem_scan_iff.2 ⟨[], text[first], text.drop (first + 1), List.drop_eq_getElem_cons h, rfl, rfl⟩, rfl⟩

/-- **The two accounts of quotations agree** exactly if the scanner begins outside quotations, or behind the text: it
then shows every position outside quotations from there on and no other, in order, each with its character and with the
parentheses that are open behind it. -/
theorem tells_scan_iff (text : Fragment) (first : Nat) :
    Tells text first (scan text first) ↔ text.insideQuotes first = false ∨ text.length ≤ first := by
  refine ⟨fun h => ?_, fun h => tells_of_positions ?_⟩
  · rcases Nat.lt_or_ge first text.length with hfirst | hend
    · obtain ⟨seen, hseen, hindex⟩ := mem_scan_first hfirst
      have hmem := List.mem_map_of_mem (f := Sighting.index) hseen
      rw [h.positions, hindex, List.mem_filter] at hmem
      exact Or.inl (by simpa using hmem.2)
    · exact Or.inr hend
  · rcases Nat.lt_or_ge first text.length with hfirst | hend
    · exact positions_scan (Nat.le_of_lt hfirst) (h.resolve_right (Nat.not_le_of_lt hfirst))
    · have hnone : (List.range text.length).filter (fun i => first ≤ i && !text.insideQuotes i) = [] := by
        rw [List.filter_eq_nil_iff]
        intro i hi
        have := List.mem_range.1 hi
        simp; omega
      rw [hnone, scan, List.drop_eq_nil_of_le hend]; rfl

/-- in `f('(\'', \"\"\")\")` the escaped mark and the doubled one end no quotation -/
example : (scan "f('(\\'', \"\"\")\")".toList 2).map (fun seen => (seen.index, seen.depth)) =
    [(2, 0), (7, 0), (8, 0), (9, 0), (11, 0), (14, -1)] := by
  decide

end Fragment

end SqlDialects
