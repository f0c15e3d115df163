/-
Calls by positions: where a call closes and what its arguments are, told of the text it stands in.

- `splitAtClose_drop`, `cutAtCommas_eq`: the parenthesis and the arguments found by position are those of `splitAtClose`
  and `arguments`.
- `ClosesAt`: a parenthesis closes a call; `closing?_eq_some_iff`: that is the one found.
- `ArgumentsOf`: a text, cut at the commas between arguments; `argumentsOf_iff`: a well-formed text is cut so in one way
  only.
- `closing_arguments`: both together, for a call whose arguments begin outside quotations.
-/
import Mathlib.Data.List.Forall2
import SqlDialects.Proofs.Call.Arguments
import SqlDialects.Proofs.Call.Closing
import SqlDialects.Proofs.Reading.Scan

namespace SqlDialects.Fragment

open Text Cursor

variable {s : Cursor} {index first : Nat} {c : Char} {text front rest inner : Fragment} {pieces padded : List Fragment}

/-! ## The closing parenthesis -/

theorem closes_iff (hs : s.quoting = .outside) : (⟨index, c, (s.step c).depth⟩ : Sighting).Closes ↔ s.Closes c := by
  refine ⟨?_, ?_⟩
  · intro h
    obtain ⟨hc, hdepth⟩ : c = ')' ∧ (s.step c).depth < 0 := h
    subst hc
    refine ⟨hs, rfl, ?_⟩
    simp only [step, hs, if_true, nesting] at hdepth
    simp at hdepth; omega
  · intro h
    exact ⟨h.2.1, depth_step_of_closes h⟩

/-- the first parenthesis that a scanner shows below zero is the one that the reader stops at -/
theorem find?_scanFrom (s : Cursor) (index : Nat) (text : Fragment) :
    ((scanFrom s.scanner index text).find? (·.Closes)).map Sighting.index =
      (splitAtCloseFrom s text).map fun split => index + split.1.length := by
  induction text generalizing s index with
  | nil => rfl
  | cons c rest ih =>
    have hnext (hc : ¬ s.Closes c) : (splitAtCloseFrom s (c :: rest)).map (fun split => index + split.1.length) =
        (splitAtCloseFrom (s.step c) rest).map fun split => index + 1 + split.1.length := by
      rw [splitAtCloseFrom, if_neg hc, Option.map_map]
      refine congrArg (fun f => Option.map f _) (funext fun split => ?_)
      simp only [Function.comp_apply, List.length_cons]; omega
    by_cases hs : s.quoting = .outside
    · rw [scanFrom_outside hs, List.find?_cons]
      by_cases hc : s.Closes c
      · rw [decide_eq_true ((closes_iff hs).2 hc), splitAtCloseFrom, if_pos hc]; rfl
      · rw [decide_eq_false (mt (closes_iff hs).1 hc), hnext hc]; exact ih _ _
    · rw [scanFrom_inside hs, hnext fun hc => hs hc.1]; exact ih _ _

theorem closing?_eq (text : Fragment) (first : Nat) :
    closing? text first = (splitAtClose (text.drop first)).map fun split => first + split.1.length :=
  find?_scanFrom start first (text.drop first)

theorem drop_behind {after : Fragment} (h : text.drop first = inner ++ c :: after) :
    text.drop (first + inner.length + 1) = after := by
  rw [Nat.add_assoc, ← List.drop_drop, h, ← List.drop_drop, List.drop_left]; rfl

/-- **The two searches for the closing parenthesis** find the same one. -/
theorem splitAtClose_drop (text : Fragment) (first : Nat) :
    splitAtClose (text.drop first) =
      (closing? text first).map fun index => (text.extract first index, text.drop (index + 1)) := by
  rw [closing?_eq]
  cases hsplit : splitAtClose (text.drop first) with
  | none => rfl
  | some split =>
    obtain ⟨inner, after⟩ := split
    have htext := splitAtClose_append hsplit
    simp only [Option.map_some, extract_of_drop htext, drop_behind htext]

/-- At position `index`, outside quotations, a parenthesis closes the call whose arguments begin at `first`: what stands
between has its quotations closed, and its parentheses match. -/
structure ClosesAt (text : Fragment) (first index : Nat) : Prop where
  le : first ≤ index
  paren : text[index]? = some ')'
  unquoted : text.insideQuotes index = false
  wellFormed : WellFormed (text.extract first index)

theorem insideQuotes_add (h : text.insideQuotes first = false) (hinner : inner.WellFormed)
    (htext : text.drop first = inner ++ rest) : text.insideQuotes (first + inner.length) = false := by
  rw [insideQuotes_eq_false_iff] at h ⊢
  rw [List.take_add, htext, List.take_left, Quoting.run_append, h, run_of_wellFormed hinner]

/-- **A parenthesis closes a call exactly where one is found**, if the arguments begin outside quotations. -/
theorem closing?_eq_some_iff (h : text.insideQuotes first = false) :
    closing? text first = some index ↔ ClosesAt text first index := by
  rw [closing?_eq, Option.map_eq_some_iff]
  refine ⟨?_, ?_⟩
  · intro hclosing
    obtain ⟨⟨inner, after⟩, hsplit, rfl⟩ := hclosing
    obtain ⟨htext, hinner⟩ := splitAtClose_eq_some_iff.1 hsplit
    refine ⟨Nat.le_add_right _ _, getElem?_of_drop htext, insideQuotes_add h hinner htext, ?_⟩
    rw [extract_of_drop htext]; exact hinner
  · intro hcloses
    have hindex : first + (index - first) = index := Nat.add_sub_cancel' hcloses.le
    obtain ⟨hlt, hparen⟩ := List.getElem?_eq_some_iff.1 hcloses.paren
    have htext : text.drop first = text.extract first index ++ ')' :: text.drop (index + 1) := by
      rw [List.extract_eq_take_drop, ← hparen, ← List.drop_eq_getElem_cons hlt]
      conv_lhs => rw [← List.take_append_drop (index - first) (text.drop first)]
      rw [List.drop_drop, hindex]
    refine ⟨_, splitAtClose_eq_some_iff.2 ⟨htext, hcloses.wellFormed⟩, ?_⟩
    simp only [List.extract_eq_take_drop, List.length_take, List.length_drop]
    omega

/-! ## The arguments -/

theorem separates_iff (hs : s.quoting = .outside) :
    (⟨index, c, (s.step c).depth⟩ : Sighting).Separates ↔ s.Separates c := by
  have hdepth (hc : c = ',') : (s.step c).depth = s.depth := by simp [step, hc, nesting]
  refine ⟨?_, ?_⟩
  · intro h
    obtain ⟨hc, hzero⟩ := h
    exact ⟨hs, hc, (hdepth hc).symm.trans hzero⟩
  · intro h
    obtain ⟨-, hc, hzero⟩ := h
    exact ⟨hc, (hdepth hc).trans hzero⟩

/-- the reader meets no comma that separates exactly if the scanner shows none -/
theorem unseparated_iff_scanFrom (s : Cursor) (index : Nat) (text : Fragment) :
    s.Unseparated text ↔ ∀ seen ∈ scanFrom s.scanner index text, ¬ seen.Separates := by
  induction text generalizing s index with
  | nil => simp [Unseparated, scanFrom]
  | cons c rest ih =>
    rw [Unseparated, ih _ (index + 1)]
    by_cases hs : s.quoting = .outside
    · rw [scanFrom_outside hs, List.forall_mem_cons, separates_iff hs]
    · have hc : ¬ s.Separates c := fun hc => hs hc.1
      rw [scanFrom_inside hs, and_iff_right hc]

/-- what the scanner shows first matters only where it is a comma that separates -/
theorem foldl_step_cons (s : Cursor) (index : Nat) (text : Fragment) (c : Char) (rest : Fragment) (cutting : Cutting) :
    (scanFrom s.scanner index (c :: rest)).foldl (Cutting.step text) cutting =
      (scanFrom (s.step c).scanner (index + 1) rest).foldl (Cutting.step text)
        (if s.Separates c then ⟨cutting.done ++ [trim (text.extract cutting.next index)], index + 1⟩ else cutting) := by
  by_cases hs : s.quoting = .outside
  · rw [scanFrom_outside hs, List.foldl_cons, Cutting.step]
    simp only [separates_iff hs]
  · have hc : ¬ s.Separates c := fun hc => hs hc.1
    rw [scanFrom_inside hs, if_neg hc]

theorem foldr_extendFirst (word : Fragment) (first : Fragment) (others : List Fragment) :
    word.foldr extendFirst (first :: others) = (word ++ first) :: others := by
  induction word with
  | nil => rfl
  | cons c word ih => rw [List.foldr_cons, ih]; rfl

/-- cutting goes on behind `front`, of which the argument that begins at `cutting.next` is still open -/
theorem finish_foldl (s : Cursor) (front rest : Fragment) (cutting : Cutting) (h : cutting.next ≤ front.length) :
    ((scanFrom s.scanner front.length rest).foldl (Cutting.step (front ++ rest)) cutting).finish (front ++ rest) =
      cutting.done ++ ((front.drop cutting.next).foldr extendFirst (cutFrom s rest)).map trim := by
  induction rest generalizing s front cutting with
  | nil =>
    rw [cutFrom, foldr_extendFirst, List.append_nil, List.append_nil]; rfl
  | cons c rest ih =>
    have hsplit : front ++ c :: rest = (front ++ [c]) ++ rest := by simp
    have hlength : front.length + 1 = (front ++ [c]).length := by simp
    rw [foldl_step_cons, cutFrom]
    by_cases hc : s.Separates c
    · have hopen : (front ++ c :: rest).extract cutting.next front.length = front.drop cutting.next := by
        rw [List.extract_eq_take_drop, List.drop_append_of_le_length h,
          show front.length - cutting.next = (front.drop cutting.next).length by simp, List.take_left]
      rw [if_pos hc, if_pos hc, hopen, hsplit, hlength, ih _ _ _ (Nat.le_refl _), foldr_extendFirst]
      simp
    · rw [if_neg hc, if_neg hc, hsplit, hlength, ih _ _ _ (by simp; omega), List.drop_append_of_le_length h,
        List.foldr_append]
      rfl

/-- **The two ways of cutting a text into arguments** give the same. -/
theorem cutAtCommas_eq (inner : Fragment) : cutAtCommas inner = arguments inner :=
  finish_foldl start [] inner ⟨[], 0⟩ (Nat.le_refl 0)

/-- The pieces that a text is cut into at the commas outside quotations and parentheses, trimmed. -/
structure ArgumentsOf (inner : Fragment) (pieces : List Fragment) : Prop where
  /-- with the blanks put back around the pieces, and the commas between them, they are the text -/
  restored : ∃ padded, padded ≠ [] ∧ List.Forall₂ Padded pieces padded ∧ [','].intercalate padded = inner
  trimmed : ∀ piece ∈ pieces, Trimmed piece
  wellFormed : ∀ piece ∈ pieces, piece.WellFormed
  uncut : ∀ piece ∈ pieces, ∀ seen ∈ scan piece 0, ¬ seen.Separates

theorem argumentsOf_arguments (h : inner.WellFormed) : ArgumentsOf inner (arguments inner) := by
  refine ⟨⟨cutFrom start inner, cutFrom_ne_nil _ _, ?_, intercalate_cutFrom _ _⟩, fun piece hp => ?_,
    fun piece hp => wellFormed_of_mem_arguments h hp, fun piece hp => ?_⟩
  · rw [arguments, List.forall₂_map_left_iff]
    exact List.forall₂_same.2 fun text _ => padded_trim text
  · obtain ⟨text, -, rfl⟩ := List.mem_map.1 hp
    exact trimmed_trim text
  · obtain ⟨text, ht, rfl⟩ := List.mem_map.1 hp
    exact (unseparated_iff_scanFrom start 0 _).1 ((padded_trim text).unseparated_iff.1 (unseparated_of_mem_cutFrom ht))

theorem ArgumentsOf.eq_arguments (h : ArgumentsOf inner pieces) : pieces = arguments inner := by
  obtain ⟨⟨padded, hne, hpad, rfl⟩, htrim, hwell, huncut⟩ := h
  have hpieces : pieces = padded.map trim := by
    have heq : List.Forall₂ Eq pieces (padded.map trim) :=
      List.forall₂_map_right_iff.2
        (((List.forall₂_and_left _ _).2 ⟨htrim, hpad⟩).imp fun piece text h => (h.2.trim_eq h.1).symm)
    rwa [List.forall₂_eq_eq_eq] at heq
  have hcut : ∀ text ∈ padded, text.WellFormed ∧ start.Unseparated text := by
    intro text ht
    have hmem : trim text ∈ pieces := by rw [hpieces]; exact List.mem_map_of_mem ht
    exact ⟨(padded_trim text).wellFormed (hwell _ hmem),
      (padded_trim text).unseparated_iff.2 ((unseparated_iff_scanFrom start 0 _).2 (huncut _ hmem))⟩
  rw [arguments, cutFrom_intercalate hne hcut, hpieces]

/-- **A well-formed text is cut into arguments in one way only.** -/
theorem argumentsOf_iff (h : inner.WellFormed) : ArgumentsOf inner pieces ↔ pieces = cutAtCommas inner := by
  rw [cutAtCommas_eq]
  refine ⟨fun hpieces => hpieces.eq_arguments, ?_⟩
  rintro rfl
  exact argumentsOf_arguments h

/-! ## Calls -/

/-- **A call whose arguments begin outside quotations** closes at the only parenthesis that can close it, and not at all
if there is none. What stands between its parentheses is cut into arguments in the only way that there is. Both are what
the joining of calls goes by. -/
theorem closing_arguments (text : Fragment) (first : Nat) (h : text.insideQuotes first = false) :
    (∀ index, closing? text first = some index ↔ ClosesAt text first index) ∧
    (∀ index index', ClosesAt text first index → ClosesAt text first index' → index = index') ∧
    (closing? text first = none ↔ ∀ index, ¬ ClosesAt text first index) ∧
    splitAtClose (text.drop first) =
      (closing? text first).map (fun index => (text.extract first index, text.drop (index + 1))) ∧
    ∀ index, closing? text first = some index →
      (∀ pieces, ArgumentsOf (text.extract first index) pieces ↔ pieces = cutAtCommas (text.extract first index)) ∧
      cutAtCommas (text.extract first index) = arguments (text.extract first index) := by
  have hiff (index : Nat) : closing? text first = some index ↔ ClosesAt text first index := closing?_eq_some_iff h
  refine ⟨hiff, fun index index' hcloses hcloses' => ?_, ?_, splitAtClose_drop text first, fun index hclosing => ?_⟩
  · have hfound := (hiff index).2 hcloses
    rw [(hiff index').2 hcloses'] at hfound
    exact (Option.some.inj hfound).symm
  · rw [Option.eq_none_iff_forall_ne_some]
    exact forall_congr' fun index => not_congr (hiff index)
  · have hwell := ((hiff index).1 hclosing).wellFormed
    exact ⟨fun pieces => argumentsOf_iff hwell, cutAtCommas_eq _⟩

/-- neither the quoted parenthesis nor that of the inner call closes, and neither the quoted comma nor its comma cuts -/
theorem closing_arguments_nested :
    insideQuotes "CONCAT(a, ',)' , F(b, c)) + d".toList 7 = false ∧
    ClosesAt "CONCAT(a, ',)' , F(b, c)) + d".toList 7 24 ∧
    ArgumentsOf "a, ',)' , F(b, c)".toList ["a".toList, "',)'".toList, "F(b, c)".toList] := by
  have hstart : insideQuotes "CONCAT(a, ',)' , F(b, c)) + d".toList 7 = false := by decide
  have hclosing : closing? "CONCAT(a, ',)' , F(b, c)) + d".toList 7 = some 24 := by decide
  obtain ⟨hiff, -, -, -, harguments⟩ := closing_arguments _ _ hstart
  refine ⟨hstart, (hiff 24).1 hclosing, ?_⟩
  have hpieces := ((harguments 24 hclosing).1 ["a".toList, "',)'".toList, "F(b, c)".toList]).2 (by decide)
  exact hpieces

end SqlDialects.Fragment
