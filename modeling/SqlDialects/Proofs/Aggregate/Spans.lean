/-
The rule, line by line and by positions. A line has at most one call: it runs from the first place where the opening
stands to the last parenthesis that closes, and there is one if something stands between the two.

- `span?_eq_some_iff`: where the call of a line stands.
- `call_line_iff`: the search finds a call at a place of a line exactly if the opening stands there and a parenthesis
  closes far enough behind it; so a line whose first opening begins no call has none.
- `replaceFrom_call_line`: what the search makes of one line, whatever the lines behind it are.
- `apply_lines`: the rule cuts a text at its line breaks, edits the call of each line and nothing else, and puts the
  lines together again.
-/
import SqlDialects.Dialect.Builtin
import SqlDialects.Proofs.Aggregate.Lines

namespace SqlDialects.Aggregate

open Text Fragment

/-! ## Positions -/

/-- the opening of a call stands at position `i` -/
def opensAt (line : Fragment) (i : Nat) : Bool := (afterKeyword opening (line.drop i)).isSome

/-- a parenthesis closes at position `j` -/
def closesAt (text : Fragment) (j : Nat) : Bool := text[j]? == some ')'

def firstOpening? (line : Fragment) : Option Nat := (List.range line.length).find? (opensAt line)

def lastClose? (line : Fragment) : Option Nat := (List.range line.length).reverse.find? (closesAt line)

/-- the first and the last position of the call of a line, if it holds something -/
def span? (line : Fragment) : Option (Nat × Nat) :=
  match firstOpening? line, lastClose? line with
  | some i, some j => if i + opening.length < j then some (i, j) else none
  | _, _ => none

/-- the line with its call edited as the dialect asks for, one edit on the result of the other -/
def adaptLine (needs : Capabilities) (line : Fragment) : Fragment :=
  match span? line with
  | none => line
  | some (i, j) =>
    line.take i ++ (edits needs).foldl (fun call edit => replaceAll edit call) ((line.take (j + 1)).drop i) ++
      line.drop (j + 1)

/-- from the first opening to the last parenthesis that closes, with something between them -/
structure IsSpan (line : Fragment) (i j : Nat) : Prop where
  opens : opensAt line i = true
  first : ∀ k < i, opensAt line k = false
  closes : closesAt line j = true
  last : ∀ k, j < k → closesAt line k = false
  holds : i + opening.length < j

variable {text line : Fragment} {i j : Nat}

theorem lt_of_opensAt (h : opensAt line i = true) : i < line.length := by
  obtain ⟨rest, hrest⟩ := Option.isSome_iff_exists.1 h
  have hlength := length_of_afterKeyword hrest
  rw [List.length_drop] at hlength
  have : opening.length = 13 := rfl
  omega

theorem closesAt_iff : closesAt text j = true ↔ text[j]? = some ')' := beq_iff_eq

theorem lt_of_closesAt (h : closesAt line j = true) : j < line.length :=
  (List.getElem?_eq_some_iff.1 (closesAt_iff.1 h)).1

theorem find?_reverse_range {p : Nat → Bool} {n j : Nat} :
    (List.range n).reverse.find? p = some j ↔ p j = true ∧ j < n ∧ ∀ k, j < k → k < n → p k = false := by
  induction n with
  | zero => simp
  | succ n ih =>
    rw [List.range_succ, List.reverse_append, List.reverse_singleton, List.singleton_append]
    by_cases hn : p n = true
    · rw [List.find?_cons_of_pos hn, Option.some.injEq]
      refine ⟨?_, ?_⟩
      · rintro rfl
        exact ⟨hn, by omega, fun k h1 h2 => by omega⟩
      · rintro ⟨-, hj, hlast⟩
        rcases Nat.lt_or_ge j n with hlt | hge
        · rw [hlast n hlt (by omega)] at hn; cases hn
        · omega
    · rw [List.find?_cons_of_neg hn, ih]
      refine and_congr_right fun hp => ⟨?_, ?_⟩
      · rintro ⟨hj, hlast⟩
        refine ⟨by omega, fun k h1 h2 => ?_⟩
        by_cases hk : k = n
        · rw [hk]; simpa using hn
        · exact hlast k h1 (by omega)
      · rintro ⟨hj, hlast⟩
        have hne : j ≠ n := by rintro rfl; exact hn hp
        exact ⟨by omega, fun k h1 h2 => hlast k h1 (by omega)⟩

theorem firstOpening?_eq_some_iff :
    firstOpening? line = some i ↔ opensAt line i = true ∧ ∀ k < i, opensAt line k = false := by
  rw [firstOpening?, List.find?_range_eq_some]
  simp only [List.mem_range, Bool.not_eq_true']
  exact ⟨fun h => ⟨h.1, h.2.2⟩, fun h => ⟨h.1, lt_of_opensAt h.1, h.2⟩⟩

theorem lastClose?_eq_some_iff :
    lastClose? line = some j ↔ closesAt line j = true ∧ ∀ k, j < k → closesAt line k = false := by
  rw [lastClose?, find?_reverse_range]
  refine and_congr_right fun hj => ⟨?_, fun h => ⟨lt_of_closesAt hj, fun k h1 _ => h k h1⟩⟩
  rintro ⟨-, hlast⟩ k hk
  rw [← Bool.not_eq_true]
  intro hclose
  rw [hlast k hk (lt_of_closesAt hclose)] at hclose; cases hclose

/-- **Where the call of a line stands.** -/
theorem span?_eq_some_iff : span? line = some (i, j) ↔ IsSpan line i j := by
  have hsome : span? line = some (i, j) ↔
      firstOpening? line = some i ∧ lastClose? line = some j ∧ i + opening.length < j := by
    unfold span?
    split
    · rename_i first last hfirst hlast
      simp only [hfirst, hlast, Option.some.injEq]
      split
      · simp only [Option.some.injEq, Prod.mk.injEq]; omega
      · simp only [reduceCtorEq, false_iff]; omega
    · rename_i hnone
      refine ⟨fun h => (by cases h), fun h => ?_⟩
      exact absurd h.2.1 (hnone i j h.1)
  rw [hsome, firstOpening?_eq_some_iff, lastClose?_eq_some_iff]
  exact ⟨fun ⟨⟨h1, h2⟩, ⟨h3, h4⟩, h5⟩ => ⟨h1, h2, h3, h4, h5⟩,
    fun h => ⟨⟨h.opens, h.first⟩, ⟨h.closes, h.last⟩, h.holds⟩⟩

/-- an opening stands at position `i`, and a parenthesis closes behind it and something more -/
def BeginsCall (line : Fragment) (i : Nat) : Prop :=
  opensAt line i = true ∧ ∃ j, i + opening.length < j ∧ closesAt line j = true

/-- a call that fails at the first opening of a line fails at all of them -/
theorem not_beginsCall_of_span?_eq_none (h : span? line = none) : ¬ BeginsCall line i := by
  rintro ⟨hi, j, hj, hclose⟩
  obtain ⟨first, hfirst⟩ : ∃ first, firstOpening? line = some first := by
    rw [← Option.isSome_iff_exists, firstOpening?, List.find?_isSome]
    exact ⟨i, List.mem_range.2 (lt_of_opensAt hi), hi⟩
  obtain ⟨last, hlast⟩ : ∃ last, lastClose? line = some last := by
    rw [← Option.isSome_iff_exists, lastClose?, List.find?_isSome]
    exact ⟨j, List.mem_reverse.2 (List.mem_range.2 (lt_of_closesAt hclose)), hclose⟩
  -- the first opening is not behind this one, and the last parenthesis not before that one
  have h1 : first ≤ i := by
    refine Nat.le_of_not_lt fun hlt => ?_
    rw [(firstOpening?_eq_some_iff.1 hfirst).2 i hlt] at hi; cases hi
  have h2 : j ≤ last := by
    refine Nat.le_of_not_lt fun hlt => ?_
    rw [(lastClose?_eq_some_iff.1 hlast).2 j hlt] at hclose; cases hclose
  simp [span?, hfirst, hlast, show first + opening.length < last by omega] at h

/-! ## The call of a line -/

/-- nothing follows a line but a line break and other lines -/
def EndsLine (rest : Fragment) : Prop := ∀ c, rest.head? = some c → isLineBreak c = true

variable {needs : Capabilities} {before : Option Char} {rest : Fragment}

theorem firstLine_of_endsLine (hline : OneLine line) (hrest : EndsLine rest) : firstLine (line ++ rest) = line := by
  have hstop : firstLine rest = [] := by
    cases rest with
    | nil => rfl
    | cons c rest => simp [firstLine, hrest c rfl]
  rw [firstLine_append hline, hstop, List.append_nil]

/-- an opening that begins on a line stands on it -/
theorem exists_body_of_opening (hrest : EndsLine rest) {word body : Fragment} (hw : Spells callName word)
    (h : line ++ rest = word ++ '(' :: body) : ∃ inner, line = word ++ '(' :: inner ∧ body = inner ++ rest := by
  rw [show word ++ '(' :: body = (word ++ ['(']) ++ body by simp] at h
  rcases List.append_eq_append_iff.1 h with ⟨more, hopening, hmore⟩ | ⟨inner, hline, hbody⟩
  · cases more with
    | nil => exact ⟨[], by simpa using hopening.symm, by simpa using hmore.symm⟩
    | cons c more =>
      -- the line break would be a part of the opening
      have hbreak : isLineBreak c = true := hrest c (by rw [hmore]; rfl)
      have hmem : c ∈ word ++ ['('] := by rw [hopening]; simp
      rcases List.mem_append.1 hmem with hc | hc
      · rw [isLineBreak_of_isWord (hw.isWord isWord_callName c hc)] at hbreak; cases hbreak
      · rw [List.mem_singleton.1 hc] at hbreak; exact absurd hbreak (by decide)
  · exact ⟨inner, by simpa using hline, hbody⟩

theorem opensAt_iff :
    opensAt line i = true ↔ ∃ word inner, Spells callName word ∧ line.drop i = word ++ '(' :: inner := by
  rw [opensAt, Option.isSome_iff_exists]
  refine ⟨?_, ?_⟩
  · rintro ⟨inner, h⟩
    obtain ⟨found, hfound, hline⟩ := afterKeyword_eq_some_iff.1 h
    rw [opening_eq] at hfound
    obtain ⟨word, hw, rfl⟩ := spells_call.1 hfound
    exact ⟨word, inner, hw, by simpa using hline⟩
  · rintro ⟨word, inner, hw, hline⟩
    exact ⟨inner, afterKeyword_eq_some_iff.2
      ⟨word ++ ['('], by rw [opening_eq]; exact spells_call.2 ⟨word, hw, rfl⟩, by simpa using hline⟩⟩

/-- behind the opening, positions are counted from its parenthesis on -/
theorem getElem?_behind {word inner : Fragment} (hw : Spells callName word) (h : text.drop i = word ++ '(' :: inner)
    (k : Nat) : text[i + opening.length + k]? = inner[k]? := by
  have hlength : (word ++ ['(']).length = opening.length := by simp [hw.length_eq, opening_eq]
  calc text[i + opening.length + k]?
      = (text.drop i)[opening.length + k]? := by rw [List.getElem?_drop, Nat.add_assoc]
    _ = ((word ++ ['(']) ++ inner)[(word ++ ['(']).length + k]? := by rw [h, hlength]; simp
    _ = inner[k]? := by rw [List.getElem?_append_right (Nat.le_add_right _ _), Nat.add_sub_cancel_left]

/-- **Where the search finds a call** on a line: at an opening, if a parenthesis closes far enough behind it. -/
theorem call_line_iff (needs : Capabilities) (before : Option Char) (hline : OneLine line) (hrest : EndsLine rest) :
    call needs before (line.drop i ++ rest) ≠ none ↔ BeginsCall line i := by
  have hdrop : OneLine (line.drop i) := fun c hc => hline c (List.mem_of_mem_drop hc)
  rw [findsOpenings_call needs before, BeginsCall, opensAt_iff]
  refine ⟨?_, ?_⟩
  · rintro ⟨-, word, body, hw, htext, hcloses⟩
    obtain ⟨inner, hinner, rfl⟩ := exists_body_of_opening hrest hw htext
    have hone : OneLine inner := fun c hc => hdrop c (by rw [hinner]; simp [hc])
    rw [ClosesLater, firstLine_of_endsLine hone hrest] at hcloses
    obtain ⟨k, hk⟩ := List.mem_iff_getElem?.1 hcloses
    rw [List.getElem?_tail, ← getElem?_behind hw hinner] at hk
    exact ⟨⟨word, inner, hw, hinner⟩, _, by omega, closesAt_iff.2 hk⟩
  · rintro ⟨⟨word, inner, hw, hinner⟩, j, hj, hclose⟩
    have hone : OneLine inner := fun c hc => hdrop c (by rw [hinner]; simp [hc])
    obtain ⟨k, rfl⟩ := Nat.exists_eq_add_of_lt hj
    refine ⟨trivial, word, inner ++ rest, hw, by simp [hinner], ?_⟩
    rw [ClosesLater, firstLine_of_endsLine hone hrest]
    rw [closesAt_iff, Nat.add_assoc, getElem?_behind hw hinner, ← List.getElem?_tail] at hclose
    exact List.mem_of_getElem? hclose

/-- a text cut at one of its positions -/
theorem exists_append_of_getElem? {k : Nat} {c : Char} (h : text[k]? = some c) :
    ∃ front back, text = front ++ c :: back ∧ front.length = k := by
  obtain ⟨hk, hchar⟩ := List.getElem?_eq_some_iff.1 h
  refine ⟨text.take k, text.drop (k + 1), ?_, by rw [List.length_take]; omega⟩
  rw [← hchar, ← List.drop_eq_getElem_cons hk, List.take_append_drop]

namespace IsSpan

variable (h : IsSpan line i j)

include h

/-- the text from the first opening of a line to its last parenthesis is a call -/
theorem callAt?_eq (hline : OneLine line) (hrest : EndsLine rest) :
    callAt? (line.drop i ++ rest) = some ((line.take (j + 1)).drop i) := by
  obtain ⟨word, inner, hw, hinner⟩ := opensAt_iff.1 h.opens
  obtain ⟨k, rfl⟩ := Nat.exists_eq_add_of_lt h.holds
  have hclose := closesAt_iff.1 h.closes
  rw [Nat.add_assoc, getElem?_behind hw hinner] at hclose
  have hone : OneLine inner := fun c hc => hline c (List.mem_of_mem_drop (by rw [hinner]; simp [hc]))
  -- the parenthesis that closes cuts what stands behind the opening into the body and the rest of the line
  obtain ⟨body, back, hsplit, hbody⟩ := exists_append_of_getElem? hclose
  have hdrop : line.drop i = (word ++ '(' :: body ++ [')']) ++ back := by rw [hinner, hsplit]; simp
  have hcall : (line.take (i + opening.length + k + 1 + 1)).drop i = word ++ '(' :: body ++ [')'] := by
    rw [List.drop_take, hdrop]
    refine List.take_left' ?_
    have hlength : opening.length = callName.length + 1 := rfl
    simp only [List.length_append, List.length_cons, List.length_nil, hw.length_eq, hbody]; omega
  have hback : ')' ∉ back := by
    intro hmem
    obtain ⟨m, hm⟩ := List.mem_iff_getElem?.1 hmem
    have hlast := h.last (i + opening.length + (k + 1 + (m + 1))) (by omega)
    rw [← Bool.not_eq_true, closesAt_iff, getElem?_behind hw hinner, hsplit] at hlast
    refine hlast ?_
    rw [List.getElem?_append_right (by omega), hbody, Nat.add_sub_cancel_left, List.getElem?_cons_succ, hm]
  have honeBack : OneLine back := fun c hc => hone c (by rw [hsplit]; simp [hc])
  rw [callAt?_eq_some_iff, hcall, hdrop]
  refine ⟨back ++ rest, by simp, .mk hw ?_ (fun c hc => hone c (by rw [hsplit]; simp [hc])) ?_⟩
  · intro hnil
    rw [hnil] at hbody; cases hbody
  · show ')' ∉ firstLine (back ++ rest)
    rw [firstLine_of_endsLine honeBack hrest]
    exact hback

theorem not_beginsCall_front {k : Nat} (hk : k < i) : ¬ BeginsCall line k := by
  intro hbegins
  obtain ⟨hopens, -⟩ := hbegins
  rw [h.first k hk] at hopens; cases hopens

theorem not_beginsCall_back {k : Nat} (hk : j < k) : ¬ BeginsCall line k := by
  intro hbegins
  obtain ⟨-, m, hm, hcloses⟩ := hbegins
  rw [h.last m (by omega)] at hcloses; cases hcloses

/-- a line is cut into what stands before its call, the call and what stands behind it -/
theorem line_eq : line = line.take i ++ (line.take (j + 1)).drop i ++ line.drop (j + 1) := by
  have hij : i ≤ j + 1 := by
    have := h.holds
    omega
  have hfront : (line.take (j + 1)).take i = line.take i := by rw [List.take_take, Nat.min_eq_left hij]
  rw [← hfront, List.take_append_drop, List.take_append_drop]

theorem drop_eq : line.drop i = (line.take (j + 1)).drop i ++ line.drop (j + 1) := by
  have hi := lt_of_opensAt h.opens
  conv => lhs; rw [h.line_eq]
  rw [List.append_assoc, List.drop_left' (by rw [List.length_take]; omega)]

/-- what the search finds where the call stands -/
theorem call_eq (needs : Capabilities) (hline : OneLine line) (hrest : EndsLine rest) :
    call needs none ((line.take (j + 1)).drop i ++ (line.drop (j + 1) ++ rest)) =
      some ⟨(line.take (j + 1)).drop i, adaptCall needs ((line.take (j + 1)).drop i)⟩ := by
  rw [call, ← List.append_assoc, ← h.drop_eq, h.callAt?_eq hline hrest]; rfl

end IsSpan

/-! ## One line after the other -/

/-- a part of a line in which no call begins is kept -/
theorem replaceFrom_call_kept (needs : Capabilities) (before : Option Char) (front part back : Fragment)
    (hsplit : line = front ++ part ++ back) (hline : OneLine line) (hrest : EndsLine rest)
    (h : ∀ i, front.length ≤ i → i < front.length + part.length → ¬ BeginsCall line i) :
    replaceFrom (call needs) before 0 (part ++ (back ++ rest)) = part ++ replaceAll (call needs) (back ++ rest) := by
  rw [replaceFrom_kept, replaceFrom_eq_replaceAll fun _ _ => rfl]
  intro before c tail hsuffix
  obtain ⟨skipped, rfl⟩ := hsuffix
  have hdrop : line.drop (front ++ skipped).length = c :: (tail ++ back) := by
    rw [hsplit, show front ++ (skipped ++ c :: tail) ++ back = (front ++ skipped) ++ (c :: (tail ++ back)) by simp,
      List.drop_left]
  cases hcall : call needs before (c :: (tail ++ (back ++ rest))) with
  | none => rfl
  | some found =>
    refine absurd ((call_line_iff needs before hline hrest).1 ?_) (h (front ++ skipped).length (by simp) (by simp))
    rw [hdrop, List.cons_append, List.append_assoc, hcall]
    exact Option.some_ne_none found

/-- **One line**: its call is edited, and the search goes on with the lines behind it. -/
theorem replaceFrom_call_line (needs : Capabilities) (before : Option Char) (hline : OneLine line)
    (hrest : EndsLine rest) :
    replaceFrom (call needs) before 0 (line ++ rest) = adaptLine needs line ++ replaceAll (call needs) rest := by
  unfold adaptLine
  split
  · rename_i hspan
    exact replaceFrom_call_kept needs before [] line [] (by simp) hline hrest
      fun _ _ _ => not_beginsCall_of_span?_eq_none hspan
  · rename_i i j hspan
    have h := span?_eq_some_iff.1 hspan
    have hclose := lt_of_closesAt h.closes
    have hfront := replaceFrom_call_kept needs before [] (line.take i) (line.drop i) (by simp) hline hrest
      fun k _ hk => h.not_beginsCall_front (by simp at hk; omega)
    have hback (before : Option Char) := replaceFrom_call_kept needs before (line.take (j + 1)) (line.drop (j + 1)) []
      (by simp) hline hrest fun k hk _ => h.not_beginsCall_back (by simp at hk; omega)
    have hmatch := @replaceFrom_match (call needs) (covers_call needs) none ⟨_, _⟩ _ (h.call_eq needs hline hrest)
    calc replaceFrom (call needs) before 0 (line ++ rest)
        = replaceFrom (call needs) before 0 (line.take i ++ (line.drop i ++ rest)) := by
          rw [← List.append_assoc, List.take_append_drop]
      _ = line.take i ++ replaceAll (call needs) ((line.take (j + 1)).drop i ++ (line.drop (j + 1) ++ rest)) := by
          rw [hfront, h.drop_eq, List.append_assoc]
      _ = line.take i ++ (adaptCall needs ((line.take (j + 1)).drop i) ++
            (line.drop (j + 1) ++ replaceAll (call needs) rest)) := by
          rw [replaceAll, hmatch]
          exact congrArg _ (congrArg _ (hback _))
      _ = line.take i ++ (edits needs).foldl (fun call edit => replaceAll edit call) ((line.take (j + 1)).drop i) ++
            line.drop (j + 1) ++ replaceAll (call needs) rest := by
          rw [adaptCall_eq_foldl]; simp only [List.append_assoc]

theorem replaceFrom_call_lines (needs : Capabilities) (before : Option Char) (lines : List Fragment)
    (hlines : ∀ line ∈ lines, OneLine line) :
    replaceFrom (call needs) before 0 (['\n'].intercalate lines) = ['\n'].intercalate (lines.map (adaptLine needs)) := by
  induction lines generalizing before with
  | nil => rfl
  | cons line lines ih =>
    obtain ⟨hline, hrest⟩ := List.forall_mem_cons.1 hlines
    cases lines with
    | nil =>
      have hend : EndsLine [] := by intro c hc; cases hc
      have hone := replaceFrom_call_line needs before hline hend
      rw [List.map_singleton, List.intercalate_singleton, List.intercalate_singleton]
      simpa [replaceAll, replaceFrom] using hone
    | cons next lines =>
      have hbreak : EndsLine ('\n' :: ['\n'].intercalate (next :: lines)) := by
        intro c hc
        simp only [List.head?_cons, Option.some.injEq] at hc
        rw [← hc]; rfl
      have hnone : call needs none ('\n' :: ['\n'].intercalate (next :: lines)) = none := rfl
      rw [List.intercalate_cons_cons, List.map_cons, List.map_cons, List.intercalate_cons_cons, List.append_assoc,
        List.singleton_append, replaceFrom_call_line needs before hline hbreak, replaceAll, replaceFrom_of_none hnone,
        ih (some '\n') hrest, List.map_cons]
      simp

theorem oneLine_of_mem_splitOn {text line : Fragment} (h : line ∈ text.splitOn '\n') : OneLine line := by
  induction text generalizing line with
  | nil => rw [List.mem_singleton.1 h]; intro c hc; cases hc
  | cons c text ih =>
    rw [List.splitOn_cons_eq_if_modifyHead] at h
    split at h
    · rcases List.mem_cons.1 h with rfl | h
      · intro c hc; cases hc
      · exact ih h
    · rename_i hc
      obtain ⟨first, others, hsplit⟩ := List.exists_cons_of_ne_nil (List.splitOn_ne_nil '\n' text)
      rw [hsplit] at h ih
      rcases List.mem_cons.1 h with rfl | h
      · exact List.forall_mem_cons.2 ⟨by simpa [isLineBreak] using hc, ih List.mem_cons_self⟩
      · exact ih (List.mem_cons_of_mem first h)

/-- **The rule works line by line, on one call a line.** The text is cut at its line breaks; on each line the edits that
the dialect asks for are made, one on the result of the other, of what stands from the first opening to the last
parenthesis that closes, if something is between the two, and of nothing else. An edit replaces what it finds, from left
to right, and leaves the rest; the edits are told by what they find and what they put in its place. -/
theorem apply_lines (needs : Capabilities) (sql : Fragment) :
    (apply needs sql =
      if active needs then ['\n'].intercalate ((sql.splitOn '\n').map (adaptLine needs)) else sql) ∧
    (∀ line i j, span? line = some (i, j) ↔ IsSpan line i j) ∧
    (∀ edit ∈ edits needs, ∀ text out, replaceAll edit text = out ↔ Substituted edit none text out) ∧
    separatorPhrase.Finds SeparatorPhrase ∧ fieldBeforeComma.Finds FieldBeforeComma ∧
    ∀ name, (functionName name).Finds (Renaming callName name fun _ => True) := by
  refine ⟨?_, fun _ _ _ => span?_eq_some_iff, fun edit he _ _ => replaceFrom_eq_iff (covers_of_mem_edits he),
    finds_separatorPhrase, finds_fieldBeforeComma, finds_functionName⟩
  unfold apply
  split
  · have hlines := replaceFrom_call_lines needs none (sql.splitOn '\n') fun line h => oneLine_of_mem_splitOn h
    rwa [List.intercalate_splitOn] at hlines
  · rfl

/-- the call takes in what stands between it and the last parenthesis of its line; the line behind it has no call -/
theorem apply_lines_two :
    IsSpan "a), group_concat(n Separator ';'), f(b) c".toList 4 38 ∧
    Substituted separatorPhrase none "group_concat(n Separator ';'), f(b)".toList
      "group_concat(n, ';'), f(b)".toList ∧
    Substituted fieldBeforeComma none "group_concat(n, ';'), f(b)".toList
      "group_concat(n::VARCHAR, ';'), f(b)".toList ∧
    apply Dialect.pgsql.capabilities "a), group_concat(n Separator ';'), f(b) c\ngroup_concat(n".toList =
      "a), string_agg(n::VARCHAR, ';'), f(b) c\ngroup_concat(n".toList := by
  obtain ⟨happly, hspan, hedits, -⟩ := apply_lines Dialect.pgsql.capabilities
    "a), group_concat(n Separator ';'), f(b) c\ngroup_concat(n".toList
  have hseparator : separatorPhrase ∈ edits Dialect.pgsql.capabilities := List.mem_cons_self
  have hfield : fieldBeforeComma ∈ edits Dialect.pgsql.capabilities := List.mem_cons_of_mem _ List.mem_cons_self
  refine ⟨(hspan _ _ _).1 (by decide), (hedits _ hseparator _ _).1 (by decide), (hedits _ hfield _ _).1 (by decide), ?_⟩
  rw [happly]
  decide

/-- a call that holds nothing does not end where it could: it runs on to the last parenthesis of the line -/
example : span? "a), group_concat(), f(b) c".toList = some (4, 23) := by decide

end SqlDialects.Aggregate
