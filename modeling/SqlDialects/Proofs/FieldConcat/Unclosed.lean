/-
Calls that stay open. The first one ends the work of the rule: what stands in front of it is joined as if the text ended
there, and from its name on the text is kept. It is met only where the rule starts, never in an argument, since what
stands between the parentheses of a closed call is well-formed and so are the pieces it is cut into.

- `FirstUnclosed`: the first call of a text that stays open; `firstUnclosed_iff`: that is one in front of which all calls
  are closed.
- `Handed`: the arguments in which calls are joined, at any depth.
- `apply_unclosed`: what becomes of a text with such a call, for every operator, and that no argument has one.
-/
import SqlDialects.Proofs.FieldConcat.Repetition

namespace SqlDialects.FieldConcat

open Text Fragment

/-- a call stays open behind `front`, and none before it does -/
structure FirstUnclosed (text front body : Fragment) : Prop where
  call : CallBehind .outside none text front body
  unclosed : ¬ Closed body
  first : ∀ front' body', CallBehind .outside none text front' body' → ¬ Closed body' → front.length ≤ front'.length

/-- while calls are joined in `text`, they are joined in `argument`, which was cut out of a call of the text or out of a
call in one of its arguments -/
inductive Handed : (quoting : Quoting) → (before : Option Char) → (text argument : Fragment) → Prop where
  | skip {quoting : Quoting} {before : Option Char} {c : Char} {rest argument : Fragment} :
      callAt? quoting before (c :: rest) = none → Handed (quoting.step c) (some c) rest argument →
      Handed quoting before (c :: rest) argument
  | cut {quoting : Quoting} {before : Option Char} {text body inner after argument : Fragment} :
      callAt? quoting before text = some body → splitAtClose body = some (inner, after) → inner.all isBlank = false →
      argument ∈ arguments inner → Handed quoting before text argument
  | within {quoting : Quoting} {before : Option Char} {text body inner after outer argument : Fragment} :
      callAt? quoting before text = some body → splitAtClose body = some (inner, after) → inner.all isBlank = false →
      outer ∈ arguments inner → Handed .outside none outer argument → Handed quoting before text argument
  | behind {quoting : Quoting} {before : Option Char} {text body inner after argument : Fragment} :
      callAt? quoting before text = some body → splitAtClose body = some (inner, after) →
      Handed .outside (some ')') after argument → Handed quoting before text argument

variable {quoting : Quoting} {before : Option Char} {text front rest body argument : Fragment}

/-! ## The first call that stays open -/

theorem Closed.append (h : Closed body) (more : Fragment) : Closed (body ++ more) := by
  obtain ⟨inner, after, rfl, hwf⟩ := h
  exact ⟨inner, after ++ more, by simp, hwf⟩

/-- a call is closed in front of one that stays open, and not behind it -/
theorem Closed.of_append (h : Closed (front ++ rest)) (hcall : CallBehind .outside before (front ++ rest) front body)
    (hopen : ¬ Closed body) : Closed front := by
  obtain ⟨inner, after, htext, hwf⟩ := h
  rcases append_cases htext with hfront | hbehind
  · obtain ⟨tail, rfl, -⟩ := hfront
    exact ⟨inner, tail, rfl, hwf⟩
  · -- the call that stays open would stand in a well-formed text and close there
    obtain ⟨more, rfl, hmore⟩ := hbehind
    obtain ⟨hquote, hstart, word, hw, hcall⟩ := hcall
    have hrest : word ++ ['('] ++ body = more ++ ')' :: after := by
      rw [hmore, List.append_assoc, List.append_cancel_left_eq] at hcall
      rw [hcall, List.append_assoc]; rfl
    rcases append_cases hrest with hname | hinside
    · obtain ⟨tail, hname, -⟩ := hname
      have hmem : ')' ∈ word ++ ['('] := by rw [hname]; simp
      have hword := (flat_of_isWord (hw.isWord isWord_callName)).close_not_mem
      simp [hword] at hmem
    · obtain ⟨inside, rfl, rfl⟩ := hinside
      have hcall' : CallBehind .outside before (front ++ (word ++ ['('] ++ inside)) front inside :=
        ⟨hquote, hstart, word, hw, by simp⟩
      exact absurd ((closed_of_wellFormed hwf hcall').append _) hopen

/-- in front of the first call that stays open all calls are closed there -/
theorem FirstUnclosed.callsClosed (h : FirstUnclosed text front body) : CallsClosed .outside none front := by
  obtain ⟨⟨hquote, hstart, word, hw, rfl⟩, hopen, hfirst⟩ := h
  intro front' tail hcall
  have hlonger := hcall.append (word ++ '(' :: body)
  rw [← List.append_assoc] at hlonger
  obtain ⟨hquote', -, word', hw', rfl⟩ := hcall
  by_cases hclosed : Closed (tail ++ (word ++ '(' :: body))
  · have hopening : Quoting.outside.run (front' ++ (word' ++ ['('])) = .outside := by
      rw [Quoting.run_append, hquote', run_plain_outside]
      exact plain_append.2 ⟨(flat_of_isWord (hw'.isWord isWord_callName)).plain, by decide⟩
    have hsplit : front' ++ word' ++ '(' :: tail = front' ++ (word' ++ ['(']) ++ tail := by simp
    rw [hsplit, Quoting.run_append, hopening] at hquote
    rw [hsplit, lastOr_append, ← List.append_assoc, lastOr_concat] at hstart
    exact hclosed.of_append ⟨hquote, hstart, word, hw, by simp⟩ hopen
  · have hle := hfirst front' _ hlonger hclosed
    simp at hle

/-- **The first call that stays open** is one in front of which all calls are closed. -/
theorem firstUnclosed_iff : FirstUnclosed text front body ↔
    CallBehind .outside none text front body ∧ ¬ Closed body ∧ CallsClosed .outside none front := by
  refine ⟨fun h => ⟨h.call, h.unclosed, h.callsClosed⟩, ?_⟩
  rintro ⟨hcall, hopen, hclosed⟩
  refine ⟨hcall, hopen, fun front' body' hcall' hopen' => ?_⟩
  obtain ⟨hquote, hstart, word, hw, rfl⟩ := hcall
  rw [List.append_assoc] at hcall'
  rcases callBehind_append_cases hcall' with hfront | hbehind | hacross
  · obtain ⟨tail, hwithin, rfl⟩ := hfront
    exact absurd ((hclosed front' tail hwithin).append _) hopen'
  · obtain ⟨more, rfl, -⟩ := hbehind
    rw [List.length_append]; omega
  · -- no word begins where the name of a call goes on
    obtain ⟨start, ending, hne, rfl, -, hname⟩ := hacross
    rw [lastOr_append, not_startsWord_of_spells hname hne] at hstart; cases hstart

/-! ## The arguments -/

/-- in what is cut from between the parentheses of a closed call all calls are closed -/
theorem callsClosed_of_mem_arguments {inner : Fragment} (hinner : inner.WellFormed) (h : argument ∈ arguments inner) :
    CallsClosed .outside none argument :=
  fun _ _ hcall => closed_of_wellFormed (wellFormed_of_mem_arguments hinner h) hcall

/-- **No call of an argument stays open**, at any depth. -/
theorem Handed.callsClosed (h : Handed quoting before text argument) : CallsClosed .outside none argument := by
  induction h with
  | skip _ _ ih => exact ih
  | cut _ hclose _ hmem => exact callsClosed_of_mem_arguments (splitAtClose_eq_some_iff.1 hclose).2 hmem
  | within _ _ _ _ _ ih => exact ih
  | behind _ _ _ ih => exact ih

/-! ## The rule -/

/-- from a call that stays open on, a text is kept -/
theorem joinCalls_of_unclosed (joiner : Fragment) {word : Fragment} (hw : Spells callName word) (hopen : ¬ Closed body) :
    joinCalls joiner .outside none (word ++ '(' :: body) = word ++ '(' :: body :=
  joinCalls_unclosed (callAt?_eq_some_iff.2 ⟨rfl, rfl, word, hw, rfl⟩) (not_not.1 (mt closed_iff.2 hopen))

/-- **A call that stays open ends the work of the rule**, for every operator: what stands in front of the first such call
is joined as a text of its own, and the rest is kept. Such a call is met where the rule starts and nowhere else: in
every argument in which calls are joined, at any depth, each call has its closing parenthesis. -/
theorem apply_unclosed (needs : Capabilities) (sql : Fragment) :
    (∀ front body, FirstUnclosed sql front body → apply needs sql = apply needs front ++ sql.drop front.length) ∧
    ∀ argument, Handed .outside none sql argument → CallsClosed .outside none argument := by
  refine ⟨fun front body h => ?_, fun argument h => h.callsClosed⟩
  have hclosed := h.callsClosed
  obtain ⟨⟨hquote, hstart, word, hw, rfl⟩, hopen, -⟩ := h
  rw [List.append_assoc, List.drop_left]
  unfold apply
  cases needs.concatOperator with
  | none => rfl
  | some operator =>
    simp only
    rw [joinCalls_append _ _ _ _ _ hstart hquote hclosed, joinCalls_of_unclosed _ hw hopen]

/-- behind the call that stays open not even a closed one is joined -/
theorem apply_unclosed_nested :
    FirstUnclosed "CONCAT(a, CONCAT(b, 'x)')), CONCAT(c, CONCAT(d, e)".toList "CONCAT(a, CONCAT(b, 'x)')), ".toList
      "c, CONCAT(d, e)".toList ∧
    Handed .outside none "CONCAT(a, CONCAT(b, 'x)')), CONCAT(c, CONCAT(d, e)".toList "CONCAT(b, 'x)')".toList ∧
    apply Dialect.pgsql.capabilities "CONCAT(a, CONCAT(b, 'x)')), CONCAT(c, CONCAT(d, e)".toList =
      "a || b || 'x)', CONCAT(c, CONCAT(d, e)".toList ∧
    CallsClosed .outside none "CONCAT(b, 'x)')".toList := by
  have hfirst : FirstUnclosed "CONCAT(a, CONCAT(b, 'x)')), CONCAT(c, CONCAT(d, e)".toList
      "CONCAT(a, CONCAT(b, 'x)')), ".toList "c, CONCAT(d, e)".toList :=
    firstUnclosed_iff.2 ⟨⟨by decide, by decide, "CONCAT".toList, (spells_iff_toLower (by decide)).2 (by decide), rfl⟩,
      by decide, by decide⟩
  have hhanded : Handed .outside none "CONCAT(a, CONCAT(b, 'x)')), CONCAT(c, CONCAT(d, e)".toList
      "CONCAT(b, 'x)')".toList := by
    have hcall : callAt? .outside none "CONCAT(a, CONCAT(b, 'x)')), CONCAT(c, CONCAT(d, e)".toList =
        some "a, CONCAT(b, 'x)')), CONCAT(c, CONCAT(d, e)".toList := by decide
    have hclose : splitAtClose "a, CONCAT(b, 'x)')), CONCAT(c, CONCAT(d, e)".toList =
        some ("a, CONCAT(b, 'x)')".toList, ", CONCAT(c, CONCAT(d, e)".toList) := by decide
    exact .cut hcall hclose (by decide) (by decide)
  obtain ⟨hrest, harguments⟩ := apply_unclosed Dialect.pgsql.capabilities
    "CONCAT(a, CONCAT(b, 'x)')), CONCAT(c, CONCAT(d, e)".toList
  refine ⟨hfirst, hhanded, (hrest _ _ hfirst).trans ?_, harguments _ hhanded⟩
  cbv

end SqlDialects.FieldConcat
