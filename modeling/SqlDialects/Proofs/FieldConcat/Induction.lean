/-
Induction along the joining of calls.

- `callAt?_eq_some_iff`: a call is the name in some case and a parenthesis, where a word can begin outside quotations.
- `joinCalls_induction`: what holds of the empty text, behind a character that begins no call, of a text that begins
  with a call that stays open, and of one that begins with a closed call, given its arguments and the text behind it,
  holds of every text.
-/
import SqlDialects.Proofs.Call.Closing
import SqlDialects.Proofs.Text.Keyword
import SqlDialects.Rule.FieldConcat

namespace SqlDialects.FieldConcat

open Text Fragment

/-- the name of the function, without the parenthesis of `opening` -/
def callName : Fragment := ['c', 'o', 'n', 'c', 'a', 't']

theorem isWord_callName : ∀ k ∈ callName, isWord k = true := List.all_eq_true.1 (by decide)

theorem opening_eq : opening = callName ++ ['('] := rfl

theorem callAt?_eq_some_iff {quoting : Quoting} {before : Option Char} {text body : Fragment} :
    callAt? quoting before text = some body ↔
      quoting = .outside ∧ startsWord before = true ∧ ∃ word, Spells callName word ∧ text = word ++ '(' :: body := by
  unfold callAt?
  by_cases h : quoting = .outside ∧ startsWord before = true
  · rw [if_pos h, afterKeyword_eq_some_iff, opening_eq]
    refine ⟨?_, ?_⟩
    · intro hread
      obtain ⟨found, hf, rfl⟩ := hread
      obtain ⟨word, hw, rfl⟩ := spells_call.1 hf
      exact ⟨h.1, h.2, word, hw, by simp⟩
    · intro h
      obtain ⟨-, -, word, hw, rfl⟩ := h
      exact ⟨word ++ ['('], spells_call.2 ⟨word, hw, rfl⟩, by simp⟩
  · rw [if_neg h]
    refine ⟨?_, ?_⟩
    · intro hn; cases hn
    · intro hread
      obtain ⟨h1, h2, -⟩ := hread
      exact absurd ⟨h1, h2⟩ h

/-- a closed call: the name, its parentheses, and what is between them -/
structure ClosedCall (text word inner after : Fragment) : Prop where
  spells : Spells callName word
  wellFormed : inner.WellFormed
  text_eq : text = word ++ '(' :: inner ++ ')' :: after

theorem closedCall_of_callAt? {quoting : Quoting} {before : Option Char} {text body inner after : Fragment}
    (h : callAt? quoting before text = some body) (hclose : splitAtClose body = some (inner, after)) :
    ∃ word, ClosedCall text word inner after := by
  obtain ⟨-, -, word, hw, rfl⟩ := callAt?_eq_some_iff.1 h
  obtain ⟨rfl, hwf⟩ := splitAtClose_eq_some_iff.1 hclose
  exact ⟨word, hw, hwf, by simp⟩

namespace ClosedCall

variable {text word inner after : Fragment}

theorem length_word (h : ClosedCall text word inner after) : word.length = 6 := h.spells.length_eq

/-- the call as it is written, taken from the front of the text -/
theorem take_call (h : ClosedCall text word inner after) :
    text.take (opening.length + inner.length + 1) = word ++ '(' :: inner ++ [')'] := by
  have hlen : opening.length + inner.length + 1 = (word ++ '(' :: inner ++ [')']).length := by
    simp only [length_opening, List.length_append, List.length_cons, List.length_nil, h.length_word]; omega
  rw [hlen, h.text_eq, show word ++ '(' :: inner ++ ')' :: after = (word ++ '(' :: inner ++ [')']) ++ after by simp,
    List.take_left]

theorem length_argument_lt (h : ClosedCall text word inner after) {argument : Fragment}
    (ha : argument ∈ arguments inner) : argument.length < text.length := by
  have := length_le_of_mem_arguments ha
  rw [h.text_eq]
  simp only [List.length_append, List.length_cons]; omega

theorem length_after_lt (h : ClosedCall text word inner after) : after.length < text.length := by
  rw [h.text_eq]
  simp only [List.length_append, List.length_cons]; omega

end ClosedCall

/-- **Induction along the joining of calls.** -/
theorem joinCalls_induction {motive : Quoting → Option Char → Fragment → Prop}
    (nil : ∀ quoting before, motive quoting before [])
    (skip : ∀ quoting before c rest, callAt? quoting before (c :: rest) = none →
      motive (quoting.step c) (some c) rest → motive quoting before (c :: rest))
    (unclosed : ∀ before text body, callAt? .outside before text = some body → splitAtClose body = none →
      motive .outside before text)
    (closed : ∀ before text body inner after, callAt? .outside before text = some body →
      splitAtClose body = some (inner, after) → (∀ argument ∈ arguments inner, motive .outside none argument) →
      motive .outside (some ')') after → motive .outside before text)
    (quoting : Quoting) (before : Option Char) (text : Fragment) : motive quoting before text := by
  -- the arguments of a call are cut out and trimmed, so only their length tells that they are smaller
  induction hn : text.length using Nat.strongRecOn generalizing quoting before text with
  | ind n ih =>
    subst hn
    cases text with
    | nil => exact nil quoting before
    | cons c rest =>
      cases hcall : callAt? quoting before (c :: rest) with
      | none => exact skip quoting before c rest hcall (ih rest.length (by simp) _ _ rest rfl)
      | some body =>
        obtain rfl := (callAt?_eq_some_iff.1 hcall).1
        cases hclose : splitAtClose body with
        | none => exact unclosed before _ body hcall hclose
        | some parts =>
          obtain ⟨inner, after⟩ := parts
          obtain ⟨word, hc⟩ := closedCall_of_callAt? hcall hclose
          refine closed before _ body inner after hcall hclose (fun argument ha => ?_) ?_
          · exact ih _ (hc.length_argument_lt ha) _ _ argument rfl
          · exact ih _ hc.length_after_lt _ _ after rfl

/-! ## Where a call begins -/

/-- the character before matters only in that a word can begin behind it -/
theorem joinCalls_before {joiner : Fragment} {before : Option Char} (h : startsWord before = true) (quoting : Quoting)
    (text : Fragment) :
    joinCalls joiner quoting before text = joinCalls joiner quoting none text := by
  have hcall : callAt? quoting before text = callAt? quoting none text := by
    simp [callAt?, h, show startsWord none = true from rfl]
  cases text with
  | nil => rw [joinCalls_nil, joinCalls_nil]
  | cons c rest =>
    cases hc : callAt? quoting none (c :: rest) with
    | none => rw [joinCalls_skip hc, joinCalls_skip (hcall.trans hc)]
    | some body =>
      cases hclose : splitAtClose body with
      | none => rw [joinCalls_unclosed hc hclose, joinCalls_unclosed (hcall.trans hc) hclose]
      | some parts => rw [joinCalls_closed hc hclose, joinCalls_closed (hcall.trans hc) hclose]

/-! ## Where no call begins -/

theorem not_letter_of_not_word {c : Char} (h : isWord c = false) : sameLetter 'c' c = false := by
  cases hs : sameLetter 'c' c with
  | false => rfl
  | true => rw [isWord_of_sameLetter hs (by decide)] at h; cases h

/-- no call begins at a character that is no `c` -/
theorem joinCalls_sign {joiner : Fragment} {c : Char} (hc : sameLetter 'c' c = false) (quoting : Quoting)
    (before : Option Char) (rest : Fragment) :
    joinCalls joiner quoting before (c :: rest) = c :: joinCalls joiner (quoting.step c) (some c) rest := by
  apply joinCalls_skip
  simp [callAt?, opening, afterKeyword, hc]

theorem joinCalls_eq_self {joiner text : Fragment} (h : text.any (sameLetter 'c') = false) (quoting : Quoting)
    (before : Option Char) : joinCalls joiner quoting before text = text := by
  induction text generalizing quoting before with
  | nil => rw [joinCalls_nil]
  | cons c rest ih =>
    rw [List.any_cons, Bool.or_eq_false_iff] at h
    rw [joinCalls_sign h.1, ih h.2]

end SqlDialects.FieldConcat
