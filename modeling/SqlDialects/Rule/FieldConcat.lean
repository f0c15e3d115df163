/-
Concatenation of fields: `CONCAT(a, b)` as `a || b`, for dialects that have an operator in place of the function.

A call begins where the name stands on its own and outside quotations. Its arguments are treated in the same way, each
from a fresh start, and joined by the operator. A call without arguments stays as written. A call that no parenthesis
closes stays as written, and so does all text behind it.

- `joinCalls_skip`, `joinCalls_unclosed`, `joinCalls_empty`, `joinCalls_call`: what happens at each kind of position.
-/
import SqlDialects.Dialect.Basic
import SqlDialects.Fragment.Call
import SqlDialects.Text.Keyword
import SqlDialects.Text.Word

namespace SqlDialects.FieldConcat

open Text Fragment

/-- the opening of a call, in any case -/
def opening : Fragment := ['c', 'o', 'n', 'c', 'a', 't', '(']

theorem length_opening : opening.length = 7 := rfl

/-- the text behind the opening of a call, if one stands here -/
def callAt? (quoting : Quoting) (before : Option Char) (text : Fragment) : Option Fragment :=
  if quoting = .outside ∧ startsWord before = true then afterKeyword opening text else none

theorem afterKeyword_of_callAt? {quoting : Quoting} {before : Option Char} {text rest : Fragment}
    (h : callAt? quoting before text = some rest) : afterKeyword opening text = some rest := by
  unfold callAt? at h
  split at h
  · exact h
  · cases h

theorem length_of_callAt? {quoting : Quoting} {before : Option Char} {text rest : Fragment}
    (h : callAt? quoting before text = some rest) : text.length = opening.length + rest.length :=
  length_of_afterKeyword (afterKeyword_of_callAt? h)

theorem length_of_splitAtClose {text inner after : Fragment} (h : splitAtClose text = some (inner, after)) :
    text.length = inner.length + after.length + 1 := by
  rw [splitAtClose_append h]; simp [Nat.add_assoc]

/-- the text with its calls joined, read on from `quoting` and behind the character `before` -/
def joinCalls (joiner : Fragment) (quoting : Quoting) (before : Option Char) : Fragment → Fragment
  | [] => []
  | c :: rest =>
    match _hcall : callAt? quoting before (c :: rest) with
    | none => c :: joinCalls joiner (quoting.step c) (some c) rest
    | some body =>
      match _hclose : splitAtClose body with
      | none => c :: rest
      | some (inner, after) =>
        (if inner.all isBlank then (c :: rest).take (opening.length + inner.length + 1)
          else joiner.intercalate ((arguments inner).attach.map fun argument =>
            joinCalls joiner .outside none argument.val)) ++
          joinCalls joiner .outside (some ')') after
termination_by text => text.length
decreasing_by
  · simp
  · have h1 := length_of_callAt? _hcall
    have h2 := length_of_splitAtClose _hclose
    have h3 := length_le_of_mem_arguments argument.property
    simp only [List.length_cons] at h1 ⊢
    omega
  · have h1 := length_of_callAt? _hcall
    have h2 := length_of_splitAtClose _hclose
    simp only [List.length_cons] at h1 ⊢
    omega

/-! ## One position at a time -/

theorem joinCalls_nil (joiner : Fragment) (quoting : Quoting) (before : Option Char) :
    joinCalls joiner quoting before [] = [] := by
  rw [joinCalls]

theorem joinCalls_skip {joiner : Fragment} {quoting : Quoting} {before : Option Char} {c : Char} {rest : Fragment}
    (h : callAt? quoting before (c :: rest) = none) :
    joinCalls joiner quoting before (c :: rest) = c :: joinCalls joiner (quoting.step c) (some c) rest := by
  rw [joinCalls]
  split
  · rfl
  · rename_i hsome; rw [h] at hsome; cases hsome

theorem joinCalls_unclosed {joiner : Fragment} {quoting : Quoting} {before : Option Char} {text body : Fragment}
    (h : callAt? quoting before text = some body) (hopen : splitAtClose body = none) :
    joinCalls joiner quoting before text = text := by
  cases text with
  | nil => rw [joinCalls]
  | cons c rest =>
    rw [joinCalls]
    split
    · rename_i hnone; rw [h] at hnone; cases hnone
    · rename_i body' hsome
      cases Option.some.inj (h.symm.trans hsome)
      split
      · rfl
      · rename_i hclose; rw [hopen] at hclose; cases hclose

theorem joinCalls_closed {joiner : Fragment} {quoting : Quoting} {before : Option Char}
    {text body inner after : Fragment}
    (h : callAt? quoting before text = some body) (hclose : splitAtClose body = some (inner, after)) :
    joinCalls joiner quoting before text =
      (if inner.all isBlank then text.take (opening.length + inner.length + 1)
        else joiner.intercalate ((arguments inner).map (joinCalls joiner .outside none))) ++
        joinCalls joiner .outside (some ')') after := by
  cases text with
  | nil => have := length_of_callAt? h; simp [length_opening] at this; omega
  | cons c rest =>
    rw [joinCalls]
    split
    · rename_i hnone; rw [h] at hnone; cases hnone
    · rename_i body' hsome
      cases Option.some.inj (h.symm.trans hsome)
      split
      · rename_i hnone; rw [hclose] at hnone; cases hnone
      · rename_i inner' after' hsome'
        cases Option.some.inj (hclose.symm.trans hsome')
        rw [List.attach_map_val]

theorem joinCalls_empty {joiner : Fragment} {quoting : Quoting} {before : Option Char}
    {text body inner after : Fragment}
    (h : callAt? quoting before text = some body) (hclose : splitAtClose body = some (inner, after))
    (hblank : inner.all isBlank = true) :
    joinCalls joiner quoting before text =
      text.take (opening.length + inner.length + 1) ++ joinCalls joiner .outside (some ')') after := by
  rw [joinCalls_closed h hclose, if_pos hblank]

theorem joinCalls_call {joiner : Fragment} {quoting : Quoting} {before : Option Char}
    {text body inner after : Fragment}
    (h : callAt? quoting before text = some body) (hclose : splitAtClose body = some (inner, after))
    (hargs : inner.all isBlank = false) :
    joinCalls joiner quoting before text =
      joiner.intercalate ((arguments inner).map (joinCalls joiner .outside none)) ++
        joinCalls joiner .outside (some ')') after := by
  rw [joinCalls_closed h hclose, if_neg (by simp [hargs])]

/-! ## The rule -/

/-- the operator with a space on each side -/
def joiner (operator : String) : Fragment := ' ' :: operator.toList ++ [' ']

def apply (needs : Capabilities) (sql : Fragment) : Fragment :=
  match needs.concatOperator with
  | none => sql
  | some operator => joinCalls (joiner operator) .outside none sql

end SqlDialects.FieldConcat
