/-
What is edited where null is replaced: the name of the function, where a word can begin.

- `finds_functionName`: what the pattern finds, by its shape.
- `interchangeable_apply`: no reader notices the rule.
- `telltale_apply`: the rule leaves what is quoted alone exactly if it finds nothing there.
- `advances_apply`: it leaves the text alone exactly if it finds nothing in it.
-/
import SqlDialects.Proofs.Call.Renaming
import SqlDialects.Proofs.Reading.Order
import SqlDialects.Rule.NullCoalesce

namespace SqlDialects.NullCoalesce

open Text Fragment Cursor

/-- the name of the function, without the parenthesis of `opening` -/
def callName : Fragment := ['i', 'f', 'n', 'u', 'l', 'l']

theorem isWord_callName : ∀ k ∈ callName, isWord k = true := List.all_eq_true.1 (by decide)

theorem opening_eq : opening = callName ++ ['('] := rfl

theorem finds_functionName (name : Fragment) :
    Pattern.Finds (functionName name) (Renaming callName name fun before => startsWord before = true) := by
  intro before text found
  by_cases hb : startsWord before = true
  · rw [functionName, if_pos hb, opening_eq]
    exact rename_eq_some_iff hb
  · rw [functionName, if_neg hb]
    refine ⟨?_, ?_⟩
    · intro h; cases h
    · intro h
      obtain ⟨rest, -, hfound⟩ := h
      obtain ⟨hstart, _⟩ := hfound
      exact absurd hstart hb

theorem gentle_functionName {name : Fragment} (h : Flat name) : (functionName name).Gentle :=
  (finds_functionName name).gentle fun _ _ _ hr => hr.gentle isWord_callName h

/-- **No reader notices that functions were renamed.** -/
theorem interchangeable_apply {needs : Capabilities} (hn : ∀ name ∈ needs.coalesceFunction, Flat name.toList)
    (sql : Fragment) {s : Cursor} (hs : s.quoting.Proper) : s.Interchangeable sql (apply needs sql) := by
  unfold apply
  split
  · exact .refl s sql
  · rename_i name hname
    exact (gentle_functionName (hn name hname)).interchangeable_replaceAll sql hs

theorem telling_functionName {name : Fragment} (h : traces callName < traces name) : (functionName name).Telling := by
  intro before text found hfound
  obtain ⟨rest, -, hr⟩ := (finds_functionName name before text found).1 hfound
  exact hr.traces_lt (by decide) h

/-- the rule leaves what is quoted alone exactly if no call of the function is quoted -/
theorem telltale_apply {needs : Capabilities} (hn : ∀ name ∈ needs.coalesceFunction, Flat name.toList)
    (ht : ∀ name ∈ needs.coalesceFunction, traces callName < traces name.toList) (sql : Fragment) :
    Telltale (∀ name ∈ needs.coalesceFunction, NoMatch (functionName name.toList) none (quotedText sql))
      (quotedText sql) (quotedText (apply needs sql)) := by
  unfold apply
  cases h : needs.coalesceFunction with
  | none => exact .refl (by intro name hname; cases hname) _
  | some name =>
    have hedit := (gentle_functionName (hn name h)).telltale (telling_functionName (ht name h)) none sql .outside trivial
    refine hedit.congr ⟨fun hno name' hname' => ?_, fun hall => hall name rfl⟩
    rw [← Option.mem_some_iff.1 hname']; exact hno

theorem advances_apply {needs : Capabilities} (hn : ∀ name ∈ needs.coalesceFunction, Flat name.toList)
    (ht : ∀ name ∈ needs.coalesceFunction, traces callName < traces name.toList) (sql : Fragment) :
    Advances (∀ name ∈ needs.coalesceFunction, NoMatch (functionName name.toList) none sql) sql (apply needs sql) := by
  unfold apply
  cases h : needs.coalesceFunction with
  | none => exact .refl (by intro name hname; cases hname) _
  | some name =>
    have hedit := (gentle_functionName (hn name h)).advances (telling_functionName (ht name h)) sql
    refine hedit.congr ⟨fun hno name' hname' => ?_, fun hall => hall name rfl⟩
    rw [← Option.mem_some_iff.1 hname']; exact hno

end SqlDialects.NullCoalesce
