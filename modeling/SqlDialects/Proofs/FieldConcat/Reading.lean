/-
What a reader notices when calls are joined: nothing, as long as the joiner itself is flat.

- `interchangeable_joinCalls`: the text and the joined text lead every reader to the same place. A call and its joined
  arguments are both neutral outside quotations, so only matching parentheses are lost, in malformed texts too.
- `quotedFrom_joinCalls`: the quoted characters are the same.
-/
import SqlDialects.Proofs.Call.Arguments
import SqlDialects.Proofs.FieldConcat.Induction

namespace SqlDialects.FieldConcat

open Text Fragment Cursor

variable {joiner text word inner after : Fragment}

theorem ClosedCall.neutral (h : ClosedCall text word inner after) {s : Cursor} (hs : s.quoting = .outside) :
    s.Neutral (word ++ '(' :: inner ++ [')']) := by
  have hword : s.Neutral word := neutral_of_flat hs (flat_of_isWord (h.spells.isWord isWord_callName))
  rw [List.append_assoc]
  exact hword.append (Neutral.parenthesized hs (h.wellFormed.neutral hs))

theorem ClosedCall.wellFormed_call (h : ClosedCall text word inner after) :
    WellFormed (word ++ '(' :: inner ++ [')']) :=
  wellFormed_of_neutral (s := start) rfl (h.neutral rfl)

theorem ClosedCall.quotedFrom_eq (h : ClosedCall text word inner after) :
    quotedFrom .outside (word ++ '(' :: inner ++ [')']) = quotedFrom .outside inner := by
  have hfront : Plain (word ++ ['(']) :=
    plain_append.2 ⟨(flat_of_isWord (h.spells.isWord isWord_callName)).plain, by decide⟩
  have hback : Plain [')'] := by decide
  calc quotedFrom .outside (word ++ '(' :: inner ++ [')'])
      = quotedFrom .outside ((word ++ ['(']) ++ (inner ++ [')'])) := by simp
    _ = quotedFrom .outside (inner ++ [')']) := by
        rw [quotedFrom_append, quotedFrom_plain_outside hfront, run_plain_outside hfront, List.nil_append]
    _ = quotedFrom .outside inner := by
        rw [quotedFrom_append, run_of_wellFormed h.wellFormed, quotedFrom_plain_outside hback, List.append_nil]

/-- **No reader notices that calls were joined.** -/
theorem interchangeable_joinCalls (hj : Flat joiner) (quoting : Quoting) (before : Option Char) (text : Fragment) :
    ∀ s : Cursor, s.quoting = quoting → s.Interchangeable text (joinCalls joiner quoting before text) := by
  induction quoting, before, text using joinCalls_induction with
  | nil quoting before => intro s _; rw [joinCalls_nil]; exact .refl s []
  | skip quoting before c rest hcall ih =>
    intro s hs
    rw [joinCalls_skip hcall]
    exact (ih (s.step c) (by rw [← hs]; rfl)).cons
  | unclosed before text body hcall hclose => intro s _; rw [joinCalls_unclosed hcall hclose]; exact .refl s text
  | closed before text body inner after hcall hclose iharguments ihafter =>
    intro s hs
    obtain ⟨word, hc⟩ := closedCall_of_callAt? hcall hclose
    have hneutral := hc.neutral hs
    rw [joinCalls_closed hcall hclose, hc.take_call, hc.text_eq,
      show word ++ '(' :: inner ++ ')' :: after = (word ++ '(' :: inner ++ [')']) ++ after by simp]
    refine Interchangeable.append (.of_neutral hneutral ?_) ?_
    · split
      · exact hneutral
      · -- each argument is well-formed, hence neutral, and so is what became of it
        refine neutral_intercalate (neutral_of_flat hs hj) fun piece hp => ?_
        obtain ⟨argument, ha, rfl⟩ := List.mem_map.1 hp
        have hwf := wellFormed_of_mem_arguments hc.wellFormed ha
        exact ((wellFormed_congr (iharguments argument ha start rfl)).1 hwf).neutral hs
    · rw [hneutral.back]; exact ihafter s hs

/-- what became of the arguments of a call -/
theorem wellFormed_of_mem_joined (hj : Flat joiner) (hinner : inner.WellFormed) {piece : Fragment}
    (hp : piece ∈ (arguments inner).map (joinCalls joiner .outside none)) : piece.WellFormed := by
  obtain ⟨argument, ha, rfl⟩ := List.mem_map.1 hp
  have hwf := wellFormed_of_mem_arguments hinner ha
  exact (wellFormed_congr (interchangeable_joinCalls hj _ _ _ start rfl)).1 hwf

theorem wellFormed_joined (hj : Flat joiner) (hinner : inner.WellFormed) :
    WellFormed (joiner.intercalate ((arguments inner).map (joinCalls joiner .outside none))) :=
  wellFormed_of_neutral (s := start) rfl (neutral_intercalate (neutral_of_flat rfl hj) fun _ hp =>
    (wellFormed_of_mem_joined hj hinner hp).neutral rfl)

/-- if joining keeps what is quoted of each argument, it keeps what is quoted between the parentheses -/
theorem quotedFrom_joined (hj : Flat joiner) (hinner : inner.WellFormed)
    (h : ∀ argument ∈ arguments inner,
      quotedFrom .outside (joinCalls joiner .outside none argument) = quotedFrom .outside argument) :
    quotedFrom .outside (joiner.intercalate ((arguments inner).map (joinCalls joiner .outside none))) =
      quotedFrom .outside inner := by
  have hclosed : ∀ piece ∈ (arguments inner).map (joinCalls joiner .outside none),
      Quoting.outside.run piece = .outside :=
    fun piece hp => run_of_wellFormed (wellFormed_of_mem_joined hj hinner hp)
  calc quotedFrom .outside (joiner.intercalate ((arguments inner).map (joinCalls joiner .outside none)))
      = ((arguments inner).map (joinCalls joiner .outside none)).flatMap (quotedFrom .outside) :=
        quotedFrom_intercalate hj.plain hclosed
    _ = (arguments inner).flatMap (quotedFrom .outside) := by
        rw [List.flatMap_map, List.flatMap_def, List.map_congr_left h, ← List.flatMap_def]
    _ = quotedFrom .outside inner := quotedFrom_arguments hinner

/-- **Joining calls keeps the quoted characters.** -/
theorem quotedFrom_joinCalls (hj : Flat joiner) (quoting : Quoting) (before : Option Char) (text : Fragment) :
    quotedFrom quoting (joinCalls joiner quoting before text) = quotedFrom quoting text := by
  induction quoting, before, text using joinCalls_induction with
  | nil quoting before => rw [joinCalls_nil]
  | skip quoting before c rest hcall ih => rw [joinCalls_skip hcall, quotedFrom, ih, quotedFrom]
  | unclosed before text body hcall hclose => rw [joinCalls_unclosed hcall hclose]
  | closed before text body inner after hcall hclose iharguments ihafter =>
    obtain ⟨word, hc⟩ := closedCall_of_callAt? hcall hclose
    have hcalled := run_of_wellFormed hc.wellFormed_call
    have hsplit : text = (word ++ '(' :: inner ++ [')']) ++ after := by rw [hc.text_eq]; simp
    rw [joinCalls_closed hcall hclose, hc.take_call, quotedFrom_append]
    conv => rhs; rw [hsplit, quotedFrom_append, hcalled, ← ihafter]
    split
    · rw [hcalled]
    · rw [run_of_wellFormed (wellFormed_joined hj hc.wellFormed), quotedFrom_joined hj hc.wellFormed iharguments,
        hc.quotedFrom_eq]

/-! ## The rule -/

theorem flat_joiner {operator : String} (h : Flat operator.toList) : Flat (FieldConcat.joiner operator) := by
  rw [FieldConcat.joiner, show ' ' :: operator.toList ++ [' '] = [' '] ++ operator.toList ++ [' '] by simp]
  exact flat_append.2 ⟨flat_append.2 ⟨by decide, h⟩, by decide⟩

theorem interchangeable_apply {needs : Capabilities} (hn : ∀ operator ∈ needs.concatOperator, Flat operator.toList)
    (sql : Fragment) {s : Cursor} (hs : s.quoting = .outside) : s.Interchangeable sql (apply needs sql) := by
  unfold apply
  split
  · exact .refl s sql
  · rename_i operator hoperator
    exact interchangeable_joinCalls (flat_joiner (hn operator hoperator)) .outside none sql s hs

theorem quotedText_apply {needs : Capabilities} (hn : ∀ operator ∈ needs.concatOperator, Flat operator.toList)
    (sql : Fragment) : quotedText (apply needs sql) = quotedText sql := by
  unfold apply
  split
  · rfl
  · rename_i operator hoperator
    exact quotedFrom_joinCalls (flat_joiner (hn operator hoperator)) .outside none sql

end SqlDialects.FieldConcat
