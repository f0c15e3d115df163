/-
Calls of the aggregate, and what becomes of them.

- `callAt?_eq_some_iff`: a call is found by its name in some case, and ends with the last parenthesis that closes on its
  line (`OneLineCall`).
- `callAt?_within`: a call that begins within another one ends with it; so what is asked of all calls of a text can be
  asked of one call after the other (`EachCall`).
- `adaptCall_eq_foldl`: a call is adapted by the edits that the dialect asks for, one after the other.
- `interchangeable_apply`: no reader notices the rule, whatever the calls hold.
-/
import SqlDialects.Proofs.Aggregate.Patterns

namespace SqlDialects.Aggregate

open Text Fragment Cursor

/-! ## The end of a call -/

/-- `text` stays on its line and closes with the last parenthesis there; `rest` stands behind it -/
structure ClosesLine (text rest : Fragment) : Prop where
  one_line : ∀ c ∈ text, isLineBreak c = false
  closed : text.getLast? = some ')'
  last : ')' ∉ rest.takeWhile (!isLineBreak ·)

/-- what follows a longer text that closes its line holds a parenthesis that closes -/
theorem ClosesLine.not_longer {text more rest : Fragment} (h : ClosesLine text (more ++ rest))
    (h' : ClosesLine (text ++ more) rest) : more = [] := by
  rcases List.eq_nil_or_concat more with hnil | ⟨front, c, hmore⟩
  · exact hnil
  · rw [List.concat_eq_append] at hmore
    -- the longer text adds something to the line, and that ends with a parenthesis as well
    have hclose : c = ')' := by
      have := h'.closed
      rw [hmore, ← List.append_assoc, List.getLast?_concat] at this
      exact Option.some.inj this
    have hline : ∀ d ∈ more, (!isLineBreak d) = true := by
      intro d hd
      rw [h'.one_line d (List.mem_append_right text hd)]; rfl
    refine absurd ?_ h.last
    rw [List.takeWhile_append_of_pos hline, hmore, hclose]
    simp

/-- of two texts that close their line at the front of one text, neither is longer -/
theorem ClosesLine.unique {a b rest rest' : Fragment} (ha : ClosesLine a rest) (hb : ClosesLine b rest')
    (h : a ++ rest = b ++ rest') : a = b := by
  rcases List.append_eq_append_iff.1 h with ⟨more, rfl, rfl⟩ | ⟨more, rfl, rfl⟩
  · rw [ha.not_longer hb, List.append_nil]
  · rw [hb.not_longer ha, List.append_nil]

theorem ClosesLine.suffix {front text rest : Fragment} (h : ClosesLine (front ++ text) rest) (hne : text ≠ []) :
    ClosesLine text rest := by
  refine ⟨fun c hc => h.one_line c (List.mem_append_right front hc), ?_, h.last⟩
  rw [← h.closed, List.getLast?_append, List.getLast?_eq_some_getLast hne]; rfl

theorem not_close_of_not_mem {text : Fragment} (h : ')' ∉ text) : ∀ c ∈ text.reverse, (c != ')') = true := by
  intro c hc
  rw [bne_iff_ne]
  rintro rfl
  exact h (List.mem_reverse.1 hc)

theorem throughLastClose_of_not_mem {text : Fragment} (h : ')' ∉ text) : throughLastClose text = [] := by
  rw [throughLastClose, ← List.append_nil text.reverse, List.dropWhile_append_of_pos (not_close_of_not_mem h)]
  rfl

theorem throughLastClose_append {front more : Fragment} (h : ')' ∉ more) :
    throughLastClose (front ++ ')' :: more) = front ++ [')'] := by
  rw [throughLastClose, List.reverse_append, List.reverse_cons, List.append_assoc,
    List.dropWhile_append_of_pos (not_close_of_not_mem h)]
  simp

theorem exists_last_close {text : Fragment} (h : ')' ∈ text) : ∃ front more, text = front ++ ')' :: more ∧ ')' ∉ more := by
  obtain ⟨more, front, htext, hmore⟩ := List.eq_append_cons_of_mem (List.mem_reverse.2 h)
  refine ⟨front.reverse, more.reverse, ?_, fun hc => hmore (List.mem_reverse.1 hc)⟩
  rw [← List.reverse_reverse text, htext]
  simp

/-! ## Calls -/

/-- a call that holds something, up to the last parenthesis that closes on its line -/
inductive OneLineCall : (call rest : Fragment) → Prop
  | mk {word body rest : Fragment} : Spells callName word → body ≠ [] → (∀ c ∈ body, isLineBreak c = false) →
      ')' ∉ rest.takeWhile (!isLineBreak ·) → OneLineCall (word ++ '(' :: body ++ [')']) rest

theorem isLineBreak_of_isWord {c : Char} (h : isWord c = true) : isLineBreak c = false := by
  cases hb : isLineBreak c with
  | false => rfl
  | true =>
    rw [isLineBreak, beq_iff_eq] at hb
    rw [hb] at h; exact absurd h (by decide)

theorem OneLineCall.closesLine {call rest : Fragment} (h : OneLineCall call rest) : ClosesLine call rest := by
  obtain ⟨hw, hne, hbody, hlast⟩ := h
  rename_i word body
  refine ⟨fun c hc => ?_, by rw [List.getLast?_concat], hlast⟩
  simp only [List.mem_append, List.mem_cons, List.not_mem_nil, or_false] at hc
  rcases hc with (hc | rfl | hc) | rfl
  · exact isLineBreak_of_isWord (hw.isWord isWord_callName c hc)
  · decide
  · exact hbody c hc
  · decide

theorem OneLineCall.ne_nil {call rest : Fragment} (h : OneLineCall call rest) : call ≠ [] := by
  obtain ⟨_, _, _, _⟩ := h
  simp

theorem take_opening {word rest : Fragment} (hw : Spells callName word) :
    (word ++ ['('] ++ rest).take opening.length = word ++ ['('] :=
  List.take_left' (by simp [hw.length_eq, opening_eq])

theorem oneLineCall_of_callAt? {text call : Fragment} (h : callAt? text = some call) :
    ∃ rest, text = call ++ rest ∧ OneLineCall call rest := by
  unfold callAt? at h
  split at h
  · cases h
  · rename_i rest hrest
    obtain ⟨found, hfound, rfl⟩ := afterKeyword_eq_some_iff.1 hrest
    rw [opening_eq] at hfound
    obtain ⟨word, hw, rfl⟩ := spells_call.1 hfound
    obtain ⟨tail, htail, hline, hbreak⟩ := takeWhile_eq_iff.1 (rfl : rest.takeWhile (!isLineBreak ·) = _)
    generalize rest.takeWhile (!isLineBreak ·) = line at *
    subst htail
    by_cases hclose : ')' ∈ line
    · obtain ⟨body, more, rfl, hmore⟩ := exists_last_close hclose
      simp only [throughLastClose_append hmore, take_opening hw] at h
      split at h
      · cases h
      · rename_i hlength
        cases h
        have hne : body ≠ [] := by rintro rfl; simp at hlength
        have hbody : ∀ c ∈ body, isLineBreak c = false := by
          intro c hc
          simpa using hline c (List.mem_append_left _ hc)
        have hlast : (more ++ tail).takeWhile (!isLineBreak ·) = more :=
          takeWhile_eq_iff.2 ⟨tail, rfl, fun c hc => hline c (by simp [hc]), hbreak⟩
        refine ⟨more ++ tail, by simp, ?_⟩
        rw [show word ++ ['('] ++ (body ++ [')']) = word ++ '(' :: body ++ [')'] by simp]
        exact .mk hw hne hbody (by rw [hlast]; exact hmore)
    · simp [throughLastClose_of_not_mem hclose] at h

theorem OneLineCall.callAt?_eq {call rest : Fragment} (h : OneLineCall call rest) : callAt? (call ++ rest) = some call := by
  obtain ⟨hw, hne, hbody, hlast⟩ := h
  rename_i word body
  have htext : word ++ '(' :: body ++ [')'] ++ rest = (word ++ ['(']) ++ (body ++ ')' :: rest) := by simp
  have hopening : afterKeyword opening ((word ++ ['(']) ++ (body ++ ')' :: rest)) = some (body ++ ')' :: rest) :=
    afterKeyword_eq_some_iff.2 ⟨_, by rw [opening_eq]; exact spells_call.2 ⟨word, hw, rfl⟩, rfl⟩
  have hbreaks : ∀ c ∈ body, (!isLineBreak c) = true := by
    intro c hc
    rw [hbody c hc]; rfl
  have hline : (body ++ ')' :: rest).takeWhile (!isLineBreak ·) =
      body ++ ')' :: rest.takeWhile (!isLineBreak ·) := by
    rw [List.takeWhile_append_of_pos hbreaks, List.takeWhile_cons_of_pos (by decide)]
  have hlength : ¬ (body ++ [')']).length ≤ 1 := by
    have := List.length_pos_iff.2 hne
    simp; omega
  rw [callAt?, htext, hopening]
  simp only [hline, throughLastClose_append hlast, if_neg hlength, take_opening hw]
  simp

theorem callAt?_eq_some_iff {text call : Fragment} :
    callAt? text = some call ↔ ∃ rest, text = call ++ rest ∧ OneLineCall call rest := by
  refine ⟨oneLineCall_of_callAt?, ?_⟩
  intro h
  obtain ⟨rest, rfl, h⟩ := h
  exact h.callAt?_eq

/-- a call that begins within another one ends with it -/
theorem callAt?_within {front tail rest call : Fragment} (hne : tail ≠ []) (h : OneLineCall (front ++ tail) rest)
    (hcall : callAt? (tail ++ rest) = some call) : call = tail := by
  obtain ⟨rest', htext, hcall⟩ := callAt?_eq_some_iff.1 hcall
  exact hcall.closesLine.unique (h.closesLine.suffix hne) htext.symm

/-! ## All calls of a text -/

/-- `P` holds of every call of the text and of what stands before it, also of calls that begin within others -/
def EachCall (P : Fragment → Fragment → Prop) (text : Fragment) : Prop :=
  ∀ front rest call, text = front ++ rest → callAt? rest = some call → P front call

theorem eachCall_nil (P : Fragment → Fragment → Prop) : EachCall P [] := by
  intro front rest call htext hcall
  obtain ⟨-, rfl⟩ := List.append_eq_nil_iff.1 htext.symm
  obtain ⟨rest, hnil, hone⟩ := callAt?_eq_some_iff.1 hcall
  exact absurd (List.append_eq_nil_iff.1 hnil.symm).1 hone.ne_nil

theorem eachCall_cons {P : Fragment → Fragment → Prop} {c : Char} {rest : Fragment} (h : callAt? (c :: rest) = none) :
    EachCall P (c :: rest) ↔ EachCall (fun front => P (c :: front)) rest := by
  refine ⟨?_, ?_⟩
  · intro hall front tail call htext hcall
    exact hall (c :: front) tail call (by rw [htext]; rfl) hcall
  · intro hall front tail call htext hcall
    cases front with
    | nil => rw [List.nil_append] at htext; rw [← htext, h] at hcall; cases hcall
    | cons d front =>
      rw [List.cons_append, List.cons.injEq] at htext
      obtain ⟨rfl, hrest⟩ := htext
      exact hall front tail call hrest hcall

/-- calls that begin within a call are told by that call, where `P` passes to what a text ends with -/
theorem eachCall_call {P : Fragment → Fragment → Prop} {call rest : Fragment} (h : OneLineCall call rest)
    (hpass : ∀ front tail, call = front ++ tail → P [] call → P front tail) :
    EachCall P (call ++ rest) ↔ P [] call ∧ EachCall (fun front => P (call ++ front)) rest := by
  refine ⟨?_, ?_⟩
  · intro hall
    refine ⟨hall [] _ call rfl (callAt?_eq_some_iff.2 ⟨rest, rfl, h⟩), fun front tail call' htext hcall' => ?_⟩
    exact hall (call ++ front) tail call' (by rw [htext, List.append_assoc]) hcall'
  · rintro ⟨hcall, hrest⟩ front tail call' htext hcall'
    rcases List.append_eq_append_iff.1 htext with ⟨middle, rfl, rfl⟩ | ⟨middle, rfl, rfl⟩
    · -- the other call begins behind this one
      exact hrest middle tail call' rfl hcall'
    · by_cases hne : middle = []
      · subst hne
        rw [List.append_nil] at hrest
        simpa using hrest [] rest call' rfl hcall'
      · -- it begins within this one and so ends with it
        rw [callAt?_within hne h hcall']
        exact hpass front middle rfl hcall

/-! ## The edits of a call -/

/-- the edits of a call that a dialect asks for, in order -/
def edits (needs : Capabilities) : List Pattern :=
  (if needs.inlineSeparator then [separatorPhrase] else []) ++
    (if needs.castAggregateArgs then [fieldBeforeComma] else []) ++
    needs.aggregateFunction.toList.map fun name => functionName name.toList

theorem adaptCall_eq_foldl (needs : Capabilities) (call : Fragment) :
    adaptCall needs call = (edits needs).foldl (fun call edit => replaceAll edit call) call := by
  unfold adaptCall edits
  cases needs.inlineSeparator <;> cases needs.castAggregateArgs <;> cases needs.aggregateFunction <;> rfl

/-- an edit rewrites separators, casts fields or renames the function -/
theorem mem_edits_cases {needs : Capabilities} {edit : Pattern} (h : edit ∈ edits needs) :
    edit = separatorPhrase ∨ edit = fieldBeforeComma ∨
      ∃ name ∈ needs.aggregateFunction, edit = functionName name.toList := by
  simp only [edits, List.mem_append, List.mem_map, Option.mem_toList] at h
  rcases h with (h | h) | ⟨name, hname, rfl⟩
  · split at h
    · exact Or.inl (List.mem_singleton.1 h)
    · cases h
  · split at h
    · exact Or.inr (Or.inl (List.mem_singleton.1 h))
    · cases h
  · exact Or.inr (Or.inr ⟨name, hname, rfl⟩)

/-- what an edit finds holds something, whatever the new name is -/
theorem covers_of_mem_edits {needs : Capabilities} {edit : Pattern} (h : edit ∈ edits needs) : edit.Covers := by
  rcases mem_edits_cases h with rfl | rfl | ⟨name, -, rfl⟩
  · exact gentle_separatorPhrase.covers
  · exact gentle_fieldBeforeComma.covers
  · refine (finds_functionName name.toList).covers fun before found next hrenaming => ?_
    obtain ⟨_, _⟩ := hrenaming
    simp

theorem gentle_of_mem_edits {needs : Capabilities} (hn : ∀ name ∈ needs.aggregateFunction, Flat name.toList)
    {edit : Pattern} (h : edit ∈ edits needs) : edit.Gentle := by
  rcases mem_edits_cases h with rfl | rfl | ⟨name, hname, rfl⟩
  · exact gentle_separatorPhrase
  · exact gentle_fieldBeforeComma
  · exact gentle_functionName (hn name hname)

theorem telling_of_mem_edits {needs : Capabilities}
    (ht : ∀ name ∈ needs.aggregateFunction, traces callName < traces name.toList) {edit : Pattern}
    (h : edit ∈ edits needs) : edit.Telling := by
  rcases mem_edits_cases h with rfl | rfl | ⟨name, hname, rfl⟩
  · exact telling_separatorPhrase
  · exact telling_fieldBeforeComma
  · exact telling_functionName (ht name hname)

theorem covers_call (needs : Capabilities) : (call needs).Covers := by
  intro before text found h
  obtain ⟨matched, hcall, rfl⟩ := Option.map_eq_some_iff.1 h
  obtain ⟨rest, rfl, hone⟩ := callAt?_eq_some_iff.1 hcall
  exact ⟨hone.ne_nil, List.prefix_append _ _⟩

/-- no edit looks at the character before -/
theorem edit_before {needs : Capabilities} {edit : Pattern} (h : edit ∈ edits needs) (before before' : Option Char)
    (text : Fragment) : edit before text = edit before' text := by
  rcases mem_edits_cases h with rfl | rfl | ⟨name, -, rfl⟩
  · rfl
  · rfl
  · rfl

theorem noMatch_before {needs : Capabilities} {edit : Pattern} (h : edit ∈ edits needs) {before before' : Option Char}
    {text : Fragment} : NoMatch edit before text ↔ NoMatch edit before' text :=
  noMatch_before_congr (edit_before h before before')

/-! ## What a reader notices -/

theorem interchangeable_edits {patterns : List Pattern} (hp : ∀ edit ∈ patterns, edit.Gentle) (call : Fragment)
    {s : Cursor} (hs : s.quoting.Proper) :
    s.Interchangeable call (patterns.foldl (fun call edit => replaceAll edit call) call) := by
  induction patterns generalizing call with
  | nil => exact .refl s call
  | cons edit patterns ih =>
    have hedit := (hp edit List.mem_cons_self).interchangeable_replaceAll call hs
    exact hedit.trans (ih (fun edit he => hp edit (List.mem_cons_of_mem _ he)) _)

/-- no reader notices that a call was adapted, where it begins inside a quotation as well -/
theorem interchangeable_adaptCall {needs : Capabilities} (hn : ∀ name ∈ needs.aggregateFunction, Flat name.toList)
    (call : Fragment) {s : Cursor} (hs : s.quoting.Proper) : s.Interchangeable call (adaptCall needs call) := by
  rw [adaptCall_eq_foldl]
  exact interchangeable_edits (fun _ he => gentle_of_mem_edits hn he) call hs

/-- **No reader notices that calls were adapted.** -/
theorem interchangeable_apply {needs : Capabilities} (hn : ∀ name ∈ needs.aggregateFunction, Flat name.toList)
    (sql : Fragment) {s : Cursor} (hs : s.quoting.Proper) : s.Interchangeable sql (apply needs sql) := by
  unfold apply
  split
  · refine interchangeable_replaceFrom (covers_call needs) (fun before text found h s hs => ?_) none sql s hs
    obtain ⟨matched, -, rfl⟩ := Option.map_eq_some_iff.1 h
    exact interchangeable_adaptCall hn matched hs
  · exact .refl s sql

end SqlDialects.Aggregate
