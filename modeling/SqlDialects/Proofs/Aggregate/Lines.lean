/-
Calls and lines. A call ends on the line it begins on, so where calls are found depends on the line breaks of the text.

- `findsOpenings_call`: a call is found where its opening stands and a parenthesis closes behind it on the same line.
- `Inline`: a replacement that touches neither the lines nor the parentheses that close brings no such place
  (`Inline.closesLater`).
- `noMatch_call_replaceAll`: so no call comes up when another function is renamed.
-/
import SqlDialects.Proofs.Aggregate.Calls
import SqlDialects.Proofs.Call.Openings

namespace SqlDialects.Aggregate

open Text Fragment

/-! ## Lines -/

/-- the text up to its first line break -/
def firstLine (text : Fragment) : Fragment := text.takeWhile (!isLineBreak ·)

/-- a parenthesis closes on the line, behind something -/
def ClosesLater (body : Fragment) : Prop := ')' ∈ (firstLine body).tail

/-- no line break -/
def OneLine (text : Fragment) : Prop := ∀ c ∈ text, isLineBreak c = false

instance (text : Fragment) : Decidable (OneLine text) :=
  decidable_of_iff (text.all (!isLineBreak ·) = true) (by simp [OneLine])

theorem firstLine_append {a : Fragment} (h : OneLine a) (b : Fragment) : firstLine (a ++ b) = a ++ firstLine b :=
  List.takeWhile_append_of_pos fun c hc => by rw [h c hc]; rfl

theorem mem_firstLine_cons {c d : Char} {rest : Fragment} :
    d ∈ firstLine (c :: rest) ↔ isLineBreak c = false ∧ (d = c ∨ d ∈ firstLine rest) := by
  unfold firstLine
  cases h : isLineBreak c <;> simp [h]

theorem closesLater_cons {c : Char} {rest : Fragment} :
    ClosesLater (c :: rest) ↔ isLineBreak c = false ∧ ')' ∈ firstLine rest := by
  unfold ClosesLater firstLine
  cases h : isLineBreak c <;> simp [h]

/-- a replacement that neither brings a parenthesis that closes nor touches the lines -/
structure Inline (pattern : Pattern) : Prop where
  covers : pattern.Covers
  matched : ∀ before text found, pattern before text = some found → OneLine found.matched
  replacement : ∀ before text found, pattern before text = some found → OneLine found.replacement
  close : ∀ before text found, pattern before text = some found → ')' ∈ found.replacement → ')' ∈ found.matched
  head : ∀ before text found, pattern before text = some found → found.matched.head? ≠ some ')'

variable {pattern : Pattern}

theorem Inline.mem_firstLine (hp : Inline pattern) (before : Option Char) (text : Fragment) :
    ')' ∈ firstLine (replaceFrom pattern before 0 text) → ')' ∈ firstLine text := by
  refine replaceFrom_induction hp.covers (motive := fun _ text out => ')' ∈ firstLine out → ')' ∈ firstLine text)
    ?nil ?keep ?replace before text
  case nil => intro _ h; exact h
  case keep =>
    intro _ c rest out _ ih h
    rw [mem_firstLine_cons] at h ⊢
    exact h.imp_right (Or.imp_right ih)
  case replace =>
    intro _ found rest out hfound ih h
    rw [firstLine_append (hp.replacement _ _ _ hfound)] at h
    rw [firstLine_append (hp.matched _ _ _ hfound)]
    rcases List.mem_append.1 h with h | h
    · exact List.mem_append_left _ (hp.close _ _ _ hfound h)
    · exact List.mem_append_right _ (ih h)

theorem Inline.closesLater (hp : Inline pattern) (before : Option Char) (text : Fragment)
    (h : ClosesLater (replaceFrom pattern before 0 text)) : ClosesLater text := by
  cases text with
  | nil => exact h
  | cons c rest =>
    cases hfound : pattern before (c :: rest) with
    | none =>
      rw [replaceFrom_of_none hfound, closesLater_cons] at h
      rw [closesLater_cons]
      exact h.imp_right (hp.mem_firstLine (some c) rest)
    | some found =>
      -- the first character is replaced, so it is not the parenthesis that closes
      have hmem := hp.mem_firstLine before (c :: rest) (List.mem_of_mem_tail h)
      rw [mem_firstLine_cons] at hmem
      rw [closesLater_cons]
      refine hmem.imp_right fun hor => hor.resolve_left ?_
      rintro rfl
      obtain ⟨hne, tail, htail⟩ := hp.covers _ _ _ hfound
      refine hp.head _ _ _ hfound ?_
      obtain ⟨d, matched, hmatched⟩ := List.exists_cons_of_ne_nil hne
      rw [hmatched, List.cons_append, List.cons.injEq] at htail
      rw [hmatched, htail.1, List.head?_cons]

theorem head_opening {word : Fragment} (hw : ∀ c ∈ word, isWord c = true) (rest : Fragment) :
    (word ++ '(' :: rest).head? ≠ some ')' := by
  cases word with
  | nil => simp
  | cons c word =>
    intro h
    have hc : c = ')' := Option.some.inj h
    exact absurd (hc ▸ hw c List.mem_cons_self) (by decide)

/-- renaming a function is such a replacement -/
theorem inline_of_renaming {function name : Fragment} {allowed : Option Char → Prop}
    (hp : pattern.Finds (Renaming function name allowed)) (hcov : pattern.Covers)
    (hf : ∀ k ∈ function, isWord k = true) (hflat : Flat name) (hline : OneLine name) : Inline pattern := by
  refine ⟨hcov, ?_, ?_, ?_, ?_⟩
  all_goals
    intro before text found hfound
    obtain ⟨rest, -, -, hw⟩ := (hp _ _ _).1 hfound
    rename_i word
  · intro c hc
    rcases List.mem_append.1 hc with hc | hc
    · exact isLineBreak_of_isWord (hw.isWord hf c hc)
    · rw [List.mem_singleton.1 hc]; decide
  · intro c hc
    rcases List.mem_append.1 hc with hc | hc
    · exact hline c hc
    · rw [List.mem_singleton.1 hc]; decide
  · intro h
    simp [hflat.close_not_mem] at h
  · exact head_opening (hw.isWord hf) []

/-! ## Where calls are found -/

theorem findsOpenings_call (needs : Capabilities) :
    FindsOpenings (call needs) callName (fun _ => True) ClosesLater := by
  intro before text
  rw [call, ne_eq, Option.map_eq_none_iff, ← ne_eq, Option.ne_none_iff_exists']
  refine ⟨?_, ?_⟩
  · rintro ⟨call, hcall⟩
    obtain ⟨rest, rfl, hone⟩ := callAt?_eq_some_iff.1 hcall
    obtain ⟨hw, hne, hbody, -⟩ := hone
    rename_i word body
    refine ⟨trivial, word, body ++ ')' :: rest, hw, by simp, ?_⟩
    obtain ⟨c, tail, rfl⟩ := List.exists_cons_of_ne_nil hne
    rw [List.cons_append, closesLater_cons]
    refine ⟨hbody c List.mem_cons_self, ?_⟩
    rw [firstLine_append fun d hd => hbody d (List.mem_cons_of_mem c hd)]
    refine List.mem_append_right _ (mem_firstLine_cons.2 ⟨by decide, Or.inl rfl⟩)
  · rintro ⟨-, word, body, hw, rfl, hcloses⟩
    cases body with
    | nil => cases hcloses
    | cons c rest =>
      obtain ⟨hc, hclose⟩ := closesLater_cons.1 hcloses
      obtain ⟨front, more, hline, hmore⟩ := exists_last_close hclose
      obtain ⟨tail, hrest, hchars, hbreak⟩ := takeWhile_eq_iff.1 hline
      have hlast : (more ++ tail).takeWhile (!isLineBreak ·) = more :=
        takeWhile_eq_iff.2 ⟨tail, rfl, fun d hd => hchars d (by simp [hd]), hbreak⟩
      have hbody : ∀ d ∈ c :: front, isLineBreak d = false := by
        intro d hd
        rcases List.mem_cons.1 hd with rfl | hd
        · exact hc
        · simpa using hchars d (List.mem_append_left _ hd)
      exact ⟨_, callAt?_eq_some_iff.2 ⟨more ++ tail, by simp [hrest],
        .mk hw (List.cons_ne_nil c front) hbody (by rw [hlast]; exact hmore)⟩⟩

/-- **None comes back when another function is renamed.** -/
theorem noMatch_call_replaceAll {needs : Capabilities} {function name : Fragment} {allowed : Option Char → Prop}
    (hp : pattern.Finds (Renaming function name allowed)) (hcov : pattern.Covers)
    (hf : ∀ k ∈ function, isWord k = true) (hflat : Flat name) (hline : OneLine name) (hapart : Apart callName name)
    {text : Fragment} (h : NoMatch (call needs) none text) : NoMatch (call needs) none (replaceAll pattern text) :=
  noMatch_replaceFrom hp hcov (findsOpenings_call needs) isWord_callName hflat.open_not_mem
    hapart ((inline_of_renaming hp hcov hf hflat hline).closesLater _) none text h

end SqlDialects.Aggregate
