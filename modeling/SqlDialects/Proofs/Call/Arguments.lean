/-
The arguments of a call: the pieces between its commas.

- `Cursor.Unseparated`: a reader meets no comma that separates arguments.
- `cutFrom_unseparated`, `cutFrom_comma`: a text without such a comma is one piece; a comma ends a piece.
- `intercalate_cutFrom`: the pieces with commas between them are the text.
- `unseparated_of_mem_cutFrom`: no piece holds such a comma; `cutFrom_intercalate`: so the pieces are found again.
- `Padded`: a piece with blanks around it, which change nothing but where it begins.
- `wellFormed_of_mem_arguments`: the arguments of a well-formed text are well-formed.
- `neutral_intercalate`: neutral texts stay so with anything neutral between them.
- `quotedFrom_arguments`: what is quoted between the parentheses is what is quoted in the arguments.
-/
import SqlDialects.Proofs.Reading.Quoted
import SqlDialects.Proofs.Text.Blank

namespace SqlDialects

open Text

namespace Cursor

open Fragment

/-- no character of the text, read from `s`, separates two arguments -/
def Unseparated (s : Cursor) : Fragment → Prop
  | [] => True
  | c :: rest => ¬ s.Separates c ∧ Unseparated (s.step c) rest

theorem unseparated_append {s : Cursor} {first second : Fragment} (h1 : s.Unseparated first)
    (h2 : (s.run first).Unseparated second) : s.Unseparated (first ++ second) := by
  induction first generalizing s with
  | nil => exact h2
  | cons c rest ih => exact ⟨h1.1, ih h1.2 h2⟩

theorem unseparated_of_append {s : Cursor} {first second : Fragment} (h : s.Unseparated (first ++ second)) :
    s.Unseparated first ∧ (s.run first).Unseparated second := by
  induction first generalizing s with
  | nil => exact ⟨trivial, h⟩
  | cons c rest ih => exact ⟨⟨h.1, (ih h.2).1⟩, (ih h.2).2⟩

/-- inside parentheses no comma separates -/
theorem unseparated_of_lowest_pos {s : Cursor} {text : Fragment} (h : 0 < s.lowest text) : s.Unseparated text := by
  induction text generalizing s with
  | nil => trivial
  | cons c rest ih =>
    rw [lowest_cons] at h
    refine ⟨?_, ih (by omega)⟩
    intro h
    obtain ⟨-, -, hd⟩ := h
    omega

theorem unseparated_of_not_mem {s : Cursor} {text : Fragment} (h : ',' ∉ text) : s.Unseparated text := by
  induction text generalizing s with
  | nil => trivial
  | cons c rest ih =>
    simp only [List.mem_cons, not_or] at h
    exact ⟨fun hs => h.1 hs.2.1.symm, ih h.2⟩

end Cursor

namespace Fragment

open Cursor

/-! ## Pieces between commas -/

theorem cutFrom_unseparated {s : Cursor} {piece : Fragment} (h : s.Unseparated piece) : cutFrom s piece = [piece] := by
  induction piece generalizing s with
  | nil => rfl
  | cons c rest ih => rw [cutFrom, if_neg h.1, ih h.2, extendFirst]

theorem cutFrom_comma {s : Cursor} {piece rest : Fragment} {c : Char} (h : s.Unseparated piece)
    (hc : (s.run piece).Separates c) : cutFrom s (piece ++ c :: rest) = piece :: cutFrom ((s.run piece).step c) rest := by
  induction piece generalizing s with
  | nil => rw [run_nil] at hc ⊢; rw [List.nil_append, cutFrom, if_pos hc]
  | cons d piece ih => rw [List.cons_append, cutFrom, if_neg h.1, ih h.2 hc, extendFirst]; rfl

/-- a comma at the start of a reader separates, and the reader is at its start behind it -/
theorem start_separates : start.Separates ',' ∧ start.step ',' = start := by decide

theorem extendFirst_intercalate {c : Char} {sep : Fragment} {pieces : List Fragment} (h : pieces ≠ []) :
    sep.intercalate (extendFirst c pieces) = c :: sep.intercalate pieces := by
  cases pieces with
  | nil => exact absurd rfl h
  | cons first others =>
    cases others with
    | nil => simp [extendFirst]
    | cons second others => simp [extendFirst, List.intercalate_cons_cons]

theorem cutFrom_ne_nil (s : Cursor) (text : Fragment) : cutFrom s text ≠ [] := by
  cases text with
  | nil => simp [cutFrom]
  | cons c rest =>
    rw [cutFrom]
    split
    · simp
    · cases cutFrom (s.step c) rest <;> simp [extendFirst]

/-- the pieces, with the commas put back -/
theorem intercalate_cutFrom (s : Cursor) (text : Fragment) : [','].intercalate (cutFrom s text) = text := by
  induction text generalizing s with
  | nil => simp [cutFrom]
  | cons c rest ih =>
    rw [cutFrom]
    split
    · rename_i hc
      rw [List.intercalate_cons_of_ne_nil (cutFrom_ne_nil _ _), ih, hc.2.1]; rfl
    · rw [extendFirst_intercalate (cutFrom_ne_nil _ _), ih]

/-- a comma that separates stands at the start of a reader -/
theorem eq_start_of_separates {s : Cursor} {c : Char} (h : s.Separates c) : s = start := by
  obtain ⟨hq, -, hd⟩ := h
  cases s; simp only at hq hd; subst hq; subst hd; rfl

/-- from `s` back to the start without falling below zero: the first piece does the same, the others are well-formed -/
theorem cutFrom_balanced {s : Cursor} {text : Fragment} (hrun : s.run text = start) (hlow : 0 ≤ s.lowest text) :
    ∃ first others, cutFrom s text = first :: others ∧ s.run first = start ∧ 0 ≤ s.lowest first ∧
      ∀ piece ∈ others, piece.WellFormed := by
  induction text generalizing s with
  | nil => exact ⟨[], [], rfl, hrun, hlow, by simp⟩
  | cons c rest ih =>
    rw [lowest_cons] at hlow
    obtain ⟨first, others, hcut, hfirst, hfloor, hothers⟩ := ih (s := s.step c) hrun (by omega)
    rw [cutFrom]
    by_cases hc : s.Separates c
    · -- the comma stands at the start of a reader, so the piece behind it is read from there
      have hs := eq_start_of_separates hc
      have hstep : s.step c = start := by rw [hs, hc.2.1]; exact start_separates.2
      rw [hstep] at hfirst hfloor
      have hle := lowest_le start first
      rw [if_pos hc, hcut]
      refine ⟨[], first :: others, rfl, hs, by rw [hs]; exact Int.le_refl 0, fun piece hp => ?_⟩
      rcases List.mem_cons.1 hp with rfl | hp
      · exact wellFormed_iff_neutral.2 ⟨hfirst, by simp only [start] at *; omega⟩
      · exact hothers piece hp
    · rw [if_neg hc, hcut]
      exact ⟨c :: first, others, rfl, hfirst, by rw [lowest_cons]; omega, hothers⟩

theorem wellFormed_of_mem_cutFrom {text piece : Fragment} (h : text.WellFormed) (hp : piece ∈ cutFrom start text) :
    piece.WellFormed := by
  obtain ⟨hback, hfloor⟩ := wellFormed_iff_neutral.1 h
  obtain ⟨first, others, hcut, hfirst, hlow, hothers⟩ := cutFrom_balanced hback (by rw [hfloor]; exact Int.le_refl 0)
  rw [hcut] at hp
  rcases List.mem_cons.1 hp with rfl | hp
  · have hle := lowest_le start piece
    exact wellFormed_iff_neutral.2 ⟨hfirst, by simp only [start] at *; omega⟩
  · exact hothers piece hp

/-- no piece holds a comma that separates, read from the start of the piece -/
theorem cutFrom_pieces (s : Cursor) (text : Fragment) :
    ∃ first others, cutFrom s text = first :: others ∧ s.Unseparated first ∧ ∀ piece ∈ others, start.Unseparated piece := by
  induction text generalizing s with
  | nil => exact ⟨[], [], rfl, trivial, by simp⟩
  | cons c rest ih =>
    obtain ⟨first, others, hcut, hfirst, hothers⟩ := ih (s.step c)
    rw [cutFrom]
    by_cases hc : s.Separates c
    · have hstep : s.step c = start := by rw [eq_start_of_separates hc, hc.2.1]; exact start_separates.2
      rw [hstep] at hfirst
      rw [if_pos hc, hcut]
      refine ⟨[], first :: others, rfl, trivial, fun piece hp => ?_⟩
      rcases List.mem_cons.1 hp with rfl | hp
      · exact hfirst
      · exact hothers piece hp
    · rw [if_neg hc, hcut]
      exact ⟨c :: first, others, rfl, ⟨hc, hfirst⟩, hothers⟩

theorem unseparated_of_mem_cutFrom {text piece : Fragment} (hp : piece ∈ cutFrom start text) : start.Unseparated piece := by
  obtain ⟨first, others, hcut, hfirst, hothers⟩ := cutFrom_pieces start text
  rw [hcut] at hp
  rcases List.mem_cons.1 hp with rfl | hp
  · exact hfirst
  · exact hothers piece hp

/-- well-formed pieces without a comma that separates are found again between commas -/
theorem cutFrom_intercalate {pieces : List Fragment} (hne : pieces ≠ [])
    (h : ∀ piece ∈ pieces, piece.WellFormed ∧ start.Unseparated piece) :
    cutFrom start ([','].intercalate pieces) = pieces := by
  induction pieces with
  | nil => exact absurd rfl hne
  | cons first others ih =>
    obtain ⟨hwell, hwhole⟩ := h first List.mem_cons_self
    cases others with
    | nil => rw [List.intercalate_singleton, cutFrom_unseparated hwhole]
    | cons second others =>
      have ih := ih (List.cons_ne_nil _ _) fun piece hp => h piece (List.mem_cons_of_mem _ hp)
      have hback : start.run first = start := (wellFormed_iff_neutral.1 hwell).back
      rw [List.intercalate_cons_cons, List.append_assoc, List.singleton_append,
        cutFrom_comma hwhole (by rw [hback]; exact start_separates.1), hback, start_separates.2, ih]

/-! ## Blanks around a piece -/

/-- `padded` is the piece with blanks around it -/
def Padded (piece padded : Fragment) : Prop := ∃ lead trail, Blank lead ∧ Blank trail ∧ padded = lead ++ piece ++ trail

theorem padded_trim (text : Fragment) : Padded (trim text) text := exists_trim text

theorem neutral_blank {s : Cursor} (hs : s.quoting = .outside) {blank : Fragment} (hb : Blank blank) : s.Neutral blank :=
  neutral_of_flat hs (flat_of_isBlank hb)

theorem unseparated_blank {s : Cursor} {blank : Fragment} (hb : Blank blank) : s.Unseparated blank :=
  unseparated_of_not_mem fun h => Bool.false_ne_true (hb ',' h)

namespace Padded

variable {piece padded : Fragment} (h : Padded piece padded)

include h

theorem trim_eq (hpiece : Trimmed piece) : trim padded = piece := by
  obtain ⟨lead, trail, hlead, htrail, rfl⟩ := h
  exact trim_padded hlead hpiece htrail

theorem neutral {s : Cursor} (hs : s.quoting = .outside) (hpiece : s.Neutral piece) : s.Neutral padded := by
  obtain ⟨lead, trail, hlead, htrail, rfl⟩ := h
  exact ((neutral_blank hs hlead).append hpiece).append (neutral_blank hs htrail)

theorem wellFormed (hpiece : piece.WellFormed) : padded.WellFormed :=
  wellFormed_iff_neutral.2 (h.neutral rfl (wellFormed_iff_neutral.1 hpiece))

/-- the blanks separate nothing, and the piece is read from the start behind them -/
theorem unseparated_iff : start.Unseparated padded ↔ start.Unseparated piece := by
  obtain ⟨lead, trail, hlead, htrail, rfl⟩ := h
  have hback : start.run lead = start := (neutral_blank rfl hlead).back
  refine ⟨?_, ?_⟩
  · intro hpadded
    have hbehind := (unseparated_of_append (unseparated_of_append hpadded).1).2
    rwa [hback] at hbehind
  · intro hpiece
    exact unseparated_append (unseparated_append (unseparated_blank hlead) (by rw [hback]; exact hpiece))
      (unseparated_blank htrail)

end Padded

/-! ## Trimmed pieces -/

/-- blanks lead no reader out of a quotation -/
theorem run_blank_eq_outside {q : Quoting} (hp : q.Proper) {text : Fragment} (hb : Blank text)
    (h : q.run text = .outside) : q = .outside := by
  cases q with
  | outside => rfl
  | inside mark escaped =>
    cases text with
    | nil => exact h
    | cons c rest =>
      rw [run_plain_inside hp (flat_of_isBlank hb).plain (List.cons_ne_nil c rest)] at h; cases h

/-- trimming a piece that leads out of all quotations keeps its quotations and its well-formedness -/
theorem run_trim {text : Fragment} (h : Quoting.outside.run text = .outside) :
    ∃ lead trail, Blank lead ∧ Blank trail ∧ text = lead ++ trim text ++ trail ∧
      Quoting.outside.run (trim text) = .outside := by
  obtain ⟨lead, trail, hl, hr, htext⟩ := exists_trim text
  refine ⟨lead, trail, hl, hr, htext, ?_⟩
  rw [htext, Quoting.run_append, Quoting.run_append, run_plain_outside (flat_of_isBlank hl).plain] at h
  exact run_blank_eq_outside (Quoting.proper_run (q := .outside) trivial _) hr h

theorem wellFormed_trim {text : Fragment} (h : text.WellFormed) : WellFormed (trim text) := by
  obtain ⟨lead, trail, hl, hr, htext, hq⟩ := run_trim ((quoting_run start text).symm.trans h.closed)
  have hout : (start.run (trim text)).quoting = .outside := by rw [quoting_run]; exact hq
  have hlead := neutral_of_flat (s := start) rfl (flat_of_isBlank hl)
  have htrail := neutral_of_flat hout (flat_of_isBlank hr)
  obtain ⟨hback, hfloor⟩ := wellFormed_iff_neutral.1 h
  rw [htext, run_append, run_append, hlead.back, htrail.back] at hback
  rw [htext, lowest_append, lowest_append, run_append, hlead.back, hlead.floor, htrail.floor, hback] at hfloor
  have hle := lowest_le start (trim text)
  exact wellFormed_iff_neutral.2 ⟨hback, by simp only [start] at *; omega⟩

theorem wellFormed_of_mem_arguments {inner argument : Fragment} (h : inner.WellFormed) (ha : argument ∈ arguments inner) :
    argument.WellFormed := by
  obtain ⟨piece, hp, rfl⟩ := List.mem_map.1 ha
  exact wellFormed_trim (wellFormed_of_mem_cutFrom h hp)

/-! ## Texts put side by side -/

theorem neutral_intercalate {s : Cursor} {sep : Fragment} {pieces : List Fragment} (hsep : s.Neutral sep)
    (h : ∀ piece ∈ pieces, s.Neutral piece) : s.Neutral (sep.intercalate pieces) := by
  induction pieces with
  | nil => exact neutral_nil s
  | cons first others ih =>
    have hfirst := h first List.mem_cons_self
    have ih := ih fun piece hp => h piece (List.mem_cons_of_mem _ hp)
    by_cases hne : others = []
    · rw [hne, List.intercalate_singleton]; exact hfirst
    · rw [List.intercalate_cons_of_ne_nil hne]; exact (hfirst.append hsep).append ih

theorem run_of_wellFormed {text : Fragment} (h : text.WellFormed) : Quoting.outside.run text = .outside :=
  (quoting_run start text).symm.trans h.closed

theorem quotedFrom_intercalate {sep : Fragment} {pieces : List Fragment} (hsep : Plain sep)
    (h : ∀ piece ∈ pieces, Quoting.outside.run piece = .outside) :
    quotedFrom .outside (sep.intercalate pieces) = pieces.flatMap (quotedFrom .outside) := by
  induction pieces with
  | nil => rfl
  | cons first others ih =>
    have hfirst := h first List.mem_cons_self
    have ih := ih fun piece hp => h piece (List.mem_cons_of_mem _ hp)
    by_cases hne : others = []
    · simp [hne]
    · rw [List.intercalate_cons_of_ne_nil hne, quotedFrom_append, quotedFrom_append, Quoting.run_append, hfirst,
        quotedFrom_plain_outside hsep, run_plain_outside hsep, ih, List.flatMap_cons, List.append_nil]

theorem quotedFrom_trim {text : Fragment} (h : Quoting.outside.run text = .outside) :
    quotedFrom .outside (trim text) = quotedFrom .outside text := by
  obtain ⟨lead, trail, hl, hr, htext, hq⟩ := run_trim h
  have hlead := (flat_of_isBlank hl).plain
  have htrail := (flat_of_isBlank hr).plain
  symm
  calc quotedFrom .outside text
      = quotedFrom .outside (lead ++ trim text ++ trail) := congrArg _ htext
    _ = quotedFrom .outside (trim text) ++ quotedFrom .outside trail := by
        rw [quotedFrom_append, quotedFrom_append, Quoting.run_append, run_plain_outside hlead, hq,
          quotedFrom_plain_outside hlead, List.nil_append]
    _ = quotedFrom .outside (trim text) := by rw [quotedFrom_plain_outside htrail, List.append_nil]

theorem quotedFrom_arguments {inner : Fragment} (h : inner.WellFormed) :
    (arguments inner).flatMap (quotedFrom .outside) = quotedFrom .outside inner := by
  have hpieces : ∀ piece ∈ cutFrom start inner, Quoting.outside.run piece = .outside :=
    fun piece hp => run_of_wellFormed (wellFormed_of_mem_cutFrom h hp)
  calc (arguments inner).flatMap (quotedFrom .outside)
      = (cutFrom start inner).flatMap (fun piece => quotedFrom .outside (trim piece)) := List.flatMap_map ..
    _ = (cutFrom start inner).flatMap (quotedFrom .outside) := by
        simp only [List.flatMap_def]
        rw [List.map_congr_left fun piece hp => quotedFrom_trim (hpieces piece hp)]
    _ = quotedFrom .outside ([','].intercalate (cutFrom start inner)) :=
        (quotedFrom_intercalate (by decide) hpieces).symm
    _ = quotedFrom .outside inner := by rw [intercalate_cutFrom]

end Fragment

end SqlDialects
