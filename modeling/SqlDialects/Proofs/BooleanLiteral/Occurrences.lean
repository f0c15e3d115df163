/-
Where boolean literals are compared in a text, and which of them the rule replaces. Comparisons do not overlap, so a
literal that was replaced is no operand of the next comparison any more.

- `Occurs`: a literal stands behind an operator, with a word in front of that.
- `occurs_keep_iff`, `occurs_behind_iff`: the occurrences of a text, along the search for comparisons.
- `Edit`, `source`, `written`, `Replaced`: the text before and after, and which literals were replaced.
- `exists_replacements`: every text has edits that replace what the rule replaces.
- `replacements_apply`: the rule leaves a literal alone exactly if what it is compared with is one that was replaced.
-/
import SqlDialects.Dialect.Builtin
import SqlDialects.Proofs.BooleanLiteral.Pattern
import SqlDialects.Proofs.Text.Lowercase

namespace SqlDialects.BooleanLiteral

open Text Fragment

/-- what stands between a word and the literal that it is compared with: an operator, and blanks around it -/
inductive Link : Fragment → Prop
  | mk {lead operator trail : Fragment} : Blank lead → operator = ['='] ∨ operator = ['<', '>'] → Blank trail →
      Link (lead ++ operator ++ trail)

/-- the text begins with an operator and a literal, and behind the literal it ends or goes on with a blank -/
structure Compares (link literal text : Fragment) : Prop where
  linked : Link link
  spells : Spells trueWord literal ∨ Spells falseWord literal
  ends : ∃ rest, text = link ++ literal ++ rest ∧ ∀ c, rest.head? = some c → isBlank c = true

/-- the literal stands behind `front` in the text, with an operator in front of it and a word character in front of
that -/
def Occurs (text front literal : Fragment) : Prop :=
  ∃ before c link rest, isWord c = true ∧ Compares link literal rest ∧ text = before ++ c :: rest ∧
    front = before ++ c :: link

/-- the word that a literal behind `front` is compared with, and the text before that word -/
structure Operand (front before word : Fragment) : Prop where
  front_eq : ∃ link, Link link ∧ front = before ++ word ++ link
  ne_nil : word ≠ []
  letters : ∀ c ∈ word, isWord c = true
  whole : ∀ c, before.getLast? = some c → isWord c = false

/-- the digit that stands for a literal -/
def digitOf (literal : Fragment) : Char := if lowercase (String.ofList literal) = "true" then '1' else '0'

/-- what becomes of a text, piece by piece -/
inductive Edit where
  | keep (c : Char)
  /-- a literal is replaced by its digit -/
  | replace (literal : Fragment)
deriving DecidableEq, Repr

namespace Edit

def text : Edit → Fragment
  | keep c => [c]
  | replace literal => literal

def output : Edit → Fragment
  | keep c => [c]
  | replace literal => [digitOf literal]

end Edit

/-- the text before the edits -/
def source (edits : List Edit) : Fragment := edits.flatMap Edit.text

/-- the text after the edits -/
def written (edits : List Edit) : Fragment := edits.flatMap Edit.output

/-- the literal behind `front` is replaced -/
def Replaced (edits : List Edit) (front literal : Fragment) : Prop :=
  ∃ before behind, edits = before ++ .replace literal :: behind ∧ source before = front

variable {text rest front literal link operand word before : Fragment} {c : Char}

/-! ## Links and literals -/

theorem Link.not_word (h : Link link) : ∀ c ∈ link, isWord c = false := by
  obtain ⟨hlead, hoperator, htrail⟩ := h
  rename_i lead operator trail
  have hsign : ∀ c ∈ operator, isWord c = false := by
    rcases hoperator with rfl | rfl
    · exact List.forall_mem_singleton.2 (by decide)
    · exact List.forall_mem_cons.2 ⟨by decide, List.forall_mem_singleton.2 (by decide)⟩
  refine List.forall_mem_append.2 ⟨List.forall_mem_append.2 ⟨?_, hsign⟩, ?_⟩
  · exact fun c hc => isWord_of_isBlank (hlead c hc)
  · exact fun c hc => isWord_of_isBlank (htrail c hc)

theorem Link.ne_nil (h : Link link) : link ≠ [] := by
  obtain ⟨-, hoperator, -⟩ := h
  rcases hoperator with rfl | rfl
  all_goals simp

theorem exists_literal_iff : (∃ digit, Literal literal digit) ↔ Spells trueWord literal ∨ Spells falseWord literal := by
  refine ⟨?_, ?_⟩
  · intro h
    obtain ⟨digit, h⟩ := h
    cases h with
    | isTrue h => exact Or.inl h
    | isFalse h => exact Or.inr h
  · intro h
    rcases h with h | h
    · exact ⟨_, .isTrue h⟩
    · exact ⟨_, .isFalse h⟩

theorem Literal.digit_eq {digit : Char} (h : Literal literal digit) : digit = digitOf literal := by
  have hiff : lowercase (String.ofList literal) = "true" ↔ Spells trueWord literal :=
    lowercase_eq_iff (by decide) (by decide)
  rw [digitOf]
  cases h with
  | isTrue h => rw [if_pos (hiff.2 h)]
  | isFalse h =>
    have hnot : ¬ Spells trueWord literal := fun h' => not_spells_both h' h (rfl : literal ++ [] = literal ++ [])
    rw [if_neg (mt hiff.1 hnot)]

theorem isWord_of_spells (h : Spells trueWord literal ∨ Spells falseWord literal) : ∀ c ∈ literal, isWord c = true := by
  obtain ⟨digit, h⟩ := exists_literal_iff.2 h
  exact h.isWord

theorem ne_nil_of_spells (h : Spells trueWord literal ∨ Spells falseWord literal) : literal ≠ [] := by
  obtain ⟨digit, h⟩ := exists_literal_iff.2 h
  exact h.ne_nil

theorem left_append (hne : operand ≠ []) (hword : ∀ c ∈ operand, isWord c = true) (h : Link link) :
    Left (operand ++ link) := by
  obtain ⟨hlead, hoperator, htrail⟩ := h
  rw [← List.append_assoc, ← List.append_assoc]
  exact .mk hne hword hlead hoperator htrail

theorem Left.exists_link {left : Fragment} (h : Left left) :
    ∃ operand link, operand ≠ [] ∧ (∀ c ∈ operand, isWord c = true) ∧ Link link ∧ left = operand ++ link := by
  obtain ⟨hne, hword, hlead, hoperator, htrail⟩ := h
  exact ⟨_, _, hne, hword, .mk hlead hoperator htrail, by simp⟩

/-! ## The search -/

theorem Compares.not_word_next (h : Compares link literal (link ++ literal ++ rest)) :
    ∀ c, rest.head? = some c → isWord c = false := by
  obtain ⟨tail, htext, hends⟩ := h.ends
  rw [List.append_cancel_left htext]
  exact fun c hc => isWord_of_isBlank (hends c hc)

theorem replaceFrom_comparison (before : Option Char) (text : Fragment) :
    replaceFrom comparison before 0 text = replaceAll comparison text :=
  replaceFrom_eq_replaceAll (fun _ _ => rfl) before text

/-- **Induction along the search for comparisons**: nothing is left, a character is kept, or a literal is replaced. -/
theorem replaceAll_induction {motive : Fragment → Fragment → Prop} (nil : motive [] [])
    (keep : ∀ c rest, comparison none (c :: rest) = none → motive rest (replaceAll comparison rest) →
      motive (c :: rest) (c :: replaceAll comparison rest))
    (replace : ∀ operand link literal rest, operand ≠ [] → (∀ c ∈ operand, isWord c = true) →
      Compares link literal (link ++ literal ++ rest) → motive rest (replaceAll comparison rest) →
      motive (operand ++ link ++ literal ++ rest) (operand ++ link ++ [digitOf literal] ++ replaceAll comparison rest))
    (text : Fragment) : motive text (replaceAll comparison text) := by
  suffices h : replaceAll comparison text = replaceAll comparison text ∧ motive text (replaceAll comparison text) from h.2
  refine replaceFrom_induction gentle_comparison.covers
    (motive := fun _ text out => out = replaceAll comparison text ∧ motive text out) ?nil ?keep ?replace none text
  case nil => intro _; exact ⟨rfl, nil⟩
  case keep =>
    intro _ c rest out hnone ih
    obtain ⟨rfl, ih⟩ := ih
    refine ⟨?_, keep c rest hnone ih⟩
    have hstep : replaceAll comparison (c :: rest) = c :: replaceFrom comparison (some c) 0 rest := replaceFrom_of_none hnone
    rw [hstep, replaceFrom_comparison]
  case replace =>
    intro previous found rest out hfound ih
    obtain ⟨rfl, ih⟩ := ih
    refine ⟨?_, ?_⟩
    · have hstep := replaceFrom_match gentle_comparison.covers hfound
      rw [replaceFrom_comparison, replaceFrom_comparison] at hstep
      exact hstep.symm
    · obtain ⟨tail, htext, hshape⟩ := (finds_comparison _ _ _).1 hfound
      obtain rfl := List.append_cancel_left htext
      obtain ⟨hleft, hl, hends⟩ := hshape
      obtain ⟨operand, link, hne, hoperand, hlink, rfl⟩ := hleft.exists_link
      rw [hl.digit_eq]
      exact replace operand link _ rest hne hoperand ⟨hlink, exists_literal_iff.1 ⟨_, hl⟩, rest, rfl, hends⟩ ih

/-! ## Occurrences along the search -/

/-- a comparison is found at the last character of its operand already -/
theorem Compares.finds (h : Compares link literal rest) (hc : isWord c = true) (before : Option Char) :
    comparison before (c :: rest) ≠ none := by
  obtain ⟨digit, hl⟩ := exists_literal_iff.2 h.spells
  obtain ⟨tail, rfl, hends⟩ := h.ends
  have hleft : Left ([c] ++ link) := left_append (by simp) (List.forall_mem_singleton.2 hc) h.linked
  have hcomparison : Comparison before ⟨[c] ++ link ++ literal, [c] ++ link ++ [digit]⟩ tail.head? := .mk hleft hl hends
  have hfind := hcomparison.find
  rw [show c :: (link ++ literal ++ tail) = [c] ++ link ++ literal ++ tail by simp, hfind]
  exact Option.some_ne_none _

theorem not_occurs_nil : ¬ Occurs [] front literal := by
  intro h
  obtain ⟨before, c, link, rest, -, -, htext, -⟩ := h
  simp at htext

/-- a literal stands behind the first character with its operator, or later -/
theorem occurs_cons_iff : Occurs (c :: rest) front literal ↔
    (isWord c = true ∧ ∃ link, front = c :: link ∧ Compares link literal rest) ∨
      ∃ front', front = c :: front' ∧ Occurs rest front' literal := by
  refine ⟨?_, ?_⟩
  · intro hoccurs
    obtain ⟨before, d, link, rest', hd, hcompares, htext, rfl⟩ := hoccurs
    cases before with
    | nil =>
      obtain ⟨rfl, rfl⟩ := List.cons.inj htext
      exact Or.inl ⟨hd, link, rfl, hcompares⟩
    | cons x before =>
      obtain ⟨rfl, rfl⟩ := List.cons.inj htext
      exact Or.inr ⟨before ++ d :: link, rfl, before, d, link, rest', hd, hcompares, rfl, rfl⟩
  · intro h
    rcases h with hfirst | hlater
    · obtain ⟨hc, link, rfl, hcompares⟩ := hfirst
      exact ⟨[], c, link, rest, hc, hcompares, rfl, rfl⟩
    · obtain ⟨front', rfl, before, d, link, rest', hd, hcompares, rfl, rfl⟩ := hlater
      exact ⟨c :: before, d, link, rest', hd, hcompares, rfl, rfl⟩

/-- where a character is kept, no literal is compared with what ends there -/
theorem not_compares_of_kept {previous : Option Char} (h : comparison previous (c :: rest) = none) :
    ¬ (isWord c = true ∧ Compares link literal rest) := fun hboth => hboth.2.finds hboth.1 previous h

theorem occurs_keep_iff {previous : Option Char} (h : comparison previous (c :: rest) = none) :
    Occurs (c :: rest) front literal ↔ ∃ front', front = c :: front' ∧ Occurs rest front' literal := by
  refine occurs_cons_iff.trans (or_iff_right ?_)
  intro hfirst
  obtain ⟨hc, link, -, hcompares⟩ := hfirst
  exact not_compares_of_kept h ⟨hc, hcompares⟩

theorem Occurs.behind (h : Occurs rest front literal) (first : Fragment) :
    Occurs (first ++ rest) (first ++ front) literal := by
  obtain ⟨before, d, link, rest', hd, hcompares, rfl, rfl⟩ := h
  exact ⟨first ++ before, d, link, rest', hd, hcompares, by simp, by simp⟩

theorem Compares.occurs (h : Compares link literal rest) (hne : word ≠ []) (hword : ∀ c ∈ word, isWord c = true) :
    Occurs (word ++ rest) (word ++ link) literal := by
  obtain ⟨front, c, rfl⟩ := List.eq_nil_or_concat word |>.resolve_left hne
  rw [List.concat_eq_append] at hword ⊢
  exact ⟨front, c, link, rest, hword c (by simp), h, by simp, by simp⟩

/-- behind the word that a literal is compared with there is no more of it -/
theorem Compares.eq_nil {tail : Fragment} (h : Compares link literal (tail ++ rest)) (ht : ∀ c ∈ tail, isWord c = true) :
    tail = [] := by
  cases tail with
  | nil => rfl
  | cons c tail =>
    obtain ⟨more, htext, -⟩ := h.ends
    obtain ⟨d, ds, rfl⟩ := List.exists_cons_of_ne_nil h.linked.ne_nil
    obtain ⟨rfl, -⟩ := List.cons.inj htext
    have hword := ht c List.mem_cons_self
    rw [h.linked.not_word c List.mem_cons_self] at hword; cases hword

/-- the operator and the literal are told by the text -/
theorem Compares.unique {signs : Fragment} (h : Compares link literal (signs ++ word ++ rest))
    (hsigns : ∀ c ∈ signs, isWord c = false) (hne : word ≠ []) (hword : ∀ c ∈ word, isWord c = true)
    (hnext : ∀ c, rest.head? = some c → isWord c = false) : link = signs ∧ literal = word := by
  obtain ⟨tail, htext, hends⟩ := h.ends
  have hliteral := isWord_of_spells h.spells
  have hsign {signs : Fragment} (h : ∀ c ∈ signs, isWord c = false) : ∀ c ∈ signs, (!isWord c) = true :=
    fun c hc => by simp [h c hc]
  have hfirst {word rest : Fragment} (hne : word ≠ []) (hword : ∀ c ∈ word, isWord c = true) :
      ∀ c, (word ++ rest).head? = some c → (!isWord c) = false := by
    intro c hc
    obtain ⟨d, word, rfl⟩ := List.exists_cons_of_ne_nil hne
    obtain rfl := Option.some.inj hc
    simp [hword d List.mem_cons_self]
  rw [List.append_assoc, List.append_assoc] at htext
  obtain ⟨rfl, hbehind⟩ := eq_of_runs (hsign hsigns) (hsign h.linked.not_word) (hfirst hne hword)
    (hfirst (ne_nil_of_spells h.spells) hliteral) htext
  obtain ⟨rfl, -⟩ := eq_of_runs hword hliteral hnext (fun c hc => isWord_of_isBlank (hends c hc)) hbehind
  exact ⟨rfl, rfl⟩

/-- a literal in a comparison that goes on with no word: it is the literal of that comparison, or it is compared with
the word at its end, or it stands behind it -/
theorem occurs_behind_iff (hoperand : ∀ c ∈ operand, isWord c = true) (hne : operand ≠ []) (hlink : Link link)
    (hword : ∀ c ∈ word, isWord c = true) (hne' : word ≠ []) (hnext : ∀ c, rest.head? = some c → isWord c = false)
    (front literal : Fragment) : Occurs (operand ++ link ++ word ++ rest) front literal ↔
      (front = operand ++ link ∧ Compares link literal (link ++ word ++ rest)) ∨
      (∃ link', front = operand ++ link ++ word ++ link' ∧ Compares link' literal rest) ∨
      ∃ front', front = operand ++ link ++ word ++ front' ∧ Occurs rest front' literal := by
  refine ⟨?_, ?_⟩
  · intro h
    obtain ⟨before, c, link', rest', hc, hcompares, htext, rfl⟩ := h
    rcases append_cases htext with hwithin | hbehind
    · obtain ⟨tail, hwithin, rfl⟩ := hwithin
      rcases append_cases hwithin with hleft | hend
      · obtain ⟨tail', hleft, rfl⟩ := hleft
        rcases append_cases hleft with hstart | hmiddle
        · -- the word character ends the operand, so the two literals are the same
          obtain ⟨tail, rfl, rfl⟩ := hstart
          rw [List.append_assoc, List.append_assoc] at hcompares
          obtain rfl := hcompares.eq_nil fun d hd => hoperand d (by simp [hd])
          rw [List.nil_append, ← List.append_assoc] at hcompares
          obtain ⟨rfl, -⟩ := hcompares.unique hlink.not_word hne' hword hnext
          exact Or.inl ⟨by simp, hcompares⟩
        · obtain ⟨more, -, rfl⟩ := hmiddle
          rw [hlink.not_word c (by simp)] at hc; cases hc
      · obtain ⟨more, rfl, rfl⟩ := hend
        obtain rfl := hcompares.eq_nil fun d hd => hword d (by simp [hd])
        exact Or.inr (Or.inl ⟨link', by simp, hcompares⟩)
    · obtain ⟨more, rfl, rfl⟩ := hbehind
      exact Or.inr (Or.inr ⟨more ++ c :: link', by simp, more, c, link', rest', hc, hcompares, rfl, rfl⟩)
  · intro h
    rcases h with hsame | hnextOne | hbehind
    · obtain ⟨rfl, hcompares⟩ := hsame
      have hoccurs := hcompares.occurs hne hoperand
      rwa [← List.append_assoc, ← List.append_assoc] at hoccurs
    · obtain ⟨link', rfl, hcompares⟩ := hnextOne
      have hoccurs := (hcompares.occurs hne' hword).behind (operand ++ link)
      rwa [← List.append_assoc, ← List.append_assoc] at hoccurs
    · obtain ⟨front', rfl, hoccurs⟩ := hbehind
      exact hoccurs.behind _

/-! ## Edits -/

theorem source_keep (text : Fragment) (edits : List Edit) : source (text.map .keep ++ edits) = text ++ source edits := by
  rw [source, List.flatMap_append, List.flatMap_map]
  exact congrArg (· ++ source edits) (List.flatMap_singleton' text)

theorem written_keep (text : Fragment) (edits : List Edit) :
    written (text.map .keep ++ edits) = text ++ written edits := by
  rw [written, List.flatMap_append, List.flatMap_map]
  exact congrArg (· ++ written edits) (List.flatMap_singleton' text)

theorem not_replaced_nil : ¬ Replaced [] front literal := by
  intro h
  obtain ⟨before, behind, h, -⟩ := h
  simp at h

theorem replaced_cons_iff {edit : Edit} {edits : List Edit} : Replaced (edit :: edits) front literal ↔
    (edit = .replace literal ∧ front = []) ∨ ∃ front', front = edit.text ++ front' ∧ Replaced edits front' literal := by
  refine ⟨?_, ?_⟩
  · intro h
    obtain ⟨before, behind, hsplit, rfl⟩ := h
    cases before with
    | nil => exact Or.inl ⟨(List.cons.inj hsplit).1, rfl⟩
    | cons first before =>
      obtain ⟨rfl, rfl⟩ := List.cons.inj hsplit
      exact Or.inr ⟨source before, rfl, before, behind, rfl, rfl⟩
  · intro h
    rcases h with hfirst | hrest
    · obtain ⟨rfl, rfl⟩ := hfirst
      exact ⟨[], edits, rfl, rfl⟩
    · obtain ⟨front', rfl, before, behind, rfl, rfl⟩ := hrest
      exact ⟨edit :: before, behind, rfl, rfl⟩

theorem replaced_cons_keep_iff {edits : List Edit} : Replaced (.keep c :: edits) front literal ↔
    ∃ front', front = c :: front' ∧ Replaced edits front' literal := by
  rw [replaced_cons_iff]
  simp [Edit.text]

theorem replaced_keep_iff {kept : Fragment} {edits : List Edit} : Replaced (kept.map .keep ++ edits) front literal ↔
    ∃ front', front = kept ++ front' ∧ Replaced edits front' literal := by
  induction kept generalizing front with
  | nil => simp
  | cons c kept ih =>
    rw [List.map_cons, List.cons_append, replaced_cons_keep_iff]
    simp only [ih, List.cons_append]
    refine ⟨?_, ?_⟩
    · intro h
      obtain ⟨_, rfl, front', rfl, h⟩ := h
      exact ⟨front', rfl, h⟩
    · intro h
      obtain ⟨front', rfl, h⟩ := h
      exact ⟨_, rfl, front', rfl, h⟩

theorem replaced_replace_iff {kept first : Fragment} {edits : List Edit} :
    Replaced (kept.map .keep ++ .replace first :: edits) front literal ↔
      (front = kept ∧ literal = first) ∨ ∃ front', front = kept ++ first ++ front' ∧ Replaced edits front' literal := by
  rw [replaced_keep_iff]
  simp only [replaced_cons_iff, Edit.text, Edit.replace.injEq]
  refine ⟨?_, ?_⟩
  · intro h
    obtain ⟨front', rfl, ⟨rfl, rfl⟩ | ⟨front', rfl, h⟩⟩ := h
    · exact Or.inl ⟨List.append_nil kept, rfl⟩
    · exact Or.inr ⟨front', by simp, h⟩
  · intro h
    rcases h with hfirst | hrest
    · obtain ⟨rfl, rfl⟩ := hfirst
      exact ⟨[], (List.append_nil _).symm, Or.inl ⟨rfl, rfl⟩⟩
    · obtain ⟨front', rfl, h⟩ := hrest
      exact ⟨first ++ front', by simp, Or.inr ⟨front', rfl, h⟩⟩

/-- behind a replaced literal the edits that follow tell what is replaced -/
theorem replaced_behind_iff {kept first : Fragment} {edits : List Edit} (hne : first ≠ []) :
    Replaced (kept.map .keep ++ .replace first :: edits) (kept ++ first ++ front) literal ↔
      Replaced edits front literal := by
  rw [replaced_replace_iff]
  refine ⟨?_, fun h => Or.inr ⟨front, rfl, h⟩⟩
  intro h
  rcases h with hfirst | hrest
  · have hlength := congrArg List.length hfirst.1
    have hpos := List.length_pos_iff.2 hne
    simp only [List.length_append] at hlength; omega
  · obtain ⟨front', hfront, h⟩ := hrest
    rwa [List.append_cancel_left hfront]

/-- a literal behind `front` is compared with a literal that is replaced -/
def BehindReplaced (edits : List Edit) (front : Fragment) : Prop :=
  ∃ before word link, Replaced edits before word ∧ Link link ∧ front = before ++ word ++ link

theorem behindReplaced_keep_iff {edits : List Edit} :
    BehindReplaced (.keep c :: edits) (c :: front) ↔ BehindReplaced edits front := by
  simp only [BehindReplaced, replaced_cons_keep_iff]
  refine ⟨?_, ?_⟩
  · intro h
    obtain ⟨_, word, link, ⟨before, rfl, hr⟩, hlink, hfront⟩ := h
    exact ⟨before, word, link, hr, hlink, (List.cons.inj hfront).2⟩
  · intro h
    obtain ⟨before, word, link, hr, hlink, rfl⟩ := h
    exact ⟨c :: before, word, link, ⟨before, rfl, hr⟩, hlink, rfl⟩

/-- nothing in front of the first replaced literal is replaced -/
theorem not_behindReplaced_kept {kept first : Fragment} {edits : List Edit} :
    ¬ BehindReplaced (kept.map .keep ++ .replace first :: edits) kept := by
  intro h
  obtain ⟨before, word, link, hr, hlink, hkept⟩ := h
  have hpos := List.length_pos_iff.2 hlink.ne_nil
  have hlength := congrArg List.length hkept
  rcases replaced_replace_iff.1 hr with hfirst | hlater
  · rw [hfirst.1] at hlength
    simp only [List.length_append] at hlength; omega
  · obtain ⟨front', rfl, -⟩ := hlater
    simp only [List.length_append] at hlength; omega

theorem behindReplaced_behind_iff {kept first : Fragment} {edits : List Edit} (hne : first ≠ []) (hfront : ¬ Link front) :
    BehindReplaced (kept.map .keep ++ .replace first :: edits) (kept ++ first ++ front) ↔ BehindReplaced edits front := by
  refine ⟨?_, ?_⟩
  · intro h
    obtain ⟨before, word, link, hr, hlink, htext⟩ := h
    rcases replaced_replace_iff.1 hr with hfirst | hlater
    · obtain ⟨rfl, rfl⟩ := hfirst
      obtain rfl := List.append_cancel_left htext
      exact absurd hlink hfront
    · obtain ⟨before', rfl, hr'⟩ := hlater
      refine ⟨before', word, link, hr', hlink, ?_⟩
      rw [List.append_assoc _ before', List.append_assoc _ (before' ++ word)] at htext
      exact List.append_cancel_left htext
  · intro h
    obtain ⟨before, word, link, hr, hlink, rfl⟩ := h
    exact ⟨kept ++ first ++ before, word, link, (replaced_behind_iff hne).2 hr, hlink, by simp⟩

/-- the edits replace literals of the text, all but those that are compared with a replaced one -/
structure Replacements (text : Fragment) (edits : List Edit) : Prop where
  source_eq : source edits = text
  occurs : ∀ front literal, Replaced edits front literal → Occurs text front literal
  left_alone_iff : ∀ front literal, Occurs text front literal →
    (¬ Replaced edits front literal ↔ BehindReplaced edits front)

/-- within what links two words no literal stands -/
theorem Link.not_occurs (h : Link link) : ¬ Occurs text link literal := by
  intro hoccurs
  obtain ⟨before, c, link', rest, hc, -, -, rfl⟩ := hoccurs
  rw [h.not_word c (by simp)] at hc; cases hc

namespace Replacements

variable {edits : List Edit}

theorem nil : Replacements [] [] :=
  ⟨rfl, fun _ _ h => absurd h not_replaced_nil, fun _ _ h => absurd h not_occurs_nil⟩

theorem keep {previous : Option Char} (h : comparison previous (c :: rest) = none) (hrest : Replacements rest edits) :
    Replacements (c :: rest) (.keep c :: edits) := by
  refine ⟨congrArg (c :: ·) hrest.source_eq, ?_, ?_⟩
  · intro front literal hr
    obtain ⟨front', rfl, hr'⟩ := replaced_cons_keep_iff.1 hr
    exact (occurs_keep_iff h).2 ⟨front', rfl, hrest.occurs _ _ hr'⟩
  · intro front literal hoccurs
    obtain ⟨front', rfl, hoccurs'⟩ := (occurs_keep_iff h).1 hoccurs
    have hcons : Replaced (.keep c :: edits) (c :: front') literal ↔ Replaced edits front' literal := by
      rw [replaced_cons_keep_iff]; simp
    rw [hcons, behindReplaced_keep_iff, hrest.left_alone_iff front' literal hoccurs']

theorem replace (hoperand : ∀ c ∈ operand, isWord c = true) (hne : operand ≠ [])
    (hcompares : Compares link literal (link ++ literal ++ rest)) (hnext : ∀ c, rest.head? = some c → isWord c = false)
    (hrest : Replacements rest edits) :
    Replacements (operand ++ link ++ literal ++ rest) ((operand ++ link).map .keep ++ .replace literal :: edits) := by
  have hlink := hcompares.linked
  have hword := isWord_of_spells hcompares.spells
  have hne' := ne_nil_of_spells hcompares.spells
  have hoccurs_iff := occurs_behind_iff hoperand hne hlink hword hne' hnext
  refine ⟨?_, ?_, ?_⟩
  · have hsource : source (.replace literal :: edits) = literal ++ source edits := rfl
    rw [source_keep, hsource, hrest.source_eq, ← List.append_assoc]
  · intro front literal' hr
    rw [replaced_replace_iff] at hr
    rcases hr with hfirst | hbehind
    · obtain ⟨rfl, rfl⟩ := hfirst
      exact (hoccurs_iff _ _).2 (Or.inl ⟨rfl, hcompares⟩)
    · obtain ⟨front', rfl, hr⟩ := hbehind
      exact (hrest.occurs _ _ hr).behind _
  · intro front literal' hoccurs
    rcases (hoccurs_iff _ _).1 hoccurs with hsame | hcompared | hbehind
    · -- the literal of the comparison is replaced, and nothing in front of it is
      obtain ⟨rfl, hcompares'⟩ := hsame
      obtain ⟨-, rfl⟩ := hcompares'.unique hlink.not_word hne' hword hnext
      exact iff_of_false (fun hno => hno (replaced_replace_iff.2 (Or.inl ⟨rfl, rfl⟩))) not_behindReplaced_kept
    · -- the next one is compared with it
      obtain ⟨link', rfl, hcompares'⟩ := hcompared
      rw [replaced_behind_iff hne']
      refine iff_of_true (fun hr => hcompares'.linked.not_occurs (hrest.occurs _ _ hr)) ?_
      exact ⟨_, _, link', replaced_replace_iff.2 (Or.inl ⟨rfl, rfl⟩), hcompares'.linked, rfl⟩
    · obtain ⟨front', rfl, hoccurs'⟩ := hbehind
      rw [replaced_behind_iff hne', behindReplaced_behind_iff hne' fun hlink' => hlink'.not_occurs hoccurs',
        hrest.left_alone_iff front' literal' hoccurs']

end Replacements

/-- **Every text has edits that replace what the rule replaces.** -/
theorem exists_replacements (text : Fragment) :
    ∃ edits, Replacements text edits ∧ written edits = replaceAll comparison text := by
  refine replaceAll_induction
    (motive := fun text out => ∃ edits, Replacements text edits ∧ written edits = out) ?nil ?keep ?replace text
  case nil => exact ⟨[], .nil, rfl⟩
  case keep =>
    intro c rest hnone ih
    obtain ⟨edits, hedits, hwritten⟩ := ih
    exact ⟨.keep c :: edits, hedits.keep hnone, congrArg (c :: ·) hwritten⟩
  case replace =>
    intro operand link literal rest hne hoperand hcompares ih
    obtain ⟨edits, hedits, hwritten⟩ := ih
    refine ⟨(operand ++ link).map .keep ++ .replace literal :: edits,
      hedits.replace hoperand hne hcompares hcompares.not_word_next, ?_⟩
    have hreplaced : written (.replace literal :: edits) = [digitOf literal] ++ written edits := rfl
    rw [written_keep, hreplaced, hwritten, List.append_assoc (operand ++ link)]

/-! ## The rule -/

theorem operand_of_occurs (h : Occurs text before word) (hlink : Link link) :
    Operand (before ++ word ++ link) before word := by
  obtain ⟨front, c, link', rest, hc, hcompares, -, rfl⟩ := h
  refine ⟨⟨link, hlink, rfl⟩, ne_nil_of_spells hcompares.spells, isWord_of_spells hcompares.spells, ?_⟩
  -- the text before the word ends with the operator in front of it
  intro d hd
  obtain ⟨start, last, hlast⟩ := (List.eq_nil_or_concat link').resolve_left hcompares.linked.ne_nil
  rw [List.concat_eq_append] at hlast
  rw [hlast, ← List.cons_append, ← List.append_assoc, List.getLast?_concat] at hd
  rw [← Option.some.inj hd]
  exact hcompares.linked.not_word last (by rw [hlast]; simp)

/-- a word character belongs to a whole word -/
theorem exists_whole_word (front : Fragment) (hc : isWord c = true) : ∃ before word, front ++ [c] = before ++ word ∧
    word ≠ [] ∧ (∀ d ∈ word, isWord d = true) ∧ ∀ d, before.getLast? = some d → isWord d = false := by
  obtain ⟨rest, htext, hword, hrest⟩ := takeWhile_eq_iff.1 (rfl : (front ++ [c]).reverse.takeWhile isWord = _)
  refine ⟨rest.reverse, ((front ++ [c]).reverse.takeWhile isWord).reverse, ?_, ?_, ?_, ?_⟩
  · rw [← List.reverse_append, ← htext, List.reverse_reverse]
  · simp [hc]
  · intro d hd; exact hword d (List.mem_reverse.1 hd)
  · intro d hd
    rw [List.getLast?_reverse] at hd
    exact hrest d hd

theorem Occurs.exists_operand (h : Occurs text front literal) : ∃ before word, Operand front before word := by
  obtain ⟨front, c, link, rest, hc, hcompares, -, rfl⟩ := h
  obtain ⟨before, word, hsplit, hne, hword, hwhole⟩ := exists_whole_word front hc
  refine ⟨before, word, ⟨link, hcompares.linked, ?_⟩, hne, hword, hwhole⟩
  rw [← hsplit, List.append_assoc]; rfl

/-- a literal is compared with one word only -/
theorem Operand.unique {before' word' : Fragment} (h : Operand front before word) (h' : Operand front before' word') :
    before = before' ∧ word = word' := by
  obtain ⟨link, hlink, hfront⟩ := h.front_eq
  obtain ⟨link', hlink', hfront'⟩ := h'.front_eq
  have hsign {link : Fragment} (h : Link link) : ∀ c ∈ link.reverse, (!isWord c) = true :=
    fun c hc => by simp [h.not_word c (List.mem_reverse.1 hc)]
  have hends {before word : Fragment} (h : Operand front before word) :
      ∀ c, (word.reverse ++ before.reverse).head? = some c → (!isWord c) = false := by
    intro c hc
    obtain ⟨d, word', hreverse⟩ := List.exists_cons_of_ne_nil (List.reverse_ne_nil_iff.2 h.ne_nil)
    rw [hreverse] at hc
    obtain rfl := Option.some.inj hc
    simp [h.letters d (List.mem_reverse.1 (hreverse ▸ List.mem_cons_self))]
  have hwhole {before word : Fragment} (h : Operand front before word) :
      ∀ c, before.reverse.head? = some c → isWord c = false := fun c hc => h.whole c (by rwa [← List.head?_reverse])
  -- read from the right, the operator ends where the word ends, and the word where it begins
  have hreverse := congrArg List.reverse (hfront.symm.trans hfront')
  simp only [List.reverse_append] at hreverse
  obtain ⟨-, hreverse⟩ := eq_of_runs (hsign hlink) (hsign hlink') (hends h) (hends h') hreverse
  obtain ⟨hword, hbefore⟩ := eq_of_runs (fun c hc => h.letters c (List.mem_reverse.1 hc))
    (fun c hc => h'.letters c (List.mem_reverse.1 hc)) (hwhole h) (hwhole h') hreverse
  exact ⟨List.reverse_inj.1 hbefore, List.reverse_inj.1 hword⟩

/-- **A literal is left alone exactly if it is compared with one that is replaced.** The rule replaces literals of
comparisons by their digits and keeps all other characters. -/
theorem replacements_apply {needs : Capabilities} (h : needs.integerBooleans = true) (sql : Fragment) :
    ∃ edits, source edits = sql ∧ written edits = apply needs sql ∧
      (∀ front literal, Replaced edits front literal → Occurs sql front literal) ∧
      ∀ front literal, Occurs sql front literal → ∃ before word, Operand front before word ∧
        (¬ Replaced edits front literal ↔ Occurs sql before word ∧ Replaced edits before word) := by
  obtain ⟨edits, hedits, hwritten⟩ := exists_replacements sql
  refine ⟨edits, hedits.source_eq, ?_, hedits.occurs, fun front literal hoccurs => ?_⟩
  · rw [hwritten, apply, if_pos h]
  · obtain ⟨before, word, hoperand⟩ := hoccurs.exists_operand
    refine ⟨before, word, hoperand, (hedits.left_alone_iff front literal hoccurs).trans ⟨?_, ?_⟩⟩
    · intro hbehind
      obtain ⟨before', word', link, hr, hlink, rfl⟩ := hbehind
      have hoccurs' := hedits.occurs _ _ hr
      obtain ⟨rfl, rfl⟩ := hoperand.unique (operand_of_occurs hoccurs' hlink)
      exact ⟨hoccurs', hr⟩
    · intro hboth
      obtain ⟨link, hlink, rfl⟩ := hoperand.front_eq
      exact ⟨before, word, link, hboth.2, hlink, rfl⟩

/-- of three literals in a row the second one is left alone; a long `s` is no reason -/
theorem replacements_chain : Dialect.sqlite.capabilities.integerBooleans = true ∧
    ∃ edits, source edits = "a=TRUE <> falſe = faLſe".toList ∧ written edits = "a=1 <> falſe = 0".toList := by
  have hbooleans : Dialect.sqlite.capabilities.integerBooleans = true := rfl
  obtain ⟨edits, hsource, hwritten, -⟩ := replacements_apply hbooleans "a=TRUE <> falſe = faLſe".toList
  exact ⟨hbooleans, edits, hsource, hwritten.trans (by decide)⟩

end SqlDialects.BooleanLiteral
