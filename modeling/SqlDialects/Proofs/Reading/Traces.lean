/-
Edits that cannot be taken back. Whether a rule left the quoted characters of a text alone is asked of the text that all
rules leave, so an edit of one rule must not be undone by the next. It is not: every edit of the built-in dialects takes
a `p` or an `f` away or brings a `v`, a `d` or a `1`, and none does the opposite.

- `traces`: how many of these letters a text has, those that edits bring less those that they take away.
- `Telltale`: a text was left alone, or it has more traces now; so the outcome tells which (`Telltale.eq_iff`), and still
  does after further edits (`Telltale.andThen`).
- `Pattern.Gentle.telltale`: what is quoted after a replacement tells whether the pattern finds anything in what was
  quoted before.
-/
import SqlDialects.Proofs.Reading.Substitution
import SqlDialects.Proofs.Text.Blank
import SqlDialects.Proofs.Text.Keyword

namespace SqlDialects

open Text

namespace Fragment

/-! ## Traces -/

/-- what a character adds to the traces of a text, in upper or lower case -/
def traceOf (c : Char) : Int :=
  if c.toLower ∈ ['v', 'd', '1'] then 1 else if c.toLower ∈ ['p', 'f'] then -1 else 0

def traces : Fragment → Int
  | [] => 0
  | c :: rest => traceOf c + traces rest

theorem traces_cons (c : Char) (text : Fragment) : traces (c :: text) = traceOf c + traces text := rfl

theorem traces_append (a b : Fragment) : traces (a ++ b) = traces a + traces b := by
  induction a with
  | nil => rw [List.nil_append, traces, Int.zero_add]
  | cons c rest ih => rw [List.cons_append, traces_cons, ih, traces_cons, Int.add_assoc]

theorem traceOf_of_sameLetter {k c : Char} (h : sameLetter k c = true) (hk : k.toLower = k) :
    traceOf c = traceOf k := by
  simp only [sameLetter, Bool.or_eq_true, Bool.and_eq_true, beq_iff_eq] at h
  rcases h with ((h | ⟨rfl, rfl | rfl⟩) | ⟨rfl, rfl⟩) | ⟨rfl, rfl⟩
  · rw [traceOf, traceOf, h, hk]
  all_goals decide

/-- a spelling of a keyword has the traces of the keyword -/
theorem traces_of_spells {keyword found : List Char} (h : Spells keyword found) (hk : keyword.map Char.toLower = keyword) :
    traces found = traces keyword := by
  induction h with
  | nil => rfl
  | cons hsame _ ih =>
    obtain ⟨hhead, htail⟩ := List.cons.inj hk
    rw [traces_cons, traces_cons, traceOf_of_sameLetter hsame hhead, ih htail]

theorem traceOf_of_isBlank {c : Char} (h : isBlank c = true) : traceOf c = 0 := by
  have hlower : c.toLower = c := by
    rcases toLower_cases c with hc | ⟨-, hw⟩
    · exact hc
    · rw [isWord_of_isBlank h] at hw; cases hw
  have hne {k : Char} (hk : isBlank k = false) : c ≠ k := by
    rintro rfl; rw [h] at hk; cases hk
  rw [traceOf, hlower, if_neg, if_neg]
  · simp only [List.mem_cons, List.not_mem_nil, or_false, not_or]
    exact ⟨hne (by decide), hne (by decide)⟩
  · simp only [List.mem_cons, List.not_mem_nil, or_false, not_or]
    exact ⟨hne (by decide), hne (by decide), hne (by decide)⟩

theorem traces_of_blank {text : Fragment} (h : Blank text) : traces text = 0 := by
  induction text with
  | nil => rfl
  | cons c rest ih =>
    rw [traces_cons, traceOf_of_isBlank (h c List.mem_cons_self), ih fun d hd => h d (List.mem_cons_of_mem c hd)]; rfl

/-! ## Telling edits -/

/-- `text` was left alone and `out` is the same, or it was not and `out` has more traces -/
def Telltale (alone : Prop) (text out : Fragment) : Prop :=
  (alone ∧ out = text) ∨ (¬ alone ∧ traces text < traces out)

namespace Telltale

variable {alone alone' : Prop} {a b c d : Fragment}

theorem refl (h : alone) (a : Fragment) : Telltale alone a a := Or.inl ⟨h, rfl⟩

theorem le (h : Telltale alone a b) : traces a ≤ traces b := by
  rcases h with ⟨-, rfl⟩ | ⟨-, h⟩
  · exact Int.le_refl _
  · exact Int.le_of_lt h

/-- the outcome tells whether the text was left alone -/
theorem eq_iff (h : Telltale alone a b) : b = a ↔ alone := by
  rcases h with ⟨h, rfl⟩ | ⟨h, hlt⟩
  · exact ⟨fun _ => h, fun _ => rfl⟩
  · refine ⟨?_, fun hn => absurd hn h⟩
    rintro rfl
    exact absurd hlt (Int.lt_irrefl _)

theorem congr (h : Telltale alone a b) (hiff : alone ↔ alone') : Telltale alone' a b := by rwa [← propext hiff]

theorem append (h1 : Telltale alone a b) (h2 : Telltale alone' c d) : Telltale (alone ∧ alone') (a ++ c) (b ++ d) := by
  have hle1 := h1.le
  have hle2 := h2.le
  rcases h1 with ⟨h1, rfl⟩ | ⟨h1, hlt⟩
  · rcases h2 with ⟨h2, rfl⟩ | ⟨h2, hlt⟩
    · exact Or.inl ⟨⟨h1, h2⟩, rfl⟩
    · exact Or.inr ⟨fun h => h2 h.2, by rw [traces_append, traces_append]; omega⟩
  · exact Or.inr ⟨fun h => h1 h.1, by rw [traces_append, traces_append]; omega⟩

theorem cons (x : Char) (h : Telltale alone a b) : Telltale alone (x :: a) (x :: b) :=
  (append (refl trivial [x]) h).congr ⟨fun h => h.2, fun h => ⟨trivial, h⟩⟩

/-- the second edit does not undo the first; what it is asked of is the text before both -/
theorem andThen {Q : Fragment → Prop} (h1 : Telltale alone a b) (h2 : Telltale (Q b) b c) :
    Telltale (alone ∧ Q a) a c := by
  have hle := h2.le
  rcases h1 with ⟨h1, rfl⟩ | ⟨h1, hlt⟩
  · exact h2.congr ⟨fun h => ⟨h1, h⟩, fun h => h.2⟩
  · exact Or.inr ⟨fun h => h1 h.1, by omega⟩

end Telltale

theorem quotedFrom_plain_inside {mark : Char} (hm : Quoting.isMark mark = true) (escaped : Bool) {text : Fragment}
    (h : Plain text) : quotedFrom (.inside mark escaped) text = text := by
  induction text generalizing escaped with
  | nil => rfl
  | cons c rest ih =>
    rw [plain_cons] at h
    rw [quotedFrom_cons_inside, Quoting.step_inside_of_plain hm h.1, ih false h.2]

end Fragment

/-! ## What a pattern edits inside quotations -/

namespace Text

open Fragment

theorem not_noMatch_of_find {pattern : Pattern} (hcov : pattern.Covers) {before : Option Char} {text : Fragment}
    {found : Match} (h : pattern before text = some found) : ¬ NoMatch pattern before text := by
  intro hno
  cases text with
  | nil =>
    obtain ⟨hne, hprefix⟩ := hcov _ _ _ h
    exact hne (List.prefix_nil.1 hprefix)
  | cons c rest => rw [hno.1] at h; cases h

/-- what is found by a pattern has fewer traces than what takes its place -/
def Pattern.Telling (pattern : Pattern) : Prop :=
  ∀ before text found, pattern before text = some found → traces found.matched < traces found.replacement

/-- **What is quoted after a replacement tells whether the pattern found anything in what was quoted before.** -/
theorem Pattern.Gentle.telltale {pattern : Pattern} (hp : pattern.Gentle) (ht : pattern.Telling)
    (before : Option Char) (text : Fragment) : ∀ q : Quoting, q.Proper →
      Telltale (NoMatch pattern before (quotedFrom q text)) (quotedFrom q text)
        (quotedFrom q (replaceFrom pattern before 0 text)) := by
  refine replaceFrom_induction hp.covers (motive := fun before text out => ∀ q : Quoting, q.Proper →
    Telltale (NoMatch pattern before (quotedFrom q text)) (quotedFrom q text) (quotedFrom q out)) ?nil ?keep ?replace
    before text
  case nil => intro before q _; exact .refl trivial []
  case keep =>
    intro before c rest out hnone ih q hq
    cases q with
    | outside =>
      by_cases hc : Quoting.isMark c = true
      · -- an opening mark is quoted itself, and nothing is found at it
        have hquoted (rest : Fragment) : quotedFrom .outside (c :: rest) = c :: quotedFrom (.inside c false) rest := by
          simp [quotedFrom, Quoting.encloses, Quoting.step, Quoting.isOpen, hc]
        rw [hquoted, hquoted]
        refine ((ih (.inside c false) hc).cons c).congr ?_
        rw [NoMatch, hp.find_mark hc]
        exact ⟨fun h => ⟨rfl, h⟩, fun h => h.2⟩
      · have hc : Quoting.isMark c = false := by simpa using hc
        rw [quotedFrom_cons_outside hc, quotedFrom_cons_outside hc]
        exact (ih .outside trivial).congr (hp.noMatch_quotedFrom_outside _ _ _)
    | inside mark escaped =>
      have hfind := hp.find_quotedFrom before hq escaped (c :: rest)
      rw [quotedFrom_cons_inside, hnone] at hfind
      rw [quotedFrom_cons_inside, quotedFrom_cons_inside]
      refine ((ih _ (Quoting.proper_step hq c)).cons c).congr ?_
      rw [NoMatch, hfind]
      exact ⟨fun h => ⟨rfl, h⟩, fun h => h.2⟩
  case replace =>
    intro before found rest out hfound ih q hq
    have hgentle := (hp.found_gentle _ _ _ hfound).1
    rw [quotedFrom_append, quotedFrom_append]
    cases q with
    | outside =>
      rw [quotedFrom_plain_outside hgentle.matched_plain, quotedFrom_plain_outside hgentle.replacement_plain,
        run_plain_outside hgentle.matched_plain, run_plain_outside hgentle.replacement_plain]
      exact (ih .outside trivial).congr (hp.noMatch_quotedFrom_outside _ _ _)
    | inside mark escaped =>
      -- the traces of this edit are there to stay, whatever the edits behind it do
      have hfind := hp.find_quotedFrom before hq escaped (found.matched ++ rest)
      have hlt := ht _ _ _ hfound
      have hle := (ih (.inside mark false) hq).le
      rw [hfound, quotedFrom_append] at hfind
      refine Or.inr ⟨not_noMatch_of_find hp.covers hfind, ?_⟩
      rw [quotedFrom_plain_inside hq _ hgentle.matched_plain, quotedFrom_plain_inside hq _ hgentle.replacement_plain,
        run_plain_inside hq hgentle.matched_plain hgentle.matched_ne_nil,
        run_plain_inside hq hgentle.replacement_plain hgentle.replacement_ne_nil, traces_append, traces_append]
      omega

/-- several replacements, one after the other, in what is seen of a text: none of them undoes another -/
theorem telltale_foldl {patterns : List Pattern} (view : Fragment → Fragment)
    (hp : ∀ edit ∈ patterns, ∀ text,
      Telltale (NoMatch edit none (view text)) (view text) (view (replaceAll edit text))) (text : Fragment) :
    Telltale (∀ edit ∈ patterns, NoMatch edit none (view text)) (view text)
      (view (patterns.foldl (fun text edit => replaceAll edit text) text)) := by
  induction patterns generalizing text with
  | nil => exact .refl (by intro edit he; cases he) _
  | cons edit patterns ih =>
    have hedit := hp edit List.mem_cons_self text
    have hrest := ih (fun edit he => hp edit (List.mem_cons_of_mem _ he)) (replaceAll edit text)
    refine (hedit.andThen (Q := fun seen => ∀ edit ∈ patterns, NoMatch edit none seen) hrest).congr ?_
    rw [List.forall_mem_cons]

/-- nothing is found behind the front of a text in which nothing is found -/
theorem NoMatch.behind {pattern : Pattern} {before : Option Char} {front text : Fragment}
    (h : NoMatch pattern before (front ++ text)) : NoMatch pattern (lastOr before front) text := by
  induction front generalizing before with
  | nil => exact h
  | cons c front ih => exact ih h.2

end Text

end SqlDialects
