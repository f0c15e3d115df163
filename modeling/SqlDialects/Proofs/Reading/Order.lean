/-
An order in which every edit goes up. Joining a call takes parentheses away and nothing brings any; the other edits keep
the parentheses and leave traces. So a text that was edited is another text, however many edits follow.

- `Later`: fewer parentheses, or as many and more traces.
- `Advances`: a text was left alone, or what became of it comes later; the outcome tells which (`Advances.eq_iff`), and
  still does after further edits (`Advances.andThen`).
- `Pattern.Gentle.advances`: a replacement advances the text wherever the pattern finds anything.
-/
import SqlDialects.Proofs.Reading.Traces

namespace SqlDialects

open Text

namespace Fragment

/-- how many parentheses a text opens, quoted ones included -/
def opens (text : Fragment) : Nat := text.count '('

@[simp] theorem opens_nil : opens [] = 0 := rfl

theorem opens_append (a b : Fragment) : opens (a ++ b) = opens a + opens b := List.count_append

theorem opens_parens (text : Fragment) : opens (parens text) = opens text := List.count_filter rfl

theorem opens_congr {a b : Fragment} (h : parens a = parens b) : opens a = opens b := by
  rw [← opens_parens, h, opens_parens]

theorem opens_of_flat {text : Fragment} (h : Flat text) : opens text = 0 := by
  rw [← opens_parens, h.parens_eq_nil, opens_nil]

/-- `out` opens fewer parentheses than `text`, or as many and has more traces -/
def Later (text out : Fragment) : Prop := opens out < opens text ∨ (opens out = opens text ∧ traces text < traces out)

theorem Later.ne {a b : Fragment} (h : Later a b) : b ≠ a := by
  rintro rfl
  rcases h with h | ⟨-, h⟩
  · exact absurd h (Nat.lt_irrefl _)
  · exact absurd h (Int.lt_irrefl _)

theorem Later.trans {a b c : Fragment} (h1 : Later a b) (h2 : Later b c) : Later a c := by
  unfold Later at *
  omega

/-- `text` was left alone and `out` is the same, or it was not and `out` comes later -/
def Advances (alone : Prop) (text out : Fragment) : Prop := (alone ∧ out = text) ∨ (¬ alone ∧ Later text out)

namespace Advances

variable {alone alone' : Prop} {a b c : Fragment}

theorem refl (h : alone) (a : Fragment) : Advances alone a a := Or.inl ⟨h, rfl⟩

theorem eq_iff (h : Advances alone a b) : b = a ↔ alone := by
  rcases h with ⟨h, rfl⟩ | ⟨h, hlater⟩
  · exact ⟨fun _ => h, fun _ => rfl⟩
  · exact ⟨fun heq => absurd heq hlater.ne, fun halone => absurd halone h⟩

theorem congr (h : Advances alone a b) (hiff : alone ↔ alone') : Advances alone' a b := by rwa [← propext hiff]

/-- the second edit does not undo the first; what it is asked of is the text before both -/
theorem andThen {Q : Fragment → Prop} (h1 : Advances alone a b) (h2 : Advances (Q b) b c) :
    Advances (alone ∧ Q a) a c := by
  rcases h1 with ⟨h1, rfl⟩ | ⟨h1, hlater⟩
  · exact h2.congr ⟨fun h => ⟨h1, h⟩, fun h => h.2⟩
  · refine Or.inr ⟨fun h => h1 h.1, ?_⟩
    rcases h2 with ⟨-, rfl⟩ | ⟨-, hlater'⟩
    · exact hlater
    · exact hlater.trans hlater'

end Advances

/-- traces tell where the parentheses stay -/
theorem Telltale.advances {alone : Prop} {text out : Fragment} (h : Telltale alone text out)
    (hparens : parens out = parens text) : Advances alone text out :=
  h.imp_right fun h => ⟨h.1, Or.inr ⟨opens_congr hparens, h.2⟩⟩

end Fragment

/-! ## Replacements -/

namespace Text

open Fragment

theorem parens_replaceFrom {pattern : Pattern} (hcov : pattern.Covers)
    (hedit : ∀ before text found, pattern before text = some found → parens found.matched = parens found.replacement)
    (before : Option Char) (text : Fragment) : parens (replaceFrom pattern before 0 text) = parens text := by
  refine replaceFrom_induction hcov (motive := fun _ text out => parens out = parens text) ?nil ?keep ?replace before text
  case nil => intro _; rfl
  case keep =>
    intro _ c rest out _ ih
    rw [show c :: out = [c] ++ out from rfl, show c :: rest = [c] ++ rest from rfl, parens_append, parens_append, ih]
  case replace =>
    intro _ found rest out hfound ih
    rw [parens_append, parens_append, ih, hedit _ _ _ hfound]

theorem Pattern.Gentle.parens_replaceAll {pattern : Pattern} (hp : pattern.Gentle) (text : Fragment) :
    parens (replaceAll pattern text) = parens text :=
  parens_replaceFrom hp.covers (fun _ _ _ h => (hp.found_gentle _ _ _ h).1.parens_eq) none text

theorem parens_foldl {patterns : List Pattern} (hp : ∀ edit ∈ patterns, edit.Gentle) (text : Fragment) :
    parens (patterns.foldl (fun text edit => replaceAll edit text) text) = parens text := by
  induction patterns generalizing text with
  | nil => rfl
  | cons edit patterns ih =>
    rw [List.foldl_cons, ih fun edit h => hp edit (List.mem_cons_of_mem _ h),
      (hp edit List.mem_cons_self).parens_replaceAll]

/-- what comes of a replacement tells whether the pattern found anything -/
theorem Pattern.Telling.telltale {pattern : Pattern} (ht : pattern.Telling) (hcov : pattern.Covers)
    (before : Option Char) (text : Fragment) :
    Telltale (NoMatch pattern before text) text (replaceFrom pattern before 0 text) := by
  refine replaceFrom_induction hcov (motive := fun before text out => Telltale (NoMatch pattern before text) text out)
    ?nil ?keep ?replace before text
  case nil => intro before; exact .refl trivial []
  case keep =>
    intro before c rest out hnone ih
    exact (ih.cons c).congr ⟨fun h => ⟨hnone, h⟩, fun h => h.2⟩
  case replace =>
    intro before found rest out hfound ih
    have hlt := ht _ _ _ hfound
    have hle := ih.le
    refine Or.inr ⟨not_noMatch_of_find hcov hfound, ?_⟩
    rw [traces_append, traces_append]
    omega

/-- **A replacement advances the text** exactly if the pattern finds anything. -/
theorem Pattern.Gentle.advances {pattern : Pattern} (hp : pattern.Gentle) (ht : pattern.Telling) (text : Fragment) :
    Advances (NoMatch pattern none text) text (replaceAll pattern text) :=
  (ht.telltale hp.covers none text).advances (hp.parens_replaceAll text)

end Text

end SqlDialects
