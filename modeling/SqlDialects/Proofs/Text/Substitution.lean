/-
Replacement as a recursion on matches: at each position a character is kept, or a match is replaced and the search
goes on behind it.

- `replaceFrom_induction`: induction along a replacement, for patterns that cover text (`Pattern.Covers`).
- `Substituted`: a text with its matches replaced, told match by match; `replaceFrom_eq_iff`: that is the replacement.
- `mem_replaceFrom`, `getLast?_replaceFrom`: what is kept of the characters, and of the last one.
- `infix_of_replaceFrom`: a text that no replacement touches from within stood there before (`Pattern.ClearOf`).
-/
import SqlDialects.Text.Substitution

namespace SqlDialects.Text

/-- what the pattern finds is not empty and begins the text it is found in -/
def Pattern.Covers (pattern : Pattern) : Prop :=
  ∀ before text found, pattern before text = some found → found.matched ≠ [] ∧ found.matched <+: text

/-- whether a pattern finds anything in a text can be computed -/
def decidableNoMatch (pattern : Pattern) : (before : Option Char) → (text : List Char) →
    Decidable (NoMatch pattern before text)
  | _, [] => inferInstanceAs (Decidable True)
  | before, c :: rest =>
    have := decidableNoMatch pattern (some c) rest
    inferInstanceAs (Decidable (pattern before (c :: rest) = none ∧ NoMatch pattern (some c) rest))

instance (pattern : Pattern) (before : Option Char) (text : List Char) : Decidable (NoMatch pattern before text) :=
  decidableNoMatch pattern before text

/-- patterns that find something at the same places -/
theorem noMatch_congr {p q : Pattern} (h : ∀ before text, p before text = none ↔ q before text = none)
    {before : Option Char} {text : List Char} : NoMatch p before text ↔ NoMatch q before text := by
  induction text generalizing before with
  | nil => exact Iff.rfl
  | cons c rest ih => rw [NoMatch, NoMatch, h, ih]

/-- a pattern that does not look at the character before -/
theorem noMatch_before_congr {pattern : Pattern} {before before' : Option Char}
    (h : ∀ text, pattern before text = pattern before' text) {text : List Char} :
    NoMatch pattern before text ↔ NoMatch pattern before' text := by
  cases text with
  | nil => exact Iff.rfl
  | cons c rest => rw [NoMatch, NoMatch, h]

/-- and so the search of a text may as well begin behind another character -/
theorem replaceFrom_before_congr {pattern : Pattern} {before before' : Option Char}
    (h : ∀ text, pattern before text = pattern before' text) (text : List Char) :
    replaceFrom pattern before 0 text = replaceFrom pattern before' 0 text := by
  cases text with
  | nil => rfl
  | cons c rest => rw [replaceFrom, replaceFrom, h]

theorem replaceFrom_eq_replaceAll {pattern : Pattern} (h : ∀ before text, pattern before text = pattern none text)
    (before : Option Char) (text : List Char) : replaceFrom pattern before 0 text = replaceAll pattern text :=
  replaceFrom_before_congr (h before) text

theorem replaceFrom_match {pattern : Pattern} (hcov : pattern.Covers) {before : Option Char} {found : Match}
    {rest : List Char} (h : pattern before (found.matched ++ rest) = some found) :
    replaceFrom pattern before 0 (found.matched ++ rest) =
      found.replacement ++ replaceFrom pattern (lastOr before found.matched) 0 rest := by
  obtain ⟨matched, replacement⟩ := found
  cases matched with
  | nil => exact absurd rfl (hcov _ _ _ h).1
  | cons c cs => exact replaceFrom_of_match h

/-- nothing is found where a character of `kept` stands, with `before` in front of it and `rest` behind -/
def NoneWithin (pattern : Pattern) (before : Option Char) (kept rest : List Char) : Prop :=
  ∀ front c tail, kept = front ++ c :: tail → pattern (lastOr before front) (c :: (tail ++ rest)) = none

theorem noneWithin_nil (pattern : Pattern) (before : Option Char) (rest : List Char) :
    NoneWithin pattern before [] rest := by
  intro front c tail hsplit
  simp at hsplit

theorem noneWithin_cons_iff {pattern : Pattern} {before : Option Char} {c : Char} {kept rest : List Char} :
    NoneWithin pattern before (c :: kept) rest ↔
      pattern before (c :: (kept ++ rest)) = none ∧ NoneWithin pattern (some c) kept rest := by
  refine ⟨?_, ?_⟩
  · intro h
    exact ⟨h [] c kept rfl, fun front d tail hsplit => h (c :: front) d tail (by rw [hsplit]; rfl)⟩
  · intro h front d tail hsplit
    obtain ⟨hfirst, hlater⟩ := h
    cases front with
    | nil =>
      obtain ⟨rfl, rfl⟩ := List.cons.inj hsplit
      exact hfirst
    | cons e front =>
      obtain ⟨rfl, hkept⟩ := List.cons.inj hsplit
      exact hlater front d tail hkept

/-- a text in front is kept if nothing is found within it -/
theorem replaceFrom_noneWithin {pattern : Pattern} {before : Option Char} {kept rest : List Char}
    (h : NoneWithin pattern before kept rest) :
    replaceFrom pattern before 0 (kept ++ rest) = kept ++ replaceFrom pattern (lastOr before kept) 0 rest := by
  induction kept generalizing before with
  | nil => rfl
  | cons c kept ih =>
    obtain ⟨hfirst, hlater⟩ := noneWithin_cons_iff.1 h
    rw [List.cons_append, replaceFrom_of_none hfirst, ih hlater, List.cons_append, lastOr]

/-- whatever stands before it, if nothing is found behind any character -/
theorem replaceFrom_kept {pattern : Pattern} {kept rest : List Char}
    (h : ∀ before c tail, c :: tail <:+ kept → pattern before (c :: (tail ++ rest)) = none) (before : Option Char) :
    replaceFrom pattern before 0 (kept ++ rest) = kept ++ replaceFrom pattern (lastOr before kept) 0 rest :=
  replaceFrom_noneWithin fun front c tail hsplit => h (lastOr before front) c tail ⟨front, hsplit.symm⟩

theorem lastOr_append (before : Option Char) (a b : List Char) :
    lastOr before (a ++ b) = lastOr (lastOr before a) b := by
  induction a generalizing before with
  | nil => rfl
  | cons c a ih => exact ih (some c)

theorem lastOr_concat (before : Option Char) (front : List Char) (c : Char) : lastOr before (front ++ [c]) = some c := by
  rw [lastOr_append]; rfl

theorem lastOr_none (text : List Char) : lastOr none text = text.getLast? := by
  rcases List.eq_nil_or_concat text with rfl | ⟨front, c, rfl⟩
  · rfl
  · rw [List.concat_eq_append, lastOr_concat, List.getLast?_concat]

/-- a match at the front, and nothing to be found behind it -/
theorem replaceAll_front {pattern : Pattern} {c : Char} {front rest out : List Char}
    (h : pattern none (c :: (front ++ rest)) = some ⟨c :: front, out⟩) (hrest : NoMatch pattern (lastOr none (c :: front)) rest) :
    replaceAll pattern (c :: (front ++ rest)) = out ++ rest := by
  rw [replaceAll, replaceFrom_of_match h, replaceFrom_eq_self hrest]

/-- **Induction along a replacement**: nothing is left, a character is kept, or a match is replaced. -/
theorem replaceFrom_induction {pattern : Pattern} (hcov : pattern.Covers)
    {motive : Option Char → List Char → List Char → Prop} (nil : ∀ before, motive before [] [])
    (keep : ∀ before c rest out, pattern before (c :: rest) = none → motive (some c) rest out →
      motive before (c :: rest) (c :: out))
    (replace : ∀ before found rest out, pattern before (found.matched ++ rest) = some found →
      motive (lastOr before found.matched) rest out →
      motive before (found.matched ++ rest) (found.replacement ++ out))
    (before : Option Char) (text : List Char) : motive before text (replaceFrom pattern before 0 text) := by
  induction hn : text.length using Nat.strongRecOn generalizing before text with
  | ind n ih =>
    cases text with
    | nil => exact nil before
    | cons c rest =>
      cases hp : pattern before (c :: rest) with
      | none =>
        rw [replaceFrom_of_none hp]
        exact keep before c rest _ hp (ih rest.length (by simp [← hn]) (some c) rest rfl)
      | some found =>
        obtain ⟨hne, tail, htail⟩ := hcov _ _ _ hp
        have hlen : tail.length < n := by
          have := congrArg List.length htail
          have := List.length_pos_iff.2 hne
          simp only [List.length_append] at *; omega
        rw [← htail] at hp ⊢
        rw [replaceFrom_match hcov hp]
        exact replace before found tail _ hp (ih tail.length hlen _ tail rfl)

variable {pattern : Pattern}

/-- The text behind `before` with its matches replaced, told match by match: nothing is found in front of the first one,
that one is replaced, and so it goes on behind it, up to where nothing is found any more. -/
inductive Substituted (pattern : Pattern) : (before : Option Char) → (text out : List Char) → Prop
  | kept {before : Option Char} {text : List Char} : NoMatch pattern before text → Substituted pattern before text text
  | replaced {before : Option Char} {kept rest out : List Char} {found : Match} :
      NoneWithin pattern before kept (found.matched ++ rest) →
      pattern (lastOr before kept) (found.matched ++ rest) = some found →
      Substituted pattern (lastOr (lastOr before kept) found.matched) rest out →
      Substituted pattern before (kept ++ (found.matched ++ rest)) (kept ++ (found.replacement ++ out))

theorem Substituted.cons {before : Option Char} {c : Char} {rest out : List Char}
    (hnone : pattern before (c :: rest) = none) (h : Substituted pattern (some c) rest out) :
    Substituted pattern before (c :: rest) (c :: out) := by
  cases h with
  | kept hrest => exact .kept ⟨hnone, hrest⟩
  | replaced hwithin hfound hbehind => exact .replaced (noneWithin_cons_iff.2 ⟨hnone, hwithin⟩) hfound hbehind

theorem substituted_replaceFrom (hcov : pattern.Covers) (before : Option Char) (text : List Char) :
    Substituted pattern before text (replaceFrom pattern before 0 text) := by
  refine replaceFrom_induction hcov (motive := Substituted pattern) ?nil ?keep ?replace before text
  case nil => exact fun before => .kept trivial
  case keep => exact fun before c rest out hnone h => h.cons hnone
  case replace =>
    intro before found rest out hfound h
    have hstep := Substituted.replaced (noneWithin_nil pattern before (found.matched ++ rest)) hfound h
    exact hstep

/-- **What a replacement leaves and what it replaces.** -/
theorem replaceFrom_eq_iff (hcov : pattern.Covers) {before : Option Char} {text out : List Char} :
    replaceFrom pattern before 0 text = out ↔ Substituted pattern before text out := by
  refine ⟨?_, ?_⟩
  · intro hout
    rw [← hout]
    exact substituted_replaceFrom hcov before text
  · intro h
    induction h with
    | kept hnone => exact replaceFrom_eq_self hnone
    | replaced hwithin hfound _ ih => rw [replaceFrom_noneWithin hwithin, replaceFrom_match hcov hfound, ih]

/-- what holds of all characters still does after replacements that keep it -/
theorem mem_replaceFrom {Q : Char → Prop} (hcov : pattern.Covers)
    (hedit : ∀ before text found, pattern before text = some found →
      (∀ c ∈ found.matched, Q c) → ∀ c ∈ found.replacement, Q c) (before : Option Char) (text : List Char) :
    (∀ c ∈ text, Q c) → ∀ c ∈ replaceFrom pattern before 0 text, Q c := by
  refine replaceFrom_induction hcov (motive := fun _ text out => (∀ c ∈ text, Q c) → ∀ c ∈ out, Q c) ?nil ?keep ?replace
    before text
  case nil => intro _ h; exact h
  case keep =>
    intro _ c rest out _ ih h
    rw [List.forall_mem_cons] at h ⊢
    exact h.imp_right ih
  case replace =>
    intro _ found rest out hfound ih h
    rw [List.forall_mem_append] at h ⊢
    exact h.imp (hedit _ _ _ hfound) ih

/-- a text still ends with the character that it ended with, if no match holds it -/
theorem getLast?_replaceFrom {last : Char} (hcov : pattern.Covers)
    (hmatched : ∀ before text found, pattern before text = some found → last ∉ found.matched) (before : Option Char)
    {text : List Char} : text.getLast? = some last → (replaceFrom pattern before 0 text).getLast? = some last := by
  refine replaceFrom_induction hcov (motive := fun before text _ => text.getLast? = some last →
    (replaceFrom pattern before 0 text).getLast? = some last) ?nil ?keep ?replace before text
  case nil => intro _ h; exact h
  case keep =>
    intro _ c rest _ hnone ih h
    rw [replaceFrom_of_none hnone]
    cases rest with
    | nil => exact h
    | cons d rest => rw [List.getLast?_cons, ih (List.getLast?_cons_cons.symm.trans h)]; rfl
  case replace =>
    intro _ found rest _ hfound ih h
    rw [replaceFrom_match hcov hfound, List.getLast?_append]
    rw [List.getLast?_append] at h
    cases hrest : rest.getLast? with
    | none =>
      rw [hrest, Option.none_or] at h
      exact absurd (List.mem_of_getLast? h) (hmatched _ _ _ hfound)
    | some c =>
      rw [hrest, Option.some_or] at h
      rw [ih (hrest.trans h), Option.some_or]

/-- what the pattern puts into a text holds no part of `w` at its ends, and `w` itself only where that was matched -/
structure Pattern.ClearOf (pattern : Pattern) (w : List Char) : Prop where
  first : ∀ before text found, pattern before text = some found → ∃ c, found.replacement.head? = some c ∧ c ∉ w
  last : ∀ before text found, pattern before text = some found → ∃ c, found.replacement.getLast? = some c ∧ c ∉ w
  within : ∀ before text found, pattern before text = some found → w <:+: found.replacement → w <:+: found.matched

/-- **Replacements do not bring `w`**: it stands in a text after them only if it stood there before. -/
theorem infix_of_replaceFrom {w : List Char} (hcov : pattern.Covers) (hp : pattern.ClearOf w) (before : Option Char)
    (text : List Char) : w <:+: replaceFrom pattern before 0 text → w <:+: text := by
  -- what a text begins with of `w` has to be followed as well
  suffices h : (∀ v, v ⊆ w → v <+: replaceFrom pattern before 0 text → v <+: text) ∧
      (w <:+: replaceFrom pattern before 0 text → w <:+: text) from h.2
  refine replaceFrom_induction hcov (motive := fun _ text out => (∀ v, v ⊆ w → v <+: out → v <+: text) ∧
    (w <:+: out → w <:+: text)) ?nil ?keep ?replace before text
  case nil => intro _; exact ⟨fun _ _ h => h, id⟩
  case keep =>
    intro _ c rest out _ ih
    obtain ⟨hfront, hwithin⟩ := ih
    have hfront' (v : List Char) (hv : v ⊆ w) (h : v <+: c :: out) : v <+: c :: rest := by
      rw [List.prefix_cons_iff] at h ⊢
      refine h.imp_right fun hv' => ?_
      obtain ⟨tail, rfl, htail⟩ := hv'
      exact ⟨tail, rfl, hfront tail (List.subset_of_cons_subset hv) htail⟩
    refine ⟨hfront', fun h => ?_⟩
    rw [List.infix_cons_iff] at h ⊢
    exact h.imp (hfront' w (List.Subset.refl w)) hwithin
  case replace =>
    intro _ found rest out hfound ih
    obtain ⟨first, hfirst, hnot⟩ := hp.first _ _ _ hfound
    obtain ⟨last, hlast, hnot'⟩ := hp.last _ _ _ hfound
    refine ⟨fun v hv h => ?_, fun h => ?_⟩
    · obtain ⟨tail, htail⟩ := List.head?_eq_some_iff.1 hfirst
      rw [htail, List.cons_append, List.prefix_cons_iff] at h
      rcases h with rfl | ⟨v, rfl, -⟩
      · exact List.nil_prefix
      · exact absurd (hv List.mem_cons_self) hnot
    · rcases List.infix_append_iff.1 h with h | h | ⟨a, b, rfl, ha, hb⟩
      · exact (hp.within _ _ _ hfound h).trans (List.prefix_append _ _).isInfix
      · exact (ih.2 h).trans (List.suffix_append _ _).isInfix
      · have hnil : a = [] := by
          obtain ⟨front, hfront⟩ := List.getLast?_eq_some_iff.1 hlast
          rw [hfront, List.suffix_concat_iff] at ha
          refine ha.resolve_right fun hmore => ?_
          obtain ⟨tail, rfl, -⟩ := hmore
          exact hnot' (by simp)
        subst hnil
        exact (ih.2 hb.isInfix).trans (List.suffix_append _ _).isInfix

end SqlDialects.Text
