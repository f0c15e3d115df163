/-
A pattern that does not stand in the way of a renaming, nor the renaming in its way, so that both can be replaced in
either order.

- `Follows`: a match goes along with the renaming: it is found in the renamed text, and matched and replaced texts are
  renamed each on its own.
- `Independent`: neither brings what the other finds, the pattern passes over the names, and its matches follow.
- `Independent.comm`: then it does not matter which comes first.
- `independent_of_signs`, `independent_of_openings`: the pattern may look for signs (`Pattern.OfSigns`), or for openings of
  another function if the names end in different ways.
-/
import SqlDialects.Proofs.Call.Openings

namespace SqlDialects.Text

open Fragment

/-- what the pattern `p` finds goes along with the renaming `q` -/
structure Follows (p q : Pattern) (before : Option Char) (found : Match) (rest : Fragment) : Prop where
  cut : replaceFrom q before 0 (found.matched ++ rest) =
    replaceFrom q before 0 found.matched ++ replaceFrom q (lastOr before found.matched) 0 rest
  renamed : p before (replaceFrom q before 0 found.matched ++ replaceFrom q (lastOr before found.matched) 0 rest) =
    some ⟨replaceFrom q before 0 found.matched, replaceFrom q before 0 found.replacement⟩
  replaced : ∀ out, replaceFrom q before 0 (found.replacement ++ out) =
    replaceFrom q before 0 found.replacement ++ replaceFrom q (lastOr before found.matched) 0 out

/-- the pattern `p` and the renaming `q` of `function` to `name` do not stand in each other's way -/
structure Independent (p q : Pattern) (function name : Fragment) : Prop where
  covers : p.Covers
  /-- the pattern does not look at the character before -/
  anywhere : ∀ before text, p before text = p none text
  /-- the renaming brings nothing to be found -/
  none_of_renamed : ∀ before text, p before text = none → p before (replaceFrom q before 0 text) = none
  /-- nothing to be renamed is brought -/
  none_to_rename : ∀ before text, q before text = none → q before (replaceAll p text) = none
  /-- nothing is found within the names -/
  passes : ∀ word rest, word = name ∨ Spells function word →
    replaceAll p (word ++ '(' :: rest) = word ++ replaceAll p ('(' :: rest)
  /-- a parenthesis that opens is not taken away -/
  opens : ∀ rest, ∃ out, replaceAll p ('(' :: rest) = '(' :: out
  follows : ∀ before found rest, p before (found.matched ++ rest) = some found → Follows p q before found rest

variable {p q : Pattern} {function name : Fragment} {allowed : Option Char → Prop} {before : Option Char}

/-! ## One step -/

theorem Independent.replaceAll_keep (h : Independent p q function name) {c : Char} {rest : Fragment}
    (hnone : p before (c :: rest) = none) : replaceAll p (c :: rest) = c :: replaceAll p rest := by
  rw [h.anywhere] at hnone
  rw [replaceAll, replaceFrom_of_none hnone, replaceFrom_eq_replaceAll h.anywhere]

theorem Independent.replaceAll_match (h : Independent p q function name) {matched replacement rest : Fragment}
    (hfound : p before (matched ++ rest) = some ⟨matched, replacement⟩) :
    replaceAll p (matched ++ rest) = replacement ++ replaceAll p rest := by
  let found : Match := ⟨matched, replacement⟩
  have hfind : p none (found.matched ++ rest) = some found := by rw [← h.anywhere before]; exact hfound
  rw [← replaceFrom_eq_replaceAll h.anywhere (lastOr none matched) rest]
  exact replaceFrom_match h.covers hfind

/-! ## Both in either order -/

section

variable (h : Independent p q function name)

include h

/-- at a match -/
theorem Independent.comm_found {found : Match} {rest : Fragment}
    (hfound : p before (found.matched ++ rest) = some found)
    (ih : replaceAll p (replaceFrom q (lastOr before found.matched) 0 rest) =
      replaceFrom q (lastOr before found.matched) 0 (replaceAll p rest)) :
    replaceAll p (replaceFrom q before 0 (found.matched ++ rest)) =
      replaceFrom q before 0 (replaceAll p (found.matched ++ rest)) := by
  have hfollows := h.follows before found rest hfound
  rw [hfollows.cut, h.replaceAll_match hfollows.renamed, ih, h.replaceAll_match hfound, hfollows.replaced]

/-- at a character that both keep -/
theorem Independent.comm_kept {c : Char} {rest : Fragment} (hp : p before (c :: rest) = none)
    (hq : q before (c :: rest) = none)
    (ih : replaceAll p (replaceFrom q (some c) 0 rest) = replaceFrom q (some c) 0 (replaceAll p rest)) :
    replaceAll p (replaceFrom q before 0 (c :: rest)) = replaceFrom q before 0 (replaceAll p (c :: rest)) := by
  have hp' := h.none_of_renamed before _ hp
  have hq' := h.none_to_rename before _ hq
  rw [replaceFrom_of_none hq] at hp' ⊢
  rw [h.replaceAll_keep hp] at hq' ⊢
  rw [h.replaceAll_keep hp', ih, replaceFrom_of_none hq']

/-- at a call to rename; its parenthesis is left to the pattern, which may find something there -/
theorem Independent.comm_call (hq : q.Finds (Renaming function name allowed)) (hcov : q.Covers)
    (hparen : ∀ before rest, q before ('(' :: rest) = none) {word : Fragment} (ha : allowed before)
    (hw : Spells function word) {rest : Fragment}
    (ih : replaceAll p (replaceFrom q none 0 ('(' :: rest)) = replaceFrom q none 0 (replaceAll p ('(' :: rest))) :
    replaceAll p (replaceFrom q before 0 (word ++ '(' :: rest)) =
      replaceFrom q before 0 (replaceAll p (word ++ '(' :: rest)) := by
  obtain ⟨out, hout⟩ := h.opens rest
  rw [hout, replaceFrom_of_none (hparen none rest), replaceFrom_of_none (hparen none out)] at ih
  rw [replaceFrom_renaming hq hcov ha hw, h.passes name _ (Or.inl rfl), ih, h.passes word rest (Or.inr hw), hout,
    replaceFrom_renaming hq hcov ha hw]

/-- **It does not matter which comes first.** -/
theorem Independent.comm (hq : q.Finds (Renaming function name allowed)) (hcov : q.Covers)
    (hparen : ∀ before rest, q before ('(' :: rest) = none) (before : Option Char) (text : Fragment) :
    replaceAll p (replaceFrom q before 0 text) = replaceFrom q before 0 (replaceAll p text) := by
  -- a match of either covers several characters, and a call is passed up to its parenthesis only
  induction hn : text.length using Nat.strongRecOn generalizing before text with
  | ind n ih =>
    subst hn
    cases text with
    | nil => rfl
    | cons c rest =>
      cases hp : p before (c :: rest) with
      | some found =>
        obtain ⟨hne, tail, htext⟩ := h.covers _ _ _ hp
        rw [← htext] at hp ih ⊢
        refine h.comm_found hp (ih tail.length ?_ _ tail rfl)
        have := List.length_pos_iff.2 hne
        rw [List.length_append]; omega
      | none =>
        cases hcall : q before (c :: rest) with
        | none => exact h.comm_kept hp hcall (ih rest.length (Nat.lt_succ_self _) (some c) rest rfl)
        | some found =>
          obtain ⟨body, htext, ha, hw⟩ := (hq before _ found).1 hcall
          rename_i word
          have hne : word ≠ [] := by
            rintro rfl
            obtain rfl : c = '(' := (List.cons.inj htext).1
            rw [hparen] at hcall; cases hcall
          rw [List.append_assoc, List.singleton_append] at htext
          rw [htext] at ih ⊢
          refine h.comm_call hq hcov hparen ha hw (ih _ ?_ none ('(' :: body) rfl)
          have := List.length_pos_iff.2 hne
          rw [List.length_append]; omega

end

/-- and so of patterns that are replaced one after the other -/
theorem foldl_comm (hq : q.Finds (Renaming function name allowed)) (hcov : q.Covers)
    (hparen : ∀ before rest, q before ('(' :: rest) = none) {patterns : List Pattern}
    (h : ∀ p ∈ patterns, Independent p q function name) (before : Option Char) (text : Fragment) :
    patterns.foldl (fun text p => replaceAll p text) (replaceFrom q before 0 text) =
      replaceFrom q before 0 (patterns.foldl (fun text p => replaceAll p text) text) := by
  induction patterns generalizing text with
  | nil => rfl
  | cons p patterns ih =>
    rw [List.foldl_cons, List.foldl_cons, (h p List.mem_cons_self).comm hq hcov hparen]
    exact ih (fun p hp => h p (List.mem_cons_of_mem _ hp)) _

/-! ## Signs -/

/-- what the pattern finds begins with a sign, and so does what takes its place; a parenthesis stays one -/
def Pattern.OfSigns (p : Pattern) : Prop :=
  ∀ before text found, p before text = some found → ∃ c rest d more, text = c :: rest ∧ found.replacement = d :: more ∧
    isWord c = false ∧ isWord d = false ∧ (c = '(' ↔ d = '(')

/-- a word in front of a parenthesis stood there before -/
theorem Pattern.OfSigns.exists_of_word (hp : p.OfSigns) (hcov : p.Covers) {text word out : Fragment}
    (hword : ∀ c ∈ word, isWord c = true) (h : replaceFrom p before 0 text = word ++ '(' :: out) :
    ∃ rest, text = word ++ '(' :: rest := by
  induction text generalizing before word with
  | nil => simp [replaceFrom] at h
  | cons c text ih =>
    cases hfound : p before (c :: text) with
    | none =>
      rw [replaceFrom_of_none hfound] at h
      cases word with
      | nil =>
        obtain ⟨rfl, -⟩ := List.cons.inj h
        exact ⟨text, rfl⟩
      | cons w word =>
        rw [List.cons_append, List.cons.injEq] at h
        obtain ⟨rfl, hbehind⟩ := h
        obtain ⟨rest, rfl⟩ := ih (fun d hd => hword d (List.mem_cons_of_mem _ hd)) hbehind
        exact ⟨rest, rfl⟩
    | some found =>
      obtain ⟨-, tail, htail⟩ := hcov _ _ _ hfound
      obtain ⟨c', rest, d, more, htext, hmore, -, hd, hparen⟩ := hp _ _ _ hfound
      rw [← htail] at hfound h
      rw [replaceFrom_match hcov hfound, hmore] at h
      cases word with
      | nil =>
        obtain ⟨rfl, -⟩ := List.cons.inj h
        obtain rfl := hparen.2 rfl
        exact ⟨rest, htext⟩
      | cons w word =>
        obtain ⟨rfl, -⟩ := List.cons.inj h
        rw [hword d List.mem_cons_self] at hd; cases hd

/-- **A pattern of signs** is independent of a renaming that brings nothing to be found, if the matches follow. -/
theorem independent_of_signs (hcov : p.Covers) (hanywhere : ∀ before text, p before text = p none text)
    (hsigns : p.OfSigns) (hq : q.Finds (Renaming function name allowed)) (hf : ∀ k ∈ function, isWord k = true)
    (hname : ∀ c ∈ name, isWord c = true)
    (hnone : ∀ before text, p before text = none → p before (replaceFrom q before 0 text) = none)
    (hfollows : ∀ before found rest, p before (found.matched ++ rest) = some found → Follows p q before found rest) :
    Independent p q function name := by
  refine ⟨hcov, hanywhere, hnone, ?toRename, ?passes, ?opens, hfollows⟩
  case toRename =>
    intro before text hq'
    cases hfound : q before (replaceAll p text) with
    | none => rfl
    | some found =>
      obtain ⟨body, htext, ha, hw⟩ := (hq _ _ found).1 hfound
      rw [List.append_assoc, List.singleton_append] at htext
      obtain ⟨rest, rfl⟩ := hsigns.exists_of_word hcov (hw.isWord hf) htext
      exact absurd hq' ((hq.findsOpenings before _).2 ⟨ha, _, rest, hw, rfl, trivial⟩)
  case passes =>
    intro word rest hword
    have hletters : ∀ c ∈ word, isWord c = true := by
      rcases hword with rfl | hw
      · exact hname
      · exact hw.isWord hf
    have hnone (before : Option Char) (c : Char) (tail : Fragment) (htail : c :: tail <:+ word) :
        p before (c :: (tail ++ '(' :: rest)) = none := by
      cases hfound : p before (c :: (tail ++ '(' :: rest)) with
      | none => rfl
      | some found =>
        obtain ⟨c', more, -, -, htext, -, hc, -⟩ := hsigns _ _ _ hfound
        rw [← (List.cons.inj htext).1, hletters c (htail.subset List.mem_cons_self)] at hc; cases hc
    rw [replaceAll, replaceFrom_kept hnone, replaceFrom_eq_replaceAll hanywhere]
  case opens =>
    intro rest
    cases hfound : p none ('(' :: rest) with
    | none => exact ⟨_, replaceFrom_of_none hfound⟩
    | some found =>
      obtain ⟨-, tail, htail⟩ := hcov _ _ _ hfound
      obtain ⟨c, rest', d, more, htext, hmore, -, -, hparen⟩ := hsigns _ _ _ hfound
      obtain rfl := hparen.1 (List.cons.inj htext).1.symm
      rw [← htail] at hfound ⊢
      rw [replaceAll, replaceFrom_match hcov hfound, hmore]
      exact ⟨_, rfl⟩

/-! ## Openings of another function -/

/-- **Openings of another function** that takes a new name are independent of the renaming, if the names that meet end in
different ways and the matches follow. -/
theorem independent_of_openings {other other' : Fragment} {ok : Fragment → Prop} (hcov : p.Covers)
    (hanywhere : ∀ before text, p before text = p none text) (hren : p.Renames other')
    (hfind : FindsOpenings p other (fun _ => True) ok) (hq : q.Finds (Renaming function name allowed)) (hcovq : q.Covers)
    (hok : ∀ body, ok (replaceFrom q (some '(') 0 body) → ok body) (hf : ∀ k ∈ function, isWord k = true)
    (hother : ∀ k ∈ other, isWord k = true) (hname : '(' ∉ name) (hother' : '(' ∉ other') (hapart : Apart other name)
    (hapart' : Apart function other') (hwords : ∀ word, Spells function word → Apart other word)
    (hfollows : ∀ before found rest, p before (found.matched ++ rest) = some found → Follows p q before found rest) :
    Independent p q function name := by
  have hwithin {word : Fragment} (h : word = name ∨ Spells function word) : '(' ∉ word ∧ Apart other word := by
    rcases h with rfl | hw
    · exact ⟨hname, hapart⟩
    · exact ⟨paren_not_mem hf hw, hwords word hw⟩
  refine ⟨hcov, hanywhere, ?renamed, ?toRename, ?passes, ?opens, hfollows⟩
  case renamed =>
    intro before text hnone
    exact none_of_replaceFrom hcovq hq.renames hname hfind hother hapart hok hnone
  case toRename =>
    intro before text hnone
    rw [← replaceFrom_eq_replaceAll hanywhere before]
    exact none_of_replaceFrom hcov hren hother' hq.findsOpenings hf hapart' (fun _ _ => trivial) hnone
  case passes =>
    intro word rest hword
    obtain ⟨hparen, hends⟩ := hwithin hword
    have hnone (before : Option Char) (c : Char) (tail : Fragment) (htail : c :: tail <:+ word) :
        p before (c :: (tail ++ '(' :: rest)) = none := none_within hfind hother hparen hends htail rest
    rw [replaceAll, replaceFrom_kept hnone, replaceFrom_eq_replaceAll hanywhere]
  case opens =>
    intro rest
    exact ⟨_, replaceFrom_of_none (none_within hfind hother hname hapart List.nil_suffix rest)⟩

end SqlDialects.Text
