/-
The renaming of `IFNULL` and the signs of a text. What is renamed is a word and the parenthesis behind it, so no other
sign has a part in it.

- `Stop`: a sign that opens no call.
- `replaceFrom_stop`, `replaceFrom_append`: cut at a stop, or behind one, a text is renamed piece by piece.
- `exists_of_replaceFrom_stop`: what stands in front of a stop stood there before, if it holds no parenthesis.
- `head?_replaceFrom`: so a text begins with a stop after the renaming if it did before.
-/
import SqlDialects.Proofs.NullCoalesce.Renamed

namespace SqlDialects.NullCoalesce

open Text Fragment

/-- part of no word, and no parenthesis that opens -/
def Stop (c : Char) : Prop := isWord c = false ∧ c ≠ '('

instance (c : Char) : Decidable (Stop c) := inferInstanceAs (Decidable (_ ∧ _))

/-- the last character is a stop -/
def EndsInStop (text : Fragment) : Prop := ∃ front c, text = front ++ [c] ∧ Stop c

variable {name text front rest out : Fragment} {stop : Char} {before : Option Char}

theorem stop_of_isBlank {c : Char} (h : isBlank c = true) : Stop c :=
  ⟨isWord_of_isBlank h, ne_of_isBlank h (by decide)⟩

theorem EndsInStop.startsWord_lastOr (h : EndsInStop text) (before : Option Char) :
    startsWord (lastOr before text) = true := by
  obtain ⟨front, c, rfl, hc, -⟩ := h
  rw [lastOr_concat, startsWord, hc]; rfl

theorem covers_functionName (hname : ∀ c ∈ name, isWord c = true) : (functionName name).Covers :=
  (gentle_functionName (flat_of_isWord hname)).covers

/-! ## What is not renamed -/

/-- a parenthesis begins no call -/
theorem replaceFrom_paren (before : Option Char) (rest : Fragment) :
    replaceFrom (functionName name) before 0 ('(' :: rest) = '(' :: replaceFrom (functionName name) (some '(') 0 rest :=
  replaceFrom_of_none (functionName_of_not_word before (by decide) rest)

/-- without a parenthesis there is nothing to rename -/
theorem replaceFrom_of_paren_not_mem (h : '(' ∉ text) (before : Option Char) :
    replaceFrom (functionName name) before 0 text = text := by
  have hnone (before : Option Char) (c : Char) (tail : Fragment) (htail : c :: tail <:+ text) :
      functionName name before (c :: (tail ++ [])) = none := by
    cases hfound : functionName name before (c :: (tail ++ [])) with
    | none => rfl
    | some found =>
      obtain ⟨rest, hrest, -, -⟩ := (finds_functionName name _ _ found).1 hfound
      rw [List.append_nil] at hrest
      exact absurd (htail.subset (by rw [hrest]; simp)) h
  have hkept := replaceFrom_kept hnone before
  rwa [List.append_nil, replaceFrom, List.append_nil] at hkept

/-- what is there is renamed or kept, and not taken away -/
theorem replaceFrom_ne_nil (h : text ≠ []) (before : Option Char) : replaceFrom (functionName name) before 0 text ≠ [] := by
  obtain ⟨c, rest, rfl⟩ := List.exists_cons_of_ne_nil h
  cases hfound : functionName name before (c :: rest) with
  | none => rw [replaceFrom_of_none hfound]; exact List.cons_ne_nil _ _
  | some found =>
    obtain ⟨-, -, -, -⟩ := (finds_functionName name before _ found).1 hfound
    simp [replaceFrom, hfound]

/-! ## Stops -/

/-- a stop has no part in what is found in front of it -/
theorem functionName_append_stop (hstop : Stop stop) (before : Option Char) (text rest : Fragment) :
    functionName name before (text ++ stop :: rest) = functionName name before text := by
  obtain ⟨hsign, hne⟩ := hstop
  refine Option.ext fun found => ?_
  rw [finds_functionName, finds_functionName]
  refine ⟨?_, ?_⟩
  · rintro ⟨rest', htext, hb, hw⟩
    rename_i word
    rw [List.append_assoc, List.singleton_append] at htext
    rcases append_cases htext with hwithin | hacross
    · obtain ⟨tail, rfl, -⟩ := hwithin
      exact ⟨tail, by simp, .mk hb hw⟩
    · -- the stop would be the parenthesis or stand in the word
      obtain ⟨more, rfl, hmore⟩ := hacross
      cases more with
      | nil => exact absurd (List.cons.inj hmore).1 hne
      | cons c more =>
        obtain ⟨rfl, -⟩ := List.cons.inj hmore
        rw [hw.isWord isWord_callName stop (by simp)] at hsign; cases hsign
  · rintro ⟨rest', rfl, hb, hw⟩
    exact ⟨rest' ++ stop :: rest, by simp, .mk hb hw⟩

section

variable (hname : ∀ c ∈ name, isWord c = true)

include hname

/-- **Cut at a stop**, a text is renamed piece by piece. -/
theorem replaceFrom_stop (hstop : Stop stop) (before : Option Char) (text rest : Fragment) :
    replaceFrom (functionName name) before 0 (text ++ stop :: rest) =
      replaceFrom (functionName name) before 0 text ++ stop :: replaceFrom (functionName name) (some stop) 0 rest := by
  have hcov := covers_functionName hname
  refine replaceFrom_induction hcov (motive := fun before text out => replaceFrom (functionName name) before 0
    (text ++ stop :: rest) = out ++ stop :: replaceFrom (functionName name) (some stop) 0 rest) ?nil ?keep ?replace
    before text
  case nil => exact fun before => replaceFrom_of_none (functionName_of_not_word before hstop.1 rest)
  case keep =>
    intro before c text out hnone ih
    rw [← functionName_append_stop hstop before (c :: text) rest, List.cons_append] at hnone
    rw [List.cons_append, List.cons_append, replaceFrom_of_none hnone, ih]
  case replace =>
    intro before found text out hfound ih
    rw [← functionName_append_stop hstop before _ rest, List.append_assoc] at hfound
    rw [List.append_assoc, replaceFrom_match hcov hfound, ih, List.append_assoc]

/-- so it is behind a stop, whatever the rest is told to stand behind, if a word can begin there -/
theorem replaceFrom_append (htext : EndsInStop text) (before : Option Char) {before' : Option Char}
    (hb : startsWord before' = true) (rest : Fragment) : replaceFrom (functionName name) before 0 (text ++ rest) =
      replaceFrom (functionName name) before 0 text ++ replaceFrom (functionName name) before' 0 rest := by
  obtain ⟨front, stop, rfl, hstop⟩ := htext
  have hsame : replaceFrom (functionName name) (some stop) 0 rest = replaceFrom (functionName name) before' 0 rest :=
    replaceFrom_before_congr (fun text => by rw [functionName, functionName, hb, startsWord, hstop.1]; rfl) rest
  rw [replaceFrom_stop hname hstop before front [], List.append_assoc, List.singleton_append,
    replaceFrom_stop hname hstop before front rest, hsame, List.append_assoc]
  rfl

/-- **In front of a stop** stands what stood there, if it holds no parenthesis. -/
theorem exists_of_replaceFrom_stop (hstop : Stop stop) (hfront : '(' ∉ front)
    (h : replaceFrom (functionName name) before 0 text = front ++ stop :: out) : ∃ rest, text = front ++ stop :: rest := by
  have hcov := covers_functionName hname
  induction text generalizing before front with
  | nil => simp [replaceFrom] at h
  | cons d text ih =>
    cases hfound : functionName name before (d :: text) with
    | none =>
      rw [replaceFrom_of_none hfound] at h
      cases front with
      | nil =>
        obtain ⟨rfl, -⟩ := List.cons.inj h
        exact ⟨text, rfl⟩
      | cons c front =>
        rw [List.cons_append, List.cons.injEq] at h
        obtain ⟨rfl, hbehind⟩ := h
        obtain ⟨rest, rfl⟩ := ih (fun hmem => hfront (List.mem_cons_of_mem _ hmem)) hbehind
        exact ⟨rest, rfl⟩
    | some found =>
      -- the new name and its parenthesis would stand in front of the stop
      obtain ⟨rest, htext, hb, hw⟩ := (finds_functionName name before _ found).1 hfound
      rw [htext, List.append_assoc, List.singleton_append, replaceFrom_renaming (finds_functionName name) hcov hb hw] at h
      rcases append_cases h with hwithin | hacross
      · obtain ⟨tail, rfl, -⟩ := hwithin
        have hword := hname stop (by simp)
        rw [hstop.1] at hword; cases hword
      · obtain ⟨more, rfl, hmore⟩ := hacross
        cases more with
        | nil => exact absurd (List.cons.inj hmore).1.symm hstop.2
        | cons c more =>
          obtain ⟨rfl, -⟩ := List.cons.inj hmore
          exact absurd (by simp) hfront

/-- so does a text that ends in a stop, and what is behind it is renamed on its own -/
theorem exists_of_replaceFrom_append (hends : EndsInStop front) (hfront : '(' ∉ front) {before' : Option Char}
    (hb : startsWord before' = true) (h : replaceFrom (functionName name) before 0 text = front ++ out) :
    ∃ rest, text = front ++ rest ∧ out = replaceFrom (functionName name) before' 0 rest := by
  obtain ⟨rest, rfl⟩ : ∃ rest, text = front ++ rest := by
    obtain ⟨start, stop, rfl, hstop⟩ := hends
    rw [List.append_assoc, List.singleton_append] at h
    obtain ⟨rest, rfl⟩ := exists_of_replaceFrom_stop hname hstop (fun hmem => hfront (List.mem_append_left _ hmem)) h
    exact ⟨rest, by simp⟩
  rw [replaceFrom_append hname hends before hb, replaceFrom_of_paren_not_mem hfront] at h
  exact ⟨rest, rfl, (List.append_cancel_left h).symm⟩

/-- the first character is a stop if it was -/
theorem head?_replaceFrom (hstop : Stop stop) (before : Option Char) :
    (replaceFrom (functionName name) before 0 text).head? = some stop ↔ text.head? = some stop := by
  rw [List.head?_eq_some_iff, List.head?_eq_some_iff]
  refine ⟨?_, ?_⟩
  · rintro ⟨out, h⟩
    exact exists_of_replaceFrom_stop hname hstop List.not_mem_nil h
  · rintro ⟨rest, rfl⟩
    exact ⟨_, replaceFrom_stop hname hstop before [] rest⟩

end

end SqlDialects.NullCoalesce
