/-
The rule applied to its own result. A literal that was left alone had a literal on its left, and now it has a digit
there: it is replaced the next time. A digit is no literal, so that is the last time.

- `Chained`: a literal is compared with a literal that is compared itself.
- `replaceAll_opening`: the text keeps its first word, and what follows that begins as before.
- `exists_occurs_replaceAll_iff`: literals are left behind exactly in a text with a chain.
- `exists_digit`: each of them is compared with a digit.
- `apply_twice`: a second run changes nothing exactly if there was no chain, and a third run never does.
-/
import Mathlib.Data.List.Basic
import SqlDialects.Proofs.BooleanLiteral.Occurrences

namespace SqlDialects.BooleanLiteral

open Text Fragment

/-- a literal of the text is compared with a literal that is compared itself -/
def Chained (text : Fragment) : Prop :=
  ∃ front word link literal, Occurs text front word ∧ Link link ∧ Occurs text (front ++ word ++ link) literal

variable {text rest out front literal link operand word before : Fragment} {c : Char}

/-! ## What a text begins with -/

/-- a comparison begins with a word -/
theorem comparison_of_not_word (hc : isWord c = false) (previous : Option Char) (rest : Fragment) :
    comparison previous (c :: rest) = none := by
  have hoperand : (c :: rest).takeWhile isWord = [] := List.takeWhile_cons_of_neg (by simp [hc])
  simp only [comparison, left?, hoperand, if_pos]

theorem replaceAll_signs {signs : Fragment} (h : ∀ c ∈ signs, isWord c = false) (text : Fragment) :
    replaceAll comparison (signs ++ text) = signs ++ replaceAll comparison text := by
  rw [replaceAll, replaceFrom_kept, replaceFrom_comparison]
  intro previous c tail hsuffix
  exact comparison_of_not_word (h c (hsuffix.subset List.mem_cons_self)) previous _

/-- **The first word stays**, and what follows it begins with the same character. -/
theorem replaceAll_opening (text : Fragment) : ∃ word rest rest', text = word ++ rest ∧
    replaceAll comparison text = word ++ rest' ∧ (∀ c ∈ word, isWord c = true) ∧
    (∀ c, rest.head? = some c → isWord c = false) ∧ rest'.head? = rest.head? := by
  refine replaceAll_induction (motive := fun text out => ∃ word rest rest', text = word ++ rest ∧ out = word ++ rest' ∧
    (∀ c ∈ word, isWord c = true) ∧ (∀ c, rest.head? = some c → isWord c = false) ∧ rest'.head? = rest.head?)
    ?nil ?keep ?replace text
  case nil => exact ⟨[], [], [], rfl, rfl, by simp, by simp, rfl⟩
  case keep =>
    intro c rest _ ih
    obtain ⟨word, tail, tail', htext, hout, hword, hnext, hhead⟩ := ih
    cases hc : isWord c with
    | true =>
      exact ⟨c :: word, tail, tail', congrArg (c :: ·) htext, congrArg (c :: ·) hout, List.forall_mem_cons.2 ⟨hc, hword⟩,
        hnext, hhead⟩
    | false => exact ⟨[], _, _, rfl, rfl, by simp, fun d hd => by rwa [← Option.some.inj hd], rfl⟩
  case replace =>
    intro operand link literal rest _ hoperand hcompares _
    have hlink := hcompares.linked
    obtain ⟨sign, link, rfl⟩ := List.exists_cons_of_ne_nil hlink.ne_nil
    refine ⟨operand, sign :: link ++ literal ++ rest, sign :: link ++ [digitOf literal] ++ replaceAll comparison rest,
      by simp, by simp, hoperand, fun d hd => ?_, rfl⟩
    rw [← Option.some.inj hd]
    exact hlink.not_word sign List.mem_cons_self

theorem head?_replaceAll (text : Fragment) : (replaceAll comparison text).head? = text.head? := by
  obtain ⟨word, rest, rest', htext, hout, -, -, hhead⟩ := replaceAll_opening text
  rw [hout, htext, List.head?_append, List.head?_append, hhead]

/-- which comparison a text begins with does not depend on more than the character behind the literal -/
theorem Compares.congr_rest {signs rest' : Fragment} (h : Compares link literal (signs ++ word ++ rest))
    (hsigns : ∀ c ∈ signs, isWord c = false) (hne : word ≠ []) (hword : ∀ c ∈ word, isWord c = true)
    (hnext : ∀ c, rest.head? = some c → isWord c = false) (hhead : rest'.head? = rest.head?) :
    Compares link literal (signs ++ word ++ rest') := by
  obtain ⟨rfl, rfl⟩ := h.unique hsigns hne hword hnext
  obtain ⟨tail, htext, hends⟩ := h.ends
  obtain rfl := List.append_cancel_left htext
  exact ⟨h.linked, h.spells, rest', rfl, by rwa [hhead]⟩

/-- so a text begins with an operator and a literal exactly if it does after the replacement -/
theorem compares_replaceAll_iff : Compares link literal (replaceAll comparison text) ↔ Compares link literal text := by
  obtain ⟨body, htext, hsigns, hbody⟩ := takeWhile_eq_iff.1 (rfl : text.takeWhile (fun c => !isWord c) = _)
  generalize text.takeWhile (fun c => !isWord c) = signs at *
  have hsigns' : ∀ c ∈ signs, isWord c = false := fun c hc => by simpa using hsigns c hc
  obtain ⟨word, rest, rest', hopening, hout, hword, hnext, hhead⟩ := replaceAll_opening body
  rw [htext, replaceAll_signs hsigns', hout, hopening, ← List.append_assoc, ← List.append_assoc]
  by_cases hne : word = []
  · -- behind the signs a word begins, or nothing
    have hnil : rest = [] := by
      cases rest with
      | nil => rfl
      | cons c rest =>
        have hc := hbody c (by rw [hopening, hne]; rfl)
        rw [hnext c rfl] at hc; cases hc
    subst hnil
    rw [List.head?_eq_none_iff.1 hhead]
  · exact ⟨fun h => h.congr_rest hsigns' hne hword (by rwa [hhead]) hhead.symm,
      fun h => h.congr_rest hsigns' hne hword hnext hhead⟩

/-! ## Chains along the search -/

theorem chained_keep_iff {previous : Option Char} (h : comparison previous (c :: rest) = none) :
    Chained (c :: rest) ↔ Chained rest := by
  refine ⟨?_, ?_⟩
  · intro hchained
    obtain ⟨front, word, link, literal, hword, hlink, hliteral⟩ := hchained
    obtain ⟨front', rfl, hword'⟩ := (occurs_keep_iff h).1 hword
    obtain ⟨front, heq, hliteral'⟩ := (occurs_keep_iff h).1 hliteral
    obtain rfl := (List.cons.inj heq).2
    exact ⟨front', word, link, literal, hword', hlink, hliteral'⟩
  · intro hchained
    obtain ⟨front, word, link, literal, hword, hlink, hliteral⟩ := hchained
    exact ⟨c :: front, word, link, literal, hword.behind [c], hlink, hliteral.behind [c]⟩

/-- the first literal behind a comparison is compared with the literal of that, or with something later -/
theorem occurs_past_iff (hoperand : ∀ c ∈ operand, isWord c = true) (hne : operand ≠ []) (hlink : Link link)
    (hword : ∀ c ∈ word, isWord c = true) (hne' : word ≠ []) (hnext : ∀ c, rest.head? = some c → isWord c = false)
    (front literal : Fragment) : Occurs (operand ++ link ++ word ++ rest) (operand ++ link ++ word ++ front) literal ↔
    Compares front literal rest ∨ Occurs rest front literal := by
  rw [occurs_behind_iff hoperand hne hlink hword hne' hnext]
  refine ⟨?_, ?_⟩
  · intro h
    rcases h with hsame | hcompared | hbehind
    · have hlength := congrArg List.length hsame.1
      have hpos := List.length_pos_iff.2 hne'
      simp only [List.length_append] at hlength; omega
    · obtain ⟨link', hfront, hcompares⟩ := hcompared
      rw [List.append_cancel_left hfront]; exact Or.inl hcompares
    · obtain ⟨front', hfront, hoccurs⟩ := hbehind
      rw [List.append_cancel_left hfront]; exact Or.inr hoccurs
  · intro h
    exact Or.inr (h.imp (fun h => ⟨front, rfl, h⟩) fun h => ⟨front, rfl, h⟩)

/-- behind a comparison a chain goes on or begins later -/
theorem chained_behind_iff (hoperand : ∀ c ∈ operand, isWord c = true) (hne : operand ≠ [])
    (hcompares : Compares link word (link ++ word ++ rest)) (hnext : ∀ c, rest.head? = some c → isWord c = false) :
    Chained (operand ++ link ++ word ++ rest) ↔ (∃ link literal, Compares link literal rest) ∨ Chained rest := by
  have hlink := hcompares.linked
  have hword := isWord_of_spells hcompares.spells
  have hne' := ne_nil_of_spells hcompares.spells
  have hfirst_iff := occurs_behind_iff hoperand hne hlink hword hne' hnext
  have hpast_iff := occurs_past_iff hoperand hne hlink hword hne' hnext
  refine ⟨?_, ?_⟩
  · intro h
    obtain ⟨front, first, link', literal, hfirst, hlink', hliteral⟩ := h
    rcases (hfirst_iff _ _).1 hfirst with hsame | hcompared | hbehind
    · -- the chain begins in the comparison
      obtain ⟨rfl, hcompares'⟩ := hsame
      obtain ⟨-, rfl⟩ := hcompares'.unique hlink.not_word hne' hword hnext
      have hnext' := ((hpast_iff _ _).1 hliteral).resolve_right hlink'.not_occurs
      exact Or.inl ⟨link', literal, hnext'⟩
    · obtain ⟨link'', -, hcompares'⟩ := hcompared
      exact Or.inl ⟨link'', first, hcompares'⟩
    · obtain ⟨front', rfl, hfirst'⟩ := hbehind
      rw [List.append_assoc _ front', List.append_assoc _ (front' ++ first)] at hliteral
      refine ((hpast_iff _ _).1 hliteral).imp (fun h => ⟨_, literal, h⟩) fun h => ?_
      exact ⟨front', first, link', literal, hfirst', hlink', h⟩
  · intro h
    rcases h with hcompared | hchained
    · obtain ⟨link', literal, hcompares'⟩ := hcompared
      exact ⟨operand ++ link, word, link', literal, (hfirst_iff _ _).2 (Or.inl ⟨rfl, hcompares⟩), hcompares'.linked,
        (hpast_iff _ _).2 (Or.inl hcompares')⟩
    · obtain ⟨front, first, link', literal, hfirst, hlink', hliteral⟩ := hchained
      refine ⟨operand ++ link ++ word ++ front, first, link', literal, hfirst.behind _, hlink', ?_⟩
      rw [List.append_assoc _ front, List.append_assoc _ (front ++ first)]
      exact hliteral.behind _

/-! ## What is left -/

theorem isWord_digitOf (literal : Fragment) : isWord (digitOf literal) = true := by
  unfold digitOf
  split
  all_goals decide

/-- a digit is no literal -/
theorem not_compares_digit {digit : Char} (hlink : Link link) (hdigit : isWord digit = true)
    (hnext : ∀ c, rest.head? = some c → isWord c = false) : ¬ Compares operand literal (link ++ [digit] ++ rest) := by
  intro h
  obtain ⟨-, rfl⟩ := h.unique hlink.not_word (by simp) (List.forall_mem_singleton.2 hdigit) hnext
  rcases h.spells with h | h
  all_goals exact absurd h.length_eq (by simp [trueWord, falseWord])

/-- where a literal was replaced, the next one stands behind its digit -/
theorem occurs_replaced_iff {digit : Char} (hoperand : ∀ c ∈ operand, isWord c = true) (hne : operand ≠ [])
    (hlink : Link link) (hdigit : isWord digit = true) (hnext : ∀ c, rest.head? = some c → isWord c = false)
    (front literal : Fragment) : Occurs (operand ++ link ++ [digit] ++ rest) front literal ↔
      ∃ front', front = operand ++ link ++ [digit] ++ front' ∧
        (Compares front' literal rest ∨ Occurs rest front' literal) := by
  rw [occurs_behind_iff hoperand hne hlink (List.forall_mem_singleton.2 hdigit) (by simp) hnext]
  refine ⟨?_, ?_⟩
  · intro h
    rcases h with hsame | hcompared | hbehind
    · exact absurd hsame.2 (not_compares_digit hlink hdigit hnext)
    · obtain ⟨link', rfl, hcompares⟩ := hcompared
      exact ⟨link', rfl, Or.inl hcompares⟩
    · obtain ⟨front', rfl, hoccurs⟩ := hbehind
      exact ⟨front', rfl, Or.inr hoccurs⟩
  · intro h
    obtain ⟨front', rfl, h⟩ := h
    exact Or.inr (h.imp (fun h => ⟨front', rfl, h⟩) fun h => ⟨front', rfl, h⟩)

/-- **Literals are left behind exactly in a text with a chain.** -/
theorem exists_occurs_replaceAll_iff (text : Fragment) :
    (∃ front literal, Occurs (replaceAll comparison text) front literal) ↔ Chained text := by
  refine replaceAll_induction (motive := fun text out => (∃ front literal, Occurs out front literal) ↔ Chained text)
    ?nil ?keep ?replace text
  case nil =>
    refine iff_of_false ?_ ?_
    · intro h
      obtain ⟨front, literal, hoccurs⟩ := h
      exact not_occurs_nil hoccurs
    · intro h
      obtain ⟨front, word, link, literal, hword, -, -⟩ := h
      exact not_occurs_nil hword
  case keep =>
    intro c rest hnone ih
    rw [chained_keep_iff hnone, ← ih]
    refine ⟨?_, fun h => ?_⟩
    · intro h
      obtain ⟨front, literal, hoccurs⟩ := h
      rcases occurs_cons_iff.1 hoccurs with hfirst | hlater
      · obtain ⟨hc, link, -, hcompares⟩ := hfirst
        exact absurd ⟨hc, compares_replaceAll_iff.1 hcompares⟩ (not_compares_of_kept hnone)
      · obtain ⟨front', -, hoccurs'⟩ := hlater
        exact ⟨front', literal, hoccurs'⟩
    · obtain ⟨front, literal, hoccurs⟩ := h
      exact ⟨c :: front, literal, hoccurs.behind [c]⟩
  case replace =>
    intro operand link literal rest hne hoperand hcompares ih
    have hnext := hcompares.not_word_next
    have hnext' : ∀ c, (replaceAll comparison rest).head? = some c → isWord c = false := by rwa [head?_replaceAll]
    have hoccurs_iff := occurs_replaced_iff hoperand hne hcompares.linked (isWord_digitOf literal) hnext'
    rw [chained_behind_iff hoperand hne hcompares hnext, ← ih]
    refine ⟨?_, ?_⟩
    · intro h
      obtain ⟨front, literal', hoccurs⟩ := h
      obtain ⟨front', -, h⟩ := (hoccurs_iff _ _).1 hoccurs
      exact h.imp (fun h => ⟨front', literal', compares_replaceAll_iff.1 h⟩) fun h => ⟨front', literal', h⟩
    · intro h
      rcases h with hcompared | hlater
      · obtain ⟨link', literal', hcompares'⟩ := hcompared
        exact ⟨_, literal', (hoccurs_iff _ _).2 ⟨link', rfl, Or.inl (compares_replaceAll_iff.2 hcompares')⟩⟩
      · obtain ⟨front', literal', hoccurs⟩ := hlater
        exact ⟨_, literal', (hoccurs_iff _ _).2 ⟨front', rfl, Or.inr hoccurs⟩⟩

theorem Operand.behind (h : Operand front before word) (hne : before ≠ []) (first : Fragment) :
    Operand (first ++ front) (first ++ before) word := by
  obtain ⟨link, hlink, rfl⟩ := h.front_eq
  refine ⟨⟨link, hlink, by simp⟩, h.ne_nil, h.letters, fun c hc => h.whole c ?_⟩
  rwa [List.getLast?_append_of_ne_nil _ hne] at hc

/-- **Each of them is compared with a digit.** -/
theorem exists_digit (text : Fragment) : ∀ front literal, Occurs (replaceAll comparison text) front literal →
    ∃ before digit, before ≠ [] ∧ Operand front before [digit] := by
  refine replaceAll_induction (motive := fun _ out => ∀ front literal, Occurs out front literal →
    ∃ before digit, before ≠ [] ∧ Operand front before [digit]) ?nil ?keep ?replace text
  case nil => exact fun front literal h => absurd h not_occurs_nil
  case keep =>
    intro c rest hnone ih front literal hoccurs
    rcases occurs_cons_iff.1 hoccurs with hfirst | hlater
    · obtain ⟨hc, link, -, hcompares⟩ := hfirst
      exact absurd ⟨hc, compares_replaceAll_iff.1 hcompares⟩ (not_compares_of_kept hnone)
    · obtain ⟨front', rfl, hoccurs'⟩ := hlater
      obtain ⟨before, digit, hne, hoperand⟩ := ih front' literal hoccurs'
      exact ⟨c :: before, digit, by simp, hoperand.behind hne [c]⟩
  case replace =>
    intro operand link literal rest hne hoperand hcompares ih front literal' hoccurs
    have hnext' : ∀ c, (replaceAll comparison rest).head? = some c → isWord c = false := by
      rw [head?_replaceAll]; exact hcompares.not_word_next
    have hdigit := isWord_digitOf literal
    obtain ⟨front', rfl, h⟩ := (occurs_replaced_iff hoperand hne hcompares.linked hdigit hnext' _ _).1 hoccurs
    rcases h with hcompared | hbehind
    · refine ⟨operand ++ link, digitOf literal, by simp [hne], ⟨front', hcompared.linked, rfl⟩, by simp,
        List.forall_mem_singleton.2 hdigit, fun c hc => ?_⟩
      rw [List.getLast?_append_of_ne_nil _ hcompares.linked.ne_nil] at hc
      exact hcompares.linked.not_word c (List.mem_of_getLast? hc)
    · obtain ⟨before, digit, hne', hoperand'⟩ := ih front' literal' hbehind
      exact ⟨_, digit, by simp [hne], hoperand'.behind hne' _⟩

/-- a digit is no literal, so what is left is no chain -/
theorem not_chained_replaceAll (text : Fragment) : ¬ Chained (replaceAll comparison text) := by
  intro h
  obtain ⟨front, word, link, literal, hword, hlink, hliteral⟩ := h
  obtain ⟨before, digit, -, hdigit⟩ := exists_digit text _ _ hliteral
  obtain ⟨-, rfl⟩ := hdigit.unique (operand_of_occurs hword hlink)
  obtain ⟨_, _, _, _, -, hcompares, -, -⟩ := hword
  rcases hcompares.spells with h | h
  all_goals exact absurd h.length_eq (by simp [trueWord, falseWord])

/-! ## The rule -/

theorem occurs_of_comparison {found : Match} (h : comparison none (c :: rest) = some found) :
    ∃ front literal, Occurs (c :: rest) front literal := by
  obtain ⟨tail, htext, hshape⟩ := (finds_comparison _ _ _).1 h
  obtain ⟨hleft, hl, hends⟩ := hshape
  obtain ⟨operand, link, hne, hoperand, hlink, rfl⟩ := hleft.exists_link
  have hcompares : Compares link _ (link ++ _ ++ tail) := ⟨hlink, exists_literal_iff.1 ⟨_, hl⟩, tail, rfl, hends⟩
  have hoccurs := hcompares.occurs hne hoperand
  rw [← List.append_assoc, ← List.append_assoc, ← htext] at hoccurs
  exact ⟨_, _, hoccurs⟩

/-- the rule finds something exactly in a text where a literal is compared -/
theorem noMatch_comparison_iff : NoMatch comparison none text ↔ ¬ ∃ front literal, Occurs text front literal := by
  induction text with
  | nil => exact iff_of_true trivial fun h => h.elim fun _ h => h.elim fun _ h => not_occurs_nil h
  | cons c rest ih =>
    have hbefore (text : Fragment) : comparison (some c) text = comparison none text := rfl
    rw [NoMatch, noMatch_before_congr hbefore, ih]
    cases hfind : comparison none (c :: rest) with
    | none =>
      refine (and_iff_right rfl).trans (not_congr ⟨?_, ?_⟩)
      · intro h
        obtain ⟨front, literal, hoccurs⟩ := h
        exact ⟨c :: front, literal, hoccurs.behind [c]⟩
      · intro h
        obtain ⟨front, literal, hoccurs⟩ := h
        obtain ⟨front', -, hoccurs'⟩ := (occurs_keep_iff hfind).1 hoccurs
        exact ⟨front', literal, hoccurs'⟩
    | some found => simpa using occurs_of_comparison hfind

/-- **A second run changes nothing exactly if there was no chain**, and the third one never changes anything. -/
theorem apply_twice (needs : Capabilities) (sql : Fragment) :
    (apply needs (apply needs sql) = apply needs sql ↔ (needs.integerBooleans = true → ¬ Chained sql)) ∧
      apply needs (apply needs (apply needs sql)) = apply needs (apply needs sql) := by
  have hagain (sql : Fragment) : apply needs (apply needs sql) = apply needs sql ↔
      (needs.integerBooleans = true → ¬ Chained sql) := by
    refine (advances_apply needs (apply needs sql)).eq_iff.trans (forall_congr' fun h => ?_)
    rw [noMatch_comparison_iff, apply, if_pos h, exists_occurs_replaceAll_iff]
  refine ⟨hagain sql, (hagain (apply needs sql)).2 fun h => ?_⟩
  rw [apply, if_pos h]
  exact not_chained_replaceAll sql

example : apply Dialect.sqlite.capabilities "a = true = true".toList = "a = 1 = true".toList ∧
    apply Dialect.sqlite.capabilities "a = 1 = true".toList = "a = 1 = 1".toList := by decide

end SqlDialects.BooleanLiteral
