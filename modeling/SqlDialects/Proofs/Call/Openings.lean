/-
Which openings of calls there are after a replacement. A new name brings no opening of another function if no spelling
of that function ends as the name does; all other openings were there before.

- `Apart`: the keyword and the name differ in some letter, counted from their ends.
- `FindsOpenings`: a search that finds the openings of one function, as far as their bodies are `ok`.
- `noMatch_iff`: where nothing is found, told by the openings of the text.
- `replaceFrom_renaming`: a call is given its new name, and the search goes on behind the parenthesis.
- `replaceFrom_front`: what stands in front of a parenthesis after a replacement stood there before, or ends with the
  new name.
- `none_of_replaceFrom`, `none_within`: so no opening comes up at the front, nor within the new name.
- `noMatch_renamed`: after functions were renamed none is left to be renamed.
- `noMatch_replaceFrom`: where no opening of one function is found, none is found after another function was renamed.
-/
import SqlDialects.Proofs.Call.Renaming

namespace SqlDialects.Text

open Fragment

/-! ## Names that end differently -/

/-- counted from their ends, the keyword and the name differ in some letter -/
def Apart (keyword name : Fragment) : Prop := ∃ p ∈ keyword.reverse.zip name.reverse, sameLetter p.1 p.2 = false

instance (keyword name : Fragment) : Decidable (Apart keyword name) :=
  decidable_of_iff ((keyword.reverse.zip name.reverse).any (fun p => !sameLetter p.1 p.2) = true) (by simp [Apart])

theorem sameLetter_of_mem_zip {keyword word : Fragment} (h : Spells keyword word) :
    ∀ p ∈ keyword.reverse.zip word.reverse, sameLetter p.1 p.2 = true := by
  induction h with
  | nil => intro p hp; cases hp
  | cons hsame hrest ih =>
    intro p hp
    rw [List.reverse_cons, List.reverse_cons, List.zip_append (by simp [hrest.length_eq]), List.mem_append] at hp
    rcases hp with hp | hp
    · exact ih p hp
    · rw [List.mem_singleton.1 hp]; exact hsame

theorem zip_append_right (a b c : Fragment) : ∃ more, a.zip (b ++ c) = a.zip b ++ more := by
  induction a generalizing b with
  | nil => exact ⟨[], rfl⟩
  | cons x a ih =>
    cases b with
    | nil => exact ⟨(x :: a).zip c, rfl⟩
    | cons y b =>
      obtain ⟨more, hmore⟩ := ih b
      exact ⟨more, by rw [List.cons_append, List.zip_cons_cons, List.zip_cons_cons, hmore, List.cons_append]⟩

variable {function name word : Fragment}

/-- no spelling of the keyword ends with the name -/
theorem Apart.not_suffix (h : Apart function name) (hw : Spells function word) : ¬ name <:+ word := by
  rintro ⟨front, rfl⟩
  obtain ⟨p, hp, hdiff⟩ := h
  obtain ⟨more, hmore⟩ := zip_append_right function.reverse name.reverse front.reverse
  have hsame := sameLetter_of_mem_zip hw p (by rw [List.reverse_append, hmore]; exact List.mem_append_left _ hp)
  rw [hdiff] at hsame; cases hsame

/-- and the name ends with none -/
theorem Apart.not_suffix' (h : Apart function name) (hw : Spells function word) : ¬ word <:+ name := by
  rintro ⟨front, rfl⟩
  obtain ⟨p, hp, hdiff⟩ := h
  have hzip : function.reverse.zip (word.reverse ++ front.reverse) = function.reverse.zip word.reverse := by
    have hsplit : (function.reverse ++ []).zip (word.reverse ++ front.reverse) =
        function.reverse.zip word.reverse ++ [].zip front.reverse := List.zip_append (by simp [hw.length_eq])
    simpa using hsplit
  have hsame := sameLetter_of_mem_zip hw p (by rwa [List.reverse_append, hzip] at hp)
  rw [hdiff] at hsame; cases hsame

/-! ## Openings -/

/-- the search finds the openings of one function, where the character before is allowed and the body is `ok` -/
def FindsOpenings {α : Type} (find : Option Char → Fragment → Option α) (function : Fragment)
    (allowed : Option Char → Prop) (ok : Fragment → Prop) : Prop :=
  ∀ before text, find before text ≠ none ↔
    allowed before ∧ ∃ word body, Spells function word ∧ text = word ++ '(' :: body ∧ ok body

/-- what the pattern puts into a text begins with the opening of a call of that name -/
def Pattern.Renames (pattern : Pattern) (name : Fragment) : Prop :=
  ∀ before text found, pattern before text = some found → ∃ more, found.replacement = name ++ '(' :: more

theorem Pattern.Finds.findsOpenings {pattern : Pattern} {allowed : Option Char → Prop}
    (h : pattern.Finds (Renaming function name allowed)) : FindsOpenings pattern function allowed fun _ => True := by
  intro before text
  rw [Option.ne_none_iff_exists']
  refine ⟨?_, ?_⟩
  · rintro ⟨found, hfound⟩
    obtain ⟨rest, rfl, ha, hw⟩ := (h before text found).1 hfound
    exact ⟨ha, _, rest, hw, by simp, trivial⟩
  · rintro ⟨ha, word, body, hw, rfl, -⟩
    exact ⟨_, (h before _ _).2 ⟨body, by simp, .mk ha hw⟩⟩

theorem Pattern.Finds.renames {pattern : Pattern} {allowed : Option Char → Prop}
    (h : pattern.Finds (Renaming function name allowed)) : pattern.Renames name := by
  intro before text found hfound
  obtain ⟨rest, -, -, -⟩ := (h before text found).1 hfound
  exact ⟨[], rfl⟩

/-- where a call is renamed -/
theorem replaceFrom_renaming {pattern : Pattern} {allowed : Option Char → Prop}
    (hp : pattern.Finds (Renaming function name allowed)) (hcov : pattern.Covers) {before : Option Char}
    (ha : allowed before) (hw : Spells function word) (body : Fragment) :
    replaceFrom pattern before 0 (word ++ '(' :: body) = name ++ '(' :: replaceFrom pattern (some '(') 0 body := by
  let found : Match := ⟨word ++ ['('], name ++ ['(']⟩
  have hfind : pattern before (found.matched ++ body) = some found := (hp before _ found).2 ⟨body, rfl, .mk ha hw⟩
  have hmatch := replaceFrom_match hcov hfind
  rw [lastOr_concat] at hmatch
  simpa [found] using hmatch

/-- **In front of a parenthesis** stands what stood there, or something that ends with the new name. -/
theorem replaceFrom_front {pattern : Pattern} (hcov : pattern.Covers) (hren : pattern.Renames name) (hname : '(' ∉ name)
    {before : Option Char} {text front out : Fragment} (hfront : '(' ∉ front)
    (h : replaceFrom pattern before 0 text = front ++ '(' :: out) :
    (∃ rest, text = front ++ '(' :: rest ∧ out = replaceFrom pattern (some '(') 0 rest) ∨ name <:+ front := by
  induction text generalizing before front with
  | nil => simp [replaceFrom] at h
  | cons d rest ih =>
    cases hp : pattern before (d :: rest) with
    | none =>
      rw [replaceFrom_of_none hp] at h
      cases front with
      | nil =>
        rw [List.nil_append, List.cons.injEq] at h
        obtain ⟨rfl, rfl⟩ := h
        exact Or.inl ⟨rest, rfl, rfl⟩
      | cons c front =>
        rw [List.cons_append, List.cons.injEq] at h
        obtain ⟨rfl, h⟩ := h
        rcases ih (fun hmem => hfront (List.mem_cons_of_mem _ hmem)) h with ⟨rest', rfl, hout⟩ | hname'
        · exact Or.inl ⟨rest', rfl, hout⟩
        · exact Or.inr (hname'.trans (List.suffix_cons d front))
    | some found =>
      -- a new name in front of its parenthesis
      obtain ⟨-, tail, htail⟩ := hcov _ _ _ hp
      obtain ⟨more, hmore⟩ := hren _ _ _ hp
      rw [← htail] at hp h
      rw [replaceFrom_match hcov hp, hmore, List.append_assoc, List.cons_append] at h
      rw [(eq_of_append_sign hname hfront h).1]
      exact Or.inr (List.suffix_refl front)

section

variable {α : Type} {pattern finder : Pattern} {find : Option Char → Fragment → Option α} {allowed : Option Char → Prop}
  {ok : Fragment → Prop} {before : Option Char}

theorem paren_not_mem (hf : ∀ k ∈ function, isWord k = true) (hw : Spells function word) : '(' ∉ word :=
  not_mem_of_isWord (hw.isWord hf) (by decide)

/-- **No opening comes up at the front**: after the replacement none is found there if none was found before. -/
theorem none_of_replaceFrom (hcov : pattern.Covers) (hren : pattern.Renames name) (hname : '(' ∉ name)
    (hfind : FindsOpenings find function allowed ok) (hf : ∀ k ∈ function, isWord k = true)
    (hapart : Apart function name) (hok : ∀ body, ok (replaceFrom pattern (some '(') 0 body) → ok body)
    {text : Fragment} (hnone : find before text = none) : find before (replaceFrom pattern before 0 text) = none := by
  cases hsome : find before (replaceFrom pattern before 0 text) with
  | none => rfl
  | some found =>
    obtain ⟨ha, word, body, hw, htext, hbody⟩ := (hfind before _).1 (by rw [hsome]; exact Option.some_ne_none found)
    rcases replaceFrom_front hcov hren hname (paren_not_mem hf hw) htext with ⟨rest, hrest, rfl⟩ | hsuffix
    · exact absurd hnone ((hfind before _).2 ⟨ha, word, rest, hw, hrest, hok rest hbody⟩)
    · exact absurd hsuffix (hapart.not_suffix hw)

/-- so it is where a character was kept -/
theorem none_of_kept (hcov : pattern.Covers) (hren : pattern.Renames name) (hname : '(' ∉ name)
    (hfind : FindsOpenings find function allowed ok) (hf : ∀ k ∈ function, isWord k = true)
    (hapart : Apart function name) (hok : ∀ body, ok (replaceFrom pattern (some '(') 0 body) → ok body)
    {c : Char} {rest : Fragment} (hkept : pattern before (c :: rest) = none) (hnone : find before (c :: rest) = none) :
    find before (c :: replaceFrom pattern (some c) 0 rest) = none := by
  rw [← replaceFrom_of_none hkept]
  exact none_of_replaceFrom hcov hren hname hfind hf hapart hok hnone

/-- nothing is found in a text that has no such opening -/
theorem noMatch_iff (hfind : FindsOpenings finder function allowed ok) {text : Fragment} :
    NoMatch finder before text ↔ ∀ front word body, text = front ++ (word ++ '(' :: body) → Spells function word →
      allowed (lastOr before front) → ¬ ok body := by
  induction text generalizing before with
  | nil => exact iff_of_true trivial fun front word body htext => by simp at htext
  | cons c rest ih =>
    rw [NoMatch, ih]
    refine ⟨?_, ?_⟩
    · rintro ⟨hnone, hrest⟩ front word body htext hw ha hok
      cases front with
      | nil => exact (hfind before _).2 ⟨ha, word, body, hw, htext, hok⟩ hnone
      | cons d front =>
        obtain ⟨rfl, htail⟩ := List.cons.inj htext
        exact hrest front word body htail hw ha hok
    · intro h
      refine ⟨?_, fun front word body htext hw => h (c :: front) word body (by rw [htext]; rfl) hw⟩
      cases hfound : finder before (c :: rest) with
      | none => rfl
      | some found =>
        obtain ⟨ha, word, body, hw, htext, hok⟩ := (hfind before _).1 (by rw [hfound]; exact Option.some_ne_none found)
        exact absurd hok (h [] word body htext hw ha)

/-- no opening is found within another name, or at its parenthesis -/
theorem none_within (hfind : FindsOpenings find function allowed ok) (hf : ∀ k ∈ function, isWord k = true)
    (hname : '(' ∉ name) (hapart : Apart function name) {tail : Fragment} (htail : tail <:+ name) (rest : Fragment) :
    find before (tail ++ '(' :: rest) = none := by
  cases hsome : find before (tail ++ '(' :: rest) with
  | none => rfl
  | some found =>
    obtain ⟨-, word, body, hw, htext, -⟩ := (hfind before _).1 (by rw [hsome]; exact Option.some_ne_none found)
    have hparen : '(' ∉ tail := fun hmem => hname (htail.subset hmem)
    have hword := (eq_of_append_sign hparen (paren_not_mem hf hw) htext).1
    exact absurd (hword ▸ htail) (hapart.not_suffix' hw)

theorem noMatch_name (hfind : FindsOpenings finder function allowed ok) (hf : ∀ k ∈ function, isWord k = true)
    (hname : '(' ∉ name) (hapart : Apart function name) {out : Fragment} (hout : NoMatch finder (some '(') out) :
    NoMatch finder before (name ++ '(' :: out) := by
  suffices h : ∀ tail before, tail <:+ name → NoMatch finder before (tail ++ '(' :: out) from
    h name before (List.suffix_refl name)
  intro tail
  induction tail with
  | nil => exact fun before htail => ⟨none_within hfind hf hname hapart htail out, hout⟩
  | cons c tail ih =>
    exact fun before htail =>
      ⟨none_within hfind hf hname hapart htail out, ih (some c) ((List.suffix_cons c tail).trans htail)⟩

/-- **After a function was renamed none is left to be renamed**, if the new name ends in another way. -/
theorem noMatch_renamed (hp : pattern.Finds (Renaming function name allowed)) (hcov : pattern.Covers)
    (hf : ∀ k ∈ function, isWord k = true) (hname : '(' ∉ name) (hapart : Apart function name) (before : Option Char)
    (text : Fragment) : NoMatch pattern before (replaceFrom pattern before 0 text) := by
  refine replaceFrom_induction hcov (motive := fun before text _ => NoMatch pattern before
    (replaceFrom pattern before 0 text)) ?nil ?keep ?replace before text
  case nil => intro before; exact trivial
  case keep =>
    intro before c rest _ hnone ih
    rw [replaceFrom_of_none hnone]
    exact ⟨none_of_kept hcov hp.renames hname hp.findsOpenings hf hapart (fun _ _ => trivial) hnone hnone, ih⟩
  case replace =>
    intro before found rest _ hfound ih
    rw [replaceFrom_match hcov hfound]
    obtain ⟨rest', -, ha, hw⟩ := (hp _ _ _).1 hfound
    rw [lastOr_concat] at ih ⊢
    rw [List.append_assoc]
    exact noMatch_name hp.findsOpenings hf hname hapart ih

/-- where no opening is found, none is found after other functions were renamed -/
theorem noMatch_replaceFrom {other : Fragment} {allowed' : Option Char → Prop}
    (hp : pattern.Finds (Renaming other name allowed')) (hcov : pattern.Covers)
    (hfind : FindsOpenings finder function allowed ok) (hf : ∀ k ∈ function, isWord k = true) (hname : '(' ∉ name)
    (hapart : Apart function name) (hok : ∀ body, ok (replaceFrom pattern (some '(') 0 body) → ok body)
    (before : Option Char) (text : Fragment) :
    NoMatch finder before text → NoMatch finder before (replaceFrom pattern before 0 text) := by
  refine replaceFrom_induction hcov (motive := fun before text _ => NoMatch finder before text →
    NoMatch finder before (replaceFrom pattern before 0 text)) ?nil ?keep ?replace before text
  case nil => intro before h; exact h
  case keep =>
    intro before c rest _ hnone ih h
    rw [replaceFrom_of_none hnone]
    exact ⟨none_of_kept hcov hp.renames hname hfind hf hapart hok hnone h.1, ih h.2⟩
  case replace =>
    intro before found rest _ hfound ih h
    rw [replaceFrom_match hcov hfound]
    obtain ⟨rest', -, ha, hw⟩ := (hp _ _ _).1 hfound
    have hrest := ih h.behind
    rw [lastOr_concat] at hrest ⊢
    rw [List.append_assoc]
    exact noMatch_name hfind hf hname hapart hrest

end

end SqlDialects.Text
