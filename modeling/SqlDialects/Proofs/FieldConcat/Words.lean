/-
The words of a text with its calls joined. They are those of the text without the names of the joined calls, unless only
the closing parenthesis of a joined call kept two words apart: then these two are one word.

- `Glues`: two words meet where a closing parenthesis is dropped.
- `glues_comma`, `glues_callEdits`, `glues_keep`: nowhere else, neither at a comma nor where a call begins.
- `Joined.runTogether`: the words are the same, or some of them ran together there.
- `Joined.wordBehindClose`: then the text has a word right behind a closing parenthesis.
- `words_apply_iff`: so the rule keeps words apart in front of a call and within it, but not always behind it.
-/
import SqlDialects.Proofs.FieldConcat.Edits
import SqlDialects.Proofs.Reading.Words

namespace SqlDialects.FieldConcat

open Text Fragment Cursor

/-- the closing parenthesis of a joined call is dropped between two word characters of the result -/
def Glues (joiner : Fragment) (edits : List Edit) : Prop :=
  ∃ front back, edits = front ++ .closing :: back ∧ EndsInWord (written joiner front) ∧
    BeginsInWord (written joiner back)

/-- the joiner keeps words apart: there is something of it, and it neither quotes nor belongs to words -/
structure Parting (joiner : Fragment) : Prop where
  plain : Plain joiner
  not_word : ∀ c ∈ joiner, isWord c = false
  ne_nil : joiner ≠ []

variable {joiner : Fragment} {quoting : Quoting} {before : Option Char} {edits : List Edit} {argument first : Argument}
  {others : List Argument}

/-! ## Where a reader stands -/

/-- edits that drop plain characters outside quotations, and put plain text there, lead every reader to the same place -/
theorem DropsOutside.run_flatMap {out : Edit → Fragment} (hkeep : ∀ c, out (.keep c) = [c])
    (hdrop : ∀ edit : Edit, edit.isKept = false → Quoting.isPlain edit.char = true → Plain (out edit))
    (h : DropsOutside quoting edits) : quoting.run (edits.flatMap out) = quoting.run (source edits) := by
  induction edits generalizing quoting with
  | nil => rfl
  | cons edit edits ih =>
    rw [List.flatMap_cons, Quoting.run_append]
    by_cases hkept : edit.isKept = true
    · obtain ⟨c, rfl⟩ : ∃ c, edit = .keep c := by
        cases edit with
        | keep c => exact ⟨c, rfl⟩
        | _ => cases hkept
      rw [hkeep]
      exact ih h.2
    · have hkept : edit.isKept = false := by simpa using hkept
      obtain ⟨rfl, hplain⟩ := h.1 hkept
      have hrest := h.2
      rw [Quoting.step_outside_of_plain hplain] at hrest
      rw [run_plain_outside (hdrop edit hkept hplain), ih hrest]
      show _ = (Quoting.outside.step edit.char).run (source edits)
      rw [Quoting.step_outside_of_plain hplain]

theorem DropsOutside.run_written (hj : Plain joiner) (h : DropsOutside quoting edits) :
    quoting.run (written joiner edits) = quoting.run (source edits) := by
  refine h.run_flatMap (fun c => rfl) fun edit hdropped _ => ?_
  cases edit with
  | keep c => cases hdropped
  | comma => exact hj
  | _ => exact List.forall_mem_nil _

theorem DropsOutside.run_unnamed (h : DropsOutside quoting edits) :
    quoting.run (unnamed edits) = quoting.run (source edits) := by
  refine h.run_flatMap (fun c => rfl) fun edit _ hplain => ?_
  cases edit with
  | name c => exact List.forall_mem_nil _
  | _ => exact List.forall_mem_singleton.2 hplain

/-! ## Where words meet -/

theorem not_glues_nil : ¬ Glues joiner [] := by
  rintro ⟨front, back, hsplit, -⟩
  simp at hsplit

/-- side by side, edits glue where either do, given what the others write beside them -/
theorem glues_append {a b : List Edit} : Glues joiner (a ++ b) ↔
    (∃ front back, a = front ++ .closing :: back ∧ EndsInWord (written joiner front) ∧
      BeginsInWord (written joiner back ++ written joiner b)) ∨
    ∃ front back, b = front ++ .closing :: back ∧ EndsInWord (written joiner a ++ written joiner front) ∧
      BeginsInWord (written joiner back) := by
  refine ⟨?_, ?_⟩
  · rintro ⟨front, back, hsplit, hends, hbegins⟩
    rcases List.append_eq_append_iff.1 hsplit with ⟨middle, rfl, hb⟩ | ⟨middle, ha, hb⟩
    · exact Or.inr ⟨middle, back, hb, by rwa [← written_append], hbegins⟩
    · cases middle with
      | nil =>
        rw [List.append_nil] at ha
        exact Or.inr ⟨[], back, hb.symm, by rw [ha]; simpa [written] using hends, hbegins⟩
      | cons edit middle =>
        obtain ⟨rfl, rfl⟩ := List.cons.inj hb
        exact Or.inl ⟨front, middle, ha, hends, by rwa [← written_append]⟩
  · rintro (⟨front, back, rfl, hends, hbegins⟩ | ⟨front, back, rfl, hends, hbegins⟩)
    · exact ⟨front, back ++ b, by simp, hends, by rwa [written_append]⟩
    · exact ⟨a ++ front, back, by simp, by rwa [written_append], hbegins⟩

/-- edits that write nothing and drop no closing parenthesis glue nothing -/
theorem glues_idle_append {idle : List Edit} (hwritten : written joiner idle = []) (hclosing : .closing ∉ idle) :
    Glues joiner (idle ++ edits) ↔ Glues joiner edits := by
  rw [glues_append, hwritten]
  refine ⟨?_, Or.inr⟩
  rintro (⟨front, back, rfl, -⟩ | h)
  · exact absurd (List.mem_append_right front List.mem_cons_self) hclosing
  · exact h

theorem glues_append_idle {idle : List Edit} (hwritten : written joiner idle = []) (hclosing : .closing ∉ idle) :
    Glues joiner (edits ++ idle) ↔ Glues joiner edits := by
  rw [glues_append, hwritten]
  simp only [List.append_nil]
  refine ⟨?_, Or.inl⟩
  rintro (h | ⟨front, back, rfl, -⟩)
  · exact h
  · exact absurd (List.mem_append_right front List.mem_cons_self) hclosing

theorem glues_all (argument : Argument) : Glues joiner argument.all ↔ Glues joiner argument.edits := by
  rw [Argument.all, glues_append_idle (written_blank _ _) (by simp), glues_idle_append (written_blank _ _) (by simp)]

/-- the joiner keeps apart what stands on both sides of a comma -/
theorem glues_comma (hj : Parting joiner) {left right : List Edit} :
    Glues joiner (left ++ .comma :: right) ↔ Glues joiner left ∨ Glues joiner right := by
  obtain ⟨x, xs, hx⟩ := List.exists_cons_of_ne_nil hj.ne_nil
  have hbegins : ¬ BeginsInWord (joiner ++ written joiner right) := by
    rintro ⟨c, hc, hword⟩
    rw [hx] at hc
    obtain rfl := Option.some.inj hc
    rw [hj.not_word x (by rw [hx]; exact List.mem_cons_self)] at hword
    cases hword
  have hends : ¬ EndsInWord (written joiner left ++ joiner) := by
    rintro ⟨c, hc, hword⟩
    have hlast : joiner.getLast? = some c := by rwa [List.getLast?_append_of_ne_nil _ hj.ne_nil] at hc
    rw [hj.not_word c (List.mem_of_getLast? hlast)] at hword
    cases hword
  have hwritten (more : List Edit) : written joiner (.comma :: more) = joiner ++ written joiner more := rfl
  rw [glues_append, hwritten]
  refine ⟨?_, ?_⟩
  · rintro (⟨front, back, rfl, h1, h2⟩ | ⟨front, back, hsplit, h1, h2⟩)
    · rcases beginsInWord_append.1 h2 with h2 | ⟨-, h2⟩
      · exact Or.inl ⟨front, back, rfl, h1, h2⟩
      · exact absurd h2 hbegins
    · cases front with
      | nil => cases hsplit
      | cons edit front =>
        rw [List.cons_append, List.cons.injEq] at hsplit
        obtain ⟨rfl, rfl⟩ := hsplit
        rw [hwritten, ← List.append_assoc] at h1
        rcases endsInWord_append.1 h1 with h1 | ⟨-, h1⟩
        · exact Or.inr ⟨front, back, rfl, h1, h2⟩
        · exact absurd h1 hends
  · rintro (⟨front, back, rfl, h1, h2⟩ | ⟨front, back, rfl, h1, h2⟩)
    · exact Or.inl ⟨front, back, rfl, h1, beginsInWord_append.2 (Or.inl h2)⟩
    · refine Or.inr ⟨.comma :: front, back, rfl, ?_, h2⟩
      rw [hwritten, ← List.append_assoc]
      exact endsInWord_append.2 (Or.inl h1)

/-- where a closing parenthesis is dropped, words meet if there is one on both sides -/
theorem glues_closing {a b : List Edit} : Glues joiner (a ++ .closing :: b) ↔
    (EndsInWord (written joiner a) ∧ BeginsInWord (written joiner b)) ∨ Glues joiner a ∨ Glues joiner b := by
  have hwritten (more : List Edit) : written joiner (.closing :: more) = written joiner more := rfl
  rw [glues_append, hwritten]
  refine ⟨?_, ?_⟩
  · rintro (⟨front, back, rfl, h1, h2⟩ | ⟨front, back, hsplit, h1, h2⟩)
    · rcases beginsInWord_append.1 h2 with h2 | ⟨hnil, h2⟩
      · exact Or.inr (Or.inl ⟨front, back, rfl, h1, h2⟩)
      · rw [written_append, hwritten, hnil, List.append_nil]
        exact Or.inl ⟨h1, h2⟩
    · cases front with
      | nil =>
        obtain ⟨-, rfl⟩ := List.cons.inj hsplit
        exact Or.inl ⟨by simpa [written] using h1, h2⟩
      | cons edit front =>
        rw [List.cons_append, List.cons.injEq] at hsplit
        obtain ⟨rfl, rfl⟩ := hsplit
        rw [hwritten] at h1
        rcases endsInWord_append.1 h1 with h1 | ⟨hnil, h1⟩
        · exact Or.inr (Or.inr ⟨front, back, rfl, h1, h2⟩)
        · rw [written_append, hwritten, hnil, List.nil_append]
          exact Or.inl ⟨h1, h2⟩
  · rintro (⟨h1, h2⟩ | ⟨front, back, rfl, h1, h2⟩ | ⟨front, back, rfl, h1, h2⟩)
    · exact Or.inr ⟨[], b, rfl, by simpa [written] using h1, h2⟩
    · exact Or.inl ⟨front, back, rfl, h1, beginsInWord_append.2 (Or.inl h2)⟩
    · exact Or.inr ⟨.closing :: front, back, rfl, endsInWord_append.2 (Or.inl h1), h2⟩

/-- nothing meets where a call begins -/
theorem glues_callEdits (word : Fragment) (first : Argument) (others : List Argument) (edits : List Edit) :
    Glues joiner (callEdits word first others ++ edits) ↔
      (EndsInWord (written joiner (between first others)) ∧ BeginsInWord (written joiner edits)) ∨
        Glues joiner (between first others) ∨ Glues joiner edits := by
  have hsplit : callEdits word first others ++ edits =
      (word.map .name ++ [.opening]) ++ (between first others ++ .closing :: edits) := by simp [callEdits]
  rw [hsplit, glues_idle_append, glues_closing]
  · rw [written_append, written_name]; rfl
  · simp

/-- behind a word character no call begins -/
theorem Joined.behind_word {c : Char} (h : Joined quoting (some c) edits) (hc : isWord c = true) :
    edits = [] ∨ ∃ d rest, edits = .keep d :: rest := by
  cases h with
  | nil => exact Or.inl rfl
  | keep h => exact Or.inr ⟨_, _, rfl⟩
  | call hbefore => simp [startsWord, hc] at hbefore

theorem glues_keep {c : Char} (h : Joined quoting (some c) edits) :
    Glues joiner (.keep c :: edits) ↔ Glues joiner edits := by
  rw [← List.singleton_append, glues_append]
  refine ⟨?_, ?_⟩
  · rintro (⟨front, back, hsplit, -⟩ | ⟨front, back, rfl, h1, h2⟩)
    · cases front with
      | nil => cases hsplit
      | cons edit front => simp at hsplit
    · rcases endsInWord_append.1 h1 with h1 | ⟨hnil, d, hd, hword⟩
      · exact ⟨front, back, rfl, h1, h2⟩
      · -- right behind the word character something is kept, so something is written
        obtain rfl : c = d := Option.some.inj hd
        rcases h.behind_word hword with hedits | ⟨d, rest, hedits⟩
        · simp at hedits
        · cases front with
          | nil => cases hedits
          | cons edit front => obtain ⟨rfl, -⟩ := List.cons.inj hedits; cases hnil
  · rintro ⟨front, back, rfl, h1, h2⟩
    exact Or.inr ⟨front, back, rfl, endsInWord_append.2 (Or.inl h1), h2⟩

/-! ## The words of the result -/

/-- edits read outside quotations, before and after: their words are the same, or ran together where they glue -/
structure Together (joiner : Fragment) (edits : List Edit) : Prop where
  run_written : Quoting.outside.run (written joiner edits) = .outside
  run_unnamed : Quoting.outside.run (unnamed edits) = .outside
  words : RunTogether (Glues joiner edits) (runs (letters .outside (written joiner edits)))
    (runs (letters .outside (unnamed edits)))

/-- blanks around an argument hold no words -/
theorem Argument.Cut.together_all (hcut : argument.Cut) (hj : Parting joiner)
    (hdrops : DropsOutside .outside argument.edits)
    (h : RunTogether (Glues joiner argument.edits) (runs (letters .outside (written joiner argument.edits)))
      (runs (letters .outside (unnamed argument.edits)))) : Together joiner argument.all := by
  have hlead := run_plain_outside (flat_of_isBlank hcut.lead).plain
  have htrail := run_plain_outside (flat_of_isBlank hcut.trail).plain
  have hsource := run_of_wellFormed hcut.wellFormed
  have hunnamed := hdrops.run_unnamed.trans hsource
  refine ⟨?_, ?_, ?_⟩
  · rw [Argument.written_all, hdrops.run_written hj.plain, hsource]
  · rw [Argument.unnamed_all, Quoting.run_append, Quoting.run_append, hlead, hunnamed, htrail]
  · rw [Argument.written_all, Argument.unnamed_all, letters_append, letters_append, Quoting.run_append, hlead, hunnamed,
      letters_of_not_word (fun c hc => isWord_of_isBlank (hcut.lead c hc)),
      letters_of_not_word (fun c hc => isWord_of_isBlank (hcut.trail c hc)), runs_append_blots_end, runs_blots]
    exact h.congr (glues_all argument).symm

/-- at a comma no words run together, neither before nor after -/
theorem Together.comma (hj : Parting joiner) {left right : List Edit} (hl : Together joiner left)
    (hr : Together joiner right) : Together joiner (left ++ .comma :: right) := by
  have hjoiner := run_plain_outside hj.plain
  have hwritten : written joiner (left ++ .comma :: right) = written joiner left ++ (joiner ++ written joiner right) := by
    rw [written_append]; rfl
  have hunnamed : unnamed (left ++ .comma :: right) = unnamed left ++ ',' :: unnamed right := by
    rw [unnamed_append]; rfl
  refine ⟨?_, ?_, ?_⟩
  · rw [hwritten, Quoting.run_append, Quoting.run_append, hl.run_written, hjoiner, hr.run_written]
  · rw [hunnamed, Quoting.run_append, hl.run_unnamed]; exact hr.run_unnamed
  · have hnone : joiner.length ≠ 0 := fun h => hj.ne_nil (List.length_eq_zero_iff.1 h)
    rw [hwritten, hunnamed, letters_append, letters_append, hl.run_written, hjoiner, letters_of_not_word hj.not_word,
      runs_append_blots _ _ hnone, letters_append, hl.run_unnamed, letters_cons_of_not_word (by decide),
      runs_append_blot]
    exact (hl.words.append hr.words).congr (glues_comma hj).symm

/-- **Words run together exactly where a closing parenthesis is dropped between them.** -/
theorem Joined.runTogether (hj : Parting joiner) (h : Joined quoting before edits) :
    RunTogether (Glues joiner edits) (runs (letters quoting (written joiner edits)))
      (runs (letters quoting (unnamed edits))) := by
  induction h with
  | nil quoting before => exact .refl not_glues_nil _
  | @keep quoting before c edits hrest ih =>
    have hwritten : written joiner (.keep c :: edits) = c :: written joiner edits := rfl
    have hunnamed : unnamed (.keep c :: edits) = c :: unnamed edits := rfl
    rw [hwritten, hunnamed]
    refine RunTogether.congr ?_ (glues_keep hrest).symm
    by_cases hletter : quoting = .outside ∧ isWord c = true
    · obtain ⟨rfl, hc⟩ := hletter
      rw [step_outside_of_word hc] at ih
      rw [letters_cons_word hc, letters_cons_word hc]
      -- what comes next is kept, or nothing comes, so both texts go on in the same way
      refine runTogether_letter ih ?_ c
      rcases hrest.behind_word hc with rfl | ⟨d, rest, rfl⟩
      · rfl
      · rfl
    · have hnone (text : Fragment) : letters quoting (c :: text) = none :: letters (quoting.step c) text := by
        rw [letters, if_neg hletter]
      rw [hnone, hnone, runs_blot, runs_blot]
      exact ih
  | @call before word first others edits hbefore hword hargs hcut hjoined hrest iharguments ihrest =>
    have hbetween : Together joiner (between first others) :=
      between_induction (fun argument ha =>
        (hcut argument ha).together_all hj (hjoined argument ha).dropsOutside (iharguments argument ha))
        fun left right hl hr => hl.comma hj hr
    have hunnamed : unnamed (callEdits word first others ++ edits) =
        '(' :: (unnamed (between first others) ++ ')' :: unnamed edits) := by
      rw [unnamed_append, unnamed_callEdits]; simp
    rw [written_append, written_callEdits, hunnamed, letters_append, hbetween.run_written,
      letters_cons_of_not_word (by decide), runs_blot, letters_append]
    show RunTogether _ _ (runs (letters .outside (unnamed (between first others)) ++
      letters (Quoting.outside.run (unnamed (between first others))) (')' :: unnamed edits)))
    rw [hbetween.run_unnamed, letters_cons_of_not_word (by decide), runs_append_blot]
    refine ((runTogether_append _ _).trans (hbetween.words.append ihrest)).congr ?_
    rw [endsRun_letters hbetween.run_written, beginsRun_letters, glues_callEdits]

/-! ## Words behind closing parentheses -/

/-- right behind a closing parenthesis outside quotations stands a word character -/
def WordBehindClose (quoting : Quoting) (text : Fragment) : Prop :=
  ∃ front c back, text = front ++ ')' :: c :: back ∧ quoting.run front = .outside ∧ isWord c = true

theorem WordBehindClose.append {a : Fragment} (h : WordBehindClose quoting a) (b : Fragment) :
    WordBehindClose quoting (a ++ b) := by
  obtain ⟨front, c, back, rfl, hfront, hc⟩ := h
  exact ⟨front, c, back ++ b, by simp, hfront, hc⟩

theorem WordBehindClose.behind {a b : Fragment} (h : WordBehindClose (quoting.run a) b) :
    WordBehindClose quoting (a ++ b) := by
  obtain ⟨front, c, back, rfl, hfront, hc⟩ := h
  exact ⟨a ++ front, c, back, by simp, by rw [Quoting.run_append, hfront], hc⟩

/-- the result begins with a word only if the text does: with the same or with the name of a joined call -/
theorem Joined.begins_source (h : Joined quoting before edits) (hbegins : BeginsInWord (written joiner edits)) :
    BeginsInWord (source edits) := by
  cases h with
  | nil => exact hbegins
  | keep h => exact hbegins
  | call _ hword _ _ _ _ =>
    rw [source_append, source_callEdits]
    have hletters := hword.isWord isWord_callName
    cases hword with
    | cons _ _ => exact ⟨_, rfl, hletters _ List.mem_cons_self⟩

theorem Argument.Cut.wordBehindClose_all (hcut : argument.Cut)
    (h : Glues joiner argument.edits → WordBehindClose .outside (source argument.edits))
    (hglues : Glues joiner argument.all) : WordBehindClose .outside (source argument.all) := by
  have hargument := h ((glues_all argument).1 hglues)
  rw [← run_plain_outside (flat_of_isBlank hcut.lead).plain] at hargument
  rw [Argument.source_all]
  exact hargument.behind.append _

theorem wordBehindClose_between (hj : Parting joiner) (hcut : ∀ argument ∈ first :: others, argument.Cut)
    (h : ∀ argument ∈ first :: others, Glues joiner argument.edits → WordBehindClose .outside (source argument.edits))
    (hglues : Glues joiner (between first others)) : WordBehindClose .outside (source (between first others)) := by
  induction others generalizing first with
  | nil =>
    rw [between_nil] at hglues ⊢
    exact (hcut first List.mem_cons_self).wordBehindClose_all (h first List.mem_cons_self) hglues
  | cons second others ih =>
    obtain ⟨hfirst, hothers⟩ := List.forall_mem_cons.1 hcut
    obtain ⟨hword, hwords⟩ := List.forall_mem_cons.1 h
    rw [between_cons, glues_comma hj] at hglues
    rw [between_cons, source_append]
    rcases hglues with hglues | hglues
    · exact (hfirst.wordBehindClose_all hword hglues).append _
    · refine WordBehindClose.behind ?_
      rw [hfirst.run_all]
      exact WordBehindClose.behind (a := [',']) (ih hothers hwords hglues)

/-- **Where words run together**, one of them stood right behind a closing parenthesis. -/
theorem Joined.wordBehindClose (hj : Parting joiner) (h : Joined quoting before edits) (hglues : Glues joiner edits) :
    WordBehindClose quoting (source edits) := by
  induction h with
  | nil => exact absurd hglues not_glues_nil
  | @keep quoting before c edits hrest ih =>
    exact WordBehindClose.behind (a := [c]) (ih ((glues_keep hrest).1 hglues))
  | @call before word first others edits _ hword _ hcut _ hrest iharguments ihrest =>
    have hopen : Quoting.outside.run (word ++ ['(']) = .outside :=
      run_plain_outside (plain_append.2 ⟨(flat_of_isWord (hword.isWord isWord_callName)).plain, by decide⟩)
    have hsource : source (callEdits word first others) = word ++ ['('] ++ source (between first others) ++ [')'] := by
      rw [source_callEdits]; simp
    rw [source_append]
    rcases (glues_callEdits word first others edits).1 hglues with ⟨-, hbegins⟩ | hinside | hbehind
    · obtain ⟨c, hc, hletter⟩ := hrest.begins_source hbegins
      obtain ⟨back, hback⟩ := List.head?_eq_some_iff.1 hc
      refine ⟨word ++ ['('] ++ source (between first others), c, back, ?_, ?_, hletter⟩
      · rw [hsource, hback, List.append_assoc]; rfl
      · rw [Quoting.run_append, hopen, run_of_wellFormed (wellFormed_between hcut)]
    · have hargument := wordBehindClose_between hj hcut iharguments hinside
      rw [← hopen] at hargument
      rw [hsource]
      exact (hargument.behind.append _).append _
    · rw [← run_callEdits hword hcut] at ihrest
      exact (ihrest hbehind).behind

/-! ## The rule -/

theorem parting_joiner : Parting (FieldConcat.joiner "||") := by
  refine ⟨by decide, fun c hc => ?_, List.cons_ne_nil _ _⟩
  have hall : ((FieldConcat.joiner "||").all fun c => !isWord c) = true := by decide
  simpa using List.all_eq_true.1 hall c hc

theorem operator_of_mem {driver : Driver} (h : driver ∈ [Driver.pgsql, .postgis, .sqlite]) :
    (Dialect.builtin driver).capabilities.concatOperator = some "||" := by
  cases driver with
  | mysql | sqlsrv => simp at h
  | pgsql | postgis | sqlite => rfl

/-- **The rule keeps words apart, but not behind a call.** No letter of a word is lost or moved. The words are those of
the text without the names of the joined calls exactly if no closing parenthesis is dropped between two words; it is
enough that no word stands right behind a closing parenthesis. -/
theorem words_apply_iff {driver : Driver} (h : driver ∈ [Driver.pgsql, .postgis, .sqlite]) (sql : Fragment) :
    (∃ edits, Accounts (FieldConcat.joiner "||") .outside none sql edits) ∧
    ∀ edits, Accounts (FieldConcat.joiner "||") .outside none sql edits →
      (words (apply (Dialect.builtin driver).capabilities sql)).flatten = (words (unnamed edits)).flatten ∧
      (words (apply (Dialect.builtin driver).capabilities sql) = words (unnamed edits) ↔
        ¬ Glues (FieldConcat.joiner "||") edits) ∧
      (¬ WordBehindClose .outside sql →
        words (apply (Dialect.builtin driver).capabilities sql) = words (unnamed edits)) := by
  refine ⟨exists_accounts _ _ _ _, ?_⟩
  rintro edits ⟨hjoined, rfl, hwritten⟩
  have hwords := hjoined.runTogether parting_joiner
  rw [hwritten, ← apply_of_operator (operator_of_mem h)] at hwords
  exact ⟨hwords.flatten_eq, hwords.eq_iff, fun hno => hwords.eq_iff.2 (mt (hjoined.wordBehindClose parting_joiner) hno)⟩

/-- an argument that is one letter -/
theorem cut_letter {lead : Fragment} {c : Char} (hlead : Blank lead) (hblank : isBlank c = false) (hc : isWord c = true) :
    (⟨lead, [.keep c], []⟩ : Argument).Cut := by
  have hflat : Flat [c] := flat_of_isWord (by simpa using hc)
  refine ⟨hlead, List.forall_mem_nil _, ?_, wellFormed_of_neutral (s := start) rfl (neutral_of_flat rfl hflat), ?_⟩
  · exact ⟨fun d hd => by cases hd; exact hblank, fun d hd => by cases hd; exact hblank⟩
  · refine unseparated_of_not_mem fun hmem => ?_
    obtain rfl : ',' = c := List.mem_singleton.1 hmem
    exact absurd hc (by decide)

/-- the edits of a call with a keyword right behind it -/
def keywordBehindCall : List Edit :=
  "SELECT ".toList.map .keep ++ (callEdits "CONCAT".toList ⟨[], [.keep 'a'], []⟩ [⟨[' '], [.keep 'b'], []⟩] ++
    ("FROM t".toList.map .keep ++ []))

theorem accounts_keywordBehindCall :
    Accounts (FieldConcat.joiner "||") .outside none "SELECT CONCAT(a, b)FROM t".toList keywordBehindCall := by
  have hwritten : written (FieldConcat.joiner "||") keywordBehindCall = "SELECT a || bFROM t".toList := by decide
  have hjoined : joinCalls (FieldConcat.joiner "||") .outside none "SELECT CONCAT(a, b)FROM t".toList =
      "SELECT a || bFROM t".toList := by cbv
  refine ⟨joined_keep _ (.call rfl ?_ ?_ ?_ ?_ (joined_keep _ (.nil _ _))), by decide, hwritten.trans hjoined.symm⟩
  · exact (spells_iff_toLower (by decide)).2 (by decide)
  · rw [← all_isBlank_iff]; decide
  · have hblank : Blank [' '] := all_isBlank_iff.1 (by decide)
    have ha := cut_letter (c := 'a') (List.forall_mem_nil _) (by decide) (by decide)
    have hb := cut_letter (c := 'b') hblank (by decide) (by decide)
    exact List.forall_mem_cons.2 ⟨ha, List.forall_mem_singleton.2 hb⟩
  · exact List.forall_mem_cons.2 ⟨.keep (.nil _ _), List.forall_mem_singleton.2 (.keep (.nil _ _))⟩

/-- the keyword becomes one word with the end of the last argument -/
theorem words_glued_keyword :
    words (unnamed keywordBehindCall) = ["SELECT", "a", "b", "FROM", "t"].map String.toList ∧
      words (apply (Dialect.builtin .pgsql).capabilities "SELECT CONCAT(a, b)FROM t".toList) =
        ["SELECT", "a", "bFROM", "t"].map String.toList ∧
      Glues (FieldConcat.joiner "||") keywordBehindCall := by
  have hdriver : Driver.pgsql ∈ [Driver.pgsql, .postgis, .sqlite] := by decide
  have hunnamed : words (unnamed keywordBehindCall) = ["SELECT", "a", "b", "FROM", "t"].map String.toList := by decide
  have happly : words (apply (Dialect.builtin .pgsql).capabilities "SELECT CONCAT(a, b)FROM t".toList) =
      ["SELECT", "a", "bFROM", "t"].map String.toList := by
    rw [apply_of_operator (operator_of_mem hdriver), ← accounts_keywordBehindCall.written_eq]; decide
  obtain ⟨-, hiff, -⟩ := (words_apply_iff hdriver _).2 _ accounts_keywordBehindCall
  refine ⟨hunnamed, happly, not_not.1 (mt hiff.2 ?_)⟩
  rw [hunnamed, happly]
  decide

end SqlDialects.FieldConcat
