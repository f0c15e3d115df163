/-
The rule applied to its own result. What the first run leaves the second one leaves too, unless a name comes up where
the closing parenthesis of a joined call is dropped: the end of a word on its left, the end of the function's name and a
parenthesis on its right. Such a name may be that of a new call, or hide one that stays open.

- `callBehind_append_cases`: where two texts meet, a call lies in the first, in the second, or its name goes across.
- `exists_of_joinCalls`: a word in front of a parenthesis is no new one, but a call may have been joined there.
- `OpeningBehindCall`: where a name can come up.
- `Passed`, `passed_joinCalls`: elsewhere a second run joins nothing.
- `apply_again`: so it changes nothing; and in any case the runs come to rest.
-/
import Mathlib.Logic.Function.Iterate
import SqlDialects.Proofs.FieldConcat.Composition
import SqlDialects.Proofs.FieldConcat.Words

namespace SqlDialects.FieldConcat

open Text Fragment Cursor

variable {joiner text rest front body inner after argument a b word : Fragment} {quoting : Quoting}
  {before : Option Char} {c : Char}

/-! ## Calls in texts side by side -/

/-- where two texts meet, a call lies in the first, in the second, or its name goes across -/
theorem callBehind_append_cases (h : CallBehind quoting before (a ++ b) front body) :
    (∃ tail, CallBehind quoting before a front tail ∧ body = tail ++ b) ∨
    (∃ more, front = a ++ more ∧ CallBehind (quoting.run a) (lastOr before a) b more body) ∨
    ∃ start ending, start ≠ [] ∧ a = front ++ start ∧ b = ending ++ '(' :: body ∧ Spells callName (start ++ ending) := by
  obtain ⟨hquote, hstart, word, hw, htext⟩ := h
  rcases append_cases htext with hfirst | hlater
  · obtain ⟨tail, rfl, rfl⟩ := hfirst
    exact Or.inl ⟨tail, ⟨hquote, hstart, word, hw, rfl⟩, rfl⟩
  · obtain ⟨ending, hsplit, rfl⟩ := hlater
    rcases List.append_eq_append_iff.1 hsplit with hacross | hbehind
    · obtain ⟨start, rfl, rfl⟩ := hacross
      cases start with
      | nil =>
        rw [List.append_nil, List.nil_append] at *
        exact Or.inr (Or.inl ⟨[], (List.append_nil _).symm, hquote, hstart, ending, hw, rfl⟩)
      | cons c start => exact Or.inr (Or.inr ⟨c :: start, ending, List.cons_ne_nil c start, rfl, rfl, hw⟩)
    · obtain ⟨more, rfl, rfl⟩ := hbehind
      rw [Quoting.run_append] at hquote
      rw [lastOr_append] at hstart
      exact Or.inr (Or.inl ⟨more, rfl, hquote, hstart, word, hw, by simp⟩)

/-- no call begins within a name, or at signs and blanks -/
theorem callBehind_passed (h : ∀ x d y, a = x ++ d :: y → startsWord (lastOr before x) = false ∨ isWord d = false)
    (hcall : CallBehind quoting before (a ++ b) front body) :
    ∃ more, front = a ++ more ∧ CallBehind (quoting.run a) (lastOr before a) b more body := by
  induction a generalizing quoting before front with
  | nil => exact ⟨front, rfl, hcall⟩
  | cons d a ih =>
    rcases callBehind_cons_cases hcall with hhere | hlater
    · obtain ⟨-, hstart, word, hw, htext⟩ := callAt?_eq_some_iff.1 hhere.2
      cases hw with
      | cons hletter _ =>
        obtain rfl := (List.cons.inj htext).1
        rcases h [] d a rfl with hno | hno
        · rw [lastOr, hstart] at hno; cases hno
        · rw [not_letter_of_not_word hno] at hletter; cases hletter
    · obtain ⟨more, rfl, hcall'⟩ := hlater
      obtain ⟨more, rfl, hcall''⟩ := ih (fun x e y hsplit => h (d :: x) e y (by rw [hsplit]; rfl)) hcall'
      exact ⟨more, rfl, hcall''⟩

/-- the character before the text does not matter to a call behind its first character -/
theorem CallBehind.before_congr (h : CallBehind quoting before text front body) (hne : front ≠ [])
    (before' : Option Char) : CallBehind quoting before' text front body := by
  cases front with
  | nil => exact absurd rfl hne
  | cons c front => exact h

theorem CallBehind.before_starts (h : CallBehind quoting before text front body) {before' : Option Char}
    (hb : startsWord before' = true) : CallBehind quoting before' text front body := by
  by_cases hne : front = []
  · subst hne
    exact ⟨h.1, hb, h.2.2⟩
  · exact h.before_congr hne before'

theorem startsWord_of_not_endsInWord (h : ¬ EndsInWord a) (hb : startsWord before = true) :
    startsWord (lastOr before a) = true := by
  rcases List.eq_nil_or_concat a with rfl | ⟨front, c, rfl⟩
  · exact hb
  · rw [List.concat_eq_append] at h ⊢
    rw [lastOr_concat, startsWord, Bool.not_eq_true']
    by_contra hc
    exact h ⟨c, List.getLast?_concat, by simpa using hc⟩

/-- in a well-formed text every call closes -/
theorem closed_of_wellFormed (hwf : text.WellFormed) (h : CallBehind .outside before text front body) : Closed body := by
  obtain ⟨hquote, -, word, hw, rfl⟩ := h
  have hword := flat_of_isWord (hw.isWord isWord_callName)
  by_contra hopen
  have hlow := splitAtClose_eq_none_iff.1 (not_not.1 (mt closed_iff.2 hopen))
  -- behind the parenthesis a reader is deeper than zero, and stays so to the end
  have hs : (start.run (front ++ word)).quoting = .outside := by
    rw [quoting_run, Quoting.run_append, show start.quoting.run front = .outside from hquote, run_plain_outside hword.plain]
  have hdepth := hwf.never_negative (front ++ word) (List.prefix_append _ _)
  have hlevel := hwf.level
  rw [run_append] at hlevel
  generalize start.run (front ++ word) = s at *
  have hstep : (s.step '(').quoting = .outside ∧ (s.step '(').depth = s.depth + 1 := by
    simp [step, hs, nesting, Quoting.step, Quoting.isMark]
  have hbody := le_lowest_iff.1 (Int.le_refl ((s.step '(').lowest body)) body List.prefix_rfl
  rw [eq_deeper_start hstep.1, lowest_deeper, ← eq_deeper_start hstep.1] at hbody
  rw [run_cons] at hlevel
  omega

/-! ## What a result begins with -/

/-- a word in front of a parenthesis stood there before, or a call did -/
theorem exists_of_joinCalls (hw : ∀ c ∈ word, isWord c = true)
    (h : joinCalls joiner .outside before text = word ++ '(' :: body) :
    (∃ rest, text = word ++ '(' :: rest) ∨ ∃ rest, callAt? .outside before text = some rest := by
  induction text generalizing before word with
  | nil => rw [joinCalls_nil] at h; simp at h
  | cons c rest ih =>
    cases hcall : callAt? .outside before (c :: rest) with
    | some found => exact Or.inr ⟨found, rfl⟩
    | none =>
      rw [joinCalls_skip hcall] at h
      cases word with
      | nil =>
        rw [(List.cons.inj h).1]
        exact Or.inl ⟨rest, rfl⟩
      | cons d word =>
        obtain ⟨rfl, hrest⟩ := List.cons.inj h
        rw [step_outside_of_word (hw c List.mem_cons_self)] at hrest
        rcases ih (fun e he => hw e (List.mem_cons_of_mem c he)) hrest with hkept | hbegins
        · obtain ⟨tail, rfl⟩ := hkept
          exact Or.inl ⟨tail, rfl⟩
        · -- behind a word character no call begins
          obtain ⟨found, hfound⟩ := hbegins
          have hstart := (callAt?_eq_some_iff.1 hfound).2.1
          rw [startsWord, hw c List.mem_cons_self] at hstart; cases hstart

/-- where no call begins none begins in the result -/
theorem callAt?_joinCalls (h : callAt? quoting before text = none) :
    callAt? quoting before (joinCalls joiner quoting before text) = none := by
  cases hsome : callAt? quoting before (joinCalls joiner quoting before text) with
  | none => rfl
  | some body =>
    obtain ⟨rfl, hstart, word, hw, htext⟩ := callAt?_eq_some_iff.1 hsome
    rcases exists_of_joinCalls (hw.isWord isWord_callName) htext with hkept | hbegins
    · obtain ⟨rest, hrest⟩ := hkept
      rw [callAt?_eq_some_iff.2 ⟨rfl, hstart, word, hw, hrest⟩] at h; cases h
    · obtain ⟨found, hfound⟩ := hbegins
      rw [h] at hfound; cases hfound

/-! ## Where a name comes up -/

/-- what becomes of a call, given the text between its parentheses -/
def joinedArguments (joiner inner : Fragment) : Fragment :=
  joiner.intercalate ((arguments inner).map (joinCalls joiner .outside none))

/-- a call with arguments is followed directly by an end of the function's name and a parenthesis; what becomes of the
call ends in a word, and with the beginning of the name that this end lacks -/
def OpeningBehindCall (joiner : Fragment) (quoting : Quoting) (before : Option Char) (text : Fragment) : Prop :=
  ∃ front inner start ending rest, CallBehind quoting before text front (inner ++ ')' :: (ending ++ '(' :: rest)) ∧
    inner.WellFormed ∧ ¬ Blank inner ∧ Spells callName (start ++ ending) ∧ start <:+ joinedArguments joiner inner ∧
    EndsInWord (joinedArguments joiner inner)

namespace OpeningBehindCall

theorem append (h : OpeningBehindCall joiner quoting before a) (b : Fragment) :
    OpeningBehindCall joiner quoting before (a ++ b) := by
  obtain ⟨front, inner, start, ending, rest, hcall, hname⟩ := h
  refine ⟨front, inner, start, ending, rest ++ b, ?_, hname⟩
  simpa using hcall.append b

theorem behind (h : OpeningBehindCall joiner (quoting.run a) (lastOr before a) b) :
    OpeningBehindCall joiner quoting before (a ++ b) := by
  obtain ⟨front, inner, start, ending, rest, hcall, hname⟩ := h
  exact ⟨a ++ front, inner, start, ending, rest, hcall.behind, hname⟩

theorem before_starts (h : OpeningBehindCall joiner quoting before a) {before' : Option Char}
    (hb : startsWord before' = true) : OpeningBehindCall joiner quoting before' a := by
  obtain ⟨front, inner, start, ending, rest, hcall, hname⟩ := h
  exact ⟨front, inner, start, ending, rest, hcall.before_starts hb, hname⟩

theorem of_mem_intercalate {pieces : List Fragment} (hrun : ∀ piece ∈ pieces, Quoting.outside.run piece = .outside)
    {piece : Fragment} (hp : piece ∈ pieces) (h : OpeningBehindCall joiner .outside none piece)
    (hb : startsWord before = true) : OpeningBehindCall joiner .outside before ([','].intercalate pieces) := by
  induction pieces generalizing before with
  | nil => cases hp
  | cons first others ih =>
    by_cases hne : others = []
    · subst hne
      obtain rfl := List.mem_singleton.1 hp
      rw [List.intercalate_singleton]
      exact h.before_starts hb
    · rw [List.intercalate_cons_of_ne_nil hne]
      rcases List.mem_cons.1 hp with rfl | hp
      · exact ((h.before_starts hb).append _).append _
      · refine behind ?_
        rw [Quoting.run_append, hrun first List.mem_cons_self, lastOr_concat]
        exact ih (fun p hp => hrun p (List.mem_cons_of_mem _ hp)) hp (by decide)

/-- an argument stands between signs and blanks, so what stands in it stands between the parentheses -/
theorem of_mem_arguments (hinner : inner.WellFormed) (ha : argument ∈ arguments inner)
    (h : OpeningBehindCall joiner .outside none argument) (hb : startsWord before = true) :
    OpeningBehindCall joiner .outside before inner := by
  obtain ⟨piece, hp, rfl⟩ := List.mem_map.1 ha
  obtain ⟨lead, trail, hlead, -, hpiece⟩ := exists_trim piece
  have hwhole : OpeningBehindCall joiner .outside none piece := by
    rw [hpiece]
    refine (behind ?_).append trail
    have hends : ¬ EndsInWord lead := by
      intro hends
      obtain ⟨c, hc, hword⟩ := hends
      rw [isWord_of_isBlank (hlead c (List.mem_of_getLast? hc))] at hword; cases hword
    rw [run_plain_outside (flat_of_isBlank hlead).plain]
    exact h.before_starts (startsWord_of_not_endsInWord hends rfl)
  have hmem := of_mem_intercalate (fun p hp => run_of_wellFormed (wellFormed_of_mem_cutFrom hinner hp)) hp hwhole hb
  rwa [intercalate_cutFrom] at hmem

/-- behind the call at the front of a text -/
theorem of_closed (hcall : callAt? .outside before text = some body) (hclose : splitAtClose body = some (inner, after))
    (hargs : ¬ Blank inner) {start ending : Fragment} (hw : Spells callName (start ++ ending))
    (hstart : start <:+ joinedArguments joiner inner) (hends : EndsInWord (joinedArguments joiner inner))
    (hafter : after = ending ++ '(' :: rest) : OpeningBehindCall joiner .outside before text := by
  obtain ⟨rfl, hwf⟩ := splitAtClose_eq_some_iff.1 hclose
  subst hafter
  exact ⟨[], inner, start, ending, rest, callBehind_nil_iff.2 hcall, hwf, hargs, hw, hstart, hends⟩

theorem of_after (hc : ClosedCall text word inner after) (h : OpeningBehindCall joiner .outside (some ')') after) :
    OpeningBehindCall joiner .outside before text := by
  have htext : text = (word ++ '(' :: inner ++ [')']) ++ after := by rw [hc.text_eq]; simp
  rw [htext]
  refine behind ?_
  rwa [run_of_wellFormed hc.wellFormed_call, lastOr_concat]

theorem of_argument (hc : ClosedCall text word inner after) (ha : argument ∈ arguments inner)
    (h : OpeningBehindCall joiner .outside none argument) : OpeningBehindCall joiner .outside before text := by
  have htext : text = (word ++ ['(']) ++ (inner ++ ')' :: after) := by rw [hc.text_eq]; simp
  have hopen : Quoting.outside.run (word ++ ['(']) = .outside :=
    run_plain_outside (plain_append.2 ⟨(flat_of_isWord (hc.spells.isWord isWord_callName)).plain, by decide⟩)
  rw [htext]
  refine behind ?_
  rw [hopen, lastOr_concat]
  exact (of_mem_arguments hc.wellFormed ha h (by decide)).append _

end OpeningBehindCall

/-! ## Calls that are passed -/

/-- what stands between the parentheses of the call is blank -/
def EmptyCall (body : Fragment) : Prop := ∃ inner after, body = inner ++ ')' :: after ∧ Blank inner

/-- a call before this one stays open -/
def Shadowed (quoting : Quoting) (before : Option Char) (text front : Fragment) : Prop :=
  ∃ front' body', front' <+: front ∧ CallBehind quoting before text front' body' ∧ ¬ Closed body'

theorem Shadowed.behind (h : Shadowed (quoting.run a) (lastOr before a) b front) :
    Shadowed quoting before (a ++ b) (a ++ front) := by
  obtain ⟨front', body', hprefix, hcall, hopen⟩ := h
  exact ⟨a ++ front', body', List.prefix_append_right_inj a |>.2 hprefix, hcall.behind, hopen⟩

/-- no call in the text is joined: it has no arguments, or one before it stays open -/
def Passed (quoting : Quoting) (before : Option Char) (text : Fragment) : Prop :=
  ∀ front body, CallBehind quoting before text front body → EmptyCall body ∨ Shadowed quoting before text front

theorem Passed.not_joinable (h : Passed quoting before text) : ¬ Joinable quoting before text := by
  intro hjoin
  obtain ⟨front, inner, after, hcall, hwf, hargs, hclosed⟩ := hjoin
  rcases h front _ hcall with hempty | hshadowed
  · obtain ⟨inner', after', heq, hblank⟩ := hempty
    have hwf' : inner'.WellFormed := wellFormed_of_neutral (s := start) rfl (neutral_of_flat rfl (flat_of_isBlank hblank))
    rw [eq_of_closing heq hwf hwf'] at hargs
    exact hargs hblank
  · obtain ⟨front', body', hprefix, hcall', hopen⟩ := hshadowed
    exact hopen (hclosed front' body' hprefix hcall')

theorem Passed.cons (hnone : callAt? quoting before (c :: rest) = none) (h : Passed (quoting.step c) (some c) rest) :
    Passed quoting before (c :: rest) := by
  intro front body hcall
  rcases callBehind_cons_cases hcall with hhere | hlater
  · rw [hnone] at hhere; cases hhere.2
  · obtain ⟨more, rfl, hcall'⟩ := hlater
    exact (h more body hcall').imp_right fun hshadow => Shadowed.behind (a := [c]) hshadow

/-- behind a call without arguments -/
theorem Passed.emptyCall (hc : ClosedCall text word inner after) (hblank : Blank inner) {out : Fragment}
    (h : Passed .outside (some ')') out) : Passed .outside before (word ++ '(' :: inner ++ [')'] ++ out) := by
  intro front body hcall
  have hrun := run_of_wellFormed hc.wellFormed_call
  have hletters := hc.spells.isWord isWord_callName
  have hparen {name : Fragment} (hname : ∀ c ∈ name, isWord c = true) : '(' ∉ name := not_mem_of_isWord hname (by decide)
  obtain ⟨w, ws, rfl⟩ : ∃ w ws, word = w :: ws := by
    cases hc.spells with
    | cons _ _ => exact ⟨_, _, rfl⟩
  have htext : w :: ws ++ '(' :: inner ++ [')'] ++ out = w :: ((ws ++ ('(' :: inner ++ [')'])) ++ out) := by simp
  rw [htext] at hcall ⊢
  rcases callBehind_cons_cases hcall with hhere | hlater
  · obtain ⟨-, -, word', hw', hsplit⟩ := callAt?_eq_some_iff.1 hhere.2
    have hname : w :: ws ++ '(' :: (inner ++ ')' :: out) = word' ++ '(' :: body := by rw [← hsplit]; simp
    have hbody := (eq_of_append_sign (hparen hletters) (hparen (hw'.isWord isWord_callName)) hname).2
    exact Or.inl ⟨inner, out, hbody.symm, hblank⟩
  · obtain ⟨more, rfl, hlater⟩ := hlater
    obtain ⟨more, rfl, hbehind⟩ := callBehind_passed (passed_of_blank hletters hblank) hlater
    rw [List.append_assoc, List.cons_append, Quoting.run_cons] at hrun
    rw [hrun, lastOr_append, lastOr_concat] at hbehind
    refine (h more body hbehind).imp_right fun hshadow => ?_
    have hcalled : Shadowed (Quoting.outside.run (w :: (ws ++ ('(' :: inner ++ [')']))))
        (lastOr before (w :: (ws ++ ('(' :: inner ++ [')'])))) out more := by
      rw [Quoting.run_cons, hrun, lastOr, lastOr_append, lastOr_concat]
      exact hshadow
    exact hcalled.behind

/-- a call in joined pieces lies in one of them -/
theorem callBehind_intercalate (hj : Parting joiner) (hflat : Flat joiner) {pieces : List Fragment}
    (hrun : ∀ piece ∈ pieces, Quoting.outside.run piece = .outside)
    (h : CallBehind .outside before (joiner.intercalate pieces) front body) :
    ∃ piece ∈ pieces, ∃ front' tail more, CallBehind .outside none piece front' tail ∧ body = tail ++ more := by
  induction pieces generalizing before front with
  | nil => exact absurd h not_callBehind_nil
  | cons first others ih =>
    by_cases hne : others = []
    · subst hne
      rw [List.intercalate_singleton] at h
      exact ⟨first, List.mem_cons_self, front, body, [], h.before_starts rfl, (List.append_nil body).symm⟩
    · rw [List.intercalate_cons_of_ne_nil hne, List.append_assoc] at h
      rcases callBehind_append_cases h with hfirst | hlater | hacross
      · obtain ⟨tail, hcall, rfl⟩ := hfirst
        exact ⟨first, List.mem_cons_self, front, tail, _, hcall.before_starts rfl, rfl⟩
      · obtain ⟨more, rfl, hcall⟩ := hlater
        rw [hrun first List.mem_cons_self] at hcall
        obtain ⟨more, rfl, hcall'⟩ := callBehind_passed (fun x d y hsplit =>
          Or.inr (hj.not_word d (by rw [hsplit]; simp))) hcall
        rw [run_plain_outside hj.plain] at hcall'
        obtain ⟨piece, hp, hpiece⟩ := ih (fun p hp => hrun p (List.mem_cons_of_mem _ hp)) hcall'
        exact ⟨piece, List.mem_cons_of_mem _ hp, hpiece⟩
      · -- the joiner begins with no word character and no parenthesis
        obtain ⟨start, ending, -, -, hjoiner, hw⟩ := hacross
        obtain ⟨x, xs, rfl⟩ := List.exists_cons_of_ne_nil hj.ne_nil
        cases ending with
        | nil =>
          obtain ⟨rfl, -⟩ := List.cons.inj hjoiner
          exact absurd List.mem_cons_self hflat.open_not_mem
        | cons e ending =>
          obtain ⟨rfl, -⟩ := List.cons.inj hjoiner
          have hx := hw.isWord isWord_callName x (by simp)
          rw [hj.not_word x List.mem_cons_self] at hx; cases hx

/-- joined pieces, and a text behind them with which no name comes up -/
theorem Passed.joined (hj : Parting joiner) (hflat : Flat joiner) {pieces : List Fragment} {out : Fragment}
    (hpieces : ∀ piece ∈ pieces, piece.WellFormed ∧ Passed .outside none piece) (hout : Passed .outside (some ')') out)
    (hacross : ∀ start ending rest, Spells callName (start ++ ending) → start <:+ joiner.intercalate pieces →
      EndsInWord (joiner.intercalate pieces) → out ≠ ending ++ '(' :: rest) (hb : startsWord before = true) :
    Passed .outside before (joiner.intercalate pieces ++ out) := by
  intro front body hcall
  have hrun : Quoting.outside.run (joiner.intercalate pieces) = .outside :=
    run_of_wellFormed (wellFormed_of_neutral (s := start) rfl (neutral_intercalate (neutral_of_flat rfl hflat)
      fun piece hp => (hpieces piece hp).1.neutral rfl))
  rcases callBehind_append_cases hcall with hinside | hlater | hname
  · obtain ⟨tail, hcall', rfl⟩ := hinside
    obtain ⟨piece, hp, front', tail, more, hpiece, rfl⟩ := callBehind_intercalate hj hflat
      (fun piece hp => run_of_wellFormed (hpieces piece hp).1) hcall'
    rcases (hpieces piece hp).2 front' tail hpiece with hempty | hshadow
    · obtain ⟨inner, after, rfl, hblank⟩ := hempty
      exact Or.inl ⟨inner, after ++ more ++ out, by simp, hblank⟩
    · obtain ⟨front', body', -, hunclosed, hopen⟩ := hshadow
      exact absurd (closed_of_wellFormed (hpieces piece hp).1 hunclosed) hopen
  · obtain ⟨more, rfl, hcall'⟩ := hlater
    rw [hrun] at hcall'
    refine (hout more body (hcall'.before_starts (by decide))).imp_right fun h => ?_
    obtain ⟨front', body', hprefix, hunclosed, hopen⟩ := h
    refine Shadowed.behind ⟨front', body', hprefix, ?_, hopen⟩
    rw [hrun]
    -- the call that stays open is hidden only where its name would run together with a word
    by_cases hends : EndsInWord (joiner.intercalate pieces)
    · refine hunclosed.before_congr ?_ _
      rintro rfl
      obtain ⟨-, -, word, hw, htext⟩ := hunclosed
      exact hacross [] word body' hw List.nil_suffix hends htext
    · exact hunclosed.before_starts (startsWord_of_not_endsInWord hends hb)
  · obtain ⟨start, ending, hne, hpieces', hbehind, hw⟩ := hname
    have hsuffix : start <:+ joiner.intercalate pieces := ⟨front, hpieces'.symm⟩
    have hletters : ∀ c ∈ start, isWord c = true :=
      fun c hc => hw.isWord isWord_callName c (List.mem_append_left ending hc)
    have hends : EndsInWord (joiner.intercalate pieces) := by
      rw [hpieces']
      exact endsInWord_append.2 (Or.inl ⟨_, List.getLast?_eq_some_getLast hne, hletters _ (List.getLast_mem hne)⟩)
    exact absurd hbehind (hacross start ending body hw hsuffix hends)

/-- **Without a name that comes up, a second run passes every call.** -/
theorem passed_joinCalls (hj : Parting joiner) (hflat : Flat joiner) (quoting : Quoting) (before : Option Char)
    (text : Fragment) : ¬ OpeningBehindCall joiner quoting before text →
    Passed quoting before (joinCalls joiner quoting before text) := by
  induction quoting, before, text using joinCalls_induction with
  | nil quoting before =>
    intro _ front body hcall
    rw [joinCalls_nil] at hcall
    exact absurd hcall not_callBehind_nil
  | skip quoting before c rest hnone ih =>
    intro hno
    have hrest := ih fun h => hno (OpeningBehindCall.behind (a := [c]) h)
    rw [joinCalls_skip hnone]
    refine hrest.cons ?_
    rw [← joinCalls_skip hnone]
    exact callAt?_joinCalls hnone
  | unclosed before text body hcall hclose =>
    intro _ front body' _
    rw [joinCalls_unclosed hcall hclose]
    exact Or.inr ⟨[], body, List.nil_prefix, callBehind_nil_iff.2 hcall, fun h => closed_iff.1 h hclose⟩
  | closed before text body inner after hcall hclose iharguments ihafter =>
    intro hno
    obtain ⟨word, hc⟩ := closedCall_of_callAt? hcall hclose
    have hafter := ihafter fun h => hno (.of_after hc h)
    by_cases hblank : inner.all isBlank = true
    · rw [joinCalls_empty hcall hclose hblank, hc.take_call]
      exact hafter.emptyCall hc (all_isBlank_iff.1 hblank)
    · have hargs : inner.all isBlank = false := by simpa using hblank
      rw [joinCalls_call hcall hclose hargs]
      refine Passed.joined hj hflat (fun piece hp => ?_) hafter (fun start ending rest hw hstart hends hbegins => ?_)
        (callAt?_eq_some_iff.1 hcall).2.1
      · refine ⟨wellFormed_of_mem_joined hflat hc.wellFormed hp, ?_⟩
        obtain ⟨argument, ha, rfl⟩ := List.mem_map.1 hp
        exact iharguments argument ha fun h => hno (.of_argument hc ha h)
      · have hargs' : ¬ Blank inner := by rw [← all_isBlank_iff]; exact hblank
        have hletters := hw.isWord isWord_callName
        rcases exists_of_joinCalls (fun c hc => hletters c (List.mem_append_right start hc)) hbegins with hkept | hcalled
        · obtain ⟨more, hmore⟩ := hkept
          exact hno (.of_closed hcall hclose hargs' hw hstart hends hmore)
        · obtain ⟨found, hfound⟩ := hcalled
          obtain ⟨-, -, word', hw', hmore⟩ := callAt?_eq_some_iff.1 hfound
          have hname : Spells callName ([] ++ word') := hw'
          exact hno (.of_closed hcall hclose hargs' hname List.nil_suffix hends hmore)

/-! ## The rule -/

/-- every run that changes the text takes parentheses away, so there are no more such runs than parentheses -/
theorem exists_runs (hj : opens joiner = 0) (text : Fragment) : ∃ runs ≤ opens text,
    joinCalls joiner .outside none ((joinCalls joiner .outside none)^[runs] text) =
      (joinCalls joiner .outside none)^[runs] text := by
  induction hn : opens text using Nat.strongRecOn generalizing text with
  | ind n ih =>
    subst hn
    rcases joinCalls_cases hj .outside none text with hrest | hchange
    · exact ⟨0, Nat.zero_le _, hrest.2⟩
    · obtain ⟨runs, hle, hrest⟩ := ih _ hchange.2 _ rfl
      exact ⟨runs + 1, Nat.succ_le_of_lt (Nat.lt_of_le_of_lt hle hchange.2), hrest⟩

/-- **What the rule does to its own result.** A second run changes nothing exactly if no call was left to join. So it is
if no name comes up where a call is joined. In any case the runs come to rest: there are no more runs that change
anything than parentheses are opened. -/
theorem apply_again {needs : Capabilities}
    (h : needs ∈ [Driver.pgsql, .postgis, .sqlite].map fun driver => (Dialect.builtin driver).capabilities)
    (sql : Fragment) :
    (apply needs (apply needs sql) = apply needs sql ↔ ¬ Joinable .outside none (apply needs sql)) ∧
    (¬ OpeningBehindCall (FieldConcat.joiner "||") .outside none sql → apply needs (apply needs sql) = apply needs sql) ∧
    ∃ runs ≤ opens sql, apply needs ((apply needs)^[runs] sql) = (apply needs)^[runs] sql := by
  obtain ⟨driver, hdriver, rfl⟩ := List.mem_map.1 h
  have happly : apply (Dialect.builtin driver).capabilities = joinCalls (FieldConcat.joiner "||") .outside none :=
    funext (apply_of_operator (operator_of_mem hdriver))
  have hflat : Flat (FieldConcat.joiner "||") := flat_joiner (by decide)
  have hiff (text : Fragment) :
      joinCalls (FieldConcat.joiner "||") .outside none text = text ↔ ¬ Joinable .outside none text := by
    rcases joinCalls_cases (opens_of_flat hflat) .outside none text with hrest | hchange
    · exact iff_of_true hrest.2 hrest.1
    · refine iff_of_false (fun heq => ?_) (not_not_intro hchange.1)
      have hlt := hchange.2
      rw [heq] at hlt; omega
  rw [happly]
  refine ⟨hiff _, fun hno => (hiff _).2 (passed_joinCalls parting_joiner hflat _ _ _ hno).not_joinable, ?_⟩
  exact exists_runs (opens_of_flat hflat) sql

/-- the name comes up where the closing parenthesis is dropped, and the second run joins what the text calls by another
function -/
theorem apply_again_name :
    Dialect.pgsql.capabilities ∈
      ([Driver.pgsql, .postgis, .sqlite].map fun driver => (Dialect.builtin driver).capabilities) ∧
    OpeningBehindCall (FieldConcat.joiner "||") .outside none "SELECT CONCAT(a, con)CAT(b, c)".toList ∧
    apply Dialect.pgsql.capabilities "SELECT CONCAT(a, con)CAT(b, c)".toList = "SELECT a || conCAT(b, c)".toList ∧
    apply Dialect.pgsql.capabilities "SELECT a || conCAT(b, c)".toList = "SELECT a || b || c".toList := by
  have hmem : Dialect.pgsql.capabilities ∈
      ([Driver.pgsql, .postgis, .sqlite].map fun driver => (Dialect.builtin driver).capabilities) := by decide
  have hfirst : apply Dialect.pgsql.capabilities "SELECT CONCAT(a, con)CAT(b, c)".toList =
      "SELECT a || conCAT(b, c)".toList := by cbv
  have hsecond : apply Dialect.pgsql.capabilities "SELECT a || conCAT(b, c)".toList = "SELECT a || b || c".toList := by cbv
  obtain ⟨-, hname, -⟩ := apply_again hmem "SELECT CONCAT(a, con)CAT(b, c)".toList
  rw [hfirst, hsecond] at hname
  exact ⟨hmem, not_not.1 (mt hname (by decide)), hfirst, hsecond⟩

end SqlDialects.FieldConcat
