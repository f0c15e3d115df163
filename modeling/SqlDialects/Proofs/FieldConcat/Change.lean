/-
What the joining of calls changes: a text is changed exactly if a call in it is joined, and every joined call takes its
parentheses away.

- `CallBehind`, `Joinable`: a call stands outside quotations where a word can begin; it is joined if it is closed and
  has arguments, and no call before it stays open.
- `joinable_skip`, `joinable_blank`, `joinable_name`: where the search for such a call goes on.
- `joinCalls_cases`, `advances_apply`: a text without a call to join is kept, any other loses parentheses.
-/
import Mathlib.Algebra.GroupWithZero.Nat
import Mathlib.Algebra.Order.BigOperators.Group.List
import Mathlib.Algebra.Order.Group.Nat
import SqlDialects.Proofs.Call.Openings
import SqlDialects.Proofs.FieldConcat.Reading
import SqlDialects.Proofs.Reading.Order

namespace SqlDialects.FieldConcat

open Text Fragment

/-- a call begins behind `front`, outside quotations and where a word can begin, and `body` stands behind its opening
parenthesis -/
def CallBehind (quoting : Quoting) (before : Option Char) (text front body : Fragment) : Prop :=
  quoting.run front = .outside ∧ startsWord (lastOr before front) = true ∧
    ∃ word, Spells callName word ∧ text = front ++ word ++ '(' :: body

/-- the call whose arguments begin the text has a closing parenthesis -/
def Closed (body : Fragment) : Prop := ∃ inner after, body = inner ++ ')' :: after ∧ inner.WellFormed

/-- some call is closed and has arguments, and no call before it stays open -/
def Joinable (quoting : Quoting) (before : Option Char) (text : Fragment) : Prop :=
  ∃ front inner after, CallBehind quoting before text front (inner ++ ')' :: after) ∧ inner.WellFormed ∧ ¬ Blank inner ∧
    ∀ front' body, front' <+: front → CallBehind quoting before text front' body → Closed body

variable {quoting : Quoting} {before : Option Char} {c : Char} {text front rest body inner after : Fragment}

/-! ## Where calls begin -/

theorem callBehind_nil_iff : CallBehind quoting before text [] body ↔ callAt? quoting before text = some body :=
  callAt?_eq_some_iff.symm

theorem callBehind_cons_iff : CallBehind quoting before (c :: rest) (c :: front) body ↔
    CallBehind (quoting.step c) (some c) rest front body := by
  simp [CallBehind, lastOr]

/-- a call begins at the first character or behind it -/
theorem callBehind_cons_cases (h : CallBehind quoting before (c :: rest) front body) :
    (front = [] ∧ callAt? quoting before (c :: rest) = some body) ∨
      ∃ more, front = c :: more ∧ CallBehind (quoting.step c) (some c) rest more body := by
  cases front with
  | nil => exact Or.inl ⟨rfl, callBehind_nil_iff.1 h⟩
  | cons d more =>
    obtain rfl : c = d := by
      obtain ⟨-, -, word, -, htext⟩ := h
      exact (List.cons.inj htext).1
    exact Or.inr ⟨more, rfl, callBehind_cons_iff.1 h⟩

theorem not_callBehind_nil : ¬ CallBehind quoting before [] front body := by
  intro h
  obtain ⟨-, -, word, -, htext⟩ := h
  simp at htext

/-- a call in a text is a call in a longer one, which goes on behind it or begins before it -/
theorem CallBehind.append (h : CallBehind quoting before text front body) (more : Fragment) :
    CallBehind quoting before (text ++ more) front (body ++ more) := by
  obtain ⟨hquote, hstart, word, hw, rfl⟩ := h
  exact ⟨hquote, hstart, word, hw, by simp⟩

theorem CallBehind.behind {first : Fragment} (h : CallBehind (quoting.run first) (lastOr before first) text front body) :
    CallBehind quoting before (first ++ text) (first ++ front) body := by
  obtain ⟨hquote, hstart, word, hw, rfl⟩ := h
  exact ⟨by rwa [Quoting.run_append], by rwa [lastOr_append], word, hw, by simp⟩

theorem closed_iff : Closed body ↔ splitAtClose body ≠ none := by
  rw [Option.ne_none_iff_exists']
  refine ⟨?_, ?_⟩
  · rintro ⟨inner, after, h⟩
    exact ⟨(inner, after), splitAtClose_eq_some_iff.2 h⟩
  · rintro ⟨⟨inner, after⟩, h⟩
    exact ⟨inner, after, splitAtClose_eq_some_iff.1 h⟩

/-- where no call to join begins, and none that stays open, the search goes on behind the next character -/
theorem joinable_cons (h : ∀ body, callAt? quoting before (c :: rest) = some body →
      ∃ inner after, splitAtClose body = some (inner, after) ∧ Blank inner) :
    Joinable quoting before (c :: rest) ↔ Joinable (quoting.step c) (some c) rest := by
  refine ⟨?_, ?_⟩
  · rintro ⟨front, inner, after, hcall, hwf, hargs, hclosed⟩
    rcases callBehind_cons_cases hcall with hfirst | hlater
    · obtain ⟨inner', after', hclose, hblank⟩ := h _ hfirst.2
      rw [splitAtClose_eq_some_iff.2 ⟨rfl, hwf⟩] at hclose
      cases hclose
      exact absurd hblank hargs
    · obtain ⟨front, rfl, hbehind⟩ := hlater
      refine ⟨front, inner, after, hbehind, hwf, hargs, fun front' body hprefix hcall' => ?_⟩
      exact hclosed (c :: front') body (List.cons_prefix_cons.2 ⟨rfl, hprefix⟩) (callBehind_cons_iff.2 hcall')
  · rintro ⟨front, inner, after, hcall, hwf, hargs, hclosed⟩
    refine ⟨c :: front, inner, after, callBehind_cons_iff.2 hcall, hwf, hargs, fun front' body hprefix hcall' => ?_⟩
    cases front' with
    | nil =>
      obtain ⟨inner', after', hclose, -⟩ := h _ (callBehind_nil_iff.1 hcall')
      exact ⟨inner', after', splitAtClose_eq_some_iff.1 hclose⟩
    | cons d front' =>
      obtain ⟨rfl, htail⟩ := List.cons_prefix_cons.1 hprefix
      exact hclosed front' body htail (callBehind_cons_iff.1 hcall')

theorem joinable_skip (h : callAt? quoting before (c :: rest) = none) :
    Joinable quoting before (c :: rest) ↔ Joinable (quoting.step c) (some c) rest :=
  joinable_cons fun body hbody => by rw [h] at hbody; cases hbody

/-- a call without arguments is passed over -/
theorem joinable_blank (hcall : callAt? quoting before (c :: rest) = some body)
    (hclose : splitAtClose body = some (inner, after)) (hblank : Blank inner) :
    Joinable quoting before (c :: rest) ↔ Joinable (quoting.step c) (some c) rest := by
  refine joinable_cons fun body' hbody' => ?_
  rw [hcall] at hbody'
  cases hbody'
  exact ⟨inner, after, hclose, hblank⟩

theorem findsOpenings_callAt? (quoting : Quoting) : FindsOpenings (callAt? quoting) callName
    (fun before => quoting = .outside ∧ startsWord before = true) fun _ => True := by
  intro before text
  rw [Option.ne_none_iff_exists']
  refine ⟨?_, ?_⟩
  · rintro ⟨body, hcall⟩
    obtain ⟨hq, hb, word, hw, rfl⟩ := callAt?_eq_some_iff.1 hcall
    exact ⟨⟨hq, hb⟩, word, body, hw, rfl, trivial⟩
  · rintro ⟨⟨hq, hb⟩, word, body, hw, rfl, -⟩
    exact ⟨body, callAt?_eq_some_iff.2 ⟨hq, hb, word, hw, rfl⟩⟩

/-- no call to join begins within a name that ends in another way -/
theorem joinable_name {name : Fragment} (hname : '(' ∉ name) (hapart : Apart callName name) (quoting : Quoting)
    (before : Option Char) (rest : Fragment) :
    Joinable quoting before (name ++ '(' :: rest) ↔ Joinable (quoting.run (name ++ ['('])) (some '(') rest := by
  suffices h : ∀ tail quoting before, tail <:+ name → (Joinable quoting before (tail ++ '(' :: rest) ↔
      Joinable (quoting.run (tail ++ ['('])) (some '(') rest) from h name quoting before (List.suffix_refl name)
  intro tail
  induction tail with
  | nil =>
    intro quoting before htail
    have hnone : callAt? quoting before ('(' :: rest) = none :=
      none_within (findsOpenings_callAt? quoting) isWord_callName hname hapart htail rest
    exact joinable_skip hnone
  | cons c tail ih =>
    intro quoting before htail
    have hnone : callAt? quoting before (c :: (tail ++ '(' :: rest)) = none :=
      none_within (findsOpenings_callAt? quoting) isWord_callName hname hapart htail rest
    rw [List.cons_append, joinable_skip hnone, ih _ _ ((List.suffix_cons c tail).trans htail)]
    rfl

theorem not_joinable_nil : ¬ Joinable quoting before [] := by
  rintro ⟨front, inner, after, ⟨-, -, word, -, htext⟩, -⟩
  simp at htext

theorem joinable_of_call (hcall : callAt? .outside before text = some body) (hclose : splitAtClose body = some (inner, after))
    (hargs : inner.all isBlank = false) : Joinable .outside before text := by
  obtain ⟨rfl, hwf⟩ := splitAtClose_eq_some_iff.1 hclose
  refine ⟨[], inner, after, callBehind_nil_iff.2 hcall, hwf, ?_, fun front' body hprefix hcall' => ?_⟩
  · rw [← all_isBlank_iff, hargs]; exact Bool.false_ne_true
  · obtain rfl := List.prefix_nil.1 hprefix
    rw [callBehind_nil_iff, hcall] at hcall'
    cases hcall'
    exact ⟨inner, after, rfl, hwf⟩

theorem not_joinable_of_unclosed (hcall : callAt? .outside before text = some body) (hclose : splitAtClose body = none) :
    ¬ Joinable .outside before text := by
  rintro ⟨front, inner, after, -, -, -, hclosed⟩
  exact closed_iff.1 (hclosed [] body List.nil_prefix (callBehind_nil_iff.2 hcall)) hclose

/-- no call begins within a name, or at signs and blanks -/
theorem joinable_append {a : Fragment}
    (h : ∀ b d e, a = b ++ d :: e → startsWord (lastOr before b) = false ∨ isWord d = false) (text : Fragment) :
    Joinable quoting before (a ++ text) ↔ Joinable (quoting.run a) (lastOr before a) text := by
  induction a generalizing quoting before with
  | nil => exact Iff.rfl
  | cons d a ih =>
    have hnone : callAt? quoting before (d :: (a ++ text)) = none := by
      rcases h [] d a rfl with hstart | hword
      · simp only [lastOr] at hstart
        simp [callAt?, hstart]
      · simp [callAt?, opening, afterKeyword, not_letter_of_not_word hword]
    rw [List.cons_append, joinable_skip hnone, Quoting.run_cons, lastOr]
    exact ih fun b x e hsplit => h (d :: b) x e (by rw [hsplit]; rfl)

theorem startsWord_lastOr {word : Fragment} (hword : ∀ c ∈ word, isWord c = true) (hb : startsWord before = false) :
    startsWord (lastOr before word) = false := by
  induction word generalizing before with
  | nil => exact hb
  | cons c word ih =>
    exact ih (fun d hd => hword d (List.mem_cons_of_mem c hd)) (by simp [startsWord, hword c List.mem_cons_self])

/-- no call begins within a call without arguments -/
theorem passed_of_blank {w : Char} {ws : Fragment} (hword : ∀ c ∈ w :: ws, isWord c = true) (hblank : Blank inner) :
    ∀ x d y, ws ++ ('(' :: inner ++ [')']) = x ++ d :: y → startsWord (lastOr (some w) x) = false ∨ isWord d = false := by
  intro x d y hsplit
  rcases append_cases hsplit with hname | hsigns
  · obtain ⟨tail, rfl, -⟩ := hname
    have hw : startsWord (some w) = false := by simp [startsWord, hword w List.mem_cons_self]
    exact Or.inl (startsWord_lastOr (fun c hc => hword c (by simp [hc])) hw)
  · obtain ⟨more, -, hsigns⟩ := hsigns
    have hd : d ∈ '(' :: inner ++ [')'] := by rw [hsigns]; simp
    simp only [List.cons_append, List.mem_cons, List.mem_append, List.not_mem_nil, or_false] at hd
    rcases hd with rfl | hd | rfl
    · exact Or.inr (by decide)
    · exact Or.inr (isWord_of_isBlank (hblank d hd))
    · exact Or.inr (by decide)

/-- behind a call without arguments the search goes on afresh -/
theorem joinable_empty (hcall : callAt? .outside before text = some body) (hclose : splitAtClose body = some (inner, after))
    (hblank : Blank inner) : Joinable .outside before text ↔ Joinable .outside (some ')') after := by
  obtain ⟨word, hc⟩ := closedCall_of_callAt? hcall hclose
  have hrun := run_of_wellFormed hc.wellFormed_call
  obtain ⟨hw, -, htext⟩ := hc
  have hword := hw.isWord isWord_callName
  cases hw with
  | @cons _ w _ ws _ _ =>
    obtain rfl : text = w :: ((ws ++ ('(' :: inner ++ [')'])) ++ after) := by rw [htext]; simp
    rw [List.append_assoc, List.cons_append, Quoting.run_cons] at hrun
    rw [joinable_blank hcall hclose hblank, joinable_append (passed_of_blank hword hblank), hrun, lastOr_append,
      lastOr_concat]

/-! ## Parentheses -/

theorem opens_intercalate {sep : Fragment} (hsep : opens sep = 0) (pieces : List Fragment) :
    opens (sep.intercalate pieces) = (pieces.map opens).sum := by
  induction pieces with
  | nil => rfl
  | cons first others ih =>
    by_cases hne : others = []
    · simp [hne]
    · rw [List.intercalate_cons_of_ne_nil hne, opens_append, opens_append, hsep, ih, List.map_cons, List.sum_cons,
        Nat.add_zero]

theorem opens_trim (text : Fragment) : opens (trim text) = opens text := by
  obtain ⟨lead, trail, hl, hr, htext⟩ := exists_trim text
  conv => rhs; rw [htext]
  rw [opens_append, opens_append, opens_of_flat (flat_of_isBlank hl), opens_of_flat (flat_of_isBlank hr), Nat.zero_add,
    Nat.add_zero]

/-- the arguments open all the parentheses that are opened between those of the call -/
theorem sum_opens_arguments (inner : Fragment) : ((arguments inner).map opens).sum = opens inner := by
  have hpieces : opens ([','].intercalate (cutFrom .start inner)) = _ := opens_intercalate rfl (cutFrom .start inner)
  rw [intercalate_cutFrom] at hpieces
  rw [hpieces, arguments, List.map_map]
  congr 1
  exact List.map_congr_left fun piece _ => opens_trim piece

theorem ClosedCall.opens_eq {word : Fragment} (h : ClosedCall text word inner after) :
    opens text = opens inner + 1 + opens after := by
  have hword := opens_of_flat (flat_of_isWord (h.spells.isWord isWord_callName))
  rw [h.text_eq, show word ++ '(' :: inner ++ ')' :: after = word ++ (['('] ++ (inner ++ ([')'] ++ after))) by simp]
  simp only [opens_append, hword, show opens ['('] = 1 from rfl, show opens [')'] = 0 from rfl]
  omega

/-- a text without a call to join is kept, and joined calls lose their parentheses -/
theorem joinCalls_cases {joiner : Fragment} (hj : opens joiner = 0) (quoting : Quoting) (before : Option Char)
    (text : Fragment) :
    (¬ Joinable quoting before text ∧ joinCalls joiner quoting before text = text) ∨
      (Joinable quoting before text ∧ opens (joinCalls joiner quoting before text) < opens text) := by
  induction quoting, before, text using joinCalls_induction with
  | nil quoting before => exact Or.inl ⟨not_joinable_nil, joinCalls_nil ..⟩
  | skip quoting before c rest hcall ih =>
    rw [joinCalls_skip hcall, joinable_skip hcall]
    rcases ih with ⟨hno, hrest⟩ | ⟨hyes, hlt⟩
    · exact Or.inl ⟨hno, by rw [hrest]⟩
    · refine Or.inr ⟨hyes, ?_⟩
      rw [← List.singleton_append, opens_append, ← List.singleton_append (l := rest), opens_append]
      omega
  | unclosed before text body hcall hclose =>
    exact Or.inl ⟨not_joinable_of_unclosed hcall hclose, joinCalls_unclosed hcall hclose⟩
  | closed before text body inner after hcall hclose iharguments ihafter =>
    obtain ⟨word, hc⟩ := closedCall_of_callAt? hcall hclose
    by_cases hblank : inner.all isBlank = true
    · have hcalled : text = (word ++ '(' :: inner ++ [')']) ++ after := by rw [hc.text_eq]; simp
      rw [joinable_empty hcall hclose (all_isBlank_iff.1 hblank), joinCalls_empty hcall hclose hblank, hc.take_call]
      rcases ihafter with ⟨hno, hafter⟩ | ⟨hyes, hlt⟩
      · exact Or.inl ⟨hno, by rw [hafter, ← hcalled]⟩
      · refine Or.inr ⟨hyes, ?_⟩
        have hopens := congrArg opens hcalled
        rw [opens_append] at hopens ⊢
        omega
    · have hargs : inner.all isBlank = false := by simpa using hblank
      refine Or.inr ⟨joinable_of_call hcall hclose hargs, ?_⟩
      have harguments : (((arguments inner).map (joinCalls joiner .outside none)).map opens).sum ≤ opens inner := by
        rw [← sum_opens_arguments, List.map_map]
        refine List.sum_le_sum fun argument ha => ?_
        rcases iharguments argument ha with ⟨-, h⟩ | ⟨-, h⟩
        · rw [Function.comp_apply, h]
        · exact Nat.le_of_lt h
      have hafter : opens (joinCalls joiner .outside (some ')') after) ≤ opens after := by
        rcases ihafter with ⟨-, h⟩ | ⟨-, h⟩
        · rw [h]
        · exact Nat.le_of_lt h
      rw [joinCalls_call hcall hclose hargs, opens_append, opens_intercalate hj, hc.opens_eq]
      omega

/-- **The rule advances a text** exactly if there is a call to join. -/
theorem advances_apply {needs : Capabilities} (hn : ∀ operator ∈ needs.concatOperator, Flat operator.toList)
    (sql : Fragment) :
    Advances (needs.concatOperator ≠ none → ¬ Joinable .outside none sql) sql (apply needs sql) := by
  unfold apply
  cases h : needs.concatOperator with
  | none => exact .refl (fun h => absurd rfl h) sql
  | some operator =>
    have hj := opens_of_flat (flat_joiner (hn operator h))
    rcases joinCalls_cases hj .outside none sql with ⟨hno, heq⟩ | ⟨hyes, hlt⟩
    · exact Or.inl ⟨fun _ => hno, heq⟩
    · exact Or.inr ⟨fun hno => hno (by simp) hyes, Or.inl hlt⟩

end SqlDialects.FieldConcat
