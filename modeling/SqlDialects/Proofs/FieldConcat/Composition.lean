/-
The joining of calls in two texts side by side. Where the first text ends behind no word and in no quotation, and every
call in it closes there, the second is read as if it stood alone.

- `CallsClosed`: every call that begins in the text closes in it; this can be computed.
- `callAt?_append`, `splitAtClose_append_of_some`: calls and their parentheses are found whatever text follows.
- `joinCalls_append`: the texts are joined one by one.
- `apply_append`: so is what the rule makes of them, for every operator.
-/
import Mathlib.Data.List.Permutation
import SqlDialects.Dialect.Builtin
import SqlDialects.Proofs.FieldConcat.Change

namespace SqlDialects.FieldConcat

open Text Fragment

/-- every call that begins in the text has its closing parenthesis there -/
def CallsClosed (quoting : Quoting) (before : Option Char) (text : Fragment) : Prop :=
  ∀ front body, CallBehind quoting before text front body → Closed body

variable {quoting : Quoting} {before : Option Char} {c : Char} {text front rest body inner after a b : Fragment}

/-! ## Closed calls -/

theorem callsClosed_nil : CallsClosed quoting before [] := fun _ _ h => absurd h not_callBehind_nil

/-- a call begins at the first character or behind it -/
theorem callsClosed_cons_iff : CallsClosed quoting before (c :: rest) ↔
    (∀ body ∈ callAt? quoting before (c :: rest), Closed body) ∧ CallsClosed (quoting.step c) (some c) rest := by
  refine ⟨?_, ?_⟩
  · intro h
    exact ⟨fun body hcall => h [] body (callBehind_nil_iff.2 hcall),
      fun front body hcall => h (c :: front) body (callBehind_cons_iff.2 hcall)⟩
  · intro h front body hcall
    obtain ⟨hfirst, hrest⟩ := h
    rcases callBehind_cons_cases hcall with hhere | hlater
    · exact hfirst body hhere.2
    · obtain ⟨more, -, hcall'⟩ := hlater
      exact hrest more body hcall'

instance (body : Fragment) : Decidable (Closed body) := decidable_of_iff _ closed_iff.symm

def decidableCallsClosed (quoting : Quoting) (before : Option Char) :
    (text : Fragment) → Decidable (CallsClosed quoting before text)
  | [] => isTrue callsClosed_nil
  | c :: rest =>
    have := decidableCallsClosed (quoting.step c) (some c) rest
    decidable_of_iff _ callsClosed_cons_iff.symm

instance (quoting : Quoting) (before : Option Char) (text : Fragment) : Decidable (CallsClosed quoting before text) :=
  decidableCallsClosed quoting before text

/-! ## Where two texts meet -/

/-- behind the name of a call no word begins -/
theorem not_startsWord_of_spells {word : Fragment} (hw : Spells callName (word ++ b)) (hne : word ≠ []) :
    startsWord (lastOr before word) = false := by
  obtain ⟨front, c, rfl⟩ := (List.eq_nil_or_concat word).resolve_left hne
  have hc := hw.isWord isWord_callName c (by simp)
  rw [List.concat_eq_append, lastOr_concat, startsWord, hc, Bool.not_true]

/-- where the first text ends behind no word, no call begins in it and opens in the second -/
theorem callAt?_append (ha : a ≠ []) (hlast : startsWord (lastOr before a) = true) :
    callAt? quoting before (a ++ b) = (callAt? quoting before a).map (· ++ b) := by
  refine Option.ext fun body => ?_
  rw [Option.map_eq_some_iff, callAt?_eq_some_iff]
  refine ⟨?_, ?_⟩
  · intro h
    obtain ⟨hq, hb, word, hw, htext⟩ := h
    rcases append_cases htext with hwithin | hacross
    · obtain ⟨tail, htail, rfl⟩ := hwithin
      exact ⟨tail, callAt?_eq_some_iff.2 ⟨hq, hb, word, hw, htail⟩, rfl⟩
    · obtain ⟨more, rfl, -⟩ := hacross
      rw [not_startsWord_of_spells hw ha] at hlast; cases hlast
  · intro h
    obtain ⟨tail, hcall, rfl⟩ := h
    obtain ⟨hq, hb, word, hw, rfl⟩ := callAt?_eq_some_iff.1 hcall
    exact ⟨hq, hb, word, hw, by simp⟩

/-- a call that closes does so whatever text follows -/
theorem splitAtClose_append_of_some (h : splitAtClose a = some (inner, after)) :
    splitAtClose (a ++ b) = some (inner, after ++ b) := by
  obtain ⟨rfl, hwf⟩ := splitAtClose_eq_some_iff.1 h
  exact splitAtClose_eq_some_iff.2 ⟨by simp, hwf⟩

/-- the text behind a closed call closes its calls if the whole text does -/
theorem CallsClosed.behind {word : Fragment} (h : CallsClosed .outside before text)
    (hc : ClosedCall text word inner after) : CallsClosed .outside (some ')') after := by
  intro front body hcall
  have htext : text = (word ++ '(' :: inner ++ [')']) ++ after := by rw [hc.text_eq]; simp
  refine h ((word ++ '(' :: inner ++ [')']) ++ front) body ?_
  rw [htext]
  exact CallBehind.behind (by rwa [run_of_wellFormed hc.wellFormed_call, lastOr_concat])

/-! ## The rule -/

/-- **Texts that meet between words are joined one by one**, if no quotation and no call is open where they meet. -/
theorem joinCalls_append (joiner : Fragment) (quoting : Quoting) (before : Option Char) (a b : Fragment) :
    startsWord (lastOr before a) = true → quoting.run a = .outside → CallsClosed quoting before a →
    joinCalls joiner quoting before (a ++ b) = joinCalls joiner quoting before a ++ joinCalls joiner .outside none b := by
  induction quoting, before, a using joinCalls_induction with
  | nil quoting before =>
    intro hlast hrun _
    rw [joinCalls_nil, List.nil_append, List.nil_append, show quoting = .outside from hrun]
    exact joinCalls_before hlast _ _
  | skip quoting before c rest hcall ih =>
    intro hlast hrun hclosed
    have hcall' : callAt? quoting before (c :: (rest ++ b)) = none := by
      rw [← List.cons_append, callAt?_append (List.cons_ne_nil c rest) hlast, hcall, Option.map_none]
    rw [joinCalls_skip hcall, List.cons_append, joinCalls_skip hcall', ih hlast hrun (callsClosed_cons_iff.1 hclosed).2,
      List.cons_append]
  | unclosed before text body hcall hclose =>
    intro _ _ hclosed
    exact absurd hclose (closed_iff.1 (hclosed [] body (callBehind_nil_iff.2 hcall)))
  | closed before text body inner after hcall hclose _ ih =>
    intro hlast hrun hclosed
    obtain ⟨word, hc⟩ := closedCall_of_callAt? hcall hclose
    have htext : text = (word ++ '(' :: inner ++ [')']) ++ after := by rw [hc.text_eq]; simp
    have hne : text ≠ [] := by rw [htext]; simp
    have hcall' : callAt? .outside before (text ++ b) = some (body ++ b) := by
      rw [callAt?_append hne hlast, hcall, Option.map_some]
    rw [htext, lastOr_append, lastOr_concat] at hlast
    rw [htext, Quoting.run_append, run_of_wellFormed hc.wellFormed_call] at hrun
    have hc' : ClosedCall (text ++ b) word inner (after ++ b) := ⟨hc.spells, hc.wellFormed, by rw [htext]; simp⟩
    rw [joinCalls_closed hcall hclose, joinCalls_closed hcall' (splitAtClose_append_of_some hclose), hc'.take_call,
      hc.take_call, ih hlast hrun (hclosed.behind hc)]
    exact (List.append_assoc _ _ _).symm

/-- **The rule works on two texts one by one**, for every operator and whatever the second text is: the first ends
behind no word, no quotation is open at its end, and every call in it has its closing parenthesis there. -/
theorem apply_append (needs : Capabilities) {first : Fragment} (hlast : ∀ c, first.getLast? = some c → isWord c = false)
    (hquote : Quoting.outside.run first = .outside) (hclosed : CallsClosed .outside none first) (second : Fragment) :
    apply needs (first ++ second) = apply needs first ++ apply needs second := by
  have hstart : startsWord (lastOr none first) = true := by
    rw [lastOr_none]
    cases hc : first.getLast? with
    | none => rfl
    | some c => rw [startsWord, hlast c hc, Bool.not_false]
  unfold apply
  cases needs.concatOperator with
  | none => rfl
  | some operator => exact joinCalls_append _ _ _ _ _ hstart hquote hclosed

/-- the parenthesis in the quotation closes no call, and the call in the second text stays open -/
theorem apply_append_unclosed :
    (∀ c, "SELECT CONCAT(a, 'x)'), ".toList.getLast? = some c → isWord c = false) ∧
    Quoting.outside.run "SELECT CONCAT(a, 'x)'), ".toList = .outside ∧
    CallsClosed .outside none "SELECT CONCAT(a, 'x)'), ".toList ∧
    apply Dialect.pgsql.capabilities ("SELECT CONCAT(a, 'x)'), ".toList ++ "CONCAT(b, CONCAT(c)".toList) =
      "SELECT a || 'x)', ".toList ++ "CONCAT(b, CONCAT(c)".toList := by
  have hlast : ∀ c, "SELECT CONCAT(a, 'x)'), ".toList.getLast? = some c → isWord c = false := by
    intro c hc
    obtain rfl : ' ' = c := Option.some.inj hc
    decide
  have hquote : Quoting.outside.run "SELECT CONCAT(a, 'x)'), ".toList = .outside := by decide
  have hclosed : CallsClosed .outside none "SELECT CONCAT(a, 'x)'), ".toList := by decide
  refine ⟨hlast, hquote, hclosed, (apply_append _ hlast hquote hclosed _).trans ?_⟩
  cbv

end SqlDialects.FieldConcat
