/-
What the joining of calls does to each character of a text: it is kept, or dropped as part of a joined call, or the
joiner takes its place.

- `Edit`, `source`, `written`: one edit for each character, the text before and the text after.
- `Joined`: the shape that the edits have. Whatever is not kept belongs to a call: its name, its parentheses, the commas
  between its arguments, and the blanks around them.
- `closedCall_of_cut`, `arguments_between`: the parentheses of such a call match, and no other comma separates arguments.
- `Joined.dropsOutside`: what is not kept stands outside quotations.
- `exists_accounts`: every text has edits of this shape that turn it into the text with its calls joined.
- `accounts_apply`: so the rule loses nothing else, and neither doubles nor moves anything.
-/
import Mathlib.Data.List.Permutation
import Mathlib.Tactic.Choose
import SqlDialects.Dialect.Builtin
import SqlDialects.Proofs.FieldConcat.Reading
import SqlDialects.Proofs.Text.Substitution

namespace SqlDialects.FieldConcat

open Text Fragment Cursor

/-! ## Edits -/

/-- what becomes of a character -/
inductive Edit where
  | keep (c : Char)
  /-- a letter of the name of a joined call is dropped -/
  | name (c : Char)
  /-- so are its parentheses -/
  | opening
  | closing
  /-- and the blanks at the ends of its arguments -/
  | blank (c : Char)
  /-- the joiner takes the place of a comma between arguments -/
  | comma
deriving DecidableEq, Repr

namespace Edit

/-- the character before the edit -/
def char : Edit → Char
  | keep c => c
  | name c => c
  | opening => '('
  | closing => ')'
  | blank c => c
  | comma => ','

/-- what stands in its place afterwards -/
def output (joiner : Fragment) : Edit → Fragment
  | keep c => [c]
  | comma => joiner
  | _ => []

/-- what stands in its place if nothing but the names is taken away -/
def unnamed : Edit → Fragment
  | name _ => []
  | edit => [edit.char]

def isKept : Edit → Bool
  | keep _ => true
  | _ => false

end Edit

/-- the text before the edits -/
def source (edits : List Edit) : Fragment := edits.map Edit.char

/-- the text after the edits -/
def written (joiner : Fragment) (edits : List Edit) : Fragment := edits.flatMap (Edit.output joiner)

/-- the text with nothing taken away but the names of the joined calls -/
def unnamed (edits : List Edit) : Fragment := edits.flatMap Edit.unnamed

/-- an argument of a joined call: its own edits, and the blanks before and behind it -/
structure Argument where
  lead : Fragment
  edits : List Edit
  trail : Fragment
deriving Inhabited

def Argument.all (argument : Argument) : List Edit :=
  argument.lead.map .blank ++ argument.edits ++ argument.trail.map .blank

/-- the edits between the parentheses of a joined call -/
def between (first : Argument) (others : List Argument) : List Edit :=
  first.all ++ others.flatMap fun argument => .comma :: argument.all

/-- the edits of a joined call -/
def callEdits (word : Fragment) (first : Argument) (others : List Argument) : List Edit :=
  word.map .name ++ .opening :: between first others ++ [.closing]

/-- the argument was cut out of its call at commas outside quotations and other parentheses, and trimmed -/
structure Argument.Cut (argument : Argument) : Prop where
  lead : Blank argument.lead
  trail : Blank argument.trail
  trimmed : Trimmed (source argument.edits)
  wellFormed : (source argument.edits).WellFormed
  unseparated : start.Unseparated (source argument.edits)

/-- Edits that join calls, read on from `quoting` and behind the character `before`. A call begins outside quotations
where a word can begin, and it has arguments. -/
inductive Joined : Quoting → Option Char → List Edit → Prop
  | nil (quoting : Quoting) (before : Option Char) : Joined quoting before []
  | keep {quoting : Quoting} {before : Option Char} {c : Char} {edits : List Edit} :
      Joined (quoting.step c) (some c) edits → Joined quoting before (.keep c :: edits)
  | call {before : Option Char} {word : Fragment} {first : Argument} {others : List Argument} {edits : List Edit} :
      startsWord before = true → Spells callName word → ¬ Blank (source (between first others)) →
      (∀ argument ∈ first :: others, argument.Cut) →
      (∀ argument ∈ first :: others, Joined .outside none argument.edits) →
      Joined .outside (some ')') edits → Joined .outside before (callEdits word first others ++ edits)

variable {joiner text word inner after : Fragment} {quoting : Quoting} {before : Option Char} {edits : List Edit}
  {argument first : Argument} {others : List Argument}

/-! ## The texts before and after -/

theorem source_append (a b : List Edit) : source (a ++ b) = source a ++ source b := List.map_append

theorem written_append (joiner : Fragment) (a b : List Edit) :
    written joiner (a ++ b) = written joiner a ++ written joiner b :=
  List.flatMap_append

theorem written_cons (joiner : Fragment) (edit : Edit) (edits : List Edit) :
    written joiner (edit :: edits) = edit.output joiner ++ written joiner edits :=
  List.flatMap_cons

theorem unnamed_append (a b : List Edit) : unnamed (a ++ b) = unnamed a ++ unnamed b := List.flatMap_append

theorem source_keep (text : Fragment) : source (text.map .keep) = text := by
  rw [source, List.map_map]; exact List.map_id text

theorem source_blank (text : Fragment) : source (text.map .blank) = text := by
  rw [source, List.map_map]; exact List.map_id text

theorem source_name (text : Fragment) : source (text.map .name) = text := by
  rw [source, List.map_map]; exact List.map_id text

theorem written_keep (joiner text : Fragment) : written joiner (text.map .keep) = text := by
  rw [written, List.flatMap_map]; exact List.flatMap_singleton' text

theorem written_blank (joiner text : Fragment) : written joiner (text.map .blank) = [] :=
  List.flatMap_eq_nil_iff.2 (List.forall_mem_map.2 fun _ _ => rfl)

theorem written_name (joiner text : Fragment) : written joiner (text.map .name) = [] :=
  List.flatMap_eq_nil_iff.2 (List.forall_mem_map.2 fun _ _ => rfl)

theorem unnamed_blank (text : Fragment) : unnamed (text.map .blank) = text := by
  rw [unnamed, List.flatMap_map]; exact List.flatMap_singleton' text

theorem unnamed_name (text : Fragment) : unnamed (text.map .name) = [] :=
  List.flatMap_eq_nil_iff.2 (List.forall_mem_map.2 fun _ _ => rfl)

theorem Argument.source_all (argument : Argument) :
    source argument.all = argument.lead ++ source argument.edits ++ argument.trail := by
  rw [Argument.all, source_append, source_append, source_blank, source_blank]

theorem Argument.unnamed_all (argument : Argument) :
    unnamed argument.all = argument.lead ++ unnamed argument.edits ++ argument.trail := by
  rw [Argument.all, unnamed_append, unnamed_append, unnamed_blank, unnamed_blank]

theorem Argument.written_all (joiner : Fragment) (argument : Argument) :
    written joiner argument.all = written joiner argument.edits := by
  rw [Argument.all, written_append, written_append, written_blank, written_blank, List.nil_append, List.append_nil]

theorem between_nil (first : Argument) : between first [] = first.all := List.append_nil _

theorem between_cons (first second : Argument) (others : List Argument) :
    between first (second :: others) = first.all ++ .comma :: between second others := by
  simp [between]

/-- what holds of every argument and stays true where two texts meet at a comma holds between the parentheses -/
theorem between_induction {P : List Edit → Prop} (hargument : ∀ argument ∈ first :: others, P argument.all)
    (hcomma : ∀ left right, P left → P right → P (left ++ .comma :: right)) : P (between first others) := by
  induction others generalizing first with
  | nil => rw [between_nil]; exact hargument first List.mem_cons_self
  | cons second others ih =>
    rw [between_cons]
    exact hcomma _ _ (hargument first List.mem_cons_self) (ih fun a ha => hargument a (List.mem_cons_of_mem _ ha))

theorem source_between (first : Argument) (others : List Argument) :
    source (between first others) = [','].intercalate ((first :: others).map fun argument => source argument.all) := by
  induction others generalizing first with
  | nil => rw [between_nil, List.map_singleton, List.intercalate_singleton]
  | cons second others ih =>
    have ih := ih second
    rw [List.map_cons] at ih
    rw [between_cons, source_append, List.map_cons, List.map_cons, List.intercalate_cons_cons, ← ih, List.append_assoc]
    rfl

theorem written_between (joiner : Fragment) (first : Argument) (others : List Argument) :
    written joiner (between first others) =
      joiner.intercalate ((first :: others).map fun argument => written joiner argument.edits) := by
  induction others generalizing first with
  | nil => rw [between_nil, Argument.written_all, List.map_singleton, List.intercalate_singleton]
  | cons second others ih =>
    have ih := ih second
    rw [List.map_cons] at ih
    rw [between_cons, written_append, Argument.written_all, written_cons, ih, List.map_cons, List.map_cons,
      List.intercalate_cons_cons, List.append_assoc]
    rfl

theorem source_callEdits (word : Fragment) (first : Argument) (others : List Argument) :
    source (callEdits word first others) = word ++ '(' :: source (between first others) ++ [')'] := by
  rw [callEdits, source_append, source_append, source_name]; rfl

theorem unnamed_callEdits (word : Fragment) (first : Argument) (others : List Argument) :
    unnamed (callEdits word first others) = '(' :: unnamed (between first others) ++ [')'] := by
  rw [callEdits, unnamed_append, unnamed_append, unnamed_name]; rfl

theorem written_callEdits (joiner word : Fragment) (first : Argument) (others : List Argument) :
    written joiner (callEdits word first others) = written joiner (between first others) := by
  have hclosing : written joiner [.closing] = [] := rfl
  rw [callEdits, written_append, written_append, written_name, List.nil_append, hclosing, List.append_nil, written_cons]
  rfl

/-! ## Calls -/

namespace Argument.Cut

theorem padded_all (h : argument.Cut) : Padded (source argument.edits) (source argument.all) :=
  ⟨argument.lead, argument.trail, h.lead, h.trail, argument.source_all⟩

theorem wellFormed_all (h : argument.Cut) : (source argument.all).WellFormed := h.padded_all.wellFormed h.wellFormed

theorem run_all (h : argument.Cut) : Quoting.outside.run (source argument.all) = .outside :=
  run_of_wellFormed h.wellFormed_all

theorem unseparated_all (h : argument.Cut) : start.Unseparated (source argument.all) :=
  h.padded_all.unseparated_iff.2 h.unseparated

end Argument.Cut

theorem neutral_comma : start.Neutral [','] := neutral_of_flat rfl (by decide)

theorem wellFormed_between (h : ∀ argument ∈ first :: others, argument.Cut) :
    (source (between first others)).WellFormed := by
  have hall : ∀ argument ∈ first :: others, start.Neutral (source argument.all) :=
    fun a ha => (h a ha).wellFormed_all.neutral rfl
  refine wellFormed_of_neutral (s := start) rfl ?_
  refine between_induction (P := fun edits => start.Neutral (source edits)) hall fun left right hl hr => ?_
  rw [source_append]
  exact hl.append (neutral_comma.append hr)

/-- the arguments of the edits are those of the call: no other comma separates any -/
theorem arguments_between (h : ∀ argument ∈ first :: others, argument.Cut) :
    arguments (source (between first others)) = (first :: others).map fun argument => source argument.edits := by
  have hcut : ∀ piece ∈ (first :: others).map fun argument => source argument.all,
      piece.WellFormed ∧ start.Unseparated piece :=
    List.forall_mem_map.2 fun a ha => ⟨(h a ha).wellFormed_all, (h a ha).unseparated_all⟩
  have hne : ((first :: others).map fun argument => source argument.all) ≠ [] := List.cons_ne_nil _ _
  rw [source_between, arguments, cutFrom_intercalate hne hcut, List.map_map]
  exact List.map_congr_left fun a ha => (h a ha).padded_all.trim_eq (h a ha).trimmed

/-- the parentheses of a joined call match -/
theorem closedCall_of_cut (hword : Spells callName word) (h : ∀ argument ∈ first :: others, argument.Cut)
    (after : Fragment) :
    ClosedCall (source (callEdits word first others) ++ after) word (source (between first others)) after :=
  ⟨hword, wellFormed_between h, by rw [source_callEdits]; simp⟩

theorem run_callEdits (hword : Spells callName word) (h : ∀ argument ∈ first :: others, argument.Cut) :
    Quoting.outside.run (source (callEdits word first others)) = .outside := by
  rw [source_callEdits]
  exact run_of_wellFormed (closedCall_of_cut hword h []).wellFormed_call

/-! ## What is dropped -/

/-- whatever is not kept is plain and stands outside quotations, read on from `quoting` -/
def DropsOutside (quoting : Quoting) : List Edit → Prop
  | [] => True
  | edit :: edits =>
    (edit.isKept = false → quoting = .outside ∧ Quoting.isPlain edit.char = true) ∧
      DropsOutside (quoting.step edit.char) edits

theorem dropsOutside_append {a b : List Edit} : DropsOutside quoting (a ++ b) ↔
    DropsOutside quoting a ∧ DropsOutside (quoting.run (source a)) b := by
  induction a generalizing quoting with
  | nil => exact (and_iff_right trivial).symm
  | cons edit a ih => rw [List.cons_append, DropsOutside, DropsOutside, ih, and_assoc]; rfl

theorem dropsOutside_of_plain (h : Plain (source edits)) : DropsOutside .outside edits := by
  induction edits with
  | nil => trivial
  | cons edit edits ih =>
    obtain ⟨hchar, hrest⟩ := plain_cons.1 h
    refine ⟨fun _ => ⟨rfl, hchar⟩, ?_⟩
    rw [Quoting.step_outside_of_plain hchar]
    exact ih hrest

theorem DropsOutside.run_take (h : DropsOutside quoting edits) {i : Nat} {edit : Edit} (hi : edits[i]? = some edit)
    (hdropped : edit.isKept = false) : quoting.run ((source edits).take i) = .outside := by
  induction edits generalizing quoting i with
  | nil => cases hi
  | cons first edits ih =>
    cases i with
    | zero => cases hi; exact (h.1 hdropped).1
    | succ i => exact ih h.2 hi

theorem Argument.Cut.dropsOutside_all (h : argument.Cut) (hedits : DropsOutside .outside argument.edits) :
    DropsOutside .outside argument.all := by
  have hblank {blanks : Fragment} (hb : Blank blanks) : Plain (source (blanks.map .blank)) := by
    rw [source_blank]; exact (flat_of_isBlank hb).plain
  have hlead := hblank h.lead
  refine dropsOutside_append.2 ⟨dropsOutside_append.2 ⟨dropsOutside_of_plain hlead, ?_⟩, ?_⟩
  · rw [run_plain_outside hlead]; exact hedits
  · rw [source_append, Quoting.run_append, run_plain_outside hlead, run_of_wellFormed h.wellFormed]
    exact dropsOutside_of_plain (hblank h.trail)

theorem dropsOutside_between (hcut : ∀ argument ∈ first :: others, argument.Cut)
    (h : ∀ argument ∈ first :: others, DropsOutside .outside argument.edits) :
    DropsOutside .outside (between first others) := by
  induction others generalizing first with
  | nil =>
    rw [between_nil]
    exact (hcut first List.mem_cons_self).dropsOutside_all (h first List.mem_cons_self)
  | cons second others ih =>
    obtain ⟨hfirst, hothers⟩ := List.forall_mem_cons.1 hcut
    obtain ⟨hdrops, hrest⟩ := List.forall_mem_cons.1 h
    rw [between_cons, dropsOutside_append, hfirst.run_all]
    exact ⟨hfirst.dropsOutside_all hdrops, fun _ => ⟨rfl, rfl⟩, ih hothers hrest⟩

/-- **Only what stands outside quotations is dropped.** -/
theorem Joined.dropsOutside (h : Joined quoting before edits) : DropsOutside quoting edits := by
  induction h with
  | nil => trivial
  | keep _ ih => exact ⟨(nomatch ·), ih⟩
  | @call before word first others edits _ hword _ hcut _ _ iharguments ihrest =>
    have hname : Plain (source (word.map .name)) := by
      rw [source_name]; exact (flat_of_isWord (hword.isWord isWord_callName)).plain
    have hclosing : DropsOutside (Quoting.outside.run (source (between first others))) [.closing] := by
      rw [run_of_wellFormed (wellFormed_between hcut)]
      exact ⟨fun _ => ⟨rfl, rfl⟩, trivial⟩
    refine dropsOutside_append.2 ⟨?_, by rw [run_callEdits hword hcut]; exact ihrest⟩
    rw [callEdits, dropsOutside_append, dropsOutside_append, source_append, Quoting.run_append, run_plain_outside hname]
    exact ⟨⟨dropsOutside_of_plain hname, fun _ => ⟨rfl, rfl⟩, dropsOutside_between hcut iharguments⟩, hclosing⟩

/-- what is left without the joiners is part of the text, in order -/
theorem written_nil_sublist (edits : List Edit) : (written [] edits).Sublist (source edits) := by
  induction edits with
  | nil => exact List.Sublist.refl []
  | cons edit edits ih =>
    cases edit with
    | keep c => exact ih.cons_cons c
    | name c => exact ih.cons c
    | opening => exact ih.cons '('
    | closing => exact ih.cons ')'
    | blank c => exact ih.cons c
    | comma => exact ih.cons ','

/-! ## Every text has its edits -/

/-- the edits turn the text, read on from `quoting` and behind `before`, into the text with its calls joined -/
structure Accounts (joiner : Fragment) (quoting : Quoting) (before : Option Char) (text : Fragment) (edits : List Edit) :
    Prop where
  joined : Joined quoting before edits
  source_eq : source edits = text
  written_eq : written joiner edits = joinCalls joiner quoting before text

theorem joined_keep (text : Fragment) (h : Joined (quoting.run text) (lastOr before text) edits) :
    Joined quoting before (text.map .keep ++ edits) := by
  induction text generalizing quoting before with
  | nil => exact h
  | cons c text ih => exact .keep (ih h)

/-- an argument of a call has its edits, and they account for the piece that it was cut from -/
theorem exists_argument (hinner : inner.WellFormed)
    (h : ∀ argument ∈ arguments inner, ∃ edits, Accounts joiner .outside none argument edits) :
    ∀ piece ∈ cutFrom start inner, ∃ argument : Argument, argument.Cut ∧ Joined .outside none argument.edits ∧
      source argument.all = piece ∧ written joiner argument.edits = joinCalls joiner .outside none (trim piece) := by
  intro piece hp
  have ha : trim piece ∈ arguments inner := List.mem_map_of_mem hp
  obtain ⟨edits, hedits⟩ := h _ ha
  obtain ⟨lead, trail, hl, hr, hpiece⟩ := exists_trim piece
  have hcomma : start.Unseparated (trim piece) :=
    (padded_trim piece).unseparated_iff.1 (unseparated_of_mem_cutFrom hp)
  refine ⟨⟨lead, edits, trail⟩, ⟨hl, hr, ?_, ?_, ?_⟩, hedits.joined, ?_, hedits.written_eq⟩
  · rw [hedits.source_eq]; exact trimmed_trim piece
  · rw [hedits.source_eq]; exact wellFormed_of_mem_arguments hinner ha
  · rw [hedits.source_eq]; exact hcomma
  · rw [Argument.source_all, hedits.source_eq]; exact hpiece.symm

/-- a call with arguments has its edits -/
theorem exists_callEdits (hinner : inner.WellFormed)
    (h : ∀ argument ∈ arguments inner, ∃ edits, Accounts joiner .outside none argument edits) :
    ∃ first others, (∀ argument ∈ first :: others, argument.Cut) ∧
      (∀ argument ∈ first :: others, Joined .outside none argument.edits) ∧ source (between first others) = inner ∧
      written joiner (between first others) = joiner.intercalate ((arguments inner).map (joinCalls joiner .outside none)) := by
  choose! argument hcut hjoined hsource hwritten using exists_argument hinner h
  obtain ⟨piece, pieces, hpieces⟩ := List.exists_cons_of_ne_nil (cutFrom_ne_nil start inner)
  have hall {P : Argument → Prop} (hP : ∀ p ∈ cutFrom start inner, P (argument p)) :
      ∀ a ∈ argument piece :: pieces.map argument, P a := by
    rw [← List.map_cons, ← hpieces]
    exact List.forall_mem_map.2 hP
  refine ⟨argument piece, pieces.map argument, hall hcut, hall hjoined, ?_, ?_⟩
  · have hmap : (cutFrom start inner).map (source ∘ Argument.all ∘ argument) = cutFrom start inner :=
      (List.map_congr_left hsource).trans (List.map_id _)
    rw [source_between, ← List.map_cons, ← hpieces, List.map_map]
    exact (congrArg _ hmap).trans (intercalate_cutFrom start inner)
  · rw [written_between, ← List.map_cons, ← hpieces, List.map_map, arguments, List.map_map]
    exact congrArg _ (List.map_congr_left hwritten)

/-- **Every text has edits that join its calls.** -/
theorem exists_accounts (joiner : Fragment) (quoting : Quoting) (before : Option Char) (text : Fragment) :
    ∃ edits, Accounts joiner quoting before text edits := by
  induction quoting, before, text using joinCalls_induction with
  | nil quoting before => exact ⟨[], .nil quoting before, rfl, by rw [joinCalls_nil]; rfl⟩
  | skip quoting before c rest hcall ih =>
    obtain ⟨edits, h⟩ := ih
    refine ⟨.keep c :: edits, .keep h.joined, congrArg (c :: ·) h.source_eq, ?_⟩
    rw [joinCalls_skip hcall, ← h.written_eq]; rfl
  | unclosed before text body hcall hclose =>
    refine ⟨text.map .keep ++ [], joined_keep text (.nil _ _), ?_, ?_⟩
    · rw [List.append_nil, source_keep]
    · rw [List.append_nil, written_keep, joinCalls_unclosed hcall hclose]
  | closed before text body inner after hcall hclose iharguments ihafter =>
    obtain ⟨-, hbefore, -⟩ := callAt?_eq_some_iff.1 hcall
    obtain ⟨word, hc⟩ := closedCall_of_callAt? hcall hclose
    obtain ⟨edits, h⟩ := ihafter
    have htext : text = (word ++ '(' :: inner ++ [')']) ++ after := by rw [hc.text_eq]; simp
    by_cases hblank : inner.all isBlank = true
    · -- a call without arguments is kept
      refine ⟨(word ++ '(' :: inner ++ [')']).map .keep ++ edits, joined_keep _ ?_, ?_, ?_⟩
      · rw [run_of_wellFormed hc.wellFormed_call, lastOr_concat]; exact h.joined
      · rw [source_append, source_keep, h.source_eq, ← htext]
      · rw [written_append, written_keep, h.written_eq, joinCalls_empty hcall hclose hblank, hc.take_call]
    · have hargs : inner.all isBlank = false := by simpa using hblank
      obtain ⟨first, others, hcut, hjoined, hsource, hwritten⟩ := exists_callEdits hc.wellFormed iharguments
      refine ⟨callEdits word first others ++ edits, ?_, ?_, ?_⟩
      · refine .call hbefore hc.spells ?_ hcut hjoined h.joined
        rw [hsource, ← all_isBlank_iff]; exact hblank
      · rw [source_append, source_callEdits, hsource, h.source_eq, ← htext]
      · rw [written_append, written_callEdits, hwritten, h.written_eq, joinCalls_call hcall hclose hargs]

/-! ## The rule -/

theorem apply_of_operator {needs : Capabilities} {operator : String} (h : needs.concatOperator = some operator)
    (sql : Fragment) : apply needs sql = joinCalls (FieldConcat.joiner operator) .outside none sql := by
  rw [apply, h]

/-- **The rule loses, doubles and moves nothing else.** Where the operator is `||`, edits that join calls turn the text
into what the rule makes of it. Without the joiners that is a part of the text, in order; what is missing is what the
edits drop, and stands outside quotations. So the quoted characters are the same. -/
theorem accounts_apply {dialect : Dialect} (h : dialect.capabilities.concatOperator = some "||") (sql : Fragment) :
    (∃ edits, Joined .outside none edits ∧ source edits = sql ∧
      written (FieldConcat.joiner "||") edits = apply dialect.capabilities sql ∧ (written [] edits).Sublist sql ∧
      ∀ (i : Nat) (edit : Edit), edits[i]? = some edit → edit.isKept = false → insideQuotes sql i = false) ∧
    quotedText (apply dialect.capabilities sql) = quotedText sql := by
  refine ⟨?_, quotedText_apply (fun operator hoperator => ?_) sql⟩
  · obtain ⟨edits, hjoined, rfl, hwritten⟩ := exists_accounts (FieldConcat.joiner "||") .outside none sql
    refine ⟨edits, hjoined, rfl, hwritten.trans (apply_of_operator h _).symm, written_nil_sublist edits, ?_⟩
    intro i edit hi hdropped
    rw [insideQuotes, hjoined.dropsOutside.run_take hi hdropped]; rfl
  · rw [h] at hoperator
    obtain rfl := Option.some.inj (Option.mem_def.1 hoperator)
    decide

/-- the second call stays open, and the parenthesis in the quotation closes none -/
theorem accounts_unbalanced : Dialect.pgsql.capabilities.concatOperator = some "||" ∧
    ∃ edits, Joined .outside none edits ∧ source edits = "f(CONCAT( a,'b)' ), CONCAT(c, d".toList ∧
      written (FieldConcat.joiner "||") edits = "f(a || 'b)', CONCAT(c, d".toList := by
  have hoperator : Dialect.pgsql.capabilities.concatOperator = some "||" := rfl
  obtain ⟨⟨edits, hjoined, hsource, hwritten, -⟩, -⟩ := accounts_apply hoperator "f(CONCAT( a,'b)' ), CONCAT(c, d".toList
  exact ⟨hoperator, edits, hjoined, hsource, hwritten.trans (by cbv)⟩

end SqlDialects.FieldConcat
