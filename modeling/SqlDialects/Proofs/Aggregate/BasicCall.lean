/-
The basic call of the aggregate: one field, the keyword, and a quoted separator.

- `BasicCall`: such a call as a user may lay it out; `written`: what it is in another dialect.
- `adaptCall_apart`: a keyword with a blank on both sides is read, the field is cast, the function renamed; what stands
  behind goes through the same edits (`separator_apart`, `cast_field`, `rename_call`).
- `adaptCall_touching`: a keyword that touches the separator is not read, and the blank behind the field stays.
- `apply_eq_written_iff`: so the call comes out as written exactly if it is `Clear`: the keyword touches nothing and no
  edit finds anything in the separator. `apply_basicCall_builtin`: what that is for each built-in dialect.
-/
import SqlDialects.Proofs.Translation.Needs
import SqlDialects.Proofs.Translation.Stability

namespace SqlDialects.Aggregate

open Text Fragment

/-! ## The call -/

/-- one field, the keyword and a quoted separator on one line; the keyword may touch the separator -/
structure BasicCall where
  name : Fragment
  field : Fragment
  lead : Fragment
  keyword : Fragment
  trail : Fragment
  body : Fragment
  spells_name : Spells callName name
  field_ne_nil : field ≠ []
  field_chars : ∀ c ∈ field, isFieldChar c = true
  lead_ne_nil : lead ≠ []
  lead_blank : Blank lead
  lead_line : OneLine lead
  spells_keyword : Spells separatorWord keyword
  trail_blank : Blank trail
  trail_line : OneLine trail
  body_line : OneLine body

namespace BasicCall

/-- the separator with its marks -/
def literal (call : BasicCall) : Fragment := '\'' :: call.body ++ ['\'']

def text (call : BasicCall) : Fragment :=
  call.name ++ '(' :: call.field ++ call.lead ++ call.keyword ++ call.trail ++ call.literal ++ [')']

/-- the name the call has in the dialect -/
def nameIn (call : BasicCall) (needs : Capabilities) : Fragment :=
  match needs.aggregateFunction with
  | none => call.name
  | some name => name.toList

/-- the field as the dialect takes it -/
def fieldIn (call : BasicCall) (needs : Capabilities) : Fragment :=
  if needs.castAggregateArgs then call.field ++ castSuffix else call.field

/-- the call with its separator as a plain second argument -/
def written (call : BasicCall) (needs : Capabilities) : Fragment :=
  call.nameIn needs ++ '(' :: (call.fieldIn needs ++ [',', ' '] ++ call.literal ++ [')'])

/-- the keyword touches nothing, and no edit of the dialect finds anything in the separator -/
def Clear (call : BasicCall) (needs : Capabilities) : Prop :=
  call.trail ≠ [] ∧ ∀ edit ∈ edits needs, NoMatch edit none call.literal

instance (call : BasicCall) (needs : Capabilities) : Decidable (call.Clear needs) :=
  inferInstanceAs (Decidable (_ ∧ _))

end BasicCall

variable {needs : Capabilities}

/-! ## The edits, one after the other -/

theorem isBlank_of_isFieldChar {c : Char} (h : isFieldChar c = true) : isBlank c = false := by
  simp only [isFieldChar, Bool.or_eq_true, beq_iff_eq] at h
  rcases h with (((h | rfl) | rfl) | rfl) | rfl
  · cases hb : isBlank c with
    | false => rfl
    | true => rw [isWord_of_isBlank hb] at h; cases h
  all_goals decide

theorem isLineBreak_of_isFieldChar {c : Char} (h : isFieldChar c = true) : isLineBreak c = false := by
  cases hb : isLineBreak c with
  | false => rfl
  | true =>
    rw [isLineBreak, beq_iff_eq] at hb
    rw [hb] at h; exact absurd h (by decide)

theorem not_mem_field (call : BasicCall) {c : Char} (h : isFieldChar c = false) : c ∉ call.field := by
  intro hmem
  rw [call.field_chars c hmem] at h; cases h

/-- nothing is edited from the name to the end of the field -/
theorem separator_front (call : BasicCall) (rest : Fragment) :
    replaceAll separatorPhrase (call.name ++ '(' :: call.field ++ rest) =
      call.name ++ '(' :: call.field ++ replaceAll separatorPhrase rest := by
  have hchars (c : Char) (h : c ∈ call.name ++ '(' :: call.field) : isBlank c = false := by
    rcases List.mem_append.1 h with h | h
    · have hword := call.spells_name.isWord isWord_callName c h
      exact isBlank_of_isFieldChar (by rw [isFieldChar, hword]; rfl)
    · rcases List.mem_cons.1 h with rfl | h
      · decide
      · exact isBlank_of_isFieldChar (call.field_chars c h)
  rw [replaceAll, replaceFrom_kept fun before c tail h =>
    separatorPhrase_of_not_blank before (hchars c (h.subset List.mem_cons_self)) (tail ++ rest),
    replaceFrom_eq_replaceAll fun _ _ => rfl]

/-- a keyword with a blank on both sides becomes a comma and a space -/
theorem separator_apart (call : BasicCall) (h : call.trail ≠ []) :
    replaceAll separatorPhrase call.text =
      call.name ++ '(' :: (call.field ++ ',' :: ' ' :: replaceAll separatorPhrase (call.literal ++ [')'])) := by
  let found : Match := ⟨call.lead ++ call.keyword ++ call.trail, [',', ' ']⟩
  have hfind : separatorPhrase none (found.matched ++ (call.literal ++ [')'])) = some found := by
    refine (finds_separatorPhrase none _ found).2 ⟨_, rfl, .mk call.lead_blank call.lead_ne_nil call.spells_keyword
      call.trail_blank h ?_⟩
    intro c hc
    rw [← Option.some.inj hc]; rfl
  have hmatch := replaceFrom_match gentle_separatorPhrase.covers hfind
  calc replaceAll separatorPhrase call.text
      = replaceAll separatorPhrase (call.name ++ '(' :: call.field ++ (found.matched ++ (call.literal ++ [')']))) := by
        simp [BasicCall.text, found]
    _ = call.name ++ '(' :: call.field ++ ([',', ' '] ++
          replaceFrom separatorPhrase (lastOr none found.matched) 0 (call.literal ++ [')'])) := by
        rw [separator_front, replaceAll, hmatch]
    _ = call.name ++ '(' :: (call.field ++ ',' :: ' ' :: replaceAll separatorPhrase (call.literal ++ [')'])) := by
        rw [replaceFrom_eq_replaceAll fun _ _ => rfl]
        simp

/-- a keyword that touches the separator is not found, and the blank in front of it stays -/
theorem separator_touching (call : BasicCall) (h : call.trail = []) :
    ∃ c rest, isBlank c = true ∧
      replaceAll separatorPhrase call.text = call.name ++ '(' :: (call.field ++ c :: rest) := by
  obtain ⟨c, lead, hlead⟩ := List.exists_cons_of_ne_nil call.lead_ne_nil
  have hkeyword : call.keyword ≠ [] := by
    intro hnil
    have := call.spells_keyword
    rw [hnil] at this; cases this
  have hrest : call.lead ++ (call.keyword ++ (call.literal ++ [')'])) =
      c :: (lead ++ (call.keyword ++ (call.literal ++ [')']))) := by rw [hlead]; rfl
  have hnone : separatorPhrase none (call.lead ++ (call.keyword ++ (call.literal ++ [')']))) = none := by
    have hrun : (call.lead ++ (call.keyword ++ (call.literal ++ [')']))).takeWhile isBlank = call.lead :=
      takeWhile_eq_iff.2 ⟨_, rfl, call.lead_blank,
        head_of_isWord hkeyword (call.spells_keyword.isWord isWord_separatorWord) _⟩
    have hword : afterKeyword separatorWord (call.keyword ++ (call.literal ++ [')'])) = some (call.literal ++ [')']) :=
      afterKeyword_eq_some_iff.2 ⟨call.keyword, call.spells_keyword, rfl⟩
    have hmark : (call.literal ++ [')']).takeWhile isBlank = [] := rfl
    simp only [separatorPhrase, hrun, List.drop_left, hword, hmark, if_neg call.lead_ne_nil, if_pos]
  refine ⟨c, replaceFrom separatorPhrase (some c) 0 (lead ++ (call.keyword ++ (call.literal ++ [')']))),
    call.lead_blank c (by rw [hlead]; exact List.mem_cons_self), ?_⟩
  calc replaceAll separatorPhrase call.text
      = replaceAll separatorPhrase
          (call.name ++ '(' :: call.field ++ (call.lead ++ (call.keyword ++ (call.literal ++ [')'])))) := by
        simp [BasicCall.text, h]
    _ = call.name ++ '(' :: call.field ++
          replaceAll separatorPhrase (c :: (lead ++ (call.keyword ++ (call.literal ++ [')'])))) := by
        rw [separator_front, hrest]
    _ = _ := by
        rw [hrest] at hnone
        rw [replaceAll, replaceFrom_of_none hnone]
        simp

theorem fieldBeforeComma_of_ne (before : Option Char) {c : Char} (h : c ≠ '(') (rest : Fragment) :
    fieldBeforeComma before (c :: rest) = none := by
  unfold fieldBeforeComma
  split
  · rename_i heq
    exact absurd (List.cons.inj heq).1 h
  · rfl

/-- in front of a text without a parenthesis that opens there is nothing to cast -/
theorem cast_front {front : Fragment} (h : '(' ∉ front) (before : Option Char) (rest : Fragment) :
    replaceFrom fieldBeforeComma before 0 (front ++ rest) = front ++ replaceAll fieldBeforeComma rest := by
  rw [replaceFrom_kept fun before c tail htail => fieldBeforeComma_of_ne before (fun hc =>
    h (htail.subset (by rw [hc]; exact List.mem_cons_self))) (tail ++ rest), replaceFrom_eq_replaceAll fun _ _ => rfl]

/-- a field in front of a comma is cast -/
theorem cast_field (call : BasicCall) (rest : Fragment) :
    replaceAll fieldBeforeComma (call.name ++ '(' :: (call.field ++ ',' :: ' ' :: rest)) =
      call.name ++ '(' :: (call.field ++ castSuffix ++ ',' :: ' ' :: replaceAll fieldBeforeComma rest) := by
  let found : Match := ⟨'(' :: call.field ++ [','], '(' :: call.field ++ castSuffix ++ [',']⟩
  have hname : '(' ∉ call.name := paren_not_mem isWord_callName call.spells_name
  have hfind : fieldBeforeComma none (found.matched ++ ([' '] ++ rest)) = some found :=
    (finds_fieldBeforeComma none _ found).2 ⟨_, rfl, .mk call.field_ne_nil call.field_chars⟩
  have hmatch := replaceFrom_match gentle_fieldBeforeComma.covers hfind
  calc replaceAll fieldBeforeComma (call.name ++ '(' :: (call.field ++ ',' :: ' ' :: rest))
      = call.name ++ replaceAll fieldBeforeComma (found.matched ++ ([' '] ++ rest)) := by
        rw [replaceAll, cast_front hname]; simp [found]
    _ = call.name ++ (found.replacement ++ ([' '] ++ replaceAll fieldBeforeComma rest)) := by
        rw [replaceAll, hmatch, cast_front (by decide)]
    _ = _ := by simp [found]

/-- a field in front of a blank is not -/
theorem cast_blank (call : BasicCall) {c : Char} (hc : isBlank c = true) (rest : Fragment) :
    replaceAll fieldBeforeComma (call.name ++ '(' :: (call.field ++ c :: rest)) =
      call.name ++ '(' :: (call.field ++ c :: replaceAll fieldBeforeComma rest) := by
  have hname : '(' ∉ call.name := paren_not_mem isWord_callName call.spells_name
  have hne : c ≠ '(' := ne_of_isBlank hc (by decide)
  have hcomma : c ≠ ',' := ne_of_isBlank hc (by decide)
  have hfront : '(' ∉ call.field ++ [c] := by
    simp [not_mem_field call (show isFieldChar '(' = false by decide), hne.symm]
  have hnone : fieldBeforeComma none ('(' :: (call.field ++ c :: rest)) = none := by
    have hrun : (call.field ++ c :: rest).takeWhile isFieldChar = call.field := by
      refine takeWhile_eq_iff.2 ⟨c :: rest, rfl, call.field_chars, fun d hd => ?_⟩
      rw [← Option.some.inj hd]
      cases hfield : isFieldChar c with
      | false => rfl
      | true => rw [isBlank_of_isFieldChar hfield] at hc; cases hc
    simp only [fieldBeforeComma, hrun, if_neg call.field_ne_nil, List.drop_left]
    split
    · rename_i heq
      exact absurd (List.cons.inj heq).1 hcomma
    · rfl
  calc replaceAll fieldBeforeComma (call.name ++ '(' :: (call.field ++ c :: rest))
      = call.name ++ '(' :: replaceFrom fieldBeforeComma (some '(') 0 ((call.field ++ [c]) ++ rest) := by
        rw [replaceAll, cast_front hname, replaceAll, replaceFrom_of_none hnone]; simp
    _ = _ := by rw [cast_front hfront]; simp

/-- an opening that begins in front of a blank would run over it -/
theorem functionName_of_blank {name part : Fragment} (hparen : '(' ∉ part) {c : Char} (hmem : c ∈ part)
    (hc : isBlank c = true) (before : Option Char) (rest : Fragment) : functionName name before (part ++ rest) = none := by
  cases hsome : functionName name before (part ++ rest) with
  | none => rfl
  | some found =>
    obtain ⟨body, htext, -, hw⟩ := (finds_functionName name before _ found).1 hsome
    rename_i word
    have hword : c ∉ word := not_mem_of_isWord (hw.isWord isWord_callName) (isWord_of_isBlank hc)
    rw [List.append_assoc] at htext
    rcases List.append_eq_append_iff.1 htext with hlonger | hshorter
    · obtain ⟨more, hmore, -⟩ := hlonger
      exact absurd (by rw [hmore]; exact List.mem_append_left more hmem) hword
    · obtain ⟨more, hmore, hopening⟩ := hshorter
      cases more with
      | nil => exact absurd (by rwa [hmore, List.append_nil] at hmem) hword
      | cons e more =>
        rw [List.singleton_append, List.cons_append, List.cons.injEq] at hopening
        exact absurd (by rw [hmore, ← hopening.1]; simp) hparen

/-- the call takes the new name; what is behind a blank is looked through on its own -/
theorem rename_call (call : BasicCall) {name : Fragment} (hflat : Flat name) {front : Fragment} (hfront : '(' ∉ front)
    {c : Char} (hc : isBlank c = true) (rest : Fragment) :
    replaceAll (functionName name) (call.name ++ '(' :: (front ++ c :: rest)) =
      name ++ '(' :: (front ++ c :: replaceAll (functionName name) rest) := by
  have hcov := (gentle_functionName hflat).covers
  let found : Match := ⟨call.name ++ ['('], name ++ ['(']⟩
  have hfind : functionName name none (found.matched ++ (front ++ c :: rest)) = some found :=
    (finds_functionName name none _ found).2 ⟨_, rfl, .mk trivial call.spells_name⟩
  have hparen : '(' ∉ front ++ [c] := by simp [hfront, (ne_of_isBlank hc (show isBlank '(' = false by decide)).symm]
  have hkept (before : Option Char) (d : Char) (tail : Fragment) (h : d :: tail <:+ front ++ [c]) :
      functionName name before (d :: (tail ++ rest)) = none := by
    have hblank : c ∈ d :: tail := by
      obtain ⟨more, hmore, -⟩ := (List.suffix_concat_iff.1 h).resolve_left (List.cons_ne_nil d tail)
      rw [hmore]; simp
    exact functionName_of_blank (fun hmem => hparen (h.subset hmem)) hblank hc before rest
  calc replaceAll (functionName name) (call.name ++ '(' :: (front ++ c :: rest))
      = replaceAll (functionName name) (found.matched ++ (front ++ c :: rest)) := by simp [found]
    _ = found.replacement ++ replaceFrom (functionName name) (lastOr none found.matched) 0 (front ++ [c] ++ rest) := by
        rw [replaceAll, replaceFrom_match hcov hfind]; simp
    _ = found.replacement ++ (front ++ [c] ++ replaceAll (functionName name) rest) := by
        rw [replaceFrom_kept hkept, replaceFrom_eq_replaceAll fun _ _ => rfl]
    _ = _ := by simp [found]

/-! ## The adapted call -/

/-- the keyword touches nothing: the call is written as it should be, but for what the edits do in the separator -/
theorem adaptCall_apart (call : BasicCall) (hinline : needs.inlineSeparator = true)
    (hflat : ∀ name ∈ needs.aggregateFunction, Flat name.toList) (h : call.trail ≠ []) :
    adaptCall needs call.text = call.nameIn needs ++ '(' :: (call.fieldIn needs ++ ',' :: ' ' ::
      (edits needs).foldl (fun text edit => replaceAll edit text) (call.literal ++ [')'])) := by
  have hfront {field : Fragment} (hfield : '(' ∉ field) : '(' ∉ field ++ [','] := by simp [hfield]
  have hcast : '(' ∉ call.field ++ castSuffix := by
    simp [not_mem_field call (show isFieldChar '(' = false by decide), castSuffix]
  have hplain : '(' ∉ call.field := not_mem_field call (by decide)
  have hrename {name : String} (hname : needs.aggregateFunction = some name) {field : Fragment} (hfield : '(' ∉ field)
      (rest : Fragment) :
      replaceAll (functionName name.toList) (call.name ++ '(' :: (field ++ ',' :: ' ' :: rest)) =
        name.toList ++ '(' :: (field ++ ',' :: ' ' :: replaceAll (functionName name.toList) rest) := by
    have hcall := rename_call call (hflat name hname) (hfront hfield) (show isBlank ' ' = true by decide) rest
    rwa [List.append_assoc, List.append_assoc] at hcall
  unfold adaptCall edits BasicCall.nameIn BasicCall.fieldIn
  cases hc : needs.castAggregateArgs
  all_goals
    cases hname : needs.aggregateFunction
    all_goals simp only [hinline, if_pos, separator_apart call h, Bool.false_eq_true, if_false, List.append_nil,
      List.foldl_append, List.foldl_cons, List.foldl_nil, Option.toList, List.map_cons, List.map_nil]
  case false.some name => exact hrename hname hplain _
  case true.none => rw [cast_field]
  case true.some name => rw [cast_field, hrename hname hcast]

/-- the keyword touches the separator: the field stays in front of a blank -/
theorem adaptCall_touching (call : BasicCall) (hinline : needs.inlineSeparator = true)
    (hflat : ∀ name ∈ needs.aggregateFunction, Flat name.toList) (h : call.trail = []) :
    ∃ c rest, isBlank c = true ∧ adaptCall needs call.text = call.nameIn needs ++ '(' :: (call.field ++ c :: rest) := by
  obtain ⟨c, rest, hc, hseparator⟩ := separator_touching call h
  have hplain : '(' ∉ call.field := not_mem_field call (by decide)
  obtain ⟨rest', hcast⟩ : ∃ rest', (if needs.castAggregateArgs then
      replaceAll fieldBeforeComma (call.name ++ '(' :: (call.field ++ c :: rest))
      else call.name ++ '(' :: (call.field ++ c :: rest)) = call.name ++ '(' :: (call.field ++ c :: rest') := by
    split
    · exact ⟨_, cast_blank call hc rest⟩
    · exact ⟨rest, rfl⟩
  simp only [adaptCall, hinline, if_pos, hseparator, hcast, BasicCall.nameIn]
  cases hname : needs.aggregateFunction with
  | none => exact ⟨c, rest', hc, rfl⟩
  | some name => exact ⟨c, _, hc, rename_call call (hflat name hname) hplain hc rest'⟩

theorem apply_eq_adaptCall (call : BasicCall) (hinline : needs.inlineSeparator = true) :
    apply needs call.text = adaptCall needs call.text := by
  refine apply_call (by rw [active, hinline]; rfl) (callAt?_eq_some_iff.2 ⟨[], (List.append_nil _).symm, ?_⟩)
  have hone : OneLine (call.field ++ call.lead ++ call.keyword ++ call.trail ++ call.literal) := by
    have hfield : OneLine call.field := fun c hc => isLineBreak_of_isFieldChar (call.field_chars c hc)
    have hkeyword : OneLine call.keyword := fun c hc =>
      isLineBreak_of_isWord (call.spells_keyword.isWord isWord_separatorWord c hc)
    have hliteral : OneLine call.literal :=
      oneLine_append.2 ⟨List.forall_mem_cons.2 ⟨by decide, call.body_line⟩, by decide⟩
    simp only [oneLine_append]
    exact ⟨⟨⟨⟨hfield, call.lead_line⟩, hkeyword⟩, call.trail_line⟩, hliteral⟩
  have hcall : OneLineCall (call.name ++ '(' :: _ ++ [')']) [] :=
    .mk call.spells_name (by simp [call.field_ne_nil]) hone (by decide)
  simpa [BasicCall.text] using hcall

/-! ## The separator -/

/-- a sign that no match holds, and that no match is told by, may as well be missing at the end -/
theorem find_concat {pattern : Pattern} {shape : Option Char → Match → Option Char → Prop} (hp : pattern.Finds shape)
    {sign : Char} (hmatched : ∀ before text found, pattern before text = some found → sign ∉ found.matched)
    (hnext : ∀ before found, shape before found (some sign) ↔ shape before found none) (before : Option Char)
    (text : Fragment) : pattern before (text ++ [sign]) = pattern before text := by
  have hhead (found : Match) (rest : Fragment) :
      shape before found (rest ++ [sign]).head? ↔ shape before found rest.head? := by
    cases rest with
    | nil => exact hnext before found
    | cons c rest => exact Iff.rfl
  refine Option.ext fun found => ?_
  rw [hp before text found]
  refine ⟨fun hfound => ?_, fun hfound => ?_⟩
  · obtain ⟨rest, htext, hshape⟩ := (hp _ _ _).1 hfound
    have hnot := hmatched _ _ _ hfound
    cases List.eq_nil_or_concat rest with
    | inl hnil =>
      rw [hnil, List.append_nil] at htext
      exact absurd (by rw [← htext]; simp) hnot
    | inr hconcat =>
      obtain ⟨rest, c, rfl⟩ := hconcat
      rw [List.concat_eq_append, ← List.append_assoc] at htext
      obtain ⟨rfl, hc⟩ := List.append_inj' htext rfl
      rw [List.concat_eq_append, ← List.cons.inj hc |>.1, hhead] at hshape
      exact ⟨rest, rfl, hshape⟩
  · obtain ⟨rest, rfl, hshape⟩ := hfound
    exact (hp _ _ _).2 ⟨rest ++ [sign], List.append_assoc _ _ _, (hhead found rest).2 hshape⟩

theorem noMatch_concat {pattern : Pattern} (hcov : pattern.Covers) {sign : Char}
    (h : ∀ before text, pattern before (text ++ [sign]) = pattern before text) (before : Option Char) (text : Fragment) :
    NoMatch pattern before (text ++ [sign]) ↔ NoMatch pattern before text := by
  induction text generalizing before with
  | nil =>
    refine ⟨fun _ => trivial, fun _ => ⟨?_, trivial⟩⟩
    rw [show [sign] = [] ++ [sign] from rfl, h before []]
    cases hsome : pattern before [] with
    | none => rfl
    | some found =>
      obtain ⟨hne, hprefix⟩ := hcov _ _ _ hsome
      exact absurd (List.prefix_nil.1 hprefix) hne
  | cons c text ih =>
    have hfirst := h before (c :: text)
    rw [List.cons_append] at hfirst
    rw [List.cons_append, NoMatch, NoMatch, hfirst, ih]

/-- the parenthesis behind the separator is in no match -/
theorem noMatch_close (hflat : ∀ name ∈ needs.aggregateFunction, Flat name.toList)
    (hline : ∀ name ∈ needs.aggregateFunction, OneLine name.toList) {edit : Pattern} (he : edit ∈ edits needs)
    (text : Fragment) : NoMatch edit none (text ++ [')']) ↔ NoMatch edit none text := by
  obtain ⟨hcov, hclose, -⟩ := edit_of_mem_edits hflat hline he
  refine noMatch_concat hcov (fun before text => ?_) none text
  rcases mem_edits_cases he with rfl | rfl | ⟨name, -, rfl⟩
  · refine find_concat finds_separatorPhrase hclose (fun before found => ?_) before text
    refine ⟨fun hshape => ?_, fun hshape => ?_⟩
    · obtain ⟨hblank, hlead, hw, hblank', htrail, -⟩ := hshape
      exact .mk hblank hlead hw hblank' htrail (by intro c hc; cases hc)
    · obtain ⟨hblank, hlead, hw, hblank', htrail, -⟩ := hshape
      exact .mk hblank hlead hw hblank' htrail (by intro c hc; rw [← Option.some.inj hc]; rfl)
  · refine find_concat finds_fieldBeforeComma hclose (fun before found => ?_) before text
    exact ⟨fun ⟨hfield, hchars⟩ => .mk hfield hchars, fun ⟨hfield, hchars⟩ => .mk hfield hchars⟩
  · refine find_concat (finds_functionName name.toList) hclose (fun before found => ?_) before text
    exact ⟨fun ⟨ha, hw⟩ => .mk ha hw, fun ⟨ha, hw⟩ => .mk ha hw⟩

/-! ## The basic call -/

/-- **The basic call comes out as written** exactly if it is clear. -/
theorem apply_eq_written_iff (call : BasicCall) (hinline : needs.inlineSeparator = true)
    (hflat : ∀ name ∈ needs.aggregateFunction, Flat name.toList)
    (hline : ∀ name ∈ needs.aggregateFunction, OneLine name.toList)
    (ht : ∀ name ∈ needs.aggregateFunction, traces callName < traces name.toList) :
    apply needs call.text = call.written needs ↔ call.Clear needs := by
  rw [apply_eq_adaptCall call hinline]
  by_cases htrail : call.trail = []
  · refine iff_of_false (fun hwritten => ?_) fun h => h.1 htrail
    -- the field is followed by a blank, and should be by a colon or by a comma
    obtain ⟨c, rest, hc, hcall⟩ := adaptCall_touching call hinline hflat htrail
    rw [hcall, BasicCall.written, List.append_cancel_left_eq, List.cons.injEq, BasicCall.fieldIn] at hwritten
    have hsign : c = ':' ∨ c = ',' := by
      split at hwritten
      · simp only [List.append_assoc, List.append_cancel_left_eq, castSuffix, List.cons_append, List.cons.injEq] at hwritten
        exact Or.inl hwritten.2.1
      · simp only [List.append_assoc, List.append_cancel_left_eq, List.cons_append, List.cons.injEq] at hwritten
        exact Or.inr hwritten.2.1
    rcases hsign with rfl | rfl
    · exact absurd hc (by decide)
    · exact absurd hc (by decide)
  · have htelltale := telltale_foldl id (fun edit he text =>
      (telling_of_mem_edits ht he).telltale (covers_of_mem_edits he) none text) (call.literal ++ [')'])
    have hclose : (∀ edit ∈ edits needs, NoMatch edit none (call.literal ++ [')'])) ↔
        ∀ edit ∈ edits needs, NoMatch edit none call.literal :=
      forall_congr' fun edit => forall_congr' fun he => noMatch_close hflat hline he call.literal
    have hwritten : call.written needs = call.nameIn needs ++ '(' :: (call.fieldIn needs ++ ',' :: ' ' ::
        (call.literal ++ [')'])) := by simp [BasicCall.written]
    calc adaptCall needs call.text = call.written needs
        ↔ (edits needs).foldl (fun text edit => replaceAll edit text) (call.literal ++ [')']) = call.literal ++ [')'] := by
          rw [adaptCall_apart call hinline hflat htrail, hwritten, List.append_cancel_left_eq, List.cons.injEq,
            List.append_cancel_left_eq, List.cons.injEq, List.cons.injEq]
          exact ⟨fun h => h.2.2.2, fun h => ⟨rfl, rfl, rfl, h⟩⟩
      _ ↔ ∀ edit ∈ edits needs, NoMatch edit none call.literal := htelltale.eq_iff.trans hclose
      _ ↔ call.Clear needs := (and_iff_right htrail).symm

/-- **The basic call in the built-in dialects**, with the field and the separator as they were: it comes out so exactly
if it is clear. -/
theorem apply_basicCall_builtin (call : BasicCall) :
    (apply Dialect.pgsql.capabilities call.text =
        "string_agg(".toList ++ call.field ++ "::VARCHAR, ".toList ++ call.literal ++ [')'] ↔
      call.Clear Dialect.pgsql.capabilities) ∧
    (apply Dialect.postgis.capabilities call.text =
        "string_agg(".toList ++ call.field ++ "::VARCHAR, ".toList ++ call.literal ++ [')'] ↔
      call.Clear Dialect.postgis.capabilities) ∧
    (apply Dialect.sqlite.capabilities call.text =
        call.name ++ "(".toList ++ call.field ++ ", ".toList ++ call.literal ++ [')'] ↔
      call.Clear Dialect.sqlite.capabilities) ∧
    (apply Dialect.sqlsrv.capabilities call.text =
        "dbo.GROUP_CONCAT_D(".toList ++ call.field ++ ", ".toList ++ call.literal ++ [')'] ↔
      call.Clear Dialect.sqlsrv.capabilities) := by
  have hiff (driver : Driver) (hinline : (Dialect.builtin driver).capabilities.inlineSeparator = true)
      {out : Fragment} (hout : call.written (Dialect.builtin driver).capabilities = out) :
      apply (Dialect.builtin driver).capabilities call.text = out ↔
        call.Clear (Dialect.builtin driver).capabilities := by
    rw [← hout]
    exact apply_eq_written_iff call hinline (flatNames_builtin driver).aggregate
      (fun name hname => ((apartNames_builtin driver).aggregate name hname).1) (tellingNames_builtin driver).aggregate
  refine ⟨hiff .pgsql rfl ?_, hiff .postgis rfl ?_, hiff .sqlite rfl ?_, hiff .sqlsrv rfl ?_⟩
  all_goals simp [BasicCall.written, BasicCall.nameIn, BasicCall.fieldIn, Dialect.builtin, Dialect.pgsql,
    Dialect.postgis, Dialect.sqlite, Dialect.sqlsrv, castSuffix]

/-- `GROUP_CONCAT(name SEPARATOR 'body')`, with `trail` behind the keyword -/
def BasicCall.separatedBy (trail body : Fragment) (hblank : Blank trail) (htrail : OneLine trail)
    (hbody : OneLine body) : BasicCall where
  name := "GROUP_CONCAT".toList
  field := "name".toList
  lead := [' ']
  keyword := "SEPARATOR".toList
  trail := trail
  body := body
  spells_name := by decide
  field_ne_nil := by decide
  field_chars := List.all_eq_true.1 (by decide)
  lead_ne_nil := by decide
  lead_blank := by decide
  lead_line := by decide
  spells_keyword := by decide
  trail_blank := hblank
  trail_line := htrail
  body_line := hbody

/-- a separator that looks like the keyword -/
def BasicCall.alike : BasicCall := separatedBy [' '] " separator ".toList (by decide) (by decide) (by decide)

/-- a keyword that touches the separator -/
def BasicCall.touching : BasicCall := separatedBy [] [','] (by decide) (by decide) (by decide)

def BasicCall.listed : BasicCall := separatedBy [' '] "; ".toList (by decide) (by decide) (by decide)

/-- the first two calls do not come out as written, so they are not clear; the third is clear, and comes out so -/
theorem apply_basicCall_separators :
    (BasicCall.alike.text = "GROUP_CONCAT(name SEPARATOR ' separator ')".toList ∧
      apply Dialect.pgsql.capabilities BasicCall.alike.text = "string_agg(name::VARCHAR, ', ')".toList ∧
      ¬ BasicCall.alike.Clear Dialect.pgsql.capabilities) ∧
    (BasicCall.touching.text = "GROUP_CONCAT(name SEPARATOR',')".toList ∧
      apply Dialect.pgsql.capabilities BasicCall.touching.text = "string_agg(name SEPARATOR',')".toList ∧
      ¬ BasicCall.touching.Clear Dialect.pgsql.capabilities) ∧
    BasicCall.listed.text = "GROUP_CONCAT(name SEPARATOR '; ')".toList ∧
      apply Dialect.sqlsrv.capabilities BasicCall.listed.text = "dbo.GROUP_CONCAT_D(name, '; ')".toList := by
  have halike : apply Dialect.pgsql.capabilities BasicCall.alike.text = "string_agg(name::VARCHAR, ', ')".toList := by
    decide
  have htouching : apply Dialect.pgsql.capabilities BasicCall.touching.text =
      "string_agg(name SEPARATOR',')".toList := by decide
  have hlisted : BasicCall.listed.Clear Dialect.sqlsrv.capabilities := by decide
  refine ⟨⟨rfl, halike, fun hclear => ?_⟩, ⟨rfl, htouching, fun hclear => ?_⟩, rfl, ?_⟩
  · have hwritten := (apply_basicCall_builtin BasicCall.alike).1.2 hclear
    rw [halike] at hwritten
    exact absurd hwritten (by decide)
  · have hwritten := (apply_basicCall_builtin BasicCall.touching).1.2 hclear
    rw [htouching] at hwritten
    exact absurd hwritten (by decide)
  · exact (apply_basicCall_builtin BasicCall.listed).2.2.2.2 hlisted

end SqlDialects.Aggregate
