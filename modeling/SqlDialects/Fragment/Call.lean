/-
Calls in SQL text: the parenthesis that closes a call, and the arguments between its parentheses. Parentheses and
commas count only outside quotations.

- `Cursor` is a reader's quoting together with the depth of parentheses it has counted since it started.
- `splitAtClose`: the text up to the parenthesis that closes the call, and the text behind it; `none` when the call
  stays open (`splitAtClose_append`: nothing but that parenthesis is lost).
- `arguments`: the pieces between the commas at depth zero, trimmed (`length_le_of_mem_arguments`: none is longer than
  the text they are cut from).
-/
import SqlDialects.Text.Blank
import SqlDialects.Fragment.Quoting

namespace SqlDialects

open Text

/-- a reader's quoting and the depth of unquoted parentheses it has read -/
structure Cursor where
  quoting : Quoting
  depth : Int
deriving DecidableEq, Repr

namespace Cursor

/-- before the first character -/
def start : Cursor := ⟨.outside, 0⟩

/-- what an unquoted character adds to the depth -/
def nesting (c : Char) : Int :=
  if c = '(' then 1 else if c = ')' then -1 else 0

def step (s : Cursor) (c : Char) : Cursor :=
  ⟨s.quoting.step c, if s.quoting = .outside then s.depth + nesting c else s.depth⟩

def run (s : Cursor) (text : Fragment) : Cursor := text.foldl step s

@[simp] theorem run_nil (s : Cursor) : s.run [] = s := rfl

@[simp] theorem run_cons (s : Cursor) (c : Char) (text : Fragment) : s.run (c :: text) = (s.step c).run text := rfl

theorem run_append (s : Cursor) (first second : Fragment) : s.run (first ++ second) = (s.run first).run second :=
  List.foldl_append

theorem quoting_run (s : Cursor) (text : Fragment) : (s.run text).quoting = s.quoting.run text := by
  induction text generalizing s with
  | nil => rfl
  | cons c rest ih => rw [run_cons, ih]; rfl

/-- the character `c` read at `s` closes the call that was open when reading started -/
def Closes (s : Cursor) (c : Char) : Prop := s.quoting = .outside ∧ c = ')' ∧ s.depth ≤ 0

/-- the character `c` read at `s` separates two arguments of the call -/
def Separates (s : Cursor) (c : Char) : Prop := s.quoting = .outside ∧ c = ',' ∧ s.depth = 0

instance (s : Cursor) (c : Char) : Decidable (s.Closes c) := inferInstanceAs (Decidable (_ ∧ _))

instance (s : Cursor) (c : Char) : Decidable (s.Separates c) := inferInstanceAs (Decidable (_ ∧ _))

end Cursor

namespace Fragment

/-! ## The closing parenthesis -/

def splitAtCloseFrom (s : Cursor) : Fragment → Option (Fragment × Fragment)
  | [] => none
  | c :: rest =>
    if s.Closes c then some ([], rest)
    else (splitAtCloseFrom (s.step c) rest).map fun (inner, after) => (c :: inner, after)

/-- the text up to the parenthesis that closes the call whose arguments begin here, and the text behind it -/
def splitAtClose (text : Fragment) : Option (Fragment × Fragment) := splitAtCloseFrom .start text

theorem splitAtCloseFrom_append {s : Cursor} {text inner after : Fragment}
    (h : splitAtCloseFrom s text = some (inner, after)) : text = inner ++ ')' :: after := by
  induction text generalizing s inner with
  | nil => cases h
  | cons c rest ih =>
    unfold splitAtCloseFrom at h
    split at h
    · rename_i hc
      cases h
      rw [hc.2.1]; rfl
    · obtain ⟨⟨inner', after'⟩, h', he⟩ := Option.map_eq_some_iff.1 h
      cases he
      rw [ih h']; rfl

theorem splitAtClose_append {text inner after : Fragment} (h : splitAtClose text = some (inner, after)) :
    text = inner ++ ')' :: after :=
  splitAtCloseFrom_append h

/-! ## The arguments -/

/-- puts a character in front of the first piece -/
def extendFirst (c : Char) : List Fragment → List Fragment
  | [] => [[c]]
  | piece :: pieces => (c :: piece) :: pieces

def cutFrom (s : Cursor) : Fragment → List Fragment
  | [] => [[]]
  | c :: rest => if s.Separates c then [] :: cutFrom (s.step c) rest else extendFirst c (cutFrom (s.step c) rest)

/-- the arguments of a call, given the text between its parentheses -/
def arguments (inner : Fragment) : List Fragment := (cutFrom .start inner).map trim

theorem length_le_of_mem_cutFrom {s : Cursor} {text piece : Fragment} (h : piece ∈ cutFrom s text) :
    piece.length ≤ text.length := by
  induction text generalizing s piece with
  | nil => simp [cutFrom] at h; simp [h]
  | cons c rest ih =>
    unfold cutFrom at h
    split at h
    · rcases List.mem_cons.1 h with rfl | h
      · exact Nat.zero_le _
      · exact Nat.le_succ_of_le (ih h)
    · cases hcut : cutFrom (s.step c) rest with
      | nil => rw [hcut] at h; simp [extendFirst] at h; simp [h]
      | cons first others =>
        rw [hcut] at h
        rcases List.mem_cons.1 h with rfl | h
        · exact Nat.succ_le_succ (ih (by rw [hcut]; exact List.mem_cons_self))
        · exact Nat.le_succ_of_le (ih (by rw [hcut]; exact List.mem_cons_of_mem _ h))

theorem length_le_of_mem_arguments {inner argument : Fragment} (h : argument ∈ arguments inner) :
    argument.length ≤ inner.length := by
  obtain ⟨piece, hp, rfl⟩ := List.mem_map.1 h
  exact Nat.le_trans (length_trim_le piece) (length_le_of_mem_cutFrom hp)

end Fragment

end SqlDialects
