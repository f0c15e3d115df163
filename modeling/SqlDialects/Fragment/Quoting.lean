/-
SQL text and the quotations in it. A single mark, a double mark or a backtick opens a quotation, which runs to the next
such mark that no backslash escapes; a doubled mark closes one quotation and opens the next. Backslashes mean nothing
outside quotations.

- `Quoting` is where a reader stands, `Quoting.step` what one character does to it.
- `Quoting.run_append`: reading a text in two parts is reading it at once.
- `insideQuotes text i`: the character at position `i` of `text` stands inside a quotation (its closing mark included,
  its opening mark not).
-/

namespace SqlDialects

/-- a piece of SQL -/
abbrev Fragment := List Char

/-- outside all quotations, or inside one opened by `mark`, where `escaped` says that the next character is escaped -/
inductive Quoting where
  | outside
  | inside (mark : Char) (escaped : Bool)
deriving DecidableEq, Repr

namespace Quoting

def isMark (c : Char) : Bool := c == '\x27' || c == '\x22' || c == '\x60'

def isOpen : Quoting → Bool
  | outside => false
  | inside _ _ => true

def step : Quoting → Char → Quoting
  | outside, c => if isMark c then inside c false else outside
  | inside mark true, _ => inside mark false
  | inside mark false, c => if c = '\\' then inside mark true else if c = mark then outside else inside mark false

def run (q : Quoting) (text : Fragment) : Quoting := text.foldl step q

@[simp] theorem run_nil (q : Quoting) : q.run [] = q := rfl

@[simp] theorem run_cons (q : Quoting) (c : Char) (text : Fragment) : q.run (c :: text) = (q.step c).run text := rfl

theorem run_append (q : Quoting) (first second : Fragment) : q.run (first ++ second) = (q.run first).run second :=
  List.foldl_append

/-- characters that are no marks leave a reader outside quotations where it is -/
theorem run_outside {text : Fragment} (h : ∀ c ∈ text, isMark c = false) : outside.run text = outside := by
  induction text with
  | nil => rfl
  | cons c rest ih =>
    have hc : outside.step c = outside := by simp [step, h c]
    rw [run_cons, hc, ih fun d hd => h d (List.mem_cons_of_mem c hd)]

end Quoting

namespace Fragment

/-- whether the character at position `index` of `text` stands inside a quotation -/
def insideQuotes (text : Fragment) (index : Nat) : Bool :=
  (Quoting.outside.run (text.take index)).isOpen

end Fragment

end SqlDialects
