/-
Blank characters: what separates words and what is cut from the ends of a text.

- `isBlank` holds of the controls that move the position (U+0009 to U+000D, U+001C to U+001F, U+0085) and of all
  separators of the Unicode database; characters without width, such as U+200B and U+FEFF, are not blank.
- `trim` cuts blanks from both ends; nothing is left exactly of blank text (`trim_eq_nil_iff`).
-/
import SqlDialects.Text.CharRange

namespace SqlDialects.Text

def blankRanges : CharRanges :=
  [(0x9, 0xD), (0x1C, 0x20), (0x85, 0x85), (0xA0, 0xA0), (0x1680, 0x1680), (0x2000, 0x200A), (0x2028, 0x2029),
    (0x202F, 0x202F), (0x205F, 0x205F), (0x3000, 0x3000)]

def isBlank (c : Char) : Bool := blankRanges.covers c.toNat

/-- a line break ends a line of SQL; no other separator does -/
def isLineBreak (c : Char) : Bool := c == '\n'

def trimLeft (text : List Char) : List Char := text.dropWhile isBlank

def trimRight (text : List Char) : List Char := (text.reverse.dropWhile isBlank).reverse

/-- the text without the blanks at its ends -/
def trim (text : List Char) : List Char := trimRight (trimLeft text)

theorem length_trimLeft_le (text : List Char) : (trimLeft text).length ≤ text.length :=
  (List.dropWhile_sublist _).length_le

theorem length_trimRight_le (text : List Char) : (trimRight text).length ≤ text.length := by
  simpa [trimRight] using (List.dropWhile_sublist isBlank (l := text.reverse)).length_le

theorem length_trim_le (text : List Char) : (trim text).length ≤ text.length :=
  Nat.le_trans (length_trimRight_le _) (length_trimLeft_le _)

/-- trimming leaves nothing exactly of blank text -/
theorem trim_eq_nil_iff (text : List Char) : trim text = [] ↔ text.all isBlank = true := by
  have drop (t : List Char) : t.dropWhile isBlank = [] ↔ t.all isBlank = true := by
    induction t with
    | nil => simp
    | cons c rest ih => by_cases hc : isBlank c = true <;> simp [hc, ih]
  have keep (t : List Char) : (t.dropWhile isBlank).all isBlank = t.all isBlank := by
    induction t with
    | nil => rfl
    | cons c rest ih => by_cases hc : isBlank c = true <;> simp [hc, ih]
  simp only [trim, trimRight, trimLeft, List.reverse_eq_nil_iff, drop, List.all_reverse, keep]

end SqlDialects.Text
