/-
Values that come from outside, as arguments or from the configuration of a connection, and how far they can be read as
a boolean.

- `readBool` takes booleans, the integers 0 and 1, and the usual words in any case (`boolWords`). An integer that needs
  more than 64 bits is no candidate at all, like a fraction.
-/
import SqlDialects.Text.Lowercase

namespace SqlDialects

inductive Value where
  | null
  | bool (b : Bool)
  | integer (n : Int)
  /-- a number that is no integer -/
  | fraction
  | text (s : String)
  /-- a list or a table -/
  | compound
deriving DecidableEq, Repr

namespace Value

/-- the words that stand for true and false -/
def boolWords : List (String × Bool) :=
  [("1", true), ("on", true), ("t", true), ("true", true), ("y", true), ("yes", true),
    ("0", false), ("off", false), ("f", false), ("false", false), ("n", false), ("no", false)]

def asciiLower (s : String) : String := String.ofList (s.toList.map Char.toLower)

/-- why a value is no boolean -/
inductive BoolFault where
  /-- a value of a kind that is never a boolean, or a number out of bounds -/
  | kind
  /-- a number or a word that stands for neither -/
  | unreadable
deriving DecidableEq, Repr

/-- whether an integer has a signed form of 64 bits -/
def fits64 (n : Int) : Bool := Int64.minValue.toInt ≤ n && n ≤ Int64.maxValue.toInt

def readBool : Value → Except BoolFault Bool
  | .bool b => .ok b
  | .integer n =>
    if n = 1 then .ok true else if n = 0 then .ok false
    else .error (if fits64 n then .unreadable else .kind)
  | .text s =>
    match boolWords.lookup (asciiLower s) with
    | some b => .ok b
    | none => .error .unreadable
  | _ => .error .kind

end Value

end SqlDialects
