/-
Lower case of names. Driver names and names of settings are ASCII, so only characters whose lower case holds an ASCII
letter matter: the letters `A` to `Z`, the Kelvin sign, and the dotted capital `I`, which becomes two characters. All
others are kept; they never take part in a match.
-/

namespace SqlDialects.Text

def lowerChar (c : Char) : List Char :=
  if c = '\u0130' then ['i', '\u0307'] else if c = '\u212A' then ['k'] else [c.toLower]

def lowercase (name : String) : String := String.ofList (name.toList.flatMap lowerChar)

end SqlDialects.Text
