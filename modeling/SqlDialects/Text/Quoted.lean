/-
A text in quotation marks, as it is shown to a reader: single marks, unless the text holds a single mark and no double
one. The enclosing mark and the backslash are escaped, line feed, carriage return and tab have letters of their own,
and a character that is not printable is written as its code point in hexadecimal, two, four or eight digits long.
-/
import SqlDialects.Text.Printable

namespace SqlDialects.Text

/-- the quotation mark that encloses `text` -/
def quotationMark (text : List Char) : Char :=
  if text.contains '\'' && !text.contains '"' then '"' else '\''

/-- `n` in lower-case hexadecimal digits, filled up with zeros to `width` -/
def hexadecimal (width n : Nat) : List Char :=
  let digits := Nat.toDigits 16 n
  List.replicate (width - digits.length) '0' ++ digits

def codePoint (n : Nat) : List Char :=
  if n < 0x100 then '\\' :: 'x' :: hexadecimal 2 n
  else if n < 0x10000 then '\\' :: 'u' :: hexadecimal 4 n
  else '\\' :: 'U' :: hexadecimal 8 n

/-- how one character is written between two `mark`s -/
def escaped (mark c : Char) : List Char :=
  if c = mark ∨ c = '\\' then ['\\', c]
  else if c = '\n' then ['\\', 'n']
  else if c = '\r' then ['\\', 'r']
  else if c = '\t' then ['\\', 't']
  else if isPrintable c then [c]
  else codePoint c.toNat

def quoted (text : String) : String :=
  let mark := quotationMark text.toList
  String.ofList (mark :: text.toList.flatMap (escaped mark) ++ [mark])

example : quoted "shop_" = "'shop_'" := by decide +kernel

example : quoted "it's" = "\"it's\"" := by decide +kernel

example : quoted "a\n\u200b" = "'a\\n\\u200b'" := by decide +kernel

end SqlDialects.Text
