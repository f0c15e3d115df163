/-
Files of environment variables: one `NAME=value` on a line, blank lines and comments between them.

A byte order mark at the front is no part of the text. A line may begin with `export`. A name may stand in single marks.
A value is bare, up to a blank before `#` or to the end of the line; or it stands in single or double marks and may span
lines. A name without `=` has no value. A line that cannot be read is skipped from where reading stopped.

In every value, `${NAME}` stands for the value of that name further up in the file, or in the environment, and
`${NAME:-default}` for the default if there is neither.

- `bindings`: what a text binds, in order, before substitution; each binding is read from a shorter rest, so reading
  ends.
- `table`: each name once, where it was first bound, with its last value.
-/
import SqlDialects.Text.Blank
import SqlDialects.Text.Lowercase
import SqlDialects.Text.Substitution

namespace SqlDialects.EnvFile

open Text

/-- a name and the value that it is bound to, if it has one -/
structure Binding where
  name : String
  value : Option (List Char)
deriving DecidableEq, Repr

/-! ## Lines -/

/-- the text behind the byte order mark that it may begin with -/
def dropByteOrderMark : List Char → List Char
  | '\ufeff' :: rest => rest
  | text => text

/-- carriage returns end lines, alone or before a line feed -/
def unifyLineBreaks : List Char → List Char
  | [] => []
  | '\r' :: '\n' :: rest => '\n' :: unifyLineBreaks rest
  | '\r' :: rest => '\n' :: unifyLineBreaks rest
  | c :: rest => c :: unifyLineBreaks rest

def isInlineBlank (c : Char) : Bool := isBlank c && !isLineBreak c

/-- the text behind the next line break -/
def dropLine (text : List Char) : List Char := (text.dropWhile (!isLineBreak ·)).drop 1

/-- the text behind the end of the line, if nothing but blanks stands before it -/
def endOfLine (text : List Char) : Option (List Char) :=
  match text.dropWhile isInlineBlank with
  | [] => some []
  | c :: rest => if isLineBreak c then some rest else none

def dropComment (text : List Char) : List Char :=
  match text.dropWhile isInlineBlank with
  | '#' :: rest => rest.dropWhile (!isLineBreak ·)
  | _ => text

/-- the word `export` and the blanks behind it are no part of a name -/
def dropExport (text : List Char) : List Char :=
  match text with
  | 'e' :: 'x' :: 'p' :: 'o' :: 'r' :: 't' :: c :: rest =>
    if isInlineBlank c then rest.dropWhile isInlineBlank else text
  | _ => text

/-! ## Names and values -/

def isNameChar (c : Char) : Bool := !isBlank c && c != '=' && c != '#'

/-- the name at the front of `text`, or `none` before a comment; an error where no name can be read -/
def readName (text : List Char) : Except Unit (Option (List Char) × List Char) :=
  match text with
  | '#' :: _ => .ok (none, text)
  | '\x27' :: rest =>
    let name := rest.takeWhile (· != '\x27')
    match rest.drop name.length with
    | _ :: after => if name = [] then .error () else .ok (some name, after)
    | [] => .error ()
  | _ =>
    let name := text.takeWhile isNameChar
    if name = [] then .error () else .ok (some name, text.drop name.length)

/-- the text up to the closing mark, and the text behind it; the character behind a backslash never closes, be it a mark
or another backslash -/
def splitAtMark (mark : Char) : List Char → Option (List Char × List Char)
  | [] => none
  | '\\' :: c :: rest => (splitAtMark mark rest).map fun (inner, after) => ('\\' :: c :: inner, after)
  | c :: rest =>
    if c = mark then some ([], rest) else (splitAtMark mark rest).map fun (inner, after) => (c :: inner, after)

/-- the characters that a backslash stands for something with, between single marks -/
def singleEscape : Char → Option Char
  | '\\' => some '\\'
  | '\x27' => some '\x27'
  | _ => none

/-- the characters that a backslash stands for something with, between double marks -/
def doubleEscape : Char → Option Char
  | '\\' => some '\\'
  | '\x27' => some '\x27'
  | '\x22' => some '\x22'
  | 'a' => some '\x07'
  | 'b' => some '\x08'
  | 'f' => some '\x0c'
  | 'n' => some '\n'
  | 'r' => some '\r'
  | 't' => some '\t'
  | 'v' => some '\x0b'
  | _ => none

def unescape (escape : Char → Option Char) : List Char → List Char
  | '\\' :: c :: rest =>
    match escape c with
    | some d => d :: unescape escape rest
    | none => '\\' :: unescape escape (c :: rest)
  | c :: rest => c :: unescape escape rest
  | [] => []

/-- the text up to the first blanks with `#` behind them -/
def cutComment : List Char → List Char
  | [] => []
  | c :: rest =>
    if isBlank c && (rest.dropWhile isBlank).head? == some '#' then [] else c :: cutComment rest

/-- the value at the front of `text`, behind blanks; `none` where a mark is not closed. `#` begins a bare value unless a
blank stands before it: then the value is empty, and the rest of the line is a comment. -/
def readValue (text : List Char) : Option (List Char × List Char) :=
  match text.dropWhile isInlineBlank with
  | '\x27' :: rest => (splitAtMark '\x27' rest).map fun (inner, after) => (unescape singleEscape inner, after)
  | '\x22' :: rest => (splitAtMark '\x22' rest).map fun (inner, after) => (unescape doubleEscape inner, after)
  | _ =>
    let line := text.takeWhile (!isLineBreak ·)
    some (trim (cutComment line), text.drop line.length)

/-- what stands behind a name: `=` and a value, or nothing; an error with the text at which reading stopped -/
def readAssignment (text : List Char) : Except (List Char) (Option (List Char) × List Char) :=
  match text with
  | '=' :: rest =>
    match readValue rest with
    | some (value, after) => .ok (some value, after)
    | none => .error rest
  | _ => .ok (none, text)

/-- the binding that the next line makes, if it makes one, and the text behind it -/
def readBinding (text : List Char) : Option Binding × List Char :=
  let start := dropExport (text.dropWhile isBlank)
  match readName start with
  | .error _ => (none, dropLine start)
  | .ok (name, rest) =>
    match readAssignment (rest.dropWhile isInlineBlank) with
    | .error stopped => (none, dropLine stopped)
    | .ok (value, rest) =>
      let rest := dropComment rest
      match endOfLine rest with
      | none => (none, dropLine rest)
      | some after => (name.map fun n => ⟨String.ofList n, value⟩, after)

/-- the bindings of a text, in order -/
def bindings (text : List Char) : List Binding :=
  match readBinding text with
  | (binding, rest) =>
    binding.toList ++ if _h : rest.length < text.length then bindings rest else []
termination_by text.length

/-! ## Substitution -/

/-- a reference in a value: its name and its default, the text that it covers -/
structure Reference where
  name : String
  default : Option (List Char)
  covered : List Char
deriving DecidableEq, Repr

/-- the reference that begins at the front of `text` -/
def reference? (text : List Char) : Option Reference :=
  match text with
  | '$' :: '{' :: rest =>
    let name := rest.takeWhile fun c => c != '}' && c != ':'
    match rest.drop name.length with
    | '}' :: _ => some ⟨String.ofList name, none, text.take (name.length + 3)⟩
    | ':' :: '-' :: more =>
      let default := more.takeWhile (· != '}')
      match more.drop default.length with
      | [] => none
      | _ => some ⟨String.ofList name, some default, text.take (name.length + default.length + 5)⟩
    | _ => none
  | _ => none

/-- names with their values, in the order of their first binding -/
abbrev Table := List (String × Option String)

/-- a name keeps its place when it is bound again -/
def bind (name : String) (value : Option String) : Table → Table
  | [] => [(name, value)]
  | (other, old) :: rest => if other = name then (name, value) :: rest else (other, old) :: bind name value rest

/-- what a reference stands for: the value in the file, else in the environment, else its default, else nothing -/
def substitute (environment : List (String × String)) (done : Table) (reference : Reference) : List Char :=
  match done.lookup reference.name with
  | some value => (value.getD "").toList
  | none =>
    match environment.lookup reference.name with
    | some value => value.toList
    | none => reference.default.getD []

/-- a reference, to be replaced by what it stands for -/
def substitution (environment : List (String × String)) (done : Table) : Pattern := fun _ text =>
  (reference? text).map fun found => ⟨found.covered, substitute environment done found⟩

def addBinding (environment : List (String × String)) (done : Table) (binding : Binding) : Table :=
  let value := binding.value.map (replaceAll (substitution environment done))
  bind binding.name (value.map String.ofList) done

/-- the names that a file binds, each once, with their values after substitution -/
def table (environment : List (String × String)) (file : String) : Table :=
  (bindings (unifyLineBreaks (dropByteOrderMark file.toList))).foldl (addBinding environment) []

end SqlDialects.EnvFile
