/-
Settings, and where they are taken from: arguments first, then the environment, then the file of environment variables,
then the defaults. Only the value that is taken is checked, so a bad value that another one hides does no harm.

Names are compared without regard to case. Of several spellings of a name the first argument counts, but the last entry
of the environment or of the file.

- `load` gives the settings, or all faults in the order of the fields.
-/
import SqlDialects.Dialect.Basic
import SqlDialects.Settings.EnvFile
import SqlDialects.Settings.Value

namespace SqlDialects

/-- the settings, in their order -/
inductive Field where
  | logLevel
  | driver
  | tablePrefix
  | strict
  | validateSql
deriving DecidableEq, Repr

def Field.text : Field → String
  | logLevel => "log_level"
  | driver => "db_driver"
  | tablePrefix => "db_table_prefix"
  | strict => "db_strict"
  | validateSql => "validate_sql"

structure Settings where
  logLevel : String := "INFO"
  /-- a driver name, in any case; an unknown one stands for the reference -/
  driver : String := Driver.reference.text
  tablePrefix : String := ""
  /-- nothing: the configuration of the connection decides -/
  strict : Option Bool := none
  /-- what is translated with a check is shown to the parser -/
  validateSql : Bool := true
deriving DecidableEq, Repr

/-- what is wrong with the value of a field -/
inductive FieldFault.Kind where
  | notText
  | notBool
  | unreadableBool
deriving DecidableEq, Repr

structure FieldFault where
  field : Field
  kind : FieldFault.Kind
deriving DecidableEq, Repr

namespace FieldFault

/-- the short name of the fault -/
def code (fault : FieldFault) : String :=
  match fault.kind with
  | .notText => "string_type"
  | .notBool => "bool_type"
  | .unreadableBool => "bool_parsing"

def message (fault : FieldFault) : String :=
  match fault.kind with
  | .notText => "Input should be a valid string"
  | .notBool => "Input should be a valid boolean"
  | .unreadableBool => "Input should be a valid boolean, unable to interpret input"

end FieldFault

/-- where settings are taken from -/
structure Sources where
  arguments : List (String × Value) := []
  environment : List (String × String) := []
  /-- the text of the file of environment variables, if there is one -/
  file : Option String := none
deriving DecidableEq, Repr

namespace Sources

/-- the entry under a name in lower case; of several, the first -/
def firstNamed {α : Type} (name : String) (entries : List (String × α)) : Option α :=
  (entries.find? fun entry => Text.lowercase entry.1 == name).map (·.2)

/-- the entry under a name in lower case; of several, the last -/
def lastNamed {α : Type} (name : String) (entries : List (String × α)) : Option α :=
  firstNamed name entries.reverse

/-- the value in the file; a name without a value is as good as absent -/
def inFile (sources : Sources) (name : String) : Option String := do
  let file ← sources.file
  (← lastNamed name (EnvFile.table sources.environment file))

/-- the value of a field, from the first source that has one -/
def value? (sources : Sources) (field : Field) : Option Value :=
  match firstNamed field.text sources.arguments with
  | some value => some value
  | none =>
    match lastNamed field.text sources.environment with
    | some value => some (.text value)
    | none => (sources.inFile field.text).map .text

end Sources

namespace Settings

def readText (field : Field) : Value → Except FieldFault String
  | .text s => .ok s
  | _ => .error ⟨field, .notText⟩

def readBool (field : Field) (value : Value) : Except FieldFault Bool :=
  match value.readBool with
  | .ok b => .ok b
  | .error .kind => .error ⟨field, .notBool⟩
  | .error .unreadable => .error ⟨field, .unreadableBool⟩

/-- nothing, where null is given -/
def readOptionalBool (field : Field) : Value → Except FieldFault (Option Bool)
  | .null => .ok none
  | value => (readBool field value).map some

/-- the value of a field as `read` takes it, or its default -/
def fieldOr {α : Type} (sources : Sources) (field : Field) (read : Field → Value → Except FieldFault α)
    (default : α) : Except FieldFault α :=
  match sources.value? field with
  | some value => read field value
  | none => .ok default

def faultOf {α : Type} : Except FieldFault α → List FieldFault
  | .ok _ => []
  | .error fault => [fault]

/-- what a field is set to where no source has a value -/
def defaults : Settings := {}

/-- the settings that the sources give, or what is wrong with them -/
def load (sources : Sources) : Except (List FieldFault) Settings :=
  let logLevel := fieldOr sources .logLevel readText defaults.logLevel
  let driver := fieldOr sources .driver readText defaults.driver
  let tablePrefix := fieldOr sources .tablePrefix readText defaults.tablePrefix
  let strict := fieldOr sources .strict readOptionalBool defaults.strict
  let validateSql := fieldOr sources .validateSql readBool defaults.validateSql
  match logLevel, driver, tablePrefix, strict, validateSql with
  | .ok logLevel, .ok driver, .ok tablePrefix, .ok strict, .ok validateSql =>
    .ok ⟨logLevel, driver, tablePrefix, strict, validateSql⟩
  | _, _, _, _, _ =>
    .error (faultOf logLevel ++ faultOf driver ++ faultOf tablePrefix ++ faultOf strict ++ faultOf validateSql)

end Settings

end SqlDialects
