/-
Translators and schema administrations built from settings.

The settings of an administration are read after the translator that it is given was built; it makes one from the
settings where it is given none.
-/
import SqlDialects.Logging
import SqlDialects.Schema.Admin

namespace SqlDialects

/-- why nothing could be built -/
inductive SetupError where
  | dialect (e : UnsupportedDialect)
  | settings (faults : List FieldFault)
deriving DecidableEq, Repr

namespace Setup

/-- the translator for the configured driver -/
def translator (registry : Registry) (settings : Settings) : Traced UnsupportedDialect Translator := do
  let made ← Translator.create registry
    { dialect := .named settings.driver, tablePrefix := settings.tablePrefix, validates := settings.validateSql }
  Traced.log .translator .info
    ("Dongle ready (driver=" ++ made.driver.text ++ ", table_prefix=" ++ Text.quoted made.tablePrefix ++ ")")
  pure made

def settingsFrom (sources : Sources) : Traced SetupError Settings :=
  Traced.ofExcept ((Settings.load sources).mapError .settings)

def translatorFrom (registry : Registry) (sources : Sources) : Traced SetupError Translator := do
  let settings ← settingsFrom sources
  (translator registry settings).mapError .dialect

def adminFrom (registry : Registry) (sources : Sources) (given : Option TranslatorOptions) :
    Traced SetupError Admin := do
  let made ← given.mapM fun options => (Translator.create registry options).mapError .dialect
  let settings ← settingsFrom sources
  let translator ← match made with
    | some translator => pure translator
    | none => (translator registry settings).mapError .dialect
  pure { translator := translator, strict := settings.strict }

end Setup

end SqlDialects
