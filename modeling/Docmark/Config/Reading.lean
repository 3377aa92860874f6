import Docmark.Config.Basic
import Docmark.Toml.Document

/-!
# Reading settings

Settings are written in TOML.  What a document does not set has its default, and what it sets
besides is passed over; a setting of the wrong kind is a fault.  A section may also be an array,
which then gives its settings in order.
-/

namespace Docmark

open Toml (Value)

namespace Config

/-- The truth value that a value is. -/
def boolean? : Value → Option Bool
  | .boolean b => some b
  | _ => none

/-- The text that a value is. -/
def text? : Value → Option Text
  | .string s => some s
  | _ => none

/-- The elements of an array, each read in the same way. -/
def list? {α : Type} (item? : Value → Option α) : Value → Option (List α)
  | .array _ items => items.mapM item?
  | _ => none

/-- The size of 64 bits that a value is. -/
def size? : Value → Option Nat
  | .integer n => if 0 ≤ n ∧ n < Nat.pow 2 64 then some n.toNat else none
  | _ => none

/-- The name that a value chooses: a text, or the only key of a table whose value is empty. -/
def choice? : Value → Option Text
  | .string s => some s
  | .table _ [(name, .array _ [])] => some name
  | .table _ [(name, .table _ [])] => some name
  | _ => none

/-- The dialect that a value chooses by its exact name. -/
def flavor? (v : Value) : Option Flavor := do
  let name ← choice? v
  [Flavor.markdown, .gfm, .dfm].find? fun f => f.name.toList = name

/-- The severity that a value chooses by its exact name. -/
def severity? (v : Value) : Option Severity := do
  let name ← choice? v
  [Severity.warning, .error].find? fun s => s.name.toList = name

/-- The settings of a section whose settings have the given names in order.  A date stands for a
section without any of them. -/
def section? (names : List String) : Value → Option (List (Text × Value))
  | .table _ entries => some entries
  | .array _ items => some ((names.map String.toList).zip items)
  | .moment _ => some []
  | _ => none

/-- The setting of a name, or its default. -/
def setting {α : Type} (settings : List (Text × Value)) (name : String) (read? : Value → Option α)
    (default : α) : Except ConfigFault α :=
  match settings.lookup name.toList with
  | none => return default
  | some v =>
    match read? v with
    | some x => return x
    | none => throw (.malformed s!"setting `{name}` has a value of the wrong kind")

/-- A section that is read as a whole; a missing one has no settings. -/
def settingsOf (settings : List (Text × Value)) (name : String) (names : List String) :
    Except ConfigFault (List (Text × Value)) :=
  setting settings name (section? names) []

/-- The names of the settings of a tag rule. -/
def tagRuleSettings : List String := ["tags", "behavior", "message", "open_only"]

/-- The tag rule that a section describes. -/
def tagRule (settings : List (Text × Value)) : Except ConfigFault TagRule := do
  match ← setting settings "tags" (fun v => (list? text? v).map some) none with
  | none => throw (.malformed "a tag rule names no `tags`")
  | some tags =>
    return {
      tags
      severity := ← setting settings "behavior" severity? .warning
      message := ← setting settings "message" (fun v => (text? v).map some) none
      openOnly := ← setting settings "open_only" boolean? false }

/-- The settings that a table describes. -/
def ofSettings (settings : List (Text × Value)) : Except ConfigFault Config := do
  let headings ← settingsOf settings "headings" ["ids"]
  let includes ← settingsOf settings "include" ["base_dir"]
  let files ← settingsOf settings "files" ["patterns"]
  let exclude ← settingsOf settings "exclude" ["patterns"]
  let output ← settingsOf settings "output" ["extension"]
  let tags ← setting settings "tags" (list? (section? tagRuleSettings)) []
  let d : Config := {}
  return {
    flavor := ← setting settings "flavor" flavor? d.flavor
    headingIds := ← setting headings "ids" boolean? d.headingIds
    includeDir := ← setting includes "base_dir" (fun v => (text? v).map some) d.includeDir
    filePatterns := ← setting files "patterns" (list? text?) d.filePatterns
    excludePatterns := ← setting exclude "patterns" (list? text?) d.excludePatterns
    tagRules := ← tags.mapM tagRule
    outputExtension := ← setting output "extension" text? d.outputExtension
    maxFileSize := ← setting settings "max_file_size" size? d.maxFileSize
    disableGitignore := ← setting settings "disable_gitignore" boolean? d.disableGitignore }

/-- Reads settings and checks them. -/
def parse (text : Text) : Except Fault Config := do
  match Toml.document? text with
  | none => throw (.config (.malformed "the text is no TOML document"))
  | some table =>
    match ofSettings table.entries with
    | .error f => throw (.config f)
    | .ok c =>
      c.validate
      return c

end Config

end Docmark
