/-!
# Settings

* `Settings`: how programs are run, what the prompt looks like, and whether passes are logged;
* `Document`: the contents of a settings file, whatever its format;
* `Dialect`: how a format spells truth values and texts;
* `Document.settings?`: the settings that a document makes of the defaults.
-/

namespace Wandika

/-- What a settings file decides. -/
structure Settings where
  printTree : Bool := false
  warnings : Bool := true
  prompt : String := "> "
  history : String := ""
  debug : Bool := false
  deriving DecidableEq

/-- The contents of a settings file: nothing, a scalar, or names with contents. -/
inductive Document
  | null
  | scalar (quoted : Bool) (text : String)
  | table (entries : List (String × Document))

/-- How a format spells truth values and texts, and which names it takes for the same. -/
structure Dialect where
  bool? : (quoted : Bool) → (text : String) → Option Bool
  text? : (quoted : Bool) → (text : String) → Option String
  name : String → String

namespace Document

/-- A truth value; nothing at all leaves what was there. -/
def bool (d : Dialect) (old : Bool) : Document → Option Bool
  | .null => some old
  | .scalar quoted text => d.bool? quoted text
  | .table _ => none

/-- A text; nothing at all leaves what was there. -/
def text (d : Dialect) (old : String) : Document → Option String
  | .null => some old
  | .scalar quoted text => d.text? quoted text
  | .table _ => none

/-- The names of a section, one after another. A section without contents has none. -/
def section? : Document → Option (List (String × Document))
  | .null => some []
  | .scalar _ _ => none
  | .table entries => some entries

/-- One setting of the section on running. -/
def runEntry (d : Dialect) (s : Settings) (entry : String × Document) : Option Settings :=
  match d.name entry.1 with
  | "print_ast" => (entry.2.bool d s.printTree).map fun b => { s with printTree := b }
  | "warnings" => (entry.2.bool d s.warnings).map fun b => { s with warnings := b }
  | _ => none

/-- One setting of the section on the prompt. -/
def promptEntry (d : Dialect) (s : Settings) (entry : String × Document) : Option Settings :=
  match d.name entry.1 with
  | "prompt" => (entry.2.text d s.prompt).map fun t => { s with prompt := t }
  | "history" => (entry.2.text d s.history).map fun t => { s with history := t }
  | _ => none

/-- One setting or section of the whole document. -/
def entry (d : Dialect) (s : Settings) (entry : String × Document) : Option Settings :=
  match d.name entry.1 with
  | "run" => entry.2.section?.bind (·.foldlM (runEntry d) s)
  | "repl" => entry.2.section?.bind (·.foldlM (promptEntry d) s)
  | "debug" => (entry.2.bool d s.debug).map fun b => { s with debug := b }
  | _ => none

/-- The settings that a document makes of the defaults. A name that is not known and a value of the
wrong kind are refused. -/
def settings? (d : Dialect) (doc : Document) : Option Settings :=
  doc.section?.bind (·.foldlM (entry d) {})

end Document

end Wandika
