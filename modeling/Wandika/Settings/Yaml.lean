import Wandika.Settings
import Wandika.Settings.Yaml.Node
import Wandika.Text.Utf16
import Wandika.Text.Utf8

/-!
# Settings in YAML

The first document of a stream is read; what follows it does not count.

* `Yaml.resolve?`: what a scalar stands for;
* `Yaml.Node.document?`: a node as a document, where entries whose name is null are passed over and
  merged entries stand behind those of the mapping itself;
* `Yaml.decode?`: the text of a byte sequence, whose first bytes tell the encoding;
* `Yaml.read?`: the document in the bytes of a file.
-/

namespace Wandika.Yaml

/-- Words for nothing at all. -/
def isNullWord (s : String) : Bool := ["", "~", "null", "Null", "NULL"].contains s

/-- Words for truth values. -/
def boolWord? (s : String) : Option Bool :=
  if ["true", "True", "TRUE"].contains s then some true
  else if ["false", "False", "FALSE"].contains s then some false
  else none

/-- The name that asks for the entries of another mapping. -/
def mergeWord : String := "<<"

/-- What a scalar stands for. A tag has to agree with the text; tags that no setting takes are
refused, and so is the word of merging where nothing can be merged. -/
def resolve? (tag : String) (quoted : Bool) (text : String) : Option Document :=
  if tag = "" ∨ tag = "!" then
    if quoted then some (.scalar true text)
    else if isNullWord text then some .null
    else if text = mergeWord then none
    else some (.scalar false text)
  else if tag = standardTag "str" then some (.scalar true text)
  else if tag = standardTag "null" then
    if isNullWord text then some .null else none
  else if tag = standardTag "bool" then
    if (boolWord? text).isSome then some (.scalar false text) else none
  else none

/-- Whether two names of a mapping are the same: scalars with one text, or references to one
anchor. Collections count as the same. -/
def Node.sameName : Node → Node → Bool
  | .scalar _ _ s, .scalar _ _ t => s = t
  | .reference a _, .reference b _ => a = b
  | .sequence _, .sequence _ => true
  | .mapping _ _, .mapping _ _ => true
  | _, _ => false

/-- Whether all names are different. -/
def distinct : List Node → Bool
  | [] => true
  | n :: ns => !ns.any n.sameName && distinct ns

/-- The names of entries. Nothing at all is no name, and a collection cannot be one. -/
def Node.name? : Node → Option (Option String)
  | .scalar tag quoted text =>
      (resolve? tag quoted text).map fun doc => match doc with
        | .null => none
        | _ => some text
  | .reference _ n => n.name?
  | _ => none

/-- Whether a name asks for the entries of another mapping. -/
def Node.isMerge : Node → Bool
  | .scalar tag quoted text =>
      text = mergeWord && !quoted && (tag = "" || tag = "!")
  | _ => false

/-- Entries with their names. What an entry holds may turn out to be no document. -/
abbrev Entries := List (String × Option Document)

/-- Adds the entries whose names are new. -/
def Entries.merge (own more : Entries) : Entries :=
  more.foldl (fun es e => if (es.lookup e.1).isSome then es else es ++ [e]) own

/-- The own entries of a mapping, each name once, given what its values stand for. -/
def ownEntries : List Node → List (Option Document) → Option Entries
  | [], _ => some []
  | _, [] => some []
  | n :: ns, v :: vs => do
      let es ← ownEntries ns vs
      if n.isMerge then return es
      match ← n.name? with
      | none => return es
      | some name => if (es.lookup name).isSome then none else return (name, v) :: es

/-- The entries of a mapping, given what its values stand for and what each of them would add if it
were merged. -/
def entries? (names : List Node) (values : List (Option Document))
    (merged : List (Option Entries)) : Option Entries := do
  if !distinct names then failure
  let own ← ownEntries names values
  match (names.zip merged).find? (·.1.isMerge) with
  | none => return own
  | some (_, more) => return own.merge (← more)

/-- The document of entries, if all that they hold are documents. -/
def Entries.document? (es : Entries) : Option Document :=
  (es.mapM fun (e : String × Option Document) => e.2.map (e.1, ·)).map .table

mutual

/-- A node as a document. No setting takes a sequence. -/
def Node.document? : Node → Option Document
  | .scalar tag quoted text => resolve? tag quoted text
  | .sequence _ => none
  | .mapping names values =>
      (entries? names (documents values) (mergedAll values)).bind Entries.document?
  | .reference _ n => n.document?
  | .unfinished => none

/-- The entries of a mapping. -/
def Node.mapping? : Node → Option Entries
  | .mapping names values => entries? names (documents values) (mergedAll values)
  | .reference _ n => n.mapping?
  | _ => none

/-- The entries that a node adds if it is merged: those of a mapping, or of several ones. -/
def Node.merged? : Node → Option Entries
  | .mapping names values => entries? names (documents values) (mergedAll values)
  | .reference _ n => n.mapping?
  | .sequence items => mappings? items
  | _ => none

/-- The entries of several mappings. -/
def mappings? : List Node → Option Entries
  | [] => some []
  | n :: ns => do
      let es ← n.mapping?
      return es.merge (← mappings? ns)

/-- Nodes as documents. -/
def documents : List Node → List (Option Document)
  | [] => []
  | n :: ns => n.document? :: documents ns

/-- The entries that each of some nodes adds if it is merged. -/
def mergedAll : List Node → List (Option Entries)
  | [] => []
  | n :: ns => n.merged? :: mergedAll ns

end

/-- The text of a byte sequence. Its first bytes may tell the encoding, which else is UTF-8. -/
def decode? : List UInt8 → Option (List Char)
  | 0xFF :: 0xFE :: bytes => Text.Utf16.decode? .low bytes
  | 0xFE :: 0xFF :: bytes => Text.Utf16.decode? .high bytes
  | 0xEF :: 0xBB :: 0xBF :: bytes => utf8? bytes
  | bytes => utf8? bytes
where
  utf8? (bytes : List UInt8) : Option (List Char) :=
    if Text.Utf8.isValid bytes then some (Text.Utf8.decode bytes) else none

/-- The document in the bytes of a file. An empty stream holds nothing at all. -/
def read? (bytes : List UInt8) : Option Document := do
  let cs ← decode? bytes
  if !cs.all isAllowed then failure
  match ← document? cs with
  | none => return .null
  | some n => n.document?

/-- Truth values may also be spelt as words of consent, in quotes too; any scalar is a text. -/
def dialect : Dialect where
  bool? := fun quoted text =>
    if ["y", "Y", "yes", "Yes", "YES", "on", "On", "ON"].contains text then some true
    else if ["n", "N", "no", "No", "NO", "off", "Off", "OFF"].contains text then some false
    else if quoted then none
    else boolWord? text
  text? := fun _ text => some text
  name := id

end Wandika.Yaml
