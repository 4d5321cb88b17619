import Wandika.Settings
import Wandika.Text.CodePoint
import Wandika.Text.LowerCase
import Wandika.Text.Utf8

/-!
# Settings in TOML

Tables, dotted keys, inline tables, texts and truth values. Other values are refused, since no
setting takes them. Keys are matched without regard to case.

* `Toml.Reader`: a reader takes characters from the front of a text or refuses it;
* `Toml.Outline`: which tables and keys were defined, and how;
* `Toml.read?`: the document in the bytes of a file.
-/

namespace Wandika.Toml

/-- Takes characters from the front of a text, or refuses it. -/
abbrev Reader := StateT (List Char) Option

/-- Takes one character, which has to be `c`. -/
def char (c : Char) : Reader Unit := fun cs =>
  match cs with
  | d :: rest => if d = c then some ((), rest) else none
  | [] => none

/-- Takes `c` if it is next. -/
def accept (c : Char) : Reader Bool := fun cs =>
  match cs with
  | d :: rest => if d = c then some (true, rest) else some (false, cs)
  | [] => some (false, cs)

/-- Takes characters as long as they pass a test. -/
def takeWhile (p : Char → Bool) : Reader (List Char) := fun cs =>
  some (cs.takeWhile p, cs.dropWhile p)

/-- Takes spaces and tabs. -/
def blanks : Reader Unit := fun cs =>
  some ((), cs.dropWhile fun c => c = ' ' || c = '\t')

/-- The next character. -/
def peek : Reader (Option Char) := fun cs => some (cs.head?, cs)

/-- Characters that may not stand in a text or comment. -/
def isForbidden (c : Char) : Bool :=
  (c.toNat < 0x20 && c != '\t') || c.toNat = 0x7F

/-! ### Texts -/

/-- The character of an escape, given the text after the backslash. -/
def escape? : List Char → Option (Char × List Char)
  | 'b' :: rest => some (Char.ofNat 8, rest)
  | 't' :: rest => some ('\t', rest)
  | 'n' :: rest => some ('\n', rest)
  | 'f' :: rest => some (Char.ofNat 12, rest)
  | 'r' :: rest => some ('\r', rest)
  | 'e' :: rest => some (Char.ofNat 27, rest)
  | '"' :: rest => some ('"', rest)
  | '\\' :: rest => some ('\\', rest)
  | 'u' :: rest => Text.codePoint? 4 rest
  | 'U' :: rest => Text.codePoint? 8 rest
  | _ => none

/-- A backslash at the end of a line takes the line end and all blanks after it. -/
def lineEnding? (cs : List Char) : Option (List Char) :=
  let isEnd := fun (c : Char) => c = ' ' || c = '\t'
  let rest := cs.dropWhile isEnd
  match rest with
  | '\n' :: _ | '\r' :: '\n' :: _ =>
      some (rest.dropWhile fun c => isEnd c || c = '\n' || c = '\r')
  | _ => none

/-- The rest of a text between double quotes, on one line. -/
def basic : (fuel : Nat) → List Char → Option (List Char × List Char)
  | 0, _ => none
  | _ + 1, [] => none
  | _ + 1, '"' :: rest => some ([], rest)
  | fuel + 1, '\\' :: rest =>
      (escape? rest).bind fun (c, rest) => (basic fuel rest).map fun (cs, rest) => (c :: cs, rest)
  | fuel + 1, c :: rest =>
      if isForbidden c then none else (basic fuel rest).map fun (cs, rest) => (c :: cs, rest)

/-- The rest of a text between three double quotes, which may span lines. Up to two quotes may
stand before the closing ones, and a carriage return only before a line feed. -/
def multiBasic : (fuel : Nat) → List Char → Option (List Char × List Char)
  | 0, _ => none
  | _ + 1, '"' :: '"' :: '"' :: rest =>
      let more := (rest.takeWhile (· = '"')).length
      if 2 < more then none else some (List.replicate more '"', rest.drop more)
  | _ + 1, [] => none
  | fuel + 1, '\\' :: rest =>
      match lineEnding? rest with
      | some rest => multiBasic fuel rest
      | none =>
          (escape? rest).bind fun (c, rest) =>
            (multiBasic fuel rest).map fun (cs, rest) => (c :: cs, rest)
  | fuel + 1, '\r' :: '\n' :: rest =>
      (multiBasic fuel rest).map fun (cs, rest) => ('\r' :: '\n' :: cs, rest)
  | fuel + 1, c :: rest =>
      if isForbidden c && c != '\n' then none
      else (multiBasic fuel rest).map fun (cs, rest) => (c :: cs, rest)

/-- The rest of a text between three single quotes, which may span lines. -/
def multiLiteral : (fuel : Nat) → List Char → Option (List Char × List Char)
  | 0, _ => none
  | _ + 1, '\'' :: '\'' :: '\'' :: rest =>
      let more := (rest.takeWhile (· = '\'')).length
      if 2 < more then none else some (List.replicate more '\'', rest.drop more)
  | _ + 1, [] => none
  | fuel + 1, '\r' :: '\n' :: rest =>
      (multiLiteral fuel rest).map fun (cs, rest) => ('\r' :: '\n' :: cs, rest)
  | fuel + 1, c :: rest =>
      if isForbidden c && c != '\n' then none
      else (multiLiteral fuel rest).map fun (cs, rest) => (c :: cs, rest)

/-- A line end right after three opening quotes does not count. -/
def dropFirstLineEnd : List Char → List Char
  | '\n' :: rest => rest
  | '\r' :: '\n' :: rest => rest
  | rest => rest

/-- A text between single quotes, on one line and without escapes. -/
def literal (cs : List Char) : Option (List Char × List Char) :=
  let body := cs.takeWhile (· != '\'')
  match cs.dropWhile (· != '\'') with
  | _ :: rest => if body.any isForbidden then none else some (body, rest)
  | [] => none

/-- A text in any of the four kinds of quotes. -/
def string? : Reader String := fun cs =>
  let found := match cs with
    | '"' :: '"' :: '"' :: rest => multiBasic (rest.length + 1) (dropFirstLineEnd rest)
    | '\'' :: '\'' :: '\'' :: rest => multiLiteral (rest.length + 1) (dropFirstLineEnd rest)
    | '"' :: rest => basic (rest.length + 1) rest
    | '\'' :: rest => literal rest
    | _ => none
  found.map fun (body, rest) => (String.ofList body, rest)

/-! ### Keys -/

/-- Characters of a bare key. -/
def isBare (c : Char) : Bool :=
  c.toNat < 0x80 && (c.isAlphanum || c = '_' || c = '-')

/-- One part of a key, bare or quoted on one line. -/
def keyPart : Reader String := do
  match ← peek with
  | some '"' => fun cs =>
      (basic (cs.length + 1) cs.tail).map fun (k, rest) => (String.ofList k, rest)
  | some '\'' => fun cs => (literal cs.tail).map fun (k, rest) => (String.ofList k, rest)
  | _ =>
      let bare ← takeWhile isBare
      if bare = [] then failure else return String.ofList bare

/-- A key: parts with dots between them, and blanks around. -/
def key : (fuel : Nat) → Reader (List String)
  | 0 => failure
  | fuel + 1 => do
      blanks
      let part ← keyPart
      blanks
      if ← accept '.' then return part :: (← key fuel) else return [part]

/-! ### Which tables and keys are defined -/

/-- How a path was defined: as a value, by a header of its own, by a header below it, or by a
dotted key in the current section. -/
inductive Mark
  | value
  | header
  | above
  | dotted
  deriving DecidableEq

/-- Paths with how they were defined. -/
abbrev Outline := List (List String × Mark)

/-- The paths above a path, below `start` names. -/
def above (start : Nat) (path : List String) : List (List String) :=
  ((List.range path.length).filter (start < ·)).map path.take

/-- Defines a table by its header. Tables that dotted keys made are closed by it. -/
def Outline.header (o : Outline) (path : List String) : Option Outline :=
  let o := o.map fun (p, m) => (p, if m = .dotted then .header else m)
  let o? := (above 0 path).foldlM (fun (o : Outline) p =>
    match o.lookup p with
    | none => some ((p, Mark.above) :: o)
    | some .value => none
    | some _ => some o) o
  o?.bind fun o =>
    match o.lookup path with
    | none => some ((path, .header) :: o)
    | some .above => some ((path, .header) :: o)
    | some _ => none

/-- Defines a key of a section. -/
def Outline.define (o : Outline) (sec key : List String) : Option Outline :=
  let path := sec ++ key
  let o? := (above sec.length path).foldlM (fun (o : Outline) p =>
    match o.lookup p with
    | none => some ((p, Mark.dotted) :: o)
    | some .dotted => some o
    | some .above => some o
    | some _ => none) o
  o?.bind fun o => if (o.lookup path).isSome then none else some ((path, .value) :: o)

/-! ### Documents -/

/-- The entry of a name, changed; a name that is missing is added at the end. -/
def alter (name : String) (f : Option Document → Document) :
    List (String × Document) → List (String × Document)
  | [] => [(name, f none)]
  | (n, d) :: rest => if n = name then (n, f (some d)) :: rest else (n, d) :: alter name f rest

/-- Puts a document at a path. -/
def insert (path : List String) (doc : Document) (entries : List (String × Document)) :
    List (String × Document) :=
  match path with
  | [] => entries
  | [name] => alter name (fun _ => doc) entries
  | name :: rest =>
      alter name (fun old => match old with
        | some (.table inner) => .table (insert rest doc inner)
        | _ => .table (insert rest doc [])) entries

/-- Makes sure that there is something at a path, at least nothing at all: a header without entries
changes nothing. -/
def insertHeader (path : List String) (entries : List (String × Document)) :
    List (String × Document) :=
  match path with
  | [] => entries
  | [name] => alter name (fun old => old.getD .null) entries
  | name :: rest =>
      alter name (fun old => match old with
        | some (.table inner) => .table (insertHeader rest inner)
        | _ => .table (insertHeader rest [])) entries

/-- A truth value, which has to end where its word ends. -/
def word : Reader Document := do
  let w ← takeWhile isBare
  if w = "true".toList ∨ w = "false".toList then return .scalar false (String.ofList w)
  else failure

mutual

/-- A value: a text, a truth value or an inline table. -/
def value : (fuel : Nat) → Reader Document
  | 0 => failure
  | fuel + 1 => do
      match ← peek with
      | some '"' | some '\'' => return .scalar true (← string?)
      | some '\x7b' => do
          char '\x7b'
          blanks
          if ← accept '\x7d' then return .table []
          else return .table (← inline fuel [] [])
      | _ => word

/-- The entries of an inline table up to its closing brace. -/
def inline : (fuel : Nat) → Outline → List (String × Document) →
    Reader (List (String × Document))
  | 0, _, _ => failure
  | fuel + 1, o, entries => do
      let k ← key fuel
      char '='
      blanks
      let v ← value fuel
      blanks
      match o.define [] k with
      | none => failure
      | some o =>
          let entries := insert k v entries
          if ← accept ',' then inline fuel o entries
          else do
            char '\x7d'
            return entries

end

/-- The end of a line, after blanks and a comment. -/
def lineEnd : Reader Unit := do
  blanks
  if ← accept '#' then
    let comment ← takeWhile fun c => c != '\n' && c != '\r'
    if comment.any isForbidden then failure
  let cs ← get
  match cs with
  | [] => return ()
  | '\n' :: rest => set rest
  | '\r' :: '\n' :: rest => set rest
  | _ => failure

/-- The lines of a document, given the current section. -/
def lines : (fuel : Nat) → Outline → List String → List (String × Document) →
    Reader (List (String × Document))
  | 0, _, _, _ => failure
  | fuel + 1, o, sec, entries => do
      blanks
      match ← peek with
      | none => return entries
      | some '#' | some '\n' | some '\r' =>
          lineEnd
          lines fuel o sec entries
      | some '[' =>
          char '['
          let path ← key fuel
          char ']'
          lineEnd
          match o.header path with
          | none => failure
          | some o => lines fuel o path (insertHeader path entries)
      | some _ =>
          let k ← key fuel
          char '='
          blanks
          let v ← value fuel
          lineEnd
          match o.define sec k with
          | none => failure
          | some o => lines fuel o sec (insert (sec ++ k) v entries)

/-- The document of a text, if it is well formed. -/
def document? (cs : List Char) : Option Document :=
  ((lines (2 * cs.length + 2) [] [] []).run cs).map fun (entries, _) => .table entries

/-- The document in the bytes of a file. -/
def read? (bytes : List UInt8) : Option Document :=
  if Text.Utf8.isValid bytes then document? (Text.Utf8.decode bytes) else none

/-- Truth values are bare words and texts are quoted; the case of names does not matter. -/
def dialect : Dialect where
  bool? := fun quoted text => if quoted then none else some (text = "true")
  text? := fun quoted text => if quoted then some text else none
  name := Text.toLower

end Wandika.Toml
