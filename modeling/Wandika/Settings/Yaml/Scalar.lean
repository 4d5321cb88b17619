import Wandika.Settings.Yaml.Cursor
import Wandika.Text.CodePoint

/-!
# Scalars of YAML

* `White`: white space inside a scalar, whose line ends fold;
* `plain`: scalars without quotes;
* `quoted`: scalars in single or double quotes;
* `blockScalar`: scalars on lines of their own;
* `anchorName`, `tagName`: what may stand before a node.
-/

namespace Wandika.Yaml

/-! ### White space -/

/-- White space inside a scalar: blanks, or from the first line end on the line ends alone. -/
structure White where
  blanks : List Char := []
  broken : Bool := false
  first : List Char := []
  more : List Char := []

/-- What white space stands for. On one line it stands for itself, one line end is a space, and of
several line ends all but the first are kept. -/
def White.text (w : White) : List Char :=
  if !w.broken then w.blanks
  else if w.first.head? = some '\n' then
    if w.more = [] then [' '] else w.more
  else w.first ++ w.more

/-- Reads white space. A tab may not stand before column `indent` of a further line. -/
def white (indent : Int) : (fuel : Nat) → White → Scan White
  | 0, w => return w
  | fuel + 1, w => do
      let c ← get
      match c.next? with
      | none => return w
      | some d =>
          if isGap d then
            if w.broken && d = '\t' && (c.column : Int) < indent then failure
            set (c.skip 1)
            white indent fuel (if w.broken then w else { w with blanks := w.blanks ++ [d] })
          else if isBreak d then
            let text ← lineEnd
            white indent fuel
              (if w.broken then { w with more := w.more ++ text }
              else { broken := true, first := text })
          else return w

/-! ### Plain scalars -/

/-- Marks with a meaning inside flow collections. -/
def isFlowMark (c : Char) : Bool :=
  c = ',' || c = '[' || c = ']' || c = '\x7b' || c = '\x7d'

/-- Whether a plain scalar can begin here. -/
def startsPlain (inFlow : Bool) : List Char → Bool
  | [] => false
  | c :: rest =>
      if c = '-' then !rest.head?.any isGap
      else if c = '?' || c = ':' then !inFlow && !atGap rest
      else !("#&*!|>'\"%@`".toList.contains c || isFlowMark c || isWhite c)

/-- Whether a word of a plain scalar ends here: at white space, at a colon with a gap after it, and
inside flow collections at a mark. -/
def endsWord (inFlow : Bool) : List Char → Bool
  | [] => true
  | c :: rest =>
      isWhite c || (c = ':' && atGap rest) || (inFlow && (isFlowMark c || c = '?'))

/-- The next word of a plain scalar. -/
def wordOf (inFlow : Bool) : List Char → List Char
  | [] => []
  | c :: rest => if endsWord inFlow (c :: rest) then [] else c :: wordOf inFlow rest

/-- Reads the rest of a plain scalar: words with white space between them. Further lines begin at
column `indent` or later, unless it stands in a flow collection. The scalar comes with whether it
has passed a line end after its last word. -/
def plain (inFlow : Bool) (indent : Int) : (fuel : Nat) → List Char → White →
    Scan (List Char × Bool)
  | 0, _, _ => failure
  | fuel + 1, text, before => do
      let c ← get
      let word := wordOf inFlow c.rest
      if c.atMarker || c.next? = some '#' || word = [] then return (text, before.broken)
      set (c.skip word.length)
      let after ← white indent c.rest.length {}
      let text := text ++ before.text ++ word
      if !inFlow && ((← get).column : Int) < indent then return (text, after.broken)
      plain inFlow indent fuel text after

/-! ### Quoted scalars -/

/-- The character of an escape, given the text after the backslash. -/
def escape? : List Char → Option (Char × List Char)
  | '0' :: rest => some (Char.ofNat 0, rest)
  | 'a' :: rest => some (Char.ofNat 7, rest)
  | 'b' :: rest => some (Char.ofNat 8, rest)
  | 't' :: rest | '\t' :: rest => some ('\t', rest)
  | 'n' :: rest => some ('\n', rest)
  | 'v' :: rest => some (Char.ofNat 11, rest)
  | 'f' :: rest => some (Char.ofNat 12, rest)
  | 'r' :: rest => some ('\r', rest)
  | 'e' :: rest => some (Char.ofNat 27, rest)
  | ' ' :: rest => some (' ', rest)
  | '"' :: rest => some ('"', rest)
  | '\'' :: rest => some ('\'', rest)
  | '/' :: rest => some ('/', rest)
  | '\\' :: rest => some ('\\', rest)
  | 'N' :: rest => some (Char.ofNat 0x85, rest)
  | '_' :: rest => some (Char.ofNat 0xA0, rest)
  | 'L' :: rest => some (Char.ofNat 0x2028, rest)
  | 'P' :: rest => some (Char.ofNat 0x2029, rest)
  | 'x' :: rest => Text.codePoint? 2 rest
  | 'u' :: rest => Text.codePoint? 4 rest
  | 'U' :: rest => Text.codePoint? 8 rest
  | _ => none

/-- Reads an escape after its backslash. -/
def escape : Scan Char := do
  let c ← get
  match escape? c.rest with
  | some (d, rest) =>
      set (c.skip (c.rest.length - rest.length))
      return d
  | none => failure

/-- Reads a scalar after its opening quote, through its closing one. Between single quotes a quote
is written twice; between double quotes there are escapes, and a backslash hides a line end. -/
def quoted (quote : Char) : (fuel : Nat) → Scan (List Char)
  | 0 => failure
  | fuel + 1 => do
      let c ← get
      if c.atMarker then failure
      match c.rest with
      | [] => failure
      | d :: rest =>
          if d = quote then
            if quote = '\'' && rest.head? = some '\'' then
              set (c.skip 2)
              return '\'' :: (← quoted quote fuel)
            else
              set (c.skip 1)
              return []
          else if d = '\\' && quote = '"' then
            set (c.skip 1)
            if rest.head?.any isBreak then
              let _ ← lineEnd
              let w ← white (-1) rest.length { broken := true }
              return w.text ++ (← quoted quote fuel)
            else
              let e ← escape
              return e :: (← quoted quote fuel)
          else if isWhite d then
            let w ← white (-1) c.rest.length {}
            return w.text ++ (← quoted quote fuel)
          else
            set (c.skip 1)
            return d :: (← quoted quote fuel)

/-! ### Scalars on lines of their own -/

/-- What becomes of the line ends after a block scalar. -/
inductive Chomp
  | strip
  | clip
  | keep

/-- Reads indentation and empty lines. An indent of zero stands for any; the widest indentation
comes with the line ends. -/
def blockBreaks (indent : Nat) : (fuel widest : Nat) → List Char → Scan (Nat × List Char)
  | 0, _, _ => failure
  | fuel + 1, widest, breaks => do
      let c ← get
      let spaces := (c.rest.takeWhile (· = ' ')).length
      let c := c.skip (if indent = 0 then spaces else min spaces (indent - c.column))
      set c
      let widest := max widest c.column
      if (indent = 0 || c.column < indent) && c.next? = some '\t' then failure
      if c.next?.any isBreak then
        let text ← lineEnd
        blockBreaks indent fuel widest (breaks ++ text)
      else return (widest, breaks)

/-- Reads the lines of a block scalar. `first` and `breaks` are the line ends before the next line;
those after the last line come with the text. -/
def blockLines (literal : Bool) (indent : Nat) : (fuel : Nat) → (afterGap : Bool) →
    (text first breaks : List Char) → Scan (List Char × List Char × List Char)
  | 0, _, _, _, _ => failure
  | fuel + 1, afterGap, text, first, breaks => do
      let c ← get
      if c.column ≠ indent || c.rest = [] then return (text, first, breaks)
      let gap := c.next?.any isGap
      let joint :=
        if !literal && !afterGap && !gap && first.head? = some '\n' then
          if breaks = [] then [' '] else []
        else first
      let line ← takeWhile fun d => !isBreak d
      let first ← lineEnd
      let (_, breaks') ← blockBreaks indent (c.rest.length + 1) 0 []
      blockLines literal indent fuel gap (text ++ joint ++ breaks ++ line) first breaks'

/-- Reads how a block scalar ends and how far it is indented, in either order. -/
def blockHeader : Scan (Chomp × Nat) := do
  let chompOf : Option Char → Chomp := fun d =>
    if d = some '+' then .keep else if d = some '-' then .strip else .clip
  let isChomp := fun (d : Char) => d = '+' || d = '-'
  let width : Option Char → Scan Nat := fun d => match d with
    | some '0' => failure
    | some d => return d.toNat - '0'.toNat
    | none => return 0
  match ← accept isChomp with
  | some d =>
      let size ← width (← accept Char.isDigit)
      return (chompOf (some d), size)
  | none =>
      let size ← width (← accept Char.isDigit)
      if size = 0 then return (.clip, 0) else return (chompOf (← accept isChomp), size)

/-- Reads a block scalar after its mark, inside a collection that is indented by `outer`. -/
def blockScalar (literal : Bool) (outer : Int) : Scan (List Char) := do
  let (chomp, size) ← blockHeader
  modify (·.skipWhile isGap)
  if (← get).next? = some '#' then modify Cursor.skipComment
  if !atBreak (← get).rest then failure
  modify Cursor.skipLine
  let fuel := (← get).rest.length + 2
  let given := if size = 0 then 0 else outer.toNat + size
  let (widest, breaks) ← blockBreaks given fuel 0 []
  let indent := if given = 0 then max widest (max (outer + 1).toNat 1) else given
  let (text, first, breaks) ← blockLines literal indent fuel false [] [] breaks
  match chomp with
  | .strip => return text
  | .clip => return text ++ first
  | .keep => return text ++ first ++ breaks

/-! ### Anchors and tags -/

/-- Characters of names. -/
def isNameChar (c : Char) : Bool :=
  c.toNat < 0x80 && (c.isAlphanum || c = '_' || c = '-')

/-- Reads the name of an anchor after its mark. -/
def anchorName : Scan String := do
  let name ← takeWhile isNameChar
  let rest := (← get).rest
  if name = [] || !(atGap rest || rest.head?.any fun c => "?:,]\x7d%@`".toList.contains c) then
    failure
  return String.ofList name

/-- Characters of the rest of a tag. -/
def isTagChar (c : Char) : Bool :=
  isNameChar c || ";/?:@&=+$,.!~*'()[]".toList.contains c

/-- What the short forms of tags stand for: one mark for itself, two marks for the standard tags. -/
def standardTag (name : String) : String := "tag:yaml.org,2002:" ++ name

/-- Reads a tag after its mark. The mark alone is the tag that says nothing; with a handle that was
never declared there is no tag. -/
def tagName : Scan (Option String) := do
  let c ← get
  let tag ← match c.rest with
    | '<' :: _ =>
        set (c.skip 1)
        let name ← takeWhile isTagChar
        if name = [] then failure
        expect (· = '>')
        pure (some (String.ofList name))
    | _ =>
        let handle ← takeWhile isNameChar
        if (← accept (· = '!')).isSome then
          let name ← takeWhile isTagChar
          if name = [] then failure
          pure (if handle = [] then some (standardTag (String.ofList name)) else none)
        else
          let name ← takeWhile isTagChar
          pure (some ("!" ++ String.ofList (handle ++ name)))
  if atGap (← get).rest then return tag else failure

end Wandika.Yaml
