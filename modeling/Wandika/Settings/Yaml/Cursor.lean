/-!
# Places in a YAML text

* `isGap`, `isBreak`: blanks and line ends;
* `Cursor`: what is left of a text, and where in the text that is;
* `Cursor.skip`, `Cursor.skipLine`, `Cursor.skipLineComment`: moves over characters, line ends and
  comments;
* `Scan`: readers that move a cursor or refuse the text.
-/

namespace Wandika.Yaml

/-- Characters that may stand in a text. -/
def isAllowed (c : Char) : Bool :=
  c = '\t' || c = '\n' || c = '\r' || (0x20 ≤ c.toNat && c.toNat ≤ 0x7E) || c.toNat = 0x85
    || (0xA0 ≤ c.toNat && c.toNat ≤ 0xFFFD) || 0x10000 ≤ c.toNat

/-- A space or a tab. -/
def isGap (c : Char) : Bool := c = ' ' || c = '\t'

/-- A line end. A carriage return with a line feed after it counts as one. -/
def isBreak (c : Char) : Bool :=
  c = '\n' || c = '\r' || c.toNat = 0x85 || c.toNat = 0x2028 || c.toNat = 0x2029

/-- A blank or a line end. -/
def isWhite (c : Char) : Bool := isGap c || isBreak c

/-- Whether a text is at its end or at white space. -/
def atGap (cs : List Char) : Bool := cs.head?.all isWhite

/-- Whether a text is at its end or at a line end. -/
def atBreak (cs : List Char) : Bool := cs.head?.all isBreak

/-- Whether a text begins with the marker of a document's start, or with that of its end. -/
def isMarker : List Char → Bool
  | '-' :: '-' :: '-' :: rest => atGap rest
  | '.' :: '.' :: '.' :: rest => atGap rest
  | _ => false

/-- A place in a text: what is left, how many characters and lines are passed, the column, and
whether only blanks were passed since the last line end. -/
structure Cursor where
  rest : List Char
  index : Nat := 0
  line : Nat := 0
  column : Nat := 0
  fresh : Bool := false

namespace Cursor

/-- The next character. -/
def next? (c : Cursor) : Option Char := c.rest.head?

/-- Passes some characters of the current line. -/
def skip (c : Cursor) (count : Nat) : Cursor :=
  let passed := c.rest.take count
  { c with
    rest := c.rest.drop count
    index := c.index + passed.length
    column := c.column + passed.length
    fresh := c.fresh && passed.all isGap }

/-- Passes characters of the current line as long as they pass a test. -/
def skipWhile (c : Cursor) (p : Char → Bool) : Cursor :=
  c.skip (c.rest.takeWhile p).length

/-- How many characters the line end at the front of a text has. -/
def breakLength : List Char → Nat
  | '\r' :: '\n' :: _ => 2
  | d :: _ => if isBreak d then 1 else 0
  | [] => 0

/-- Passes a line end. -/
def skipLine (c : Cursor) : Cursor :=
  match breakLength c.rest with
  | 0 => c
  | n =>
      { rest := c.rest.drop n
        index := c.index + n
        line := c.line + 1
        column := 0
        fresh := true }

/-- What a line end stands for in a scalar. -/
def breakText (c : Cursor) : List Char :=
  match c.rest with
  | d :: _ =>
      if d.toNat = 0x2028 || d.toNat = 0x2029 then [d] else if isBreak d then ['\n'] else []
  | [] => []

/-- Whether a marker stands here, at the start of a line. -/
def atMarker (c : Cursor) : Bool := c.column = 0 && isMarker c.rest

/-- Passes the rest of the current line. -/
def skipComment (c : Cursor) : Cursor := c.skipWhile fun d => !isBreak d

/-- Passes white space up to a comment, in at most `fuel` moves. -/
def skipToComment : (fuel : Nat) → Cursor → Cursor
  | 0, c => c
  | fuel + 1, c =>
      match c.rest with
      | '#' :: _ => c
      | d :: _ => skipToComment fuel (if isBreak d then c.skipLine else c.skip 1)
      | [] => c

/-- Passes a comment and the comments after it, if only white space stands between them. -/
def skipComments : (fuel : Nat) → Cursor → Cursor
  | 0, c => c
  | fuel + 1, c =>
      let c := c.skipComment
      if (c.rest.dropWhile isWhite).head? = some '#' then
        skipComments fuel (c.skipToComment c.rest.length)
      else c

/-- Passes a comment on the current line. -/
def skipLineComment (c : Cursor) : Cursor :=
  if !c.fresh && (c.rest.dropWhile isGap).head? = some '#' then (c.skipWhile isGap).skipComment
  else c

end Cursor

/-- Moves a cursor, or refuses the text. -/
abbrev Scan := StateT Cursor Option

/-- Reads a line end. -/
def lineEnd : Scan (List Char) := do
  let c ← get
  set c.skipLine
  return c.breakText

/-- Passes one character, which has to pass a test. -/
def expect (p : Char → Bool) : Scan Unit := do
  let c ← get
  if c.next?.any p then set (c.skip 1) else failure

/-- Passes one character if it passes a test. -/
def accept (p : Char → Bool) : Scan (Option Char) := do
  let c ← get
  match c.next? with
  | some d => 
      if p d then
        set (c.skip 1)
        return some d
      else return none
  | none => return none

/-- Reads characters of the current line as long as they pass a test. -/
def takeWhile (p : Char → Bool) : Scan (List Char) := do
  let c ← get
  set (c.skipWhile p)
  return c.rest.takeWhile p

end Wandika.Yaml
