import Wandika.Settings.Yaml.Scalar

/-!
# Tokens of YAML

Tokens are fetched as they are asked for, two ahead of the one that is next. A token that may turn
out to be the name of an entry is held back until a colon follows or cannot follow any more.

* `Token`: marks, the starts and ends of block collections, and scalars;
* `Candidate`: a token that may be the name of an entry;
* `Lexer`: the tokens that wait, and all that decides about the next one;
* `peek`, `take`: the next token.
-/

namespace Wandika.Yaml

/-- Tokens. Block collections have a start and an end, which indentation makes. -/
inductive Token
  | streamEnd
  | version (major minor : String)
  | documentStart
  | documentEnd
  | blockSequence
  | blockMapping
  | blockEnd
  | flowSequence
  | flowSequenceEnd
  | flowMapping
  | flowMappingEnd
  | blockEntry
  | flowEntry
  | key
  | value
  | reference (name : String)
  | anchor (name : String)
  | tag (name : Option String)
  | scalar (quoted : Bool) (text : String)
  deriving DecidableEq

/-- A token that may be the name of an entry: its number, where it begins, and whether nothing else
can stand there. -/
structure Candidate where
  possible : Bool := false
  required : Bool := false
  number : Nat := 0
  index : Nat := 0
  line : Nat := 0
  column : Nat := 0

/-- The tokens that wait, and all that decides about the next one: the place in the text, whether a
name may begin here, the candidates of the flow collections around it from the innermost out, the
numbers of the candidates that are held back with their levels, and the indentation of the block
collections around it. `taken` counts the tokens that were taken. -/
structure Lexer where
  cursor : Cursor
  queue : List Token := []
  taken : Nat := 0
  nameAllowed : Bool := true
  candidates : List Candidate := [{}]
  held : List (Nat × Nat) := []
  indent : Int := -1
  outer : List Int := []

namespace Lexer

/-- How many flow collections are open. -/
def flowLevel (l : Lexer) : Nat := l.candidates.length - 1

/-- Whether a flow collection is open. -/
def inFlow (l : Lexer) : Bool := 0 < l.flowLevel

/-- The number of the token that is fetched next. -/
def nextNumber (l : Lexer) : Nat := l.taken + l.queue.length

/-- Puts a token at the end. -/
def push (l : Lexer) (t : Token) : Lexer := { l with queue := l.queue ++ [t] }

/-- Puts a token before the one with a number, or at the end if that one was taken. -/
def insert (l : Lexer) (number : Nat) (t : Token) : Lexer :=
  if number < l.taken then l.push t
  else
    let i := number - l.taken
    { l with queue := l.queue.take i ++ t :: l.queue.drop i }

/-- Passes some characters. -/
def skip (l : Lexer) (count : Nat) : Lexer := { l with cursor := l.cursor.skip count }

/-- Closes the block collections that are indented by more than a column. -/
def dedentFrom (column : Int) : List Int → Lexer → Lexer
  | [], l => l
  | i :: outer, l =>
      if column < l.indent then
        dedentFrom column outer ({ l with indent := i, outer }.push .blockEnd)
      else l

/-- Closes the block collections that are indented by more than a column, outside flow
collections. -/
def dedent (l : Lexer) (column : Int) : Lexer :=
  if l.inFlow then l else dedentFrom column l.outer l

/-- Opens a block collection at a column that is indented by more than those around it. Its start
goes before the token with the number, if there is one. -/
def indentTo (l : Lexer) (column : Int) (number : Option Nat) (t : Token) : Lexer :=
  if !l.inFlow && l.indent < column then
    let l := { l with outer := l.indent :: l.outer, indent := column }
    match number with
    | some n => l.insert n t
    | none => l.push t
  else l

/-- The candidate of the innermost flow collection. -/
def candidate (l : Lexer) : Candidate := l.candidates.headD {}

/-- Replaces the candidate of the innermost flow collection. -/
def setCandidate (l : Lexer) (k : Candidate) : Lexer :=
  { l with candidates := k :: l.candidates.tail }

/-- No longer holds a token back. -/
def release (l : Lexer) (number : Nat) : Lexer :=
  { l with held := l.held.filter (·.1 != number) }

/-- Gives a candidate up. One that is required may not be given up. -/
def dropCandidate (l : Lexer) : Option Lexer :=
  let k := l.candidate
  if !k.possible then some l
  else if k.required then none
  else some ((l.setCandidate { k with possible := false }).release k.number)

/-- Makes the next token a candidate, where a name may begin. -/
def saveCandidate (l : Lexer) : Option Lexer :=
  if !l.nameAllowed then some l
  else
    l.dropCandidate.map fun l =>
      let c := l.cursor
      let required := !l.inFlow && l.indent = (c.column : Int)
      let l := l.setCandidate ⟨true, required, l.nextNumber, c.index, c.line, c.column⟩
      { l with held := (l.nextNumber, l.flowLevel) :: (l.release l.nextNumber).held }

/-- Whether a candidate can still be a name, which has to end on its line and is short. One that is
required and cannot is an error. -/
def check (l : Lexer) (k : Candidate) : Option (Bool × Candidate) :=
  if !k.possible then some (false, k)
  else if k.line < l.cursor.line || k.index + 1024 < l.cursor.index then
    if k.required then none else some (false, { k with possible := false })
  else some (true, k)

end Lexer

/-- Moves a lexer, or refuses the text. -/
abbrev Lex := StateT Lexer Option

namespace Lex

/-- Runs a reader at the lexer's place. -/
def scan {α : Type} (r : Scan α) : Lex α := fun l =>
  (r l.cursor).map fun (a, c) => (a, { l with cursor := c })

/-- Changes the lexer, or refuses the text. -/
def change (f : Lexer → Option Lexer) : Lex Unit := fun l =>
  (f l).map fun l => ((), l)

/-! ### Between tokens -/

/-- Passes white space and comments. A tab may not stand where a name may begin outside flow
collections; after a line end a name may begin. -/
def toNextToken : (fuel : Nat) → Lex Unit
  | 0 => failure
  | fuel + 1 => do
      let l ← get
      let c := l.cursor
      let c := if c.column = 0 && c.next?.any (·.toNat = 0xFEFF) then c.skip 1 else c
      let c := c.skipWhile fun d => d = ' ' || (d = '\t' && (l.inFlow || !l.nameAllowed))
      let c := if c.next? = some '#' then c.skipComments (c.rest.length + 1) else c
      if c.next?.any isBreak then
        set { l with cursor := c.skipLine, nameAllowed := l.nameAllowed || !l.inFlow }
        toNextToken fuel
      else set { l with cursor := c }

/-! ### Marks -/

/-- The end of the text. It can be fetched any number of times. -/
def streamEnd : Lex Unit := do
  modify fun l =>
    let c := l.cursor
    { l with cursor := if c.column = 0 then c else { c with column := 0, line := c.line + 1 } }
  modify (·.dedent (-1))
  change Lexer.dropCandidate
  modify fun l => { l with nameAllowed := false }.push .streamEnd

/-- The marker of a document's start or end. -/
def marker (t : Token) : Lex Unit := do
  modify (·.dedent (-1))
  change Lexer.dropCandidate
  modify fun l => ({ l with nameAllowed := false }.skip 3).push t

/-- A directive that tells the version. Others are refused. -/
def directive : Lex Unit := do
  modify (·.dedent (-1))
  change Lexer.dropCandidate
  let number : Scan String := do
    let digits ← takeWhile Char.isDigit
    if digits = [] || 9 < digits.length then failure
    return String.ofList digits
  let t ← scan do
    modify (·.skip 1)
    let name ← takeWhile isNameChar
    if name ≠ "YAML".toList || !atGap (← get).rest then failure
    modify (·.skipWhile isGap)
    let major ← number
    expect (· = '.')
    let minor ← number
    modify (·.skipWhile isGap)
    if (← get).next? = some '#' then modify Cursor.skipComment
    if !atBreak (← get).rest then failure
    modify Cursor.skipLine
    return Token.version major minor
  modify fun l => { l with nameAllowed := false }.push t

/-- The start of a flow collection. -/
def flowStart (t : Token) : Lex Unit := do
  change Lexer.saveCandidate
  modify fun l =>
    let level : Candidate :=
      ⟨false, false, l.nextNumber, l.cursor.index, l.cursor.line, l.cursor.column⟩
    ({ l with candidates := level :: l.candidates, nameAllowed := true }.skip 1).push t

/-- The end of a flow collection. -/
def flowEnd (t : Token) : Lex Unit := do
  change Lexer.dropCandidate
  modify fun l =>
    let l := if l.inFlow then
        { l.release l.candidate.number with candidates := l.candidates.tail }
      else l
    ({ l with nameAllowed := false }.skip 1).push t

/-- A comma. -/
def flowEntry : Lex Unit := do
  change Lexer.dropCandidate
  modify fun l => ({ l with nameAllowed := true }.skip 1).push .flowEntry

/-- The mark of an item. -/
def blockEntry : Lex Unit := do
  let l ← get
  if !l.inFlow && !l.nameAllowed then failure
  modify (·.indentTo l.cursor.column none .blockSequence)
  change Lexer.dropCandidate
  modify fun l => ({ l with nameAllowed := true }.skip 1).push .blockEntry

/-- The mark of a name. -/
def key : Lex Unit := do
  let l ← get
  if !l.inFlow && !l.nameAllowed then failure
  modify (·.indentTo l.cursor.column none .blockMapping)
  change Lexer.dropCandidate
  modify fun l => ({ l with nameAllowed := !l.inFlow }.skip 1).push .key

/-- The colon after a name. If there is a candidate, it is the name, and its mark goes before it. -/
def value : Lex Unit := do
  let l ← get
  let (ok, k) ← (l.check l.candidate : Option (Bool × Candidate))
  if ok then
    modify fun l =>
      let l := (l.insert k.number .key).indentTo k.column (some k.number) .blockMapping
      let l := (l.setCandidate { k with possible := false }).release k.number
      ({ l with nameAllowed := false }.skip 1).push .value
  else
    if !l.inFlow && !l.nameAllowed then failure
    modify fun l =>
      let l := (l.setCandidate k).indentTo l.cursor.column none .blockMapping
      ({ l with nameAllowed := !l.inFlow }.skip 1).push .value

/-! ### Names and scalars -/

/-- A token that can be the name of an entry or stand before one. -/
def named (r : Scan Token) : Lex Unit := do
  change Lexer.saveCandidate
  modify fun l => { l with nameAllowed := false }
  let t ← scan r
  modify (·.push t)

/-- A scalar in quotes. -/
def quotedScalar (quote : Char) : Lex Unit :=
  named do
    modify (·.skip 1)
    let text ← quoted quote ((← get).rest.length + 1)
    return .scalar true (String.ofList text)

/-- A plain scalar. A name may begin after it if it has passed a line end. -/
def plainScalar : Lex Unit := do
  change Lexer.saveCandidate
  let l ← get
  let (text, broken) ← scan (plain l.inFlow (l.indent + 1) (l.cursor.rest.length + 1) [] {})
  modify fun l => { l with nameAllowed := broken }.push (.scalar false (String.ofList text))

/-- A scalar on lines of its own. -/
def linesScalar (literal : Bool) : Lex Unit := do
  change Lexer.dropCandidate
  let l ← get
  let text ← scan do
    modify (·.skip 1)
    blockScalar literal l.indent
  modify fun l => { l with nameAllowed := true }.push (.scalar true (String.ofList text))

/-! ### Fetching -/

/-- Fetches a token that is no marker, directive or end. -/
def content (d : Char) (rest : List Char) : Lex Unit := do
  let l ← get
  if d = '[' then flowStart .flowSequence
  else if d = '\x7b' then flowStart .flowMapping
  else if d = ']' then flowEnd .flowSequenceEnd
  else if d = '\x7d' then flowEnd .flowMappingEnd
  else if d = ',' then flowEntry
  else if d = '-' && atGap rest then blockEntry
  else if d = '?' && (l.inFlow || atGap rest) then key
  else if d = ':' && (l.inFlow || atGap rest) then value
  else if d = '*' then named do modify (·.skip 1); return .reference (← anchorName)
  else if d = '&' then named do modify (·.skip 1); return .anchor (← anchorName)
  else if d = '!' then named do modify (·.skip 1); return .tag (← tagName)
  else if d = '|' && !l.inFlow then linesScalar true
  else if d = '>' && !l.inFlow then linesScalar false
  else if d = '\'' || d = '"' then quotedScalar d
  else if startsPlain l.inFlow (d :: rest) then plainScalar
  else failure

/-- Fetches the next token, and the comment after it on its line. -/
def fetch : Lex Unit := do
  toNextToken ((← get).cursor.rest.length + 1)
  modify fun l => l.dedent l.cursor.column
  let c := (← get).cursor
  match c.rest with
  | [] => streamEnd
  | d :: rest =>
      if c.column = 0 && d = '%' then directive
      else if c.atMarker then marker (if d = '-' then .documentStart else .documentEnd)
      else
        content d rest
        modify fun l =>
          if l.queue.getLast? = some .blockEntry then l
          else { l with cursor := l.cursor.skipLineComment }

/-- Whether the next token is held back, since it can still be the name of an entry. -/
def isHeld : Lex Bool := do
  let l ← get
  let level? := l.held.lookup l.taken
  match level?, level?.bind (l.candidates.reverse[·]?) with
  | some level, some k =>
      let (ok, k) ← (l.check k : Option (Bool × Candidate))
      set { l with candidates := (l.candidates.reverse.set level k).reverse }
      return ok
  | _, _ => return false

/-- Fetches tokens until two wait behind the next one, and the next one is not held back. -/
def fetchMore : (fuel : Nat) → Lex Unit
  | 0 => failure
  | fuel + 1 => do
      let held ← if (← get).queue.length ≤ 2 then pure true else isHeld
      if held then
        fetch
        fetchMore fuel

/-- The next token. -/
def peek : Lex Token := do
  fetchMore ((← get).cursor.rest.length + 4)
  match (← get).queue.head? with
  | some t => return t
  | none => failure

/-- Takes the next token. -/
def take : Lex Unit :=
  modify fun l => { l with queue := l.queue.tail, taken := l.taken + 1 }

end Lex

end Wandika.Yaml
