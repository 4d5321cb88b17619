import Wandika.Decimal.Reading
import Wandika.Text.Letter
import Wandika.Token

/-!
# From source text to tokens

A source text is cut into pieces from left to right, and every piece is as long as it can be: a
token, a blank, a comment up to the end of its line, a character that begins nothing, or a string
without its closing quote.

* `Piece`, `Piece.text`: the pieces and the text they cover;
* `munch`: the longest piece at the front of a text;
* `pieces`: all pieces of a text; `located` adds where each begins;
* `scan`: the tokens, ended by one end mark, and the errors.
-/

namespace Wandika

open Wandika.Text (isLetter isDigit isAlphanumeric)

/-- What is wrong with a piece that is no token. -/
inductive ScanCause
  | unexpected (c : Char)
  | unterminated
  deriving DecidableEq

/-- The wording of a cause. -/
def ScanCause.message : ScanCause → String
  | .unexpected c => "Unexpected character '" ++ String.singleton c ++ "'."
  | .unterminated => "Unterminated string."

/-- A cause and the place of the piece. -/
structure ScanError where
  pos : Position
  cause : ScanCause
  deriving DecidableEq

/-- A piece of source text. -/
inductive Piece
  | token (kind : Kind) (literal : Option Literal) (text : List Char)
  | blank (c : Char)
  | comment (text : List Char)
  | unexpected (c : Char)
  | unterminated (text : List Char)

/-- The text that a piece covers. -/
def Piece.text : Piece → List Char
  | .token _ _ text => text
  | .blank c => [c]
  | .comment text => text
  | .unexpected c => [c]
  | .unterminated text => text

/-- A space, carriage return, tab or line feed. -/
def isSeparator (c : Char) : Bool :=
  c = ' ' || c = '\r' || c = '\t' || c = '\n'

/-! ### The longest piece -/

/-- A number: digits, and a point with digits after it. -/
def munchNumber (cs : List Char) : Piece × List Char :=
  let whole := cs.takeWhile isDigit
  let rest := cs.dropWhile isDigit
  match rest with
  | '.' :: d :: more =>
      if isDigit d then
        let fraction := (d :: more).takeWhile isDigit
        (.token .number (some (.number (Decimal.readLiteral whole fraction)))
          (whole ++ '.' :: fraction), (d :: more).dropWhile isDigit)
      else (.token .number (some (.number (Decimal.readLiteral whole []))) whole, rest)
  | _ => (.token .number (some (.number (Decimal.readLiteral whole []))) whole, rest)

/-- A word: letters and digits. -/
def munchWord (cs : List Char) : Piece × List Char :=
  let word := cs.takeWhile isAlphanumeric
  (.token (Kind.ofWord (String.ofList word)) none word, cs.dropWhile isAlphanumeric)

/-- A string, given the text after its opening quote. It may span lines and has no escapes. -/
def munchString (cs : List Char) : Piece × List Char :=
  let body := cs.takeWhile (· != '"')
  match cs.dropWhile (· != '"') with
  | [] => (.unterminated ('"' :: body), [])
  | quote :: rest =>
      (.token .string (some (.text (String.ofList body))) ('"' :: (body ++ [quote])), rest)

/-- A comment, given the text after its two slashes. -/
def munchComment (cs : List Char) : Piece × List Char :=
  (.comment ('/' :: '/' :: cs.takeWhile (· != '\n')), cs.dropWhile (· != '\n'))

/-- The longest piece at the front of the text `c :: cs`, and the text after it. -/
def munch (c : Char) (cs : List Char) : Piece × List Char :=
  if isSeparator c then (.blank c, cs)
  else if c = '"' then munchString cs
  else if c = '/' then
    match cs with
    | '/' :: rest => munchComment rest
    | _ => (.token .slash none [c], cs)
  else if let some kind := Kind.ofMark? c then (.token kind none [c], cs)
  else if let some (alone, joined) := Kind.ofRelation? c then
    match cs with
    | '=' :: rest => (.token joined none [c, '='], rest)
    | _ => (.token alone none [c], cs)
  else if isDigit c then munchNumber (c :: cs)
  else if isLetter c then munchWord (c :: cs)
  else (.unexpected c, cs)

/-- Cuts off at most `count` pieces. -/
def piecesUpTo : (count : Nat) → List Char → List Piece
  | 0, _ => []
  | _ + 1, [] => []
  | count + 1, c :: cs =>
      let (piece, rest) := munch c cs
      piece :: piecesUpTo count rest

/-- All pieces of a text. No piece is empty, so there are at most as many as characters. -/
def pieces (source : List Char) : List Piece :=
  piecesUpTo source.length source

/-! ### Places, tokens and errors -/

/-- The pieces with the places where they begin, the first one at `p`. -/
def located (p : Position) : List Piece → List (Position × Piece)
  | [] => []
  | piece :: rest => (p, piece) :: located (p.after piece.text) rest

/-- The token of a piece, if it is one. -/
def Piece.token? (p : Position) : Piece → Option Token
  | .token kind literal text => some ⟨kind, String.ofList text, literal, p⟩
  | _ => none

/-- What is wrong with a piece, if anything. -/
def Piece.error? (p : Position) : Piece → Option ScanError
  | .unexpected c => some ⟨p, .unexpected c⟩
  | .unterminated _ => some ⟨p, .unterminated⟩
  | _ => none

/-- The outcome of scanning: tokens and errors, each in source order. -/
structure Scan where
  tokens : List Token
  errors : List ScanError

/-- Scans a source text. Errors do not stop the scan. -/
def scan (source : List Char) : Scan :=
  let ps := located {} (pieces source)
  { tokens := ps.filterMap (fun (p, piece) => piece.token? p)
      ++ [Token.endMark (Position.after {} source)]
    errors := ps.filterMap fun (p, piece) => piece.error? p }

end Wandika
