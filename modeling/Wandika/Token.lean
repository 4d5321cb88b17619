import Wandika.Decimal.Layout

/-!
# Tokens

* `Position`: line and column, both counted from one, in code points;
* `Kind`: what sort of token it is, with its name and the table of reserved words;
* `Literal`: the number or text that a token stands for;
* `Token`: kind, lexeme, literal and position.
-/

namespace Wandika

/-- A place in a source text. The first character stands at line 1, column 1. -/
structure Position where
  line : Int := 1
  column : Int := 1
  deriving DecidableEq, Inhabited

/-- The place after one more character. -/
def Position.next (p : Position) (c : Char) : Position :=
  if c = '\n' then ⟨p.line + 1, 1⟩ else ⟨p.line, p.column + 1⟩

/-- The place after a text that begins at `p`. -/
def Position.after (p : Position) (cs : List Char) : Position :=
  cs.foldl Position.next p

@[simp] theorem Position.after_nil (p : Position) : p.after [] = p := rfl

@[simp] theorem Position.after_cons (p : Position) (c : Char) (cs : List Char) :
    p.after (c :: cs) = (p.next c).after cs := rfl

@[simp] theorem Position.after_append (p : Position) (cs ds : List Char) :
    p.after (cs ++ ds) = (p.after cs).after ds := by
  simp [Position.after]

/-- How a place is named in a message. -/
def Position.render (p : Position) : String :=
  "[Line " ++ toString p.line ++ ", Column " ++ toString p.column ++ "]"

/-- The sorts of tokens. Source text only gives the named ones; a tree that was put together by
hand may carry any `other` name. -/
inductive Kind
  | leftParen | rightParen | leftBrace | rightBrace | leftSquare | rightSquare
  | comma | dot | minus | plus | semicolon | slash | star | percent | caret
  | question | colon | underscore | dollar | ampersand
  | bang | bangEqual | equal | equalEqual | greater | greaterEqual | less | lessEqual
  | identifier | string | number
  | andWord | classWord | elseWord | falseWord | forWord | funcWord | ifWord | nilWord | orWord
  | printWord | returnWord | superWord | thisWord | trueWord | varWord | whileWord
  | eof
  | other (name : String)
  deriving DecidableEq, Inhabited

namespace Kind

/-- The kinds with a name of their own. -/
def named : List (Kind × String) :=
  [(.leftParen, "("), (.rightParen, ")"), (.leftBrace, "\x7b"), (.rightBrace, "\x7d"),
   (.leftSquare, "["), (.rightSquare, "]"), (.comma, ","), (.dot, "."), (.minus, "-"),
   (.plus, "+"), (.semicolon, ";"), (.slash, "/"), (.star, "*"), (.percent, "%"),
   (.caret, "^"), (.question, "?"), (.colon, ":"), (.underscore, "_"), (.dollar, "$"),
   (.ampersand, "&"), (.bang, "!"), (.bangEqual, "!="), (.equal, "="), (.equalEqual, "=="),
   (.greater, ">"), (.greaterEqual, ">="), (.less, "<"), (.lessEqual, "<="),
   (.identifier, "IDENTIFIER"), (.string, "STRING"), (.number, "NUMBER"),
   (.andWord, "AND"), (.classWord, "CLASS"), (.elseWord, "ELSE"), (.falseWord, "FALSE"),
   (.forWord, "FOR"), (.funcWord, "FUNC"), (.ifWord, "IF"), (.nilWord, "NIL"), (.orWord, "OR"),
   (.printWord, "PRINT"), (.returnWord, "RETURN"), (.superWord, "SUPER"), (.thisWord, "THIS"),
   (.trueWord, "TRUE"), (.varWord, "VAR"), (.whileWord, "WHILE"), (.eof, "EOF")]

/-- The name of a kind: punctuation is named by its own text. -/
def name : Kind → String
  | .other n => n
  | k => ((named.find? (·.1 == k)).map (·.2)).getD ""

/-- The kind with a given name. -/
def ofName (n : String) : Kind :=
  ((named.find? (·.2 == n)).map (·.1)).getD (.other n)

/-- The reserved words. -/
def reserved : List (String × Kind) :=
  [("ne", .andWord), ("class", .classWord), ("else", .elseWord), ("false", .falseWord),
   ("for", .forWord), ("func", .funcWord), ("if", .ifWord), ("nil", .nilWord), ("oba", .orWord),
   ("wandika", .printWord), ("return", .returnWord), ("super", .superWord), ("nze", .thisWord),
   ("true", .trueWord), ("var", .varWord), ("albeit", .whileWord)]

/-- The kind of a word: reserved, or else an identifier. -/
def ofWord (word : String) : Kind :=
  (reserved.lookup word).getD .identifier

/-- The kind of a mark that is a token by itself, whatever follows it. -/
def ofMark? : Char → Option Kind
  | '(' => some .leftParen
  | ')' => some .rightParen
  | '\x7b' => some .leftBrace
  | '\x7d' => some .rightBrace
  | '[' => some .leftSquare
  | ']' => some .rightSquare
  | ',' => some .comma
  | '.' => some .dot
  | '-' => some .minus
  | '+' => some .plus
  | ';' => some .semicolon
  | '*' => some .star
  | '%' => some .percent
  | '^' => some .caret
  | '?' => some .question
  | ':' => some .colon
  | '_' => some .underscore
  | '$' => some .dollar
  | '&' => some .ampersand
  | _ => none

/-- The kinds of a mark that may be joined with `=`: alone and joined. -/
def ofRelation? : Char → Option (Kind × Kind)
  | '!' => some (.bang, .bangEqual)
  | '=' => some (.equal, .equalEqual)
  | '<' => some (.less, .lessEqual)
  | '>' => some (.greater, .greaterEqual)
  | _ => none

end Kind

/-- The number or the text that a token stands for. -/
inductive Literal
  | number (value : Float)
  | text (value : String)
  deriving BEq

/-- The text of a literal; a missing one is written `<nil>`. -/
def Literal.render : Option Literal → String
  | none => "<nil>"
  | some (.number x) => Decimal.compact.render x
  | some (.text s) => s

/-- A piece of source text that the grammar speaks about. -/
structure Token where
  kind : Kind
  lexeme : String
  literal : Option Literal := none
  pos : Position := {}
  deriving BEq, Inhabited

/-- Kind, lexeme and literal of a token. -/
def Token.render (t : Token) : String :=
  t.kind.name ++ " " ++ t.lexeme ++ " " ++ Literal.render t.literal

/-- The mark at the end of every token list. -/
def Token.endMark (p : Position) : Token :=
  ⟨.eof, "", none, p⟩

end Wandika
