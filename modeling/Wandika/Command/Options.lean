import Wandika.Text.Quoted

/-!
# Command-line options

Options begin with one or two hyphens, and a value may follow after `=`. Options end at the first
argument that is none, and after `--`.

* `Options`: the options and the remaining arguments;
* `OptionError`: what is wrong with an argument;
* `Options.read`: reads the arguments of a command.
-/

namespace Wandika

/-- The options of the command, and the arguments after them. -/
structure Options where
  config : String := ""
  printTree : Bool := false
  debug : Bool := false
  noWarn : Bool := false
  rest : List String := []
  deriving DecidableEq

/-- Why reading options stopped. -/
inductive OptionError
  | help
  | malformed (arg : String)
  | unknown (name : String)
  | needsValue (name : String)
  | notBool (name value : String)
  deriving DecidableEq

/-- The wording of an error; asking for help is none. -/
def OptionError.message? : OptionError → Option String
  | .help => none
  | .malformed arg => some ("bad flag syntax: " ++ arg)
  | .unknown name => some ("flag provided but not defined: -" ++ name)
  | .needsValue name => some ("flag needs an argument: -" ++ name)
  | .notBool name value =>
      some ("invalid boolean value " ++ Text.quote value ++ " for -" ++ name ++ ": parse error")

/-- The description of the command. -/
def usage : String :=
  "Usage: vowel [flags] [script]\n" ++
  "  -ast\n    \tprint the syntax tree instead of running the script\n" ++
  "  -config file\n    \tload settings from a TOML or YAML file\n" ++
  "  -debug\n    \tlog every pass of the interpreter\n" ++
  "  -no-warn\n    \tdo not print warnings\n"

namespace Options

/-- How truth values are spelt. -/
def bool? (s : String) : Option Bool :=
  if ["1", "t", "T", "TRUE", "true", "True"].contains s then some true
  else if ["0", "f", "F", "FALSE", "false", "False"].contains s then some false
  else none

/-- Sets an option that is on or off. -/
def setBool? (o : Options) (name : String) : Option (Bool → Options) :=
  match name with
  | "ast" => some fun b => { o with printTree := b }
  | "debug" => some fun b => { o with debug := b }
  | "no-warn" => some fun b => { o with noWarn := b }
  | _ => none

/-- The name of an option and its value, if one follows after `=`. -/
def nameAndValue (body : List Char) : String × Option String :=
  match body with
  | [] => ("", none)
  | c :: rest =>
      let name := String.ofList (c :: rest.takeWhile (· != '='))
      match rest.dropWhile (· != '=') with
      | [] => (name, none)
      | _ :: value => (name, some (String.ofList value))

/-- The text of an option after its hyphens, or none for an argument that is no option. -/
def body? (arg : List Char) : Option (List Char) :=
  match arg with
  | ['-'] => none
  | '-' :: '-' :: rest => some rest
  | '-' :: rest => some rest
  | _ => none

/-- Reads arguments on top of the options read so far. -/
def readFrom (o : Options) : List String → Except OptionError Options
  | [] => .ok o
  | arg :: args =>
      if arg = "--" then .ok { o with rest := args }
      else
        match body? arg.toList with
        | none => .ok { o with rest := arg :: args }
        | some body =>
            if body.head? = none ∨ body.head? = some '-' ∨ body.head? = some '=' then
              .error (.malformed arg)
            else
              let (name, value?) := nameAndValue body
              match o.setBool? name, value? with
              | some set, none => readFrom (set true) args
              | some set, some value =>
                  match bool? value with
                  | some b => readFrom (set b) args
                  | none => .error (.notBool name value)
              | none, value? =>
                  if name = "config" then
                    match value?, args with
                    | some value, args => readFrom { o with config := value } args
                    | none, value :: args => readFrom { o with config := value } args
                    | none, [] => .error (.needsValue name)
                  else if name = "help" ∨ name = "h" then .error .help
                  else .error (.unknown name)

/-- Reads the arguments of a command. -/
def read (args : List String) : Except OptionError Options :=
  readFrom {} args

end Options

end Wandika
