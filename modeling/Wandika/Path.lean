/-!
# Paths

Paths are texts with slashes between names. These functions only look at the text.

* `Path.clean`: the shortest path to the same place;
* `Path.join`: a path below a directory;
* `Path.base`, `Path.extension`: the last name, and its part from the last dot on.
-/

namespace Wandika.Path

/-- The names of a path, with empty ones where slashes meet. -/
def segments (p : String) : List String :=
  (p.toList.splitOn '/').map String.ofList

/-- Whether a path begins at the root. -/
def isRooted (p : String) : Bool :=
  p.toList.head? = some '/'

/-- Adds a name to the names already passed, the latest first. `..` takes back the latest name; at
the root it stays there, and at the start of an open path it is kept. -/
def walk (rooted : Bool) (passed : List String) (name : String) : List String :=
  if name = "" ∨ name = "." then passed
  else if name = ".." then
    match passed with
    | [] => if rooted then [] else [".."]
    | latest :: rest => if latest = ".." then ".." :: passed else rest
  else name :: passed

/-- The shortest path to the same place. -/
def clean (p : String) : String :=
  let rooted := isRooted p
  let body := String.intercalate "/" ((segments p).foldl (walk rooted) []).reverse
  if rooted then "/" ++ body else if body = "" then "." else body

/-- A path below a directory; an empty directory is the current one. -/
def join (dir name : String) : String :=
  if dir = "" then clean name else clean (dir ++ "/" ++ name)

/-- The last name of a path. -/
def base (p : String) : String :=
  if p = "" then "."
  else
    match (segments p).filter (· != "") with
    | [] => "/"
    | names => names.getLastD ""

/-- The part of the last name from its last dot on. -/
def extension (p : String) : String :=
  let name := (p.toList.reverse.takeWhile (· != '/'))
  if name.contains '.' then String.ofList ('.' :: (name.takeWhile (· != '.')).reverse) else ""

end Wandika.Path
