namespace CodeMarkup

/-!
# Paths

Paths are texts with slashes between their parts.  Repeated slashes and single dots count for
nothing, except a dot at the very front.

* `folderOf`: the folder that a path lies in.
* `pathIn`: the path of a name in a folder.
-/

/-- A path, read backwards, without the slashes and single dots at its end. -/
def trimBackwards : List Char → List Char
  | '.' :: '/' :: rest => trimBackwards ('/' :: rest)
  | '/' :: c :: rest => trimBackwards (c :: rest)
  | path => path

/-- The path without its last part; none if it is empty or the root. -/
def parent? (path : List Char) : Option (List Char) :=
  match trimBackwards path.reverse with
  | [] => none
  | ['/'] => none
  | backwards => some (trimBackwards (backwards.dropWhile (· != '/'))).reverse

/-- The folder that a path lies in; the current one is a dot. -/
def folderOf (path : String) : String :=
  match parent? path.toList with
  | some (c :: rest) => String.ofList (c :: rest)
  | _ => "."

/-- The path of a name in a folder. -/
def pathIn (folder name : String) : String :=
  if folder.toList.getLast? == some '/' then folder ++ name else folder ++ "/" ++ name

end CodeMarkup
