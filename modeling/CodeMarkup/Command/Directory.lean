import CodeMarkup.Text.Bytes

namespace CodeMarkup

/-!
# Files

* `Lookup`: what reading a file gives.
* `Directory`: files held in memory, below one folder that every path starts from.
* `Directory.read`: what reading a path gives.  Each step of a path starts from a folder, single
  dots and empty parts stay there, and two dots go back.  A path that cannot be that of any file,
  because it or one of its names is too long or because it holds a NUL, is unreadable rather than
  missing.
-/

/-- What reading a file gives. -/
inductive Lookup where
  /-- There is no such file. -/
  | missing
  /-- There is something, but no text that can be read. -/
  | unreadable
  /-- Its contents. -/
  | text (contents : String)
  deriving DecidableEq

/-- Files below one folder. -/
structure Directory where
  /-- The parts of each path and the contents.  Of two paths to one place the later one counts. -/
  files : List (List String × String)

namespace Directory

/-! ### Paths -/

/-- The parts of a path between its slashes. -/
def partsOf : List Char → List (List Char)
  | [] => [[]]
  | '/' :: rest => [] :: partsOf rest
  | c :: rest =>
    match partsOf rest with
    | part :: parts => (c :: part) :: parts
    | [] => [[c]]

/-- The parts of a path as texts. -/
def split (path : String) : List String :=
  (partsOf path.toList).map String.ofList

/-- Whether a part of a path leaves the place as it is. -/
def stays (part : String) : Bool :=
  part == "" || part == "."

/-- Whether a part of a path goes back to the folder around. -/
def goesBack (part : String) : Bool :=
  part == ".."

/-- The most bytes that a name has. -/
def nameLimit : Nat :=
  255

/-- Every path has fewer bytes than this. -/
def pathLimit : Nat :=
  4096

/-- Whether a name is too long for any file or folder. -/
def isOverlong (name : String) : Bool :=
  nameLimit < byteLength name.toList

/-- Whether a path cannot even be asked for. -/
def isImproper (path : String) : Bool :=
  path.toList.contains '\x00' || pathLimit ≤ byteLength path.toList

/-- The place where one more part of a path leads. -/
def step (here : List String) (part : String) : List String :=
  if stays part then here
  else if goesBack part then here.dropLast
  else here ++ [part]

/-- The place where a path leads, by the names of the folders down to it. -/
def placeOf (parts : List String) : List String :=
  parts.foldl step []

/-- The places that a path leaves behind on its way from a place. -/
def placesPassed (here : List String) : List String → List (List String)
  | [] => []
  | part :: parts => here :: placesPassed (step here part) parts

/-! ### Contents -/

/-- Files by their paths. -/
def ofFiles (files : List (String × String)) : Directory :=
  ⟨files.map fun file => (split file.1, file.2)⟩

/-- The contents of the file at a place. -/
def contents? (directory : Directory) (place : List String) : Option String :=
  (directory.files.reverse.find? (placeOf ·.1 == place)).map (·.2)

/-- Whether a place is a folder: the start, or one that the path of a file goes through. -/
def isFolder (directory : Directory) (place : List String) : Bool :=
  place.isEmpty
    || directory.files.any fun file => (placesPassed [] file.1).contains place

/-! ### Reading -/

/-- What stands at the end of a path from outside the start.  Nothing but folders is known
    there. -/
def followOutside : List String → Lookup
  | [] => .unreadable
  | part :: parts =>
    if stays part || goesBack part then followOutside parts
    else if isOverlong part then .unreadable
    else .missing

/-- What stands at the end of a path from a place.  Each step has to start from a folder. -/
def follow (directory : Directory) (here : List String) : List String → Lookup
  | [] =>
    match directory.contents? here with
    | some contents => .text contents
    | none => if directory.isFolder here then .unreadable else .missing
  | part :: parts =>
    if (directory.contents? here).isSome then .unreadable
    else if !directory.isFolder here then .missing
    else if goesBack part && here.isEmpty then followOutside parts
    else if isOverlong part then .unreadable
    else directory.follow (step here part) parts

/-- What reading a path gives. -/
def read (directory : Directory) (path : String) : Lookup :=
  if isImproper path then .unreadable
  else
    match split path with
    | [""] => .missing
    | "" :: parts => followOutside parts
    | parts => directory.follow [] parts

end Directory

end CodeMarkup
