import StackMachine.Text.Split

/-!
# Directory trees

Files and directories below one directory, with the errors of looking them up.  A path
is a row of names between slashes; a dot stands for the directory it is in and two dots
for the one above it.  A path that ends in a slash names a directory.

Main definitions:

- `FileTree`, `FileTree.locate`;
- `FileTree.read`, `FileTree.write`, `FileTree.remove`.
-/

namespace StackMachine

/-- Why a path cannot be used. -/
inductive PathError where
  | notFound
  | notADirectory
  | isADirectory
  | nameTooLong
  /-- A path with a zero character, which no system call takes. -/
  | zeroByte
deriving DecidableEq

/-- The text of a path error. -/
def PathError.message : PathError → String
  | notFound => "No such file or directory (os error 2)"
  | notADirectory => "Not a directory (os error 20)"
  | isADirectory => "Is a directory (os error 21)"
  | nameTooLong => "File name too long (os error 36)"
  | zeroByte => "file name contained an unexpected NUL byte"

/-- The names from the top of a tree to a file or a directory in it. -/
abbrev Place := List String

/-- Directories and files.  The top is a directory without being listed. -/
structure FileTree where
  directories : List Place
  files : List (Place × List UInt8)

namespace FileTree

/-- A tree with nothing in it. -/
def empty : FileTree := ⟨[], []⟩

/-- Whether a place is a directory. -/
def isDirectory (t : FileTree) (place : Place) : Bool :=
  place.isEmpty || t.directories.contains place

/-- The contents of the file at a place. -/
def contents? (t : FileTree) (place : Place) : Option (List UInt8) := t.files.lookup place

/-- The greatest number of bytes of a name. -/
def maxNameSize : Nat := 255

/-- The number of bytes from which on a path is too long. -/
def maxPathSize : Nat := 4096

/-- The place one name leads to from a directory. -/
def follow (place : Place) (name : String) : Except PathError Place :=
  if name = "." then .ok place
  else if name = ".." then .ok place.dropLast
  else if maxNameSize < name.utf8ByteSize then .error .nameTooLong
  else .ok (place ++ [name])

/-- The directory a row of names leads to from a directory. -/
def enter (t : FileTree) (place : Place) : List String → Except PathError Place
  | [] => .ok place
  | name :: names => do
    let next ← follow place name
    if t.isDirectory next then t.enter next names
    else throw (if (t.contents? next).isSome then .notADirectory else .notFound)

/-- The directory a path leads to before its last name, and that name. -/
def approach (t : FileTree) (path : String) : Except PathError (Place × String) :=
  if path = "" then .error .notFound
  else if path.toList.contains '\x00' then .error .zeroByte
  else if maxPathSize ≤ path.utf8ByteSize then .error .nameTooLong
  else
    let pieces := (Text.cut (· == '/') path.toList).filter fun piece => !piece.isEmpty
    let names := pieces.map String.ofList
    match names.getLast? with
    | none => .ok ([], ".")
    | some last => do return (← t.enter [] names.dropLast, last)

/-- The place a path names, which need not exist; the directory it is in does. -/
def locate (t : FileTree) (path : String) : Except PathError Place := do
  let (place, last) ← t.approach path
  follow place last

/-- Whether a path can only name a directory. -/
def namesDirectory (path : String) : Bool := path.toList.getLast? == some '/'

/-- The contents of a file. -/
def read (t : FileTree) (path : String) : Except PathError (List UInt8) := do
  let place ← t.locate path
  if t.isDirectory place then throw .isADirectory
  else
    match t.contents? place with
    | none => throw .notFound
    | some bytes => if namesDirectory path then throw .notADirectory else return bytes

/-- The place a file can be written to.  Nothing is looked up for a path that can only
name a directory. -/
def writable (t : FileTree) (path : String) : Except PathError Place := do
  let (place, last) ← t.approach path
  if namesDirectory path then throw .isADirectory
  else
    let place ← follow place last
    if t.isDirectory place then throw .isADirectory else return place

/-- Replaces or adds the file at a place. -/
def put (t : FileTree) (place : Place) (bytes : List UInt8) : FileTree :=
  { t with files := (place, bytes) :: t.files.filter (·.1 != place) }

/-- Writes a file. -/
def write (t : FileTree) (path : String) (bytes : List UInt8) : Except PathError FileTree := do
  let place ← t.writable path
  return t.put place bytes

/-- Removes a file. -/
def remove (t : FileTree) (path : String) : Except PathError FileTree := do
  let place ← t.locate path
  if t.isDirectory place then throw .isADirectory
  else if (t.contents? place).isNone then throw .notFound
  else if namesDirectory path then throw .notADirectory
  else return { t with files := t.files.filter (·.1 != place) }

/-- Adds a directory and those above it. -/
def addDirectory (t : FileTree) (place : Place) : FileTree :=
  let above := (List.range place.length).map fun n => place.take (n + 1)
  { t with directories := above ++ t.directories }

end FileTree

end StackMachine
