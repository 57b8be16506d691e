import HtmlMinify.Command

/-! # Directories in memory

A directory that holds files by their place below it, and the command run in it. A directory below
it exists if a file stands in it.
-/

namespace HtmlMinify

/-- The names on the way to a file. -/
abbrev Place := List String

/-- Files by place. -/
structure Directory where
  files : List (Place × ByteArray) := []

namespace Directory

/-- Whether files stand below this place. -/
def isDirectory (dir : Directory) (place : Place) : Bool :=
  place.isEmpty || dir.files.any fun (other, _) => place.isPrefixOf other && place != other

/-- The longest name of a file or directory, in bytes. -/
def maxNameSize : Nat := 255

/-- The longest path, in bytes. -/
def maxPathSize : Nat := 4095

/-- Whether a file can have this name: the empty name, `.` and `..` stand for directories. -/
def isFileName (name : String) : Bool :=
  name != "" && name != "." && name != ".." && name.utf8ByteSize ≤ maxNameSize

/-- The place of the file to which names lead from a place. Each name before the last has to lead to
a directory, also where `..` leads back out of it, and nothing leads out of the whole. -/
def walk? (dir : Directory) : Place → List String → Option Place
  | _, [] => none
  | place, [name] => if isFileName name then some (place ++ [name]) else none
  | place, name :: names =>
    if name == "" || name == "." then dir.walk? place names
    else if name == ".." then
      if place.isEmpty then none else dir.walk? place.dropLast names
    else if dir.isDirectory (place ++ [name]) then dir.walk? (place ++ [name]) names
    else none

/-- The place of the file that a path names, whether or not it exists; nothing if the path leads to
no file of the directory. -/
def place? (dir : Directory) (path : String) : Option Place :=
  if path.startsWith "/" || maxPathSize < path.utf8ByteSize then none
  else dir.walk? [] ((Text.pieces '/' path.toList).map String.ofList)

/-- The content of a file. -/
def content? (dir : Directory) (path : String) : Option ByteArray :=
  (dir.place? path).bind fun place => dir.files.lookup place

/-- The directory with a file at a path; nothing if no file can stand there. -/
def put? (dir : Directory) (path : String) (content : ByteArray) : Option Directory := do
  let place ← dir.place? path
  if dir.isDirectory place then none
  else some ⟨(place, content) :: dir.files.filter fun (other, _) => other != place⟩

/-- A directory with files at the given paths. -/
def ofFiles (files : List (String × ByteArray)) : Directory :=
  ⟨files.map fun (path, content) =>
    (((Text.pieces '/' path.toList).map String.ofList).filter isFileName, content)⟩

/-- The directory as a file system, with the given standard input. -/
def fileSystem (input : ByteArray) : Command.FileSystem (StateM Directory) where
  contentOf path := return (← get).content? path
  input := return some input
  save path text := do
    match (← get).put? path text.toUTF8 with
    | some dir => do
      set dir
      return true
    | none => return false

end Directory

/-- Runs the command in a directory: how it ends, and the directory then. -/
def Command.runIn (dir : Directory) (input : ByteArray) (arguments : List String) :
    Command.Outcome × Directory :=
  (Command.run (Directory.fileSystem input) arguments).run dir

end HtmlMinify
