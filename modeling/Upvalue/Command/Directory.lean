import Upvalue.Command.Place

/-!
This module contains directories in memory. A directory is a list of files with their paths, the
directories inside are those that the paths of its files mention.
-/

namespace Upvalue.Command

/-- A text file with its path. -/
structure TextFile where
  path : Path
  text : String
deriving DecidableEq, Repr

/-- A directory in memory, with what was written to the outputs of the system. -/
structure Directory where
  files : List TextFile
  output : String
  errors : String
deriving DecidableEq, Repr, Inhabited

namespace Directory

def hasDirectory (dir : Directory) (path : Path) : Bool :=
  path.isEmpty ||
    dir.files.any fun file => path.isPrefixOf file.path && path.length < file.path.length

def text? (dir : Directory) (path : Path) : Option String :=
  (dir.files.find? (·.path == path)).map TextFile.text

/-- What is at a place. Around the directory, nothing but directories is known. -/
def node (dir : Directory) : Place → Node
  | .inside path =>
    if dir.hasDirectory path then .directory else (dir.text? path).elim .missing .file
  | .around path => if path.isEmpty then .directory else .missing
  | .system path => systemNode path

/-- Make sure that names can be looked up at a place. -/
def enter (dir : Directory) (place : Place) : Except FileError Unit :=
  match dir.node place with
  | .directory => .ok ()
  | .missing => .error .notFound
  | _ => .error .notDirectory

def step (dir : Directory) (place : Place) (name : String) : Except FileError Place := do
  dir.enter place
  if name = "." then return place
  else if name = ".." then return place.parent
  else if nameLimit < name.utf8ByteSize then throw .nameTooLong
  else return place.child name

/-- Follow names from a place on. All but the last one have to lead to directories. -/
def follow (dir : Directory) (place : Place) : Path → Except FileError Place
  | [] => .ok place
  | name :: names => do follow dir (← dir.step place name) names

/-- Make sure that a path is neither empty nor too long. -/
def checkPath (path : String) : Except FileError Unit := do
  if path.isEmpty then throw .notFound
  if pathLimit < path.utf8ByteSize then throw .nameTooLong

/-- What a path leads to. With a slash at its end that is not a file. -/
def find (dir : Directory) (path : String) : Except FileError Node := do
  checkPath path
  match dir.node (← dir.follow (.start path) (pathNames path)) with
  | .missing => return .missing
  | .directory => return .directory
  | node => if path.endsWith "/" then throw .notDirectory else return node

/-- The text of the file that a path leads to. -/
def read (dir : Directory) (path : String) : Except FileError String := do
  match ← dir.find path with
  | .missing => throw .notFound
  | .directory => throw .isDirectory
  | .file text => return text
  | .device _ => return ""

/--
The place where a file with a given path would be. The directory that it would be in has to be
there, and the path has to end in a name.
-/
def locate (dir : Directory) (path : String) : Except FileError Place := do
  checkPath path
  match (pathNames path).reverse with
  | [] => throw .isDirectory
  | name :: names =>
    let place ← dir.follow (.start path) names.reverse
    dir.enter place
    if path.endsWith "/" then throw .isDirectory else dir.step place name

/-- The directory after a text has been written to the file at a path. -/
def put (dir : Directory) (path : Path) (text : String) : Directory :=
  let file : TextFile := ⟨path, text⟩
  if (dir.text? path).isSome then
    { dir with files := dir.files.map fun old => if old.path = path then file else old }
  else { dir with files := dir.files ++ [file] }

/-- The directory after a text has been written to a device. -/
def send (dir : Directory) (device : Device) (text : String) : Except FileError Directory :=
  match device with
  | .full => .error .noSpace
  | .output => .ok { dir with output := dir.output ++ text }
  | .errors => .ok { dir with errors := dir.errors ++ text }
  | _ => .ok dir

/-- Write a text to the file that a path leads to. Files outside of the directory are not kept. -/
def write (dir : Directory) (path text : String) : Except FileError Directory := do
  let place ← dir.locate path
  match dir.node place, place with
  | .directory, _ => throw .isDirectory
  | .device device, _ => dir.send device text
  | _, .inside path => return dir.put path text
  | _, _ => return dir

/-- The directory with the given files, whose paths have slashes between their names. -/
def ofList (files : List (String × String)) : Directory :=
  ⟨files.map fun (path, text) => ⟨pathNames path, text⟩, "", ""⟩

def toList (dir : Directory) : List (String × String) :=
  dir.files.map fun file => ("/".intercalate file.path, file.text)

/-- The files that are not in another directory, or have another text there. -/
def changedFrom (dir before : Directory) : List (String × String) :=
  dir.toList.filter fun file => !before.toList.contains file

def host : Host (StateM Directory) where
  isFile path := do return ((← get).find path) matches .ok (.file _)
  read path := do return (← get).read path
  write path text := do
    match (← get).write path text with
    | .ok dir => set dir; return .ok ()
    | .error error => return .error error

end Directory

end Upvalue.Command
