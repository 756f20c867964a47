import BranchBound.Files.Fault

/-!
# File trees

A tree of folders, files and devices held as a value. `read` and `write` follow
a path the way the operating system does: name by name, each below a folder
that exists, so that the first name that fails decides the fault.
-/

namespace BranchBound

/-- A file that is not stored. A reader finds it empty. -/
inductive Device where
  /-- Takes whatever is written and keeps nothing. -/
  | null
  /-- Has no room for anything. -/
  | full
  /-- Can only be opened from a terminal. -/
  | terminal
  /-- Hands what is written to the output of the program. -/
  | output
  /-- Hands what is written to the error output of the program. -/
  | errors
  deriving DecidableEq, Repr

inductive Entry where
  | folder
  | file (data : List UInt8)
  | device (device : Device)
  deriving DecidableEq, Repr

/-- The names on the way down from the root. -/
abbrev Place := List String

structure FileTree where
  /-- Where relative paths start. -/
  home : Place
  entries : List (Place × Entry)
  deriving DecidableEq, Repr

namespace FileTree

def entry? (t : FileTree) (place : Place) : Option Entry :=
  if place.isEmpty then some .folder else t.entries.lookup place

/-- Puts an entry at a place, in the stead of what stood there. -/
def put (t : FileTree) (place : Place) (entry : Entry) : FileTree :=
  { t with entries := (place, entry) :: t.entries.filter (·.1 != place) }

/-! ### Following a path -/

/-- The longest name, in bytes. -/
def nameLimit : Nat := 255

/-- The longest path, in bytes. -/
def pathLimit : Nat := 4095

/-- Why nothing can be looked up below a place, if so. -/
def barrier? (t : FileTree) (place : Place) : Option FileFault :=
  match t.entry? place with
  | some .folder => none
  | some _ => some .notDirectory
  | none => some .notFound

/-- The place one name on. The folder above the root is the root. -/
def step (t : FileTree) (place : Place) (name : String) : Except FileFault Place :=
  match t.barrier? place with
  | some fault => .error fault
  | none =>
    if name = "" ∨ name = "." then .ok place
    else if name = ".." then .ok place.dropLast
    else if name.utf8ByteSize > nameLimit then .error .nameTooLong
    else .ok (place ++ [name])

/-- The place that names lead to. Only the way there has to exist. -/
def walk (t : FileTree) (place : Place) : List String → Except FileFault Place
  | [] => .ok place
  | name :: rest =>
    match t.step place name with
    | .error fault => .error fault
    | .ok next => t.walk next rest

def origin (t : FileTree) (path : String) : Place :=
  if path.startsWith "/" then [] else t.home

def pathFault? (path : String) : Option FileFault :=
  if path.isEmpty then some .notFound
  else if path.utf8ByteSize > pathLimit then some .nameTooLong
  else none

/-! ### Reading -/

def read (t : FileTree) (path : String) : Contents :=
  match pathFault? path with
  | some fault => .closed fault
  | none =>
    match t.walk (t.origin path) (path.splitOn "/") with
    | .error fault => .closed fault
    | .ok place =>
      match t.entry? place with
      | none => .closed .notFound
      | some .folder => .unreadable .isDirectory
      | some (.file data) => .bytes data
      | some (.device .terminal) => .closed .noDevice
      | some (.device _) => .bytes []

/-! ### Writing -/

/-- Where a text that was written ends up. -/
inductive Delivery where
  | stored (tree : FileTree)
  | discarded
  | printed
  | printedAsError
  deriving DecidableEq, Repr

/-- The place of the file that is created or replaced at a path. A path that ends in a slash or
in dots names a folder, whether there is one or not. -/
def target (t : FileTree) (path : String) : Except FileFault Place :=
  match pathFault? path with
  | some fault => .error fault
  | none =>
    let names := (path.splitOn "/").filter (· != "")
    match t.walk (t.origin path) names.dropLast with
    | .error fault => .error fault
    | .ok folder =>
      match t.barrier? folder with
      | some fault => .error fault
      | none =>
        let last := names.getLast?.getD "."
        if last = "." ∨ last = ".." ∨ path.endsWith "/" then .error .isDirectory
        else if last.utf8ByteSize > nameLimit then .error .nameTooLong
        else .ok (folder ++ [last])

def write (t : FileTree) (path : String) (data : List UInt8) : Except FileFault Delivery :=
  match t.target path with
  | .error fault => .error fault
  | .ok place =>
    match t.entry? place with
    | some .folder => .error .isDirectory
    | some (.device .null) => .ok .discarded
    | some (.device .full) => .error .noSpace
    | some (.device .terminal) => .error .noDevice
    | some (.device .output) => .ok .printed
    | some (.device .errors) => .ok .printedAsError
    | some (.file _) | none => .ok (.stored (t.put place (.file data)))

/-! ### Trees for a program to run in -/

/-- The usual folders and devices, and an empty home. -/
def bare : FileTree :=
  let folders := ["bin", "dev", "etc", "home", "lib", "opt", "proc", "root", "sys", "tmp", "usr",
    "var"]
  let devices := [("null", Device.null), ("full", .full), ("tty", .terminal), ("stdin", .null),
    ("stdout", .output), ("stderr", .errors)]
  let home := ["tmp", "home"]
  { home
    entries := (home, .folder) :: folders.map (fun name => ([name], .folder)) ++
      devices.map fun (name, device) => (["dev", name], .device device) }

/-- Adds a file below the home, with the folders on the way that are missing. -/
def addFile (t : FileTree) (below : Place) (data : List UInt8) : FileTree :=
  let place := t.home ++ below
  let folders := (List.range place.length).map place.take
  let missing := folders.filter fun folder => (t.entry? folder).isNone
  (missing.foldl (fun t folder => t.put folder .folder) t).put place (.file data)

/-- The files below the home that are not in the tree `before`, or not with the same contents. -/
def changesSince (t before : FileTree) : List (Place × List UInt8) :=
  t.entries.filterMap fun (place, entry) =>
    match entry with
    | .file data =>
      if t.home.isPrefixOf place && before.entry? place != some entry then
        some (place.drop t.home.length, data)
      else none
    | _ => none

end FileTree

end BranchBound
