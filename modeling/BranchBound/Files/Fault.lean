/-!
# File faults

Why the operating system refuses to read or write a file, and what it says.
-/

namespace BranchBound

inductive FileFault where
  | notFound
  | noDevice
  | permissionDenied
  | notDirectory
  | isDirectory
  | noSpace
  | readOnly
  | nameTooLong
  /-- Any other refusal, with its text and its number. -/
  | other (text : String) (number : Nat)
  deriving DecidableEq, Repr

namespace FileFault

def number : FileFault → Nat
  | .notFound => 2
  | .noDevice => 6
  | .permissionDenied => 13
  | .notDirectory => 20
  | .isDirectory => 21
  | .noSpace => 28
  | .readOnly => 30
  | .nameTooLong => 36
  | .other _ number => number

def text : FileFault → String
  | .notFound => "No such file or directory"
  | .noDevice => "No such device or address"
  | .permissionDenied => "Permission denied"
  | .notDirectory => "Not a directory"
  | .isDirectory => "Is a directory"
  | .noSpace => "No space left on device"
  | .readOnly => "Read-only file system"
  | .nameTooLong => "File name too long"
  | .other text _ => text

def message (fault : FileFault) : String :=
  let text := fault.text
  let number := fault.number
  s!"{text} (os error {number})"

/-- The refusal with the given number; `text` is kept only if the number is not a known one. -/
def ofNumber (text : String) : Nat → FileFault
  | 2 => .notFound
  | 6 => .noDevice
  | 13 => .permissionDenied
  | 20 => .notDirectory
  | 21 => .isDirectory
  | 28 => .noSpace
  | 30 => .readOnly
  | 36 => .nameTooLong
  | number => .other text number

end FileFault

inductive Contents where
  /-- It cannot be opened. -/
  | closed (fault : FileFault)
  /-- It can be opened and not read. -/
  | unreadable (fault : FileFault)
  | bytes (data : List UInt8)
  deriving DecidableEq, Repr

end BranchBound
