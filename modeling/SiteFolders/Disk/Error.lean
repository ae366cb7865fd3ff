/-!
# Disk errors

The ways in which an operation on files fails. Most are errors of the operating system with a
number of their own; the last three are found before or after the system is asked.
-/

namespace SiteFolders

/-- Why an operation on files fails. -/
inductive DiskError where
  | notPermitted
  | notFound
  | denied
  | busy
  | alreadyExists
  | crossesDevices
  | notDirectory
  | isDirectory
  | invalid
  | nameTooLong
  | notEmpty
  | loop
  /-- The path holds a zero character. -/
  | zeroInPath
  /-- The bytes of a file are not UTF-8 text. -/
  | notText
  /-- What was to be copied is not a regular file. -/
  | notRegular
deriving DecidableEq, Repr

namespace DiskError

/-- The system's number for the error, if it has one. -/
def number? : DiskError → Option Nat
  | notPermitted => some 1
  | notFound => some 2
  | denied => some 13
  | busy => some 16
  | alreadyExists => some 17
  | crossesDevices => some 18
  | notDirectory => some 20
  | isDirectory => some 21
  | invalid => some 22
  | nameTooLong => some 36
  | notEmpty => some 39
  | loop => some 40
  | zeroInPath | notText | notRegular => none

/-- All errors. -/
def all : List DiskError :=
  [notPermitted, notFound, denied, busy, alreadyExists, crossesDevices, notDirectory, isDirectory,
    invalid, nameTooLong, notEmpty, loop, zeroInPath, notText, notRegular]

/-- The error with a system number. -/
def ofNumber? (n : Nat) : Option DiskError := all.find? (·.number? == some n)

/-- The class of an error. -/
def kind : DiskError → String
  | notPermitted | denied => "PermissionDenied"
  | notFound => "NotFound"
  | busy => "ResourceBusy"
  | alreadyExists => "AlreadyExists"
  | crossesDevices => "CrossesDevices"
  | notDirectory => "NotADirectory"
  | isDirectory => "IsADirectory"
  | invalid | zeroInPath | notRegular => "InvalidInput"
  | nameTooLong => "InvalidFilename"
  | notEmpty => "DirectoryNotEmpty"
  | loop => "FilesystemLoop"
  | notText => "InvalidData"

/-- The sentence without the number. -/
def sentence : DiskError → String
  | notPermitted => "Operation not permitted"
  | notFound => "No such file or directory"
  | denied => "Permission denied"
  | busy => "Device or resource busy"
  | alreadyExists => "File exists"
  | crossesDevices => "Invalid cross-device link"
  | notDirectory => "Not a directory"
  | isDirectory => "Is a directory"
  | invalid => "Invalid argument"
  | nameTooLong => "File name too long"
  | notEmpty => "Directory not empty"
  | loop => "Too many levels of symbolic links"
  | zeroInPath => "file name contained an unexpected NUL byte"
  | notText => "stream did not contain valid UTF-8"
  | notRegular => "the source path is neither a regular file nor a symlink to a regular file"

/-- The sentence that is shown, with the system's number where there is one. -/
def message (e : DiskError) : String :=
  match e.number? with
  | some n => s!"{e.sentence} (os error {n})"
  | none => e.sentence

/-- Class and sentence, as they are reported together. -/
def report (e : DiskError) : String := s!"{e.kind}: {e.message}"

/-- Errors of a rename after which copying may still work. -/
def allowsCopy : DiskError → Bool
  | crossesDevices | notPermitted | denied | busy | notFound => true
  | _ => false

end DiskError

end SiteFolders
