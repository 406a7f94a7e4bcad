/-!
# File errors

Why a call to the file system fails. Each error that the operating system reports has a number and a
text.
-/

namespace Telemetry

/-- Why a call to the file system fails. -/
inductive FileError where
  | notFound
  | busy
  | alreadyExists
  | notDirectory
  | isDirectory
  | nameTooLong
  /-- The name holds a null character; this is noticed before the system is asked. -/
  | nullInName
  /-- A call that was to write something wrote nothing. -/
  | nothingWritten
  /-- Any other error of the operating system, by its number and text. -/
  | other (number : Nat) (text : String)
deriving DecidableEq, Repr

/-- The message for an error that the system reports. -/
private def systemText (text : String) (number : Nat) : String :=
  text ++ " (os error " ++ toString number ++ ")"

/-- The message for a file error. -/
def FileError.text : FileError → String
  | notFound => systemText "No such file or directory" 2
  | busy => systemText "Device or resource busy" 16
  | alreadyExists => systemText "File exists" 17
  | notDirectory => systemText "Not a directory" 20
  | isDirectory => systemText "Is a directory" 21
  | nameTooLong => systemText "File name too long" 36
  | nullInName => "file name contained an unexpected NUL byte"
  | nothingWritten => "failed to write whole buffer"
  | other number text => systemText text number

end Telemetry
