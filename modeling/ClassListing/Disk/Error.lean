/-!
Why the file system refuses an operation.
-/

namespace ClassListing

inductive DiskError where
  | notFound
  | notDirectory
  | isDirectory
  /-- A directory cannot be mapped into memory. -/
  | noDevice
  | nameTooLong
  | nulInPath
  | notUtf8
  | described (text : String)
  deriving DecidableEq, Repr

def DiskError.message : DiskError → String
  | notFound => "No such file or directory (os error 2)"
  | notDirectory => "Not a directory (os error 20)"
  | isDirectory => "Is a directory (os error 21)"
  | noDevice => "No such device (os error 19)"
  | nameTooLong => "File name too long (os error 36)"
  | nulInPath => "file name contained an unexpected NUL byte"
  | notUtf8 => "stream did not contain valid UTF-8"
  | described text => text

end ClassListing
