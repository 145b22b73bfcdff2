import ClassListing.ClassRecord
import ClassListing.Disk.Error
import ClassListing.Json.Error

/-!
The errors of the library. A recoverable one concerns a single class or archive, so a listing can go on
without it.
-/

namespace ClassListing

inductive ArchiveFault where
  | disk (e : DiskError)
  | empty
  | unreadable
  | described (text : String)
  deriving DecidableEq, Repr

def ArchiveFault.message : ArchiveFault → String
  | disk e => e.message
  | empty => "archive is empty"
  | unreadable => "zip error"
  | described text => text

inductive Error where
  | source (path : String) (cause : DiskError)
  | archive (path : String) (fault : ArchiveFault)
  | classNotFound (name : String)
  | resolution (name message : String)
  | malformed (m : Malformed)
  | catalog (cause : Json.Error)
  | unsupportedMember (renderer : String) (kind : MemberKind)
  | sinkState (message : String)
  | notSupported
  | illegalState (message : String)
  | file (cause : DiskError)
  deriving DecidableEq, Repr

namespace Error

def message : Error → String
  | source path cause => "Failed to read " ++ path ++ ": " ++ cause.message
  | archive path fault => "Archive " ++ path ++ ": " ++ fault.message
  | classNotFound name => "Class not found - " ++ name
  | resolution name text => "Failed to resolve " ++ name ++ ": " ++ text
  | malformed m => "Malformed - " ++ m.message
  | catalog cause => cause.message
  | unsupportedMember renderer kind =>
    renderer ++ " does not support " ++ kind.text ++ " members"
  | sinkState text => "Printer state error - " ++ text
  | notSupported => "This operation is not supported"
  | illegalState text => "Illegal state - " ++ text
  | file cause => cause.message

def cause? : Error → Option String
  | source _ cause => some cause.message
  | catalog cause => some cause.message
  | file cause => some cause.message
  | _ => none

/-- Whether a listing goes on without the class or archive that fails. -/
def isRecoverable : Error → Bool
  | archive .. => true
  | classNotFound _ => true
  | resolution .. => true
  | malformed _ => true
  | _ => false

end Error

end ClassListing
