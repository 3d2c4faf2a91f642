/-!
# What paths lead to

A path leads to a file, to a directory, or nowhere.
-/

namespace InstrumentBus
namespace Storage

/-- Why a path leads nowhere. -/
inductive PathFault where
  | missing
  /-- A file stands where the path needs a directory. -/
  | notDirectory
  | denied
  | tooLong
  /-- The path holds the character that ends a path. -/
  | brokenOff
  deriving DecidableEq, Repr

def PathFault.message : PathFault → String
  | .missing => "No such file or directory (os error 2)"
  | .denied => "Permission denied (os error 13)"
  | .notDirectory => "Not a directory (os error 20)"
  | .tooLong => "File name too long (os error 36)"
  | .brokenOff => "file name contained an unexpected NUL byte"

inductive Source where
  | nowhere (fault : PathFault)
  | directory
  | file (content : ByteArray)

end Storage
end InstrumentBus
