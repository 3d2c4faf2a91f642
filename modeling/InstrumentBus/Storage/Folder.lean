import InstrumentBus.Storage.Source

/-!
# Folders

A folder holds files and empty directories by name, and a path is followed through
it one name at a time. Nothing is known of what stands around the folder but that
directories lie above it.
-/

namespace InstrumentBus
namespace Storage

/-- The most bytes of one name in a path, and of a whole path. -/
def nameLimit : Nat := 255
def pathLimit : Nat := 4095

structure Folder where
  path : String
  entries : List (String × Source)

namespace Folder

/-- Where one stands on the way along a path. -/
inductive Place where
  /-- Some directory around the folder. -/
  | around
  | top
  /-- A directory in the folder. -/
  | inner
  | file (content : ByteArray)

def Place.source : Place → Source
  | .file content => .file content
  | _ => .directory

def Place.parent : Place → Place
  | .inner => .top
  | _ => .around

/-- The place of an entry of the folder. -/
def find (f : Folder) (name : String) : Except PathFault Place :=
  match f.entries.lookup name with
  | none => .error .missing
  | some (.nowhere fault) => .error fault
  | some .directory => .ok .inner
  | some (.file content) => .ok (.file content)

/-- Going from a place to a name. No name leads on from a file, not even its own. -/
def enter (f : Folder) (place : Place) (name : String) : Except PathFault Place :=
  match place with
  | .file _ => .error .notDirectory
  | place =>
    if name = "" ∨ name = "." then .ok place
    else if name = ".." then .ok place.parent
    else if nameLimit < name.utf8ByteSize then .error .tooLong
    else
      match place with
      | .top => f.find name
      | _ => .error .missing

/-- Going from a place along names. -/
def follow (f : Folder) (place : Place) : List String → Except PathFault Place
  | [] => .ok place
  | name :: rest =>
    match f.enter place name with
    | .error fault => .error fault
    | .ok next => f.follow next rest

/-- Where a path begins, and the names it goes along. -/
def start (f : Folder) (path : String) : Place × List String :=
  match f.path.toList.isPrefixOf? path.toList with
  | some [] => (.top, [])
  | some ('/' :: rest) => (.top, (String.ofList rest).splitOn "/")
  | _ => (.around, path.splitOn "/")

/-- What a path leads to. -/
def source (f : Folder) (path : String) : Source :=
  if path.toList.contains '\x00' then .nowhere .brokenOff
  else if pathLimit < path.utf8ByteSize then .nowhere .tooLong
  else
    let (place, names) := f.start path
    match f.follow place names with
    | .error fault => .nowhere fault
    | .ok place => place.source

end Folder
end Storage
end InstrumentBus
