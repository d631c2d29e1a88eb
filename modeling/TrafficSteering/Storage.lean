import TrafficSteering.Fault
import TrafficSteering.Text.Split
set_option autoImplicit false

/-!
# Storage

Where a log file can be created.  The files and directories that are there form a tree, and a place
in the tree is the list of names on the way to it from the root.  A path is followed name by name:
each name but the last must lead to a directory, and the last one must not.
-/

namespace TrafficSteering

/-- What is at a place. -/
inductive EntryKind where
  | file
  /-- A file that cannot be opened for writing, and why. -/
  | locked (refusal : SystemFault)
  | directory
  /-- A directory in which no file can be created, and why. -/
  | sealed (refusal : SystemFault)
  deriving DecidableEq, Repr

/-- The files and directories that are there.  The root is always there. -/
structure Storage where
  /-- What is at the places below the root. -/
  entries : List (List String × EntryKind)
  /-- The place from which paths start that do not start from the root. -/
  working : List String := []
  deriving Repr

namespace Storage

/-- The most bytes that a name can have. -/
def maxName : Nat := 255

/-- The most bytes that a path can have. -/
def maxPath : Nat := 4095

/-- What is at a place, if anything is. -/
def kind? (storage : Storage) (place : List String) : Option EntryKind :=
  if place.isEmpty then some .directory else storage.entries.lookup place

def names (path : String) : List String :=
  ((Text.split '/' path.toList).filter fun name => !name.isEmpty).map String.ofList

/-- Whether a path starts from the root. -/
def isAbsolute (path : String) : Bool := path.toList.head? == some '/'

/-- Whether a path ends with a slash, as only that of a directory may. -/
def endsWithSlash (path : String) : Bool := path.toList.getLast? == some '/'

/-- The place that a name leads to from another place.  A dot stays there and two dots go back. -/
def next (place : List String) (name : String) : List String :=
  if name = "." then place
  else if name = ".." then place.dropLast
  else place ++ [name]

/-- Whether a name is one or two dots, and so that of a directory. -/
def isDots (name : String) : Bool := name == "." || name == ".."

def enter (storage : Storage) (place : List String) (name : String) :
    Except SystemFault (List String) :=
  if isDots name then .ok (next place name)
  else if maxName < name.utf8ByteSize then .error .nameTooLong
  else match storage.kind? (place ++ [name]) with
    | some .directory | some (.sealed _) => .ok (place ++ [name])
    | some _ => .error .notDirectory
    | none => .error .notFound

/-- Creates a file in a directory, or empties it if it is there. -/
def createAt (storage : Storage) (place : List String) (name : String) : Except SystemFault Unit :=
  if maxName < name.utf8ByteSize then .error .nameTooLong
  else match storage.kind? (place ++ [name]), storage.kind? place with
    | some .file, _ => .ok ()
    | some (.locked refusal), _ => .error refusal
    | some _, _ => .error .isDirectory
    | none, some (.sealed refusal) => .error refusal
    | none, _ => .ok ()

/-- The place at which a path starts. -/
def start (storage : Storage) (path : String) : List String :=
  if isAbsolute path then [] else storage.working

/-- Creates the file with a given path, or empties it if it is there. -/
def create (storage : Storage) (path : String) : Except SystemFault Unit :=
  if path.toList.contains (Char.ofNat 0) then .error .nulByte
  else if path.isEmpty then .error .notFound
  else if maxPath < path.utf8ByteSize then .error .nameTooLong
  else match (names path).getLast? with
    | none => .error .isDirectory
    | some last => do
      let place ← (names path).dropLast.foldlM storage.enter (storage.start path)
      if isDots last || endsWithSlash path then throw .isDirectory
      storage.createAt place last

/-- The places that a path leads through, where it starts from the given one. -/
def placesFrom (place : List String) : List String → List (List String)
  | [] => []
  | name :: rest => next place name :: placesFrom (next place name) rest

end Storage

end TrafficSteering
