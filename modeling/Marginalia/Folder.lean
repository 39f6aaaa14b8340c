import Marginalia.Text.Lines
import Marginalia.Text.Quoted
import Marginalia.Text.Utf8

/-!
# Files of a working folder

A `Folder` is the set of files and folders below the place where the program works, each under the
list of names that leads to it. `Path.parse` takes a path apart as names, without the steps that
lead nowhere; `Folder.read` follows the names one by one, as a file system does: a step into
something that is missing or that is no folder fails there, even where a later step would lead out
again. `fileText` is what a file says: its octets are UTF-8, and line ends are folded.
-/

namespace Marginalia

/-- A path: whether and how it starts at the top, and the names to follow. -/
structure Path where
  /-- The slashes it starts with: none, one, or exactly two. -/
  top : String
  /-- The names, none of them empty or `.`. -/
  names : List String
deriving DecidableEq, Repr

namespace Path

/-- Reads a path. Empty steps and steps to the same place are dropped; steps to the folder around
are kept. Exactly two slashes in front are kept as two, any other number of them is one. -/
def parse (text : String) : Path where
  top :=
    match text.toList.takeWhile (· = '/') with
    | [] => ""
    | ['/', '/'] => "//"
    | _ => "/"
  names := ((piecesAt '/' text.toList).map String.ofList).filter fun name =>
    name ≠ "" && name ≠ "."

/-- The path as text; the empty path is the place itself. -/
def shown (path : Path) : String :=
  if path.top.isEmpty && path.names.isEmpty then "."
  else path.top ++ String.intercalate "/" path.names

end Path

/-- A name has at most so many octets. -/
def nameLimit : Nat := 255

/-- A whole path has at most so many octets. -/
def pathLimit : Nat := 4095

/-- Why a file could not be read. -/
inductive ReadFault where
  | missing (path : String)
  | isFolder (path : String)
  | notFolder (path : String)
  | nameTooLong (path : String)
  | refused (path : String)
  | nullCharacter
  | undecodable (fault : Utf8Fault)
deriving DecidableEq, Repr

/-- The fault on one line. -/
def ReadFault.message : ReadFault → String
  | .missing path => "[Errno 2] No such file or directory: " ++ quoted path
  | .isFolder path => "[Errno 21] Is a directory: " ++ quoted path
  | .notFolder path => "[Errno 20] Not a directory: " ++ quoted path
  | .nameTooLong path => "[Errno 36] File name too long: " ++ quoted path
  | .refused path => "[Errno 13] Permission denied: " ++ quoted path
  | .nullCharacter => "embedded null byte"
  | .undecodable fault => fault.message

/-- The text that a file with these octets holds. -/
def fileText (octets : List UInt8) : Except ReadFault String :=
  match decodeUtf8 octets with
  | .error fault => .error (.undecodable fault)
  | .ok text => .ok (String.ofList (foldLineEnds text))

/-- What a name of a folder stands for. -/
inductive Entry where
  | folder
  | file (octets : List UInt8)
deriving DecidableEq, Repr

/-- The entries below a working folder, each under the names that lead to it. -/
abbrev Folder := List (List String × Entry)

namespace Folder

/-- What stands at a list of names: an entry, or a folder that an entry lies in. -/
def entry? (folder : Folder) (names : List String) : Option Entry :=
  match folder.find? (fun item => item.1 == names) with
  | some item => some item.2
  | none => if folder.any (fun item => names.isPrefixOf item.1) then some .folder else none

/-- Where the walk along a path stands. -/
inductive Place where
  /-- At these names below the working folder, the last one first. -/
  | inside (trail : List String)
  /-- In a folder that the working folder lies in. -/
  | outside
deriving DecidableEq, Repr

/-- What stands at a place. -/
def at? (folder : Folder) : Place → Option Entry
  | .inside [] | .outside => some .folder
  | .inside trail => folder.entry? trail.reverse

/-- Follows one name of the path that `shown` tells. Nothing is known of what lies outside the
working folder but the way up. -/
def step (folder : Folder) (shown : String) (place : Place) (name : String) :
    Except ReadFault Place :=
  match folder.at? place with
  | none => .error (.missing shown)
  | some (.file _) => .error (.notFolder shown)
  | some .folder =>
    if nameLimit < name.utf8ByteSize then .error (.nameTooLong shown)
    else
      match place with
      | .outside => if name = ".." then .ok .outside else .error (.missing shown)
      | .inside [] => .ok (if name = ".." then .outside else .inside [name])
      | .inside (last :: trail) =>
        .ok (.inside (if name = ".." then trail else name :: last :: trail))

/-- What a path leads to. A path from the top starts outside the working folder. -/
def follow (folder : Folder) (path : Path) : Except ReadFault Entry := do
  let start := if path.top.isEmpty then Place.inside [] else .outside
  let place ← path.names.foldlM (folder.step path.shown) start
  match folder.at? place with
  | none => throw (.missing path.shown)
  | some entry => return entry

/-- Reads the file at a path as text. -/
def read (folder : Folder) (path : Path) : Except ReadFault String := do
  if path.names.any (·.toList.contains '\x00') then throw .nullCharacter
  if pathLimit < path.shown.utf8ByteSize then throw (.nameTooLong path.shown)
  match ← folder.follow path with
  | .folder => throw (.isFolder path.shown)
  | .file octets => fileText octets

end Folder

end Marginalia
