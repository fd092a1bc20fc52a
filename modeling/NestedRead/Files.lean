import NestedRead.Text.Pieces
import NestedRead.Text.Utf8

/-!
# Files by their paths

A tree of text files as the list of their paths. A path is walked segment by segment: every
segment but the last has to lead to a directory, a directory being what some file lies in.
-/

set_option autoImplicit false

namespace NestedRead

/-- Why a file cannot be read. -/
inductive FileError where
  | missing
  | directory
  /-- A path goes on behind a file. -/
  | notADirectory
  | notText
  | other (reason : String)
deriving DecidableEq, Repr

def FileError.message : FileError → String
  | .missing => "No such file or directory (os error 2)"
  | .directory => "Is a directory (os error 21)"
  | .notADirectory => "Not a directory (os error 20)"
  | .notText => "stream did not contain valid UTF-8"
  | .other reason => reason

/-- Files by the segments of their paths. -/
structure Files where
  entries : List (List String × String)

namespace Files

/-- The files with these paths and contents. -/
def ofPaths (files : List (String × String)) : Files :=
  ⟨files.map fun (path, text) => (Text.piecesOf '/' path, text)⟩

/-- Whether something lies in a directory; the root is always one. -/
def isDirectory (files : Files) (place : List String) : Bool :=
  place.isEmpty || files.entries.any fun (path, _) =>
    place.isPrefixOf path && place.length < path.length

/-- The place that segments lead to from a place. -/
def walk (files : Files) (place : List String) : List String → Except FileError (List String)
  | [] => .ok place
  | segment :: rest =>
    if !files.isDirectory place then
      .error (if (files.entries.lookup place).isSome then .notADirectory else .missing)
    else if segment = "" ∨ segment = "." then walk files place rest
    else if segment = ".." then walk files place.dropLast rest
    else walk files (place ++ [segment]) rest

def read (files : Files) (path : String) : Except FileError String := do
  if path.startsWith "/" then .error .missing
  else
    let place ← files.walk [] (Text.piecesOf '/' path)
    match files.entries.lookup place with
    | some text => .ok text
    | none => .error (if files.isDirectory place then .directory else .missing)

end Files
end NestedRead
