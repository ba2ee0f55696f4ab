import Mathlib.Tactic.Common
import Rsupervisord.Support.Text

/-!
# File paths

The lexical operations on the paths of a Unix system: the components of a path, joining paths, and
making a path absolute and normal without a look at the file system. A path is a string.
-/

namespace UnixPath

/-- A component of a path. -/
inductive Component
  | rootDir
  /-- A leading `.`; any other is left out. -/
  | curDir
  | parentDir
  | normal (name : String)
  deriving DecidableEq, Repr

namespace Component

/-- A segment between slashes. -/
def ofSegment (segment : String) : Component :=
  if segment = ".." then .parentDir else .normal segment

/-- The component as a path. -/
def toPath : Component → String
  | rootDir => "/"
  | curDir => "."
  | parentDir => ".."
  | normal name => name

end Component

/-- A path that begins at the root. -/
def isAbsolute (path : String) : Bool := path.toList.head? = some '/'

/-- The components of a path: repeated slashes, slashes at the end and dots that are not at the
start make no difference. -/
def components (path : String) : List Component :=
  let segments := Text.split '/' path
  let body := (segments.filter fun s => s ≠ "" ∧ s ≠ ".").map .ofSegment
  if isAbsolute path then .rootDir :: body
  else if segments.head? = some "." then .curDir :: body
  else body

/-- The last component, when it is a name. -/
def fileName (cs : List Component) : Option String :=
  match cs.getLast? with
  | some (.normal name) => some name
  | _ => none

/-- The path without its last component, unless it ends at the root. -/
def parent (cs : List Component) : Option (List Component) :=
  match cs.getLast? with
  | none | some .rootDir => none
  | some _ => some cs.dropLast

/-- Join a path to a base, unless it is absolute. -/
def join (base path : String) : String :=
  if isAbsolute path then path
  else if base = "" ∨ base.toList.getLast? = some '/' then base ++ path
  else base ++ "/" ++ path

/-- Join components to a base. -/
def extend (base : String) (cs : List Component) : String :=
  cs.foldl (fun path c => join path c.toPath) base

/-- Append a component to normal ones. -/
def pushNormal (cs : List Component) : Component → List Component
  | .rootDir => cs ++ [.rootDir]
  | .curDir => cs
  | .parentDir =>
      match cs.getLast? with
      | some (.normal _) => cs.dropLast
      -- The root is its own parent.
      | some .rootDir => cs
      | _ => cs ++ [.parentDir]
  | .normal name => cs ++ [.normal name]

/-- The path with the components that are left when each `..` takes the one before it away. -/
def lexicalNorm (path : String) : String :=
  if path = "" then ""
  else
    let cs := (components path).foldl pushNormal []
    if cs.isEmpty then "." else extend "" cs

/-- The path as seen from the directory `cwd`. Two leading slashes are kept, and so is one at the
end. -/
def absolute (cwd path : String) : String :=
  let cs := (components path).dropWhile (· = .curDir)
  let normalized :=
    if isAbsolute path then
      if path.toList.take 2 = ['/', '/'] ∧ path.toList.take 3 ≠ ['/', '/', '/'] then
        extend "//" cs.tail
      else extend "" cs
    else extend cwd cs
  if path.toList.getLast? = some '/' then join normalized "" else normalized

/-- The absolute and normal path. -/
def absNorm (cwd path : String) : String :=
  lexicalNorm (if path = "" then "" else absolute cwd path)

end UnixPath
