import Sexpr.Command.Run

/-!
# Directories in memory

A directory is a table of files, each with its path from the directory. It is
what a run of the command needs of the world outside. A path is followed name by
name, from the directory or, if it begins with a slash, from the root; of the
directories around this one nothing is known but that they are there.
-/

namespace Sexpr

/-- The files of a directory, each under the names that lead to it. -/
structure Directory where
  files : List (List String × ByteArray)
deriving Inhabited

/-- Where a path can lead. -/
inductive Place where
  /-- A directory in the table, by the names that lead to it. -/
  | inside (names : List String)
  /-- A directory around the table. -/
  | outside
  | file (content : ByteArray)

namespace Directory

/-- Whether a name stays where it is: a dot, or nothing between two slashes. -/
def isIdle (name : String) : Bool := name = "" || name = "."

def ofFiles (files : List (String × ByteArray)) : Directory :=
  ⟨files.map fun (path, content) => ((path.splitOn "/").filter (!isIdle ·), content)⟩

/-- The most bytes that a name may have. -/
def longestName : Nat := 255

/-- The most bytes that a path may have. -/
def longestPath : Nat := 4095

/-- What these names lead to: a file, or a directory with files in it. -/
def place (d : Directory) (names : List String) : Except ReadFault Place :=
  match d.files.find? (·.1 = names) with
  | some (_, content) => .ok (.file content)
  | none =>
      if d.files.any (fun file => names.isPrefixOf file.1) then .ok (.inside names)
      else .error .notFound

/-- Follows one name of a path. -/
def step (d : Directory) (p : Place) (name : String) : Except ReadFault Place :=
  match p with
  | .file _ => .error .notDirectory
  | .outside =>
      if isIdle name || name = ".." then .ok .outside
      else if longestName < name.utf8ByteSize then .error .nameTooLong
      else .error .notFound
  | .inside names =>
      if isIdle name then .ok (.inside names)
      else if name = ".." then
        .ok (if names.isEmpty then .outside else .inside names.dropLast)
      else if longestName < name.utf8ByteSize then .error .nameTooLong
      else d.place (names ++ [name])

/-- Follows a path. -/
def follow (d : Directory) (path : String) : Except ReadFault Place :=
  let start : Place := if path.toList.head? = some '/' then .outside else .inside []
  if longestPath < path.utf8ByteSize then .error .nameTooLong
  else (path.splitOn "/").foldlM d.step start

/-- Reads a file as text. -/
def read (d : Directory) (path : String) : Except ReadFault String := do
  match ← d.follow path with
  | .inside _ | .outside => .error .isDirectory
  | .file content =>
      match String.fromUTF8? content with
      | some text => .ok text
      | none => .error .notText

/-- A run of the command in the directory. -/
def respond (d : Directory) (words : List String) : Outcome :=
  Command.respond (m := Id) d.read words

end Directory
end Sexpr
