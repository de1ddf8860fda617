/-!
# Directories

Files in a directory and in the directories below it, and the paths that lead to them. Nothing is
known of the directories above except that they are there: a path may pass through them, and finds
nothing in them.
-/

namespace NumberedBasic

/-- Files by their ways: the names of the directories that are passed, then the file's own. -/
abbrev Directory := List (List String × List UInt8)

namespace Directory

/-- Why a path has no content. -/
inductive Failure where
  | missing
  | isDirectory
  | notDirectory
  | nameTooLong
  | nulInName
  | other (reason : String)
deriving DecidableEq, Repr

def Failure.reason : Failure → String
  | missing => "No such file or directory (os error 2)"
  | isDirectory => "Is a directory (os error 21)"
  | notDirectory => "Not a directory (os error 20)"
  | nameTooLong => "File name too long (os error 36)"
  | nulInName => "file name contained an unexpected NUL byte"
  | other reason => reason

/-- Where a path has led so far. -/
inductive Place where
  | above
  | folder (way : List String)
  | file (content : List UInt8)
deriving DecidableEq, Repr

/-- The parent of a directory. -/
def Place.parent : Place → Place
  | folder (name :: way) => folder (name :: way).dropLast
  | _ => above

/-- In bytes of UTF-8. -/
def maxNameSize : Nat := 255

def maxPathSize : Nat := 4095

def names (path : String) : List String := (path.toList.splitOn '/').map String.ofList

/-- Whether a name leads nowhere else. The name between two slashes in a row is empty. -/
def stays (name : String) : Bool := name == "" || name == "."

def ofFiles (files : List (String × List UInt8)) : Directory :=
  files.map fun file => ((names file.1).filter (!stays ·), file.2)

/-- A directory is there if a file is below it. -/
def find (directory : Directory) (way : List String) : Except Failure Place :=
  match directory.lookup way with
  | some content => .ok (.file content)
  | none =>
      if directory.any fun file => way.isPrefixOf file.1 then .ok (.folder way)
      else .error .missing

/-- Goes on by one name. After a file no name is left to follow, not even an empty one. -/
def step (directory : Directory) (place : Place) (name : String) : Except Failure Place :=
  match place with
  | .file _ => .error .notDirectory
  | place =>
      if stays name then .ok place
      else if name == ".." then .ok place.parent
      else if maxNameSize < name.utf8ByteSize then .error .nameTooLong
      else
        match place with
        | .folder way => directory.find (way ++ [name])
        | _ => .error .missing

/-- A path that begins with a slash begins at the top. -/
def start (path : String) : Place :=
  if path.toList.head? == some '/' then .above else .folder []

def locate (directory : Directory) (path : String) : Except Failure Place :=
  if path.toList.contains '\x00' then .error .nulInName
  else if path == "" then .error .missing
  else if maxPathSize < path.utf8ByteSize then .error .nameTooLong
  else (names path).foldlM directory.step (start path)

def read (directory : Directory) (path : String) : Except Failure (List UInt8) :=
  match directory.locate path with
  | .ok (.file content) => .ok content
  | .ok _ => .error .isDirectory
  | .error failure => .error failure

end Directory

end NumberedBasic
