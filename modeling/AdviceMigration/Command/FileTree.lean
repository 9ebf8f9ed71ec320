/-!
# File trees

A directory with everything in it, as a value. Entries are kept in ascending order of their names, which is the order in which files are visited.
-/

namespace AdviceMigration.Command

inductive Content where
  | text (text : String)
  /-- Bytes that are no UTF-8 text. -/
  | bytes
  deriving DecidableEq, Repr, Inhabited

/-- A file, or a directory with its entries in ascending order of their names. -/
inductive FileTree where
  | file (content : Content)
  | directory (entries : List (String × FileTree))

inductive ReadError where
  | missing
  | notDirectory
  | isDirectory
  | notText
  deriving DecidableEq, Repr, Inhabited

def ReadError.message : ReadError → String
  | missing => "No such file or directory (os error 2)"
  | notDirectory => "Not a directory (os error 20)"
  | isDirectory => "Is a directory (os error 21)"
  | notText => "stream did not contain valid UTF-8"

namespace FileTree

def empty : FileTree := .directory []

def entries? : FileTree → Option (List (String × FileTree))
  | .directory entries => some entries
  | .file _ => none

def child? (tree : FileTree) (name : String) : Option FileTree :=
  match tree with
  | .directory entries => (entries.find? fun entry => entry.1 == name).map (·.2)
  | .file _ => none

/-- Puts an entry in its place, instead of one with its name. -/
def putEntry (name : String) (tree : FileTree) :
    List (String × FileTree) → List (String × FileTree)
  | [] => [(name, tree)]
  | entry :: rest =>
    if entry.1 = name then (name, tree) :: rest
    else if name < entry.1 then (name, tree) :: entry :: rest
    else entry :: putEntry name tree rest

/-- Puts a tree at a path; directories on the way are made if need be. -/
def insert (tree : FileTree) (item : FileTree) : (path : List String) → FileTree
  | [] => item
  | name :: rest =>
    let inner := ((tree.child? name).getD .empty).insert item rest
    .directory (putEntry name inner (tree.entries?.getD []))

def at? (tree : FileTree) : (path : List String) → Option FileTree
  | [] => some tree
  | name :: rest =>
    match tree.child? name with
    | some inner => inner.at? rest
    | none => none

mutual
/-- The files of a tree with their paths, in the order of a walk: the files of a directory come where the directory stands. -/
def files : FileTree → (path : List String) → List (List String × Content)
  | .file content, path => [(path, content)]
  | .directory entries, path => filesIn entries path

def filesIn : List (String × FileTree) → (path : List String) → List (List String × Content)
  | [], _ => []
  | (name, tree) :: rest, path => tree.files (path ++ [name]) ++ filesIn rest path
end

/-! ### Paths as written -/

/-- Follows the components of a written path from the entry at `place`. Every component needs a directory to start from; empty ones and dots stay there, two dots go up. -/
def follow (tree : FileTree) : (place components : List String) → Except ReadError (List String)
  | place, [] => .ok place
  | place, name :: rest =>
    match tree.at? place with
    | some (.directory entries) =>
      if name = "" ∨ name = "." then follow tree place rest
      else if name = ".." then
        match place with
        | [] => .error .missing
        | _ => follow tree place.dropLast rest
      else if entries.any fun entry => entry.1 == name then follow tree (place ++ [name]) rest
      else .error .missing
    | _ => .error .notDirectory

/-- The place that a written path leads to from the top of the tree. The tree is all there is, so a path from the root of the system leads nowhere. -/
def resolve (tree : FileTree) (path : String) : Except ReadError (List String) :=
  if path.startsWith "/" then .error .missing else tree.follow [] (path.splitOn "/")

/-- The directory that a written path leads to: its place and its tree. -/
def directoryAt? (tree : FileTree) (path : String) : Option (List String × FileTree) :=
  match tree.resolve path with
  | .error _ => none
  | .ok place =>
    match tree.at? place with
    | some (.directory entries) => some (place, .directory entries)
    | _ => none

def text : FileTree → Except ReadError String
  | .file (.text text) => .ok text
  | .file .bytes => .error .notText
  | .directory _ => .error .isDirectory

def readText (tree : FileTree) (path : String) : Except ReadError String :=
  match tree.resolve path with
  | .error error => .error error
  | .ok place =>
    match tree.at? place with
    | some item => item.text
    | none => .error .missing

end FileTree

end AdviceMigration.Command
