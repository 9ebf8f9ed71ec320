import AdviceMigration.Command.Run

/-!
# The program

Reads the arguments and the files, carries out the request and writes what it asks to write.
-/

namespace AdviceMigration.Command

def usage : String :=
  unlines
    ["Migrates ByteBuddy advice to the @Advice.AssignReturned style",
      "",
      "Usage: indy migrate [--write] [--json] [--config PATH] PATH",
      "       indy check [--json] [--config PATH] PATH"]

def Content.ofBytes (bytes : ByteArray) : Content :=
  match String.fromUTF8? bytes with
  | some decoded => .text decoded
  | none => .bytes

/-- Reads directory entries and everything below them. Only plain files and directories count. -/
partial def loadEntries (entries : List IO.FS.DirEntry) : IO FileTree :=
  entries.foldlM (fun tree entry => do
    match (← entry.path.symlinkMetadata).type with
    | .dir => return tree.insert (← loadEntries (← entry.path.readDir).toList) [entry.fileName]
    | .file =>
      return tree.insert (.file (.ofBytes (← IO.FS.readBinFile entry.path))) [entry.fileName]
    | _ => return tree) .empty

def loadRoot (path : String) : IO (Option FileTree) := do
  let directory := (← IO.currentDir) / path
  if ← directory.isDir then return some (← loadEntries (← directory.readDir).toList)
  else return none

def loadText (path : String) : IO (Except ReadError String) := do
  let file := (← IO.currentDir) / path
  if ← file.isDir then return .error .isDirectory
  else if ← file.pathExists then return (FileTree.file (.ofBytes (← IO.FS.readBinFile file))).text
  else return .error .missing

/-- Writes a file through a temporary one next to it, so that an interrupted run leaves the old or the new file. -/
def replaceFile (root : String) (path : List String) (text : String) : IO Unit := do
  let file := path.foldl (· / ·) ((← IO.currentDir) / root)
  let temporary := file.addExtension "tmp"
  IO.FS.writeFile temporary text
  IO.FS.rename temporary file

/-- Carries out a request on the files of the system. -/
def perform (request : Request) : IO UInt32 := do
  let given ← match request.config with
    | some path => loadText path
    | none => pure (.error .missing)
  let outcome := run request ⟨← loadRoot request.root, fun _ => given⟩
  outcome.writes.forM fun write => replaceFile request.root write.1 write.2
  IO.print outcome.output
  IO.eprint outcome.errors
  match outcome.failure with
  | some message => IO.eprintln message
  | none => pure ()
  return outcome.exitCode.toUInt32

end AdviceMigration.Command

open AdviceMigration.Command

def main (args : List String) : IO UInt32 :=
  match Invocation.ofArguments args with
  | .run request => perform request
  | .information => do
    IO.print usage
    return 0
  | .refused => do
    IO.eprint usage
    return 2
