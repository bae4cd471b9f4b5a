import Mender.Command.Execute

/-!
# The program

The outermost layer: it takes a picture of the part of the disk that the arguments speak of, lets
the command work on the picture, writes back what is new in it, and prints.
-/

namespace Mender.Disk

/-- The location that an absolute path spells. -/
def locationOf (absolute : String) : Location :=
  (Path.split absolute.toList).foldl (fun l part =>
    if part = [] ∨ part = ['.'] then l
    else if part = ['.', '.'] then l.dropLast
    else l ++ [part]) []

/-- The absolute path of a location. -/
def absolutePath (l : Location) : String := String.ofList ('/' :: Path.unsplit l)

/-- The entry of the disk at an absolute path. -/
def entryAt (absolute : String) : IO.FS.DirEntry := ⟨"/", absolute⟩

/-- Adds what stands above a location to a picture, as far as it exists. -/
def loadAbove (tree : FileTree) (l : Location) : IO FileTree :=
  ((List.range (l.length - 1)).map fun i => l.take (i + 1)).foldlM (fun tree a => do
    let path := (entryAt (absolutePath a)).path
    if (tree.get? a).isSome then return tree
    else if ← path.isDir then return tree.put a .directory
    else if ← path.pathExists then return tree.put a (.file .empty)
    else return tree) tree

/-- The target of a link that leads nowhere: a name that no entry can have. -/
def nowhere : Text := ['\x00']

/-- Adds an entry of the disk to a picture, with all that is below it. What cannot be read is left
out. A link is pictured with the place where it finally leads, which is added too if it is a file or
if `through` asks for it. -/
partial def load (through : Bool) (tree : FileTree) (entry : IO.FS.DirEntry) : IO FileTree := do
  let l := locationOf entry.path.toString
  let tree ← loadAbove tree l
  try
    match (← entry.path.symlinkMetadata).type with
    | .dir =>
      let tree := if l = [] then tree else tree.put l .directory
      (← entry.path.readDir).foldlM (load false) tree
    | .file => return tree.put l (.file (← IO.FS.readBinFile entry.path))
    | .symlink =>
      if ← entry.path.pathExists then
        let target := (← IO.FS.realPath entry.path).toString
        let tree := tree.put l (.link target.toList)
        if through || !(← entry.path.isDir) then load false tree (entryAt target) else return tree
      else return tree.put l (.link nowhere)
    | .other => return tree
  catch _ => return tree

/-- Writes what a command has added to the picture or changed in it. -/
def store (before after : FileTree) : IO Unit := do
  for (l, e) in after.toList do
    unless (before.get? l).any fun e' => decide (e' = e) do
      match e with
      | .file bytes => IO.FS.writeBinFile (absolutePath l) bytes
      | .directory => IO.FS.createDirAll (absolutePath l)
      | .link _ => pure ()

/-- The paths on the disk that an invocation speaks of. -/
def mentioned (i : Command.Invocation) (home : Option Path) : List Path :=
  let root := match i.request with
    | .run r => r.path
    | .restore r => r.path
    | .init path _ => path
  [root, Settings.projectFile] ++ i.config.toList ++ (home.map Settings.userFile).toList

end Mender.Disk

open Mender in
/-- Runs the program on the disk. -/
def main (args : List String) : IO UInt32 := do
  let here ← IO.currentDir
  let home := (← IO.getEnv "HOME").map fun h => Mender.Path.mk h.toList
  let args := args.map String.toList
  let paths := match Command.Invocation.parse args with
    | .ok i => Disk.mentioned i home
    | .error _ => []
  let empty := FileTree.empty (Disk.locationOf here.toString)
  let before ← paths.foldlM
    (fun tree p => Disk.load true tree ⟨here, String.ofList p.text⟩) empty
  let (result, after) := Command.perform args home before
  Disk.store before after
  IO.print (String.ofList result.stdout)
  IO.eprint (String.ofList result.stderr)
  return result.exitCode.toUInt32
