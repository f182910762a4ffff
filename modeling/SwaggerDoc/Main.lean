import SwaggerDoc.CommandLine.Run

/-!
The command line.

What a run looks at is read first, then the run is computed, and what it leaves behind is written.
-/

namespace SwaggerDoc.CommandLine

/-- A text as a string. -/
def shownString (t : Text) : String := String.ofList (t.map Char.ofNat)

/-- What stands at a location. -/
def entryAt (l : Location) : IO (Option FileEntry) := do
  let place := (← IO.currentDir) / shownString (Text.join [47] l)
  if ← place.isDir then return some .directory
  else if ← place.pathExists then
    return some (.file ((← IO.FS.readBinFile place).toList.map UInt8.toNat))
  else return none

/-- Adds what stands along a path to a tree. -/
def lookAlong (tree : FileTree) (p : Path) : IO FileTree :=
  (List.range p.parts.length).foldlM (fun tree n => do
    match tree.locate { p with parts := p.parts.take (n + 1) } with
    | .error _ => return tree
    | .ok l =>
      if (tree.entry? l).isSome then return tree
      else match ← entryAt l with
        | some e => return tree.put l e
        | none => return tree) tree

/-- Writes what a run left behind and what was not there before. -/
def settleFiles (before after : FileTree) : IO Unit :=
  after.entries.forM fun (l, e) => do
    if before.entry? l != some e then
      let place := (← IO.currentDir) / shownString (Text.join [47] l)
      match e with
      | .directory => IO.FS.createDirAll place
      | .file content => IO.FS.writeBinFile place ⟨(content.map UInt8.ofNat).toArray⟩

end SwaggerDoc.CommandLine

open SwaggerDoc SwaggerDoc.CommandLine in
/-- Runs the program with the arguments of the command line. -/
def main (arguments : List String) : IO UInt32 := do
  let given := arguments.map text
  let files ← (paths given).foldlM lookAlong FileTree.empty
  let format ← IO.getEnv "SWAGGER_COMPILER_FORMAT"
  let outcome := CommandLine.run ⟨files, format.map text⟩ given
  settleFiles files outcome.files
  IO.print (shownString outcome.output)
  IO.eprint (shownString outcome.messages)
  if let .uncaught f := outcome.ending then IO.eprintln (shownString f.words)
  return UInt32.ofNat outcome.ending.status
