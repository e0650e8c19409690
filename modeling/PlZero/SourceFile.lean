/-
  PlZero/SourceFile.lean
  ======================
  **Sources in files.**  A source file holds UTF-8, and its lines may end in any of
  the three usual ways.  A mark at its beginning that tells the order of bytes is
  part of the source.
-/
import PlZero.Compilation

namespace PlZero

/-- What is found at a path. -/
inductive FileEntry
  | missing
  | directory
  | file (content : List UInt8)
  deriving DecidableEq, Repr

namespace SourceFile

/-- The source that a file holds. -/
def decode (content : List UInt8) : Except Text.Utf8Fault String :=
  (Text.decodeUtf8 content).map fun cs => String.ofList (Text.unifyLineEnds cs)

/-- A path without the components that lead nowhere: empty ones and single dots. -/
def normalPath (path : String) : String :=
  let parts := (path.splitOn "/").filter fun part => part != "" && part != "."
  let body := "/".intercalate parts
  if path.startsWith "/" then
    (if path.startsWith "//" && !path.startsWith "///" then "//" else "/") ++ body
  else if body.isEmpty then "."
  else body

/-- Compiles what is found at a path. -/
def compile (maxDepth : Nat) (options : Options) (path : String) (entry : FileEntry) : Run :=
  match entry with
  | .missing => ⟨"", [], .error (.sourceNotFound path)⟩
  | .directory => ⟨"", [], .error (.sourceIsDirectory (normalPath path))⟩
  | .file content =>
    match decode content with
    | .error fault => ⟨"", [], .error (.undecodable fault)⟩
    | .ok source => Compilation.compileSource maxDepth options source path

end SourceFile

end PlZero
