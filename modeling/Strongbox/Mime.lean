import Strongbox.Text.Lower
import Strongbox.Text.Split

/-!
# Media types

The media type of a file, told from the extension of its name.
-/

namespace Strongbox.Mime

/-- The type of bytes that nothing is known about. -/
def unknown : String := "application/octet-stream"

def table : List (String × String) := [
  ("txt", "text/plain"), ("html", "text/html"), ("css", "text/css"), ("csv", "text/csv"),
  ("xml", "text/xml"), ("md", "text/markdown"), ("js", "text/javascript"), ("rs", "text/x-rust"),
  ("toml", "text/x-toml"), ("json", "application/json"), ("pdf", "application/pdf"),
  ("gz", "application/gzip"), ("zip", "application/zip"), ("doc", "application/msword"),
  ("wasm", "application/wasm"), ("bin", unknown), ("png", "image/png"), ("jpg", "image/jpeg"),
  ("jpeg", "image/jpeg"), ("gif", "image/gif"), ("svg", "image/svg+xml"), ("mp3", "audio/mpeg"),
  ("mp4", "video/mp4")]

/-- What stands after the last dot of a name, unless that dot begins it. -/
def extension? (name : String) : Option String :=
  match Text.cutLast? '.' name.toList with
  | some (before, after) => if before.isEmpty then none else some (String.ofList after)
  | none => none

/-- The media type of a file of some name. Letter case does not matter. -/
def ofName (name : String) : String :=
  let known := do
    let extension ← extension? name
    table.lookup (String.ofList (Text.lowerAscii extension.toList))
  known.getD unknown

example : ofName "photo.JPG" = "image/jpeg" ∧ ofName ".txt" = unknown ∧ ofName "a." = unknown := by
  decide +kernel

end Strongbox.Mime
