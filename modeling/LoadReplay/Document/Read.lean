import LoadReplay.Document.Format
import LoadReplay.Document.FromJson
import LoadReplay.Toml.Reader
import LoadReplay.Yaml.Reader

/-!
# Reading documents

One reader for all formats.
-/

namespace LoadReplay.Document

/-- Reads a document of a format. -/
def Format.read (f : Format) (text : String) : Decoded Tree :=
  match f with
  | .yaml => Yaml.read text.toList
  | .toml => Toml.read text.toList
  | .json => Tree.readJson text.toList

end LoadReplay.Document
