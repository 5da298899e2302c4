import LoadReplay.Store.Files
import LoadReplay.Summary.File

/-!
# Summaries in files

A summary is added at the end of a file, which is made if there is none.  A file that is not there
cannot be loaded: it does not count as one without summaries.
-/

namespace LoadReplay.Store

/-- Why the summaries of a file cannot be had. -/
inductive LoadFault where
  | file (fault : FileFault)
  /-- A line of the file is no summary. -/
  | content (failure : Document.Failure)
  deriving Repr, DecidableEq

namespace Files

/-- Adds the line of a summary at the end of a file. -/
def appendSummary (f : Files) (path : String) (s : RunSummary) : Except FileFault Files :=
  f.append path (s.line ++ "\n")

/-- Adds summaries one after another, up to the first one that cannot be added. -/
def appendSummaries (f : Files) (path : String) (summaries : List RunSummary) :
    Except FileFault Files :=
  summaries.foldlM (fun f s => f.appendSummary path s) f

/-- All summaries of a file. -/
def loadSummaries (f : Files) (path : String) : Except LoadFault (List RunSummary) := do
  let text ← (f.read path).mapError .file
  (readSummaries text).mapError .content

end Files

end LoadReplay.Store
