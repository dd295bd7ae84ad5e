import DesignCompiler.Extraction
import DesignCompiler.Text.Digit

/-!
# `DesignCompiler.Extraction.Log`: what an extraction leaves in the log

The warnings of an extraction go two ways: to the caller, with the tree, and into the log. An
extraction that goes through logs them one after the other, and then how many nodes there are and
where they are from. One that fails logs nothing.
-/

set_option autoImplicit false

namespace DesignCompiler

/-- How much a line of the log matters. -/
inductive LogLevel
  | debug
  | warning
  deriving DecidableEq

/-- A line of the log. -/
structure LogLine where
  level : LogLevel
  text : Text

/-- The lines of a log, the oldest first. -/
abbrev Log := List LogLine

namespace Log

/-- The log after one more line. -/
def write (log : Log) (level : LogLevel) (text : Text) : Log := log ++ [⟨level, text⟩]

/-- The texts that were logged at a level. -/
def textsAt (log : Log) (level : LogLevel) : List Text :=
  (log.filter fun line => line.level = level).map (·.text)

/-- Nothing was logged in an empty log. -/
@[simp] theorem textsAt_nil (level : LogLevel) : textsAt [] level = [] := rfl

/-- A line that is written is the last one of its level and is not seen at the other levels. With
the empty log this is all that the proofs about the log need. -/
@[simp] theorem textsAt_write (log : Log) (level other : LogLevel) (text : Text) :
    (log.write level text).textsAt other
      = log.textsAt other ++ if level = other then [text] else [] := by
  rw [write, textsAt, List.filter_append, List.map_append]
  congr 1
  split <;> simp [*]

end Log

namespace Extraction

/-- The log after the warnings of an extraction. -/
def logWarnings (log : Log) (warnings : List Warning) : Log :=
  warnings.foldl (fun log warning => log.write .warning warning.message) log

/-- The log after an extraction of what stands at a place: the warnings in their order, then the
line with the count. -/
def logged (t : Extraction) (place : Place) (log : Log) : Log :=
  (logWarnings log t.warnings).write .debug
    ("Built IR with ".toList ++ Text.ofNat t.count ++ " nodes from ".toList ++ place.path)

/-- The extraction of a design file or of one of its pages, with the log that it leaves. The log
starts empty, so an extraction that fails leaves none. -/
def ofFileLogged (file page : Json) (limit : Int) : Except Fault (Extraction × Log) := do
  let root ← Drawing.ofFile file
  let (selection, warnings) ← root.select page
  let t ← ofSelection limit warnings selection
  let place := (selection.map Selection.place).getD Drawing.rootPlace
  return (t, t.logged place [])

end Extraction

end DesignCompiler
