/-!
Lines. `lines` cuts at every newline and so keeps the text around the cuts whole; `ended` reads a
newline, with a carriage return before it, as the end of a line.
-/
namespace IrSurvey.Text

/-- The stretches between newlines, at least one. -/
def lines (s : List Char) : List (List Char) :=
  s.splitOn '\n'

/-- A line without the carriage return that stood before its newline. -/
def dropReturn (l : List Char) : List Char :=
  if l.getLast? = some '\r' then l.dropLast else l

/-- The lines that a newline ends, and a last one that none ends if it is not empty; only the
former lose their carriage return. -/
def endedLines (s : List Char) : List (List Char) :=
  let cut := lines s
  let last := cut.getLast?.getD []
  cut.dropLast.map dropReturn ++ (if last = [] then [] else [last])

/-- Lines joined by newlines. -/
def unlines (ls : List (List Char)) : List Char :=
  ['\n'].intercalate ls

end IrSurvey.Text
