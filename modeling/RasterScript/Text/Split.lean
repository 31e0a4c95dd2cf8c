/-!
# Splitting text

`splitRuns` cuts a text at every separator, so `n` separators leave `n + 1` runs, some of which may
be empty.
-/

namespace RasterScript

/-- Puts a character in front of the first run. -/
def attach (c : Char) : List (List Char) → List (List Char)
  | [] => [[c]]
  | run :: runs => (c :: run) :: runs

/-- The runs of characters between separators. -/
def splitRuns (separates : Char → Bool) : List Char → List (List Char)
  | [] => [[]]
  | c :: rest =>
    if separates c then [] :: splitRuns separates rest else attach c (splitRuns separates rest)

end RasterScript
