import GraphExpr.CommandLine

/-! # The program

Reads the files that the arguments name, prints the answer, and ends with a status other than
zero where there is none.
-/

namespace GraphExpr.CommandLine

/-- The content of a file; none where it does not exist. -/
def contentOf (path : String) : IO (Option String) := do
  try
    return some (← IO.FS.readFile path)
  catch
    | .noFileOrDirectory .. => return none
    | error => throw error

/-- The graph of the file that the options name, or an empty one. -/
def openGraph (options : Options) : IO (Except Error Graph) := do
  match options.graph with
  | none => return .ok { site := options.site.getD ⟨"default"⟩ }
  | some path =>
    match ← contentOf path with
    | none => return .error (.store (.fixture "Failed to open fixture"))
    | some text => return graphOf text

def respond (options : Options) : IO (Except Error String) := do
  match configOf (← contentOf options.config) with
  | .error error => return .error error
  | .ok config => return (← openGraph options).bind fun graph => answer options graph config

end GraphExpr.CommandLine

open GraphExpr.CommandLine in
def main (arguments : List String) : IO UInt32 := do
  match Options.read {} arguments with
  | .error fault =>
    IO.eprintln ("error: " ++ fault)
    return 2
  | .ok options =>
    match ← respond options with
    | .ok text =>
      IO.println text
      return 0
    | .error error =>
      IO.eprintln ("Error: " ++ error.message)
      return 1
