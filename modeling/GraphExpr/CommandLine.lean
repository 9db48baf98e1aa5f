import GraphExpr.Eval.Run
import GraphExpr.Graph.Fixture
import GraphExpr.Json.Reader
import GraphExpr.Value.Text

/-! # The command line

The arguments choose a graph, the settings, the scope of the evaluation and an expression. The
answer is the value of the expression in JSON, its canonical text, or the list of functions.
-/

namespace GraphExpr.CommandLine

structure Options where
  graph : Option String := none
  /-- The file with the settings, which may be missing. -/
  config : String := "lookup.json"
  site : Option SiteId := none
  entry : Option EntryId := none
  user : Option UserId := none
  pageSize : Option Nat := none
  /-- Whether the canonical text is wanted in place of the value. -/
  canonical : Bool := false
  functions : Bool := false
  expression : Option String := none

namespace Options

/-- The effect of an argument that stands alone. -/
def flag? : String → Option (Options → Options)
  | "--canonical" => some fun options => { options with canonical := true }
  | "--functions" => some fun options => { options with functions := true }
  | _ => none

/-- The effect of an argument with the value behind it. -/
def setting? : String → Option (Options → String → Option Options)
  | "-g" | "--graph" => some fun options value => some { options with graph := some value }
  | "-c" | "--config" => some fun options value => some { options with config := value }
  | "-s" | "--site" => some fun options value => some { options with site := some ⟨value⟩ }
  | "-e" | "--entry" => some fun options value => some { options with entry := some ⟨value⟩ }
  | "-u" | "--user" => some fun options value => some { options with user := some ⟨value⟩ }
  | "--page-size" => some fun options value =>
    value.toNat?.map fun size => { options with pageSize := some size }
  | _ => none

/-- The options with the expression, which may be given once. -/
def withExpression (options : Options) (text : String) : Except String Options :=
  match options.expression with
  | none => .ok { options with expression := some text }
  | some _ => .error ("unexpected argument '" ++ text ++ "' found")

/-- Reads the arguments from the left. Behind a double dash all of them are expressions. -/
def read (options : Options) : List String → Except String Options
  | [] => .ok options
  | "--" :: rest => rest.foldlM withExpression options
  | argument :: rest =>
    match flag? argument with
    | some set => read (set options) rest
    | none =>
      match setting? argument, rest with
      | some set, value :: rest =>
        match set options value with
        | some options => read options rest
        | none => .error ("invalid value '" ++ value ++ "' for '" ++ argument ++ "'")
      | some _, [] => .error ("a value is required for '" ++ argument ++ "'")
      | none, rest =>
        if argument.startsWith "-" then .error ("unexpected argument '" ++ argument ++ "' found")
        else
          match options.withExpression argument with
          | .ok options => read options rest
          | .error fault => .error fault

end Options

def graphOf (text : String) : Except Error Graph :=
  match (Json.read? text).bind Fixture.ofJson? with
  | none => .error (.store (.fixture "Failed to parse fixture"))
  | some fixture => fixture.toGraph.mapError .store

/-- The settings in a text, or the usual ones. -/
def configOf : Option String → Except Error Config
  | none => .ok {}
  | some text =>
    match (Json.read? text).bind Config.ofJson? with
    | none => .error (.config "Failed to parse config file")
    | some config => .ok config

def functionLine (function : Function) : String :=
  function.name ++ function.signature.shown ++ "  [" ++ function.origin ++ "] " ++
    function.description

/-- The most levels that an evaluation may use. -/
def levels : Nat := 10000

def evaluate (environment : Environment) (context : Context) (state : EvalState) (text : String) :
    Except Error String := do
  let evaluator := Evaluator.ofDepth levels
  let action : EvalM Concrete := do
    evaluator.force (← evaluator.evaluateSource context text)
  match (action environment).run state with
  | some (result, _) => return (← result).toJson.indented 0
  | none => .error (.internal "the evaluation is nested too deep")

def answer (options : Options) (graph : Graph) (config : Config) : Except Error String := do
  let config := { config with pageSize := options.pageSize.getD config.pageSize }
  let site := options.site.getD graph.site
  let (environment, context, state) ←
    { graph, config : Environment }.open site options.user options.entry {}
  if options.functions then
    return "\n".intercalate
      (environment.registry.functions.map fun entry => functionLine entry.2)
  else
    match options.expression with
    | none => .error (.config "an expression is required")
    | some text =>
      if options.canonical then
        match Expr.parse environment.registry text with
        | .ok expression => return expression.canonical
        | .error error => .error (.expression (.parse error))
      else evaluate environment context state text

end GraphExpr.CommandLine
