import GraphExpr.Json.Decoder

/-! # Settings

The limits that parsing and evaluation observe. Each setting has a value for its absence.
-/

namespace GraphExpr

/-- The limits of parsing and evaluation. -/
structure Config where
  /-- The size of the page into which a lazy value is forced. -/
  pageSize : Nat := 10
  /-- The most links that a traversal follows. -/
  traversalDepth : Nat := 50
  /-- The most characters of an expression shown in a message. -/
  excerptLength : Nat := 50
  /-- The most entries that a drawing shows. -/
  graphEntries : Nat := 100
  /-- The number of items pulled at once where all are needed. -/
  chunkSize : Nat := 100
  /-- The deepest nesting of evaluations, stored expressions included. -/
  evaluationDepth : Nat := 64
  deriving DecidableEq

namespace Config

def fieldNames : List String :=
  ["default_page_size", "max_traversal_depth", "debug_string_length", "graph_max_entries",
    "materialize_chunk_size", "max_evaluation_depth"]

/-- Reads the settings that are given and takes the usual values of the others. -/
def ofJson? (json : Json) : Option Config := do
  let [pageSize, traversalDepth, excerptLength, graphEntries, chunkSize, evaluationDepth] ←
    Json.fields? fieldNames json | none
  let usual : Config := {}
  some {
    pageSize := ← Json.optional? usual.pageSize Json.nat64? pageSize
    traversalDepth := ← Json.optional? usual.traversalDepth Json.nat64? traversalDepth
    excerptLength := ← Json.optional? usual.excerptLength Json.nat64? excerptLength
    graphEntries := ← Json.optional? usual.graphEntries Json.nat64? graphEntries
    chunkSize := ← Json.optional? usual.chunkSize Json.nat64? chunkSize
    evaluationDepth := ← Json.optional? usual.evaluationDepth Json.nat64? evaluationDepth }

def toJson (config : Config) : Json :=
  Json.record <| fieldNames.zip <|
    [config.pageSize, config.traversalDepth, config.excerptLength, config.graphEntries,
      config.chunkSize, config.evaluationDepth].map fun (n : Nat) => Json.int n

end Config

end GraphExpr
