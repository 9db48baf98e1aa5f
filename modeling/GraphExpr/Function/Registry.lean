import GraphExpr.Dict
import GraphExpr.Function.Builtin

/-! # The functions that a name may mean

A site may add functions to the built-in ones. An added function with the name of a built-in
one is left out, and of two added functions with one name the later counts.
-/

namespace GraphExpr

/-- What a function added by a site does when it is called. -/
inductive Plugin.Action where
  /-- The text of the first argument, its ASCII letters in upper case. -/
  | upperCase
  /-- The value of the first argument. -/
  | echo
  /-- The keys of the call, in their order. -/
  | listKeys
  /-- Nothing: the service behind the function cannot be reached. -/
  | unavailable
  /-- Nothing: the function fails. -/
  | broken
  deriving DecidableEq

/-- A function added by a site. -/
structure Plugin where
  name : String
  signature : Signature
  action : Plugin.Action
  deriving DecidableEq

inductive Function where
  | builtin (builtin : Builtin)
  | plugin (plugin : Plugin)
  deriving DecidableEq

namespace Function

def name : Function → String
  | builtin b => b.name
  | plugin p => p.name

def signature : Function → Signature
  | builtin b => b.signature
  | plugin p => p.signature

def description : Function → String
  | builtin b => b.description
  | plugin _ => ""

def origin : Function → String
  | builtin _ => "Builtin"
  | plugin _ => "Plugin"

/-- Whether two functions have the same origin and the same name. -/
def same : Function → Function → Bool
  | builtin a, builtin b => a == b
  | plugin p, plugin q => p.name == q.name
  | _, _ => false

end Function

/-- The functions of a site beside the built-in ones, by name. -/
structure Registry where
  plugins : Dict String Plugin := []

namespace Registry

def ofPlugins (plugins : List Plugin) : Registry where
  plugins := Dict.ofList <|
    (plugins.filter fun plugin => (Builtin.ofName? plugin.name).isNone).map fun plugin =>
      (plugin.name, plugin)

def resolve? (registry : Registry) (name : String) : Option Function :=
  match Builtin.ofName? name with
  | some builtin => some (.builtin builtin)
  | none => (registry.plugins.find? name).map .plugin

def functions (registry : Registry) : Dict String Function :=
  Dict.ofList <|
    (Builtin.all.map fun builtin => (builtin.name, Function.builtin builtin)) ++
      registry.plugins.map fun entry => (entry.1, Function.plugin entry.2)

end Registry

end GraphExpr
