/-! # Signatures

A signature says which arguments a function takes. Most functions take one argument without a
key, the value that they work on, and some take further arguments by key.
-/

namespace GraphExpr

/-- The keys that a function accepts beside its first argument. -/
structure Signature.Keys where
  required : List String := []
  optional : List String := []
  /-- Whether other keys are accepted too. -/
  isOpen : Bool := false
  /-- Keys that are refused in any case. -/
  reserved : List String := []
  deriving DecidableEq

inductive Signature where
  | noArguments
  | oneArgument
  | keyed (keys : Signature.Keys)
  deriving DecidableEq

inductive ArgumentError where
  | noArgumentsAllowed
  | missingPositional
  | unexpectedPositional
  | unexpectedArgument (key : String)
  | missingArgument (key : String)
  | duplicateArgument (key : String)
  | reservedKey (key : String)
  deriving DecidableEq

def ArgumentError.message : ArgumentError → String
  | noArgumentsAllowed => "it does not take any arguments"
  | missingPositional => "an argument is required"
  | unexpectedPositional => "only one unnamed argument is allowed, and it must come first"
  | unexpectedArgument key => "unexpected argument \"" ++ key ++ "\""
  | missingArgument key => "missing argument \"" ++ key ++ "\""
  | duplicateArgument key => "argument \"" ++ key ++ "\" was given more than once"
  | reservedKey key => "\"" ++ key ++ "\" is a reserved annotation key"

namespace Signature

def Keys.accepts (keys : Keys) (key : String) : Bool :=
  keys.required.contains key || keys.optional.contains key || keys.isOpen

/-- The first fault of the given keys, read from the left behind the keys already seen. -/
def Keys.fault? (keys : Keys) (seen : List String) : List String → Option ArgumentError
  | [] => none
  | key :: rest =>
    if seen.contains key then some (.duplicateArgument key)
    else if keys.reserved.contains key then some (.reservedKey key)
    else if keys.accepts key then keys.fault? (key :: seen) rest
    else some (.unexpectedArgument key)

/-- The first reason to refuse a call with or without a first argument and with the given
keys. -/
def fault? (signature : Signature) (positional : Bool) (given : List String) :
    Option ArgumentError :=
  match signature with
  | noArguments => if positional || !given.isEmpty then some .noArgumentsAllowed else none
  | oneArgument =>
    match given with
    | key :: _ => some (.unexpectedArgument key)
    | [] => if positional then none else some .missingPositional
  | keyed keys =>
    if !positional then some .missingPositional
    else
      match keys.fault? [] given with
      | some fault => some fault
      | none => (keys.required.find? fun key => !given.contains key).map .missingArgument

/-- The signature as shown behind the name of a function. -/
def shown : Signature → String
  | noArguments => "()"
  | oneArgument => "(value)"
  | keyed keys =>
    "(value" ++ String.join (keys.required.map fun key => ", " ++ key ++ "=…") ++
      String.join (keys.optional.map fun key => ", [" ++ key ++ "=…]") ++
      (if keys.isOpen then ", …" else "") ++ ")"

end Signature

end GraphExpr
