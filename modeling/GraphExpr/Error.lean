import GraphExpr.ParseError

/-! # Errors

Errors of an expression are part of its meaning: they take the place of the value that could
not be computed. Errors of the store, of the settings and of the program itself end an
evaluation.
-/

namespace GraphExpr

inductive EvalError where
  | custom (text : String)
  | conversion (expression target : String)
  | unknownAttribute (name valueType : String)
  | incomparable (left right : String)
  | invalidDate
  | invalidQuantity (text : String)
  | invalidAnnotations (reason : String)
  | permissionDenied (action : String)
  | notFound (sort id : String)
  | notSupported (feature : String)
  | undefinedVariable (name : String)
  | noCurrentEntry
  | emptyRange
  | circularReference (expression : String)
  | tooDeep (limit : Nat)
  deriving DecidableEq

def EvalError.message : EvalError → String
  | custom text => text
  | conversion expression target =>
    "The expression \"" ++ expression ++ "\" cannot be converted to " ++ target ++ "."
  | unknownAttribute name valueType =>
    "Unknown attribute \"" ++ name ++ "\" on " ++ valueType ++ " value."
  | incomparable left right => "Cannot compare " ++ left ++ " with " ++ right ++ "."
  | invalidDate => "Invalid date."
  | invalidQuantity text => "Invalid quantity: " ++ text
  | invalidAnnotations reason => "Invalid annotation: " ++ reason
  | permissionDenied action => "You do not have permission to " ++ action ++ "."
  | notFound sort id => sort ++ " \"" ++ id ++ "\" not found."
  | notSupported feature => feature ++ " is not yet supported."
  | undefinedVariable name => "Variable \"" ++ name ++ "\" is not defined."
  | noCurrentEntry => "There is no current entry, so \"this\" cannot be used here."
  | emptyRange => "Cannot determine the range of an empty set."
  | circularReference expression =>
    "Circular reference while evaluating \"" ++ expression ++ "\"."
  | tooDeep limit => "Expressions are nested more than " ++ toString limit ++ " levels deep."

/-- Errors of an expression, from reading it or from evaluating it. -/
inductive ExprError where
  | parse (error : ParseError)
  | eval (error : EvalError)
  deriving DecidableEq

def ExprError.message : ExprError → String
  | parse error => "Parse error: " ++ error.message
  | eval error => error.message

inductive StoreError where
  | query (reason : String)
  | fixture (reason : String)
  | unavailable (service : String)
  deriving DecidableEq

def StoreError.message : StoreError → String
  | query reason => "Query failed: " ++ reason
  | fixture reason => "Invalid fixture: " ++ reason
  | unavailable service => "Store unavailable: " ++ service

inductive Error where
  | expression (error : ExprError)
  | store (error : StoreError)
  | config (reason : String)
  | internal (reason : String)
  deriving DecidableEq

namespace Error

def message : Error → String
  | expression error => error.message
  | store error => "Store error: " ++ error.message
  | config reason => "Config error: " ++ reason
  | internal reason => "Internal error: " ++ reason

/-- Whether the error is one of an expression, which a larger evaluation survives. -/
def isRecoverable : Error → Bool
  | expression _ => true
  | _ => false

abbrev eval (error : EvalError) : Error :=
  .expression (.eval error)

end Error

end GraphExpr
