import GraphExpr.Expr
import GraphExpr.Parser

/-! # The grammar of expressions

A primary expression is followed by attributes and calls behind dots. The names of functions
are resolved while a text is read, and the arguments of each call are checked against the
signature of its function.
-/

namespace GraphExpr.Grammar

open GraphExpr.Parser

inductive Argument where
  | named (key : String) (value : Expr)
  | positional (value : Expr)

/-- What may follow an expression behind a dot. -/
inductive Postfix where
  | attribute (name : String)
  | call (function : Function) (named : List (String × Expr)) (position : Nat)

/-- A part of the grammar, which may refer to whole expressions. -/
abbrev Rule (α : Type) := Parser Token Expr α

def symbol (token : Token) : Rule Unit :=
  ignored (equal Token.shown token)

def identifier : Rule String :=
  .within "identifier" <| .satisfy "identifier" fun
    | .identifier name => some name
    | _ => none

/-- The parameter of a lambda; a reserved word is taken here and refused by the lambda. -/
def parameter : Rule String :=
  .satisfy "parameter name" fun
    | .identifier name => some name
    | .this => some "this"
    | _ => none

def literal : Rule Literal :=
  .within "literal" <| .satisfy "literal" fun
    | .literal value => some value
    | _ => none

def comma : Rule Unit :=
  ignored (.within "comma" (equal Token.shown .comma))

def closeParen : Rule Unit :=
  ignored (.within "close paren" (equal Token.shown .closeParen))

def closeBracket : Rule Unit :=
  ignored (.within "close bracket" (equal Token.shown .closeBracket))

def list : Rule Expr :=
  .within "list" <| .map .list <|
    .delimited (symbol .openBracket) (.separated .recur comma) closeBracket

def parenthesized : Rule Expr :=
  .delimited (symbol .openParen) .recur closeParen

def lambda : Rule Expr :=
  .within "lambda" <|
    .tryMap (fun (name, _, body) position =>
      if isReserved name then .error (.reservedIdentifier name (position + 1))
      else .ok (.lambda name body)) <|
    .delimited (symbol .openParen) (.triple parameter (symbol .arrow) .recur) closeParen

def argument : Rule Argument :=
  oneOf [
    .map (fun (key, value) => .named key value) <|
      .pair identifier (.preceded (symbol .assign) .recur),
    .map .positional .recur]

def arguments : Rule (List Argument) :=
  .within "arguments" <| .delimited (symbol .openParen) (.separated argument comma) closeParen

def resolve (registry : Registry) (name : String) (position : Nat) :
    Except ParseError Function :=
  match registry.resolve? name with
  | some function => .ok function
  | none => .error (.unknownFunction name position)

/-- The arguments by key, none of which may lack one. -/
def namedOnly (function : Function) (position : Nat) :
    List Argument → Except ParseError (List (String × Expr))
  | [] => .ok []
  | .named key value :: rest => (namedOnly function position rest).map ((key, value) :: ·)
  | .positional _ :: _ =>
    .error (.invalidArguments function.name .unexpectedPositional position)

/-- The first argument, if it has no key, and the arguments by key. -/
def splitArguments (function : Function) (position : Nat) :
    List Argument → Except ParseError (Option Expr × List (String × Expr))
  | .positional value :: rest => (namedOnly function position rest).map (some value, ·)
  | arguments => (namedOnly function position arguments).map (none, ·)

def makeCall (function : Function) (positional : Option Expr) (named : List (String × Expr))
    (position : Nat) : Except ParseError Expr :=
  (Expr.call? function positional named).mapError fun reason =>
    .invalidArguments function.name reason position

def call (registry : Registry) : Rule Expr :=
  .tryMap (fun (name, arguments) position => do
    let function ← resolve registry name position
    let (positional, named) ← splitArguments function position arguments
    makeCall function positional named position) <|
  .pair identifier arguments

/-- A dot with the name of an attribute, or with a call whose first argument stands before the
dot. -/
def followUp (registry : Registry) : Rule Postfix :=
  .tryMap (fun (name, arguments) position => do
    match arguments with
    | none => .ok (.attribute name)
    | some arguments =>
      let function ← resolve registry name (position + 1)
      let (positional, named) ← splitArguments function (position + 1) arguments
      if positional.isSome then
        .error (.invalidArguments function.name .unexpectedPositional (position + 1))
      else .ok (.call function named (position + 1))) <|
  .preceded (symbol .dot) (.pair identifier (.optional arguments))

/-- An expression before any dot. -/
def primary (registry : Registry) : Rule Expr :=
  .within "primary" <| oneOf [
    .map .literal literal,
    list,
    .map (fun _ => .this) (symbol .this),
    lambda,
    parenthesized,
    call registry,
    .map .var identifier]

def applyFollowUps (receiver : Expr) : List Postfix → Except ParseError Expr
  | [] => .ok receiver
  | .attribute name :: rest => applyFollowUps (.access receiver name) rest
  | .call function named position :: rest => do
    applyFollowUps (← makeCall function (some receiver) named position) rest

def expression (registry : Registry) : Parser Token Empty Expr :=
  .recursive <| .within "expression" <|
    .tryMap (fun (receiver, followUps) _ => applyFollowUps receiver followUps) <|
      .pair (primary registry) (.many (followUp registry))

end GraphExpr.Grammar

namespace GraphExpr.Expr

/-- The byte at which a token starts, or the end of the text behind the last token. -/
def offsetOf (text : String) (tokens : List Token.Located) (index : Nat) : Nat :=
  match tokens[index]? with
  | some token => token.span.start.offset
  | none => text.utf8ByteSize

def parse (registry : Registry) (text : String) : Except ParseError Expr := do
  let tokens ← (Token.readAll text).mapError .noToken
  let input := (tokens.map Token.Located.token).toArray
  match (Grammar.expression registry).parse Token.shown input 0 with
  | .success stop expression =>
    match tokens[stop]? with
    | some extra => .error (.trailingInput extra.token.shown extra.span.start.offset)
    | none => .ok expression
  | .failure error => .error (error.mapPosition (offsetOf text tokens))
  | .endless => .error (.noAlternative 0 [])

end GraphExpr.Expr
