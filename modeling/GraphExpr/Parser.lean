import GraphExpr.ParseError

/-! # Parsers

Parsers are terms built from a few combinators, and one function runs them. A parser starts at
a position of the input and ends at a later one with a value, or fails with an error. Parsers
that recover from a failure of a part do not recover from a fatal error, the separator of a
list excepted.

A repetition that makes no progress, and a recursion that comes back to its starting position,
would never end; the outcome of such a run is `endless`.
-/

namespace GraphExpr

/-- A parser for symbols `ι` with values of the second type, which may stand inside a recursive
parser with values of the first type. -/
inductive Parser (ι : Type) : Type → Type → Type 1 where
  | satisfy {ρ α : Type} (expected : String) (accept : ι → Option α) : Parser ι ρ α
  | choice {ρ α : Type} (count : Nat) (alternative : Fin count → Parser ι ρ α) : Parser ι ρ α
  /-- Both in turn, with the value of the second. -/
  | preceded {ρ α β : Type} (first : Parser ι ρ α) (second : Parser ι ρ β) : Parser ι ρ β
  | map {ρ α β : Type} (f : α → β) (inner : Parser ι ρ α) : Parser ι ρ β
  /-- The value converted with the position where it starts, or refused. -/
  | tryMap {ρ α β : Type} (f : α → Nat → Except ParseError β) (inner : Parser ι ρ α) :
      Parser ι ρ β
  /-- As many times in turn as it succeeds with progress. -/
  | many {ρ α : Type} (inner : Parser ι ρ α) : Parser ι ρ (List α)
  /-- Items with separators between them, and perhaps one behind the last. -/
  | separated {ρ α : Type} (item : Parser ι ρ α) (separator : Parser ι ρ Unit) :
      Parser ι ρ (List α)
  | optional {ρ α : Type} (inner : Parser ι ρ α) : Parser ι ρ (Option α)
  | pair {ρ α β : Type} (first : Parser ι ρ α) (second : Parser ι ρ β) : Parser ι ρ (α × β)
  | triple {ρ α β γ : Type} (first : Parser ι ρ α) (second : Parser ι ρ β)
      (third : Parser ι ρ γ) : Parser ι ρ (α × β × γ)
  /-- Three in turn, with the value of the middle one. -/
  | delimited {ρ α : Type} (left : Parser ι ρ Unit) (inner : Parser ι ρ α)
      (right : Parser ι ρ Unit) : Parser ι ρ α
  /-- The same, its errors marked with the name of a rule. -/
  | within {ρ α : Type} (name : String) (inner : Parser ι ρ α) : Parser ι ρ α
  /-- The recursive parser around this place. -/
  | recur {ρ : Type} : Parser ι ρ ρ
  /-- A parser that may contain itself. -/
  | recursive {ρ α : Type} (body : Parser ι α α) : Parser ι ρ α

inductive Parser.Outcome (α : Type) where
  | success (position : Nat) (value : α)
  | failure (error : ParseError)
  | endless

namespace Parser

variable {ι : Type}

/-- Continues with the position and the value of a success. -/
def Outcome.andThen {α β : Type} (outcome : Outcome α) (next : Nat → α → Outcome β) :
    Outcome β :=
  match outcome with
  | .success position value => next position value
  | .failure error => .failure error
  | .endless => .endless

def endOfInput (position : Nat) : ParseError :=
  .unexpectedEnd "no more tokens" position []

/-- The error of a choice whose alternatives all failed: the one that got furthest, if it got
beyond the start. -/
def choiceError (start : Nat) (furthest : Option ParseError) : ParseError :=
  match furthest with
  | some error => if start < error.position then error else .noAlternative start []
  | none => .noAlternative start []

/-- The error that got further, the earlier one if neither did. -/
def further (furthest : Option ParseError) (error : ParseError) : Option ParseError :=
  match furthest with
  | some best => if best.position < error.position then some error else some best
  | none => some error

def chooseFrom {α : Type} (start : Nat) (furthest : Option ParseError) :
    (count : Nat) → (Fin count → Nat → Outcome α) → Outcome α
  | 0, _ => .failure (choiceError start furthest)
  | count + 1, attempt =>
    match attempt 0 start with
    | .success position value => .success position value
    | .endless => .endless
    | .failure error =>
      if error.isFatal then .failure error
      else chooseFrom start (further furthest error) count fun i => attempt i.succ

/-- Repeats a step while it makes progress, at most the given number of times. -/
def repeatFor {α : Type} (step : Nat → Outcome α) : Nat → Nat → Outcome (List α)
  | 0, _ => .endless
  | rounds + 1, position =>
    match step position with
    | .success next value =>
      if position < next then
        (repeatFor step rounds next).andThen fun stop values => .success stop (value :: values)
      else .success position []
    | .endless => .endless
    | .failure error => if error.isFatal then .failure error else .success position []

/-- Repeats a separator and an item behind the first item, at most the given number of times.
A failing separator ends the list, whatever its error. -/
def separatedFor {α : Type} (item : Nat → Outcome α) (separator : Nat → Outcome Unit) :
    Nat → Nat → Outcome (List α)
  | 0, _ => .endless
  | rounds + 1, position =>
    match separator position with
    | .failure _ => .success position []
    | .endless => .endless
    | .success behind _ =>
      match item behind with
      | .success next value =>
        (separatedFor item separator rounds next).andThen fun stop values =>
          .success stop (value :: values)
      | .endless => .endless
      | .failure error => if error.isFatal then .failure error else .success behind []

/-- Unfolds a recursion at most the given number of times. -/
def recurFor {α : Type} (body : (Nat → Outcome α) → Nat → Outcome α) : Nat → Nat → Outcome α
  | 0, _ => .endless
  | depth + 1, position => body (recurFor body depth) position

/-- Rounds that are enough for every repetition with progress from a position on: each takes
a symbol at least. -/
def roundsFrom (input : Array ι) (position : Nat) : Nat :=
  input.size - position + 1

/-- Runs a parser at a position. The argument `again` runs the recursive parser around it. -/
def run (shown : ι → String) (input : Array ι) :
    {ρ α : Type} → Parser ι ρ α → (again : Nat → Outcome ρ) → Nat → Outcome α
  | _, _, .satisfy expected accept, _, position =>
    match input[position]? with
    | none => .failure (endOfInput position)
    | some symbol =>
      match accept symbol with
      | some value => .success (position + 1) value
      | none => .failure (.unexpected expected (shown symbol) position [])
  | _, _, .choice count alternative, again, position =>
    chooseFrom position none count fun i start => run shown input (alternative i) again start
  | _, _, .preceded first second, again, position =>
    (run shown input first again position).andThen fun next _ => run shown input second again next
  | _, _, .map f inner, again, position =>
    (run shown input inner again position).andThen fun next value => .success next (f value)
  | _, _, .tryMap f inner, again, position =>
    (run shown input inner again position).andThen fun next value =>
      match f value position with
      | .ok converted => .success next converted
      | .error error => .failure error
  | _, _, .many inner, again, position =>
    repeatFor (fun start => run shown input inner again start) (roundsFrom input position) position
  | _, _, .separated item separator, again, position =>
    match run shown input item again position with
    | .success next value =>
      (separatedFor (fun start => run shown input item again start)
        (fun start => run shown input separator again start)
        (roundsFrom input next) next).andThen fun stop values => .success stop (value :: values)
    | .endless => .endless
    | .failure error => if error.isFatal then .failure error else .success position []
  | _, _, .optional inner, again, position =>
    match run shown input inner again position with
    | .success next value => .success next (some value)
    | .endless => .endless
    | .failure error => if error.isFatal then .failure error else .success position none
  | _, _, .pair first second, again, position =>
    (run shown input first again position).andThen fun next a =>
      (run shown input second again next).andThen fun stop b => .success stop (a, b)
  | _, _, .triple first second third, again, position =>
    (run shown input first again position).andThen fun p a =>
      (run shown input second again p).andThen fun q b =>
        (run shown input third again q).andThen fun stop c => .success stop (a, b, c)
  | _, _, .delimited left inner right, again, position =>
    (run shown input left again position).andThen fun p _ =>
      (run shown input inner again p).andThen fun q value =>
        (run shown input right again q).andThen fun stop _ => .success stop value
  | _, _, .within name inner, again, position =>
    match run shown input inner again position with
    | .failure error => .failure (error.within name)
    | outcome => outcome
  | _, _, .recur, again, position => again position
  | _, _, .recursive body, _, position =>
    recurFor (fun again start => run shown input body again start)
      (roundsFrom input position) position

def parse {α : Type} (parser : Parser ι Empty α) (shown : ι → String) (input : Array ι)
    (position : Nat) : Outcome α :=
  parser.run shown input (fun _ => .endless) position

def oneOf {ρ α : Type} (alternatives : List (Parser ι ρ α)) : Parser ι ρ α :=
  .choice alternatives.length alternatives.get

def equal {ρ : Type} [DecidableEq ι] (shown : ι → String) (symbol : ι) : Parser ι ρ ι :=
  .satisfy (shown symbol) fun found => if found = symbol then some found else none

def ignored {ρ α : Type} (inner : Parser ι ρ α) : Parser ι ρ Unit :=
  .map (fun _ => ()) inner

end Parser

end GraphExpr
