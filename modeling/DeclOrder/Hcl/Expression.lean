import DeclOrder.Hcl.Template

/-! Expressions. Each production is written over readers for the expressions and templates inside
it; `inner` ties the knot by nesting depth, and every level of it takes a character of the text. -/
namespace DeclOrder.Hcl

def binaryOp? : List Char → Option (BinaryOp × List Char)
  | '=' :: '=' :: rest => some (.equal, rest)
  | '!' :: '=' :: rest => some (.unequal, rest)
  | '<' :: '=' :: rest => some (.lessEqual, rest)
  | '>' :: '=' :: rest => some (.greaterEqual, rest)
  | '&' :: '&' :: rest => some (.both, rest)
  | '|' :: '|' :: rest => some (.either, rest)
  | '/' :: '/' :: _ => none
  | '<' :: rest => some (.less, rest)
  | '>' :: rest => some (.greater, rest)
  | '+' :: rest => some (.plus, rest)
  | '-' :: rest => some (.minus, rest)
  | '*' :: rest => some (.times, rest)
  | '/' :: rest => some (.divided, rest)
  | '%' :: rest => some (.modulo, rest)
  | _ => none

def startsFor : List Char → Bool
  | 'f' :: 'o' :: 'r' :: '/' :: '/' :: _ => true
  | 'f' :: 'o' :: 'r' :: '/' :: '*' :: _ => true
  | 'f' :: 'o' :: 'r' :: c :: _ => c == ' ' || c == '\t' || c == '\r' || c == '\n' || c == '#'
  | _ => false

namespace Read
open Reader

def unaryOp : Reader UnaryOp := fun text =>
  match text with
  | '-' :: rest => some (.negate, rest)
  | '!' :: rest => some (.complement, rest)
  | _ => none

def guard? (inner : Inner) : Reader (Option Expr) :=
  tried (do keyword "if"; spaced (inner.expression .lines))

def listFor (inner : Inner) : Reader Expr := do
  let (names, collection) ← binding inner
  char ':'
  let value ← spaced (inner.expression .lines)
  return .listFor names collection value (← guard? inner)

def objectFor (inner : Inner) : Reader Expr := do
  let (names, collection) ← binding inner
  char ':'
  let key ← spaced (inner.expression .lines)
  keyword "=>"
  let value ← spaced (inner.expression .lines)
  let grouping ← given (keyword "...")
  space
  return .objectFor names collection key value grouping (← guard? inner)

def listItems (inner : Inner) (scope : Scope) : Reader Expr := do
  let items ← separated (spaced (inner.expression scope.items))
  if !items.isEmpty then
    let _ ← given (char ',')
    space
  return .list items

def listLike (inner : Inner) (scope : Scope) : Reader Expr := do
  char '['
  space
  let value ← if startsFor (← left) then listFor inner else listItems inner scope
  space
  char ']'
  return value

/-- A key and its value on one line, with what ends the item: a comma, the end of the line, or the
brace that follows. -/
def objectItem (inner : Inner) : Reader (Expr × Expr) := do
  let key ← inner.expression .line
  gap
  if ← given (char '=') then pure () else char ':'
  gap
  let value ← inner.expression .line
  gap
  match ← left with
  | '}' :: _ => return (key, value)
  | ',' :: _ => char ','
  | _ => lineEnd
  space
  return (key, value)

def objectItems (inner : Inner) : Reader Expr := do
  return .object (← many (objectItem inner))

def objectLike (inner : Inner) : Reader Expr := do
  char '{'
  space
  let value ← if startsFor (← left) then objectFor inner else objectItems inner
  space
  char '}'
  return value

def group (inner : Inner) : Reader Expr := do
  char '('
  let value ← spaced (inner.expression .lines)
  char ')'
  return .group value

def arguments (inner : Inner) (scope : Scope) : Reader (List Expr × Bool) := do
  char '('
  let values ← separated (spaced (inner.expression scope.items))
  let spread ← if values.isEmpty then pure false
    else do
      if ← given (keyword "...") then pure true
      else
        let _ ← given (char ',')
        pure false
  space
  char ')'
  return (values, spread)

def callOf (inner : Inner) (scope : Scope) (name : String) : Reader Expr := do
  let further ← many (do
    trivia scope.extent
    keyword "::"
    trivia scope.extent
    identifier)
  trivia scope.extent
  let (values, spread) ← arguments inner scope
  return .call (name :: further) values spread

def startsCall (extent : Extent) (text : List Char) : Bool :=
  match skipTrivia extent text with
  | '(' :: _ => true
  | ':' :: ':' :: _ => true
  | _ => false

def named (inner : Inner) (scope : Scope) : Reader Expr := do
  let name ← identifier
  if startsCall scope.extent (← left) then callOf inner scope name
  else if name = "null" then return .null
  else if name = "true" then return .bool true
  else if name = "false" then return .bool false
  else return .variable name

def primary (inner : Inner) (scope : Scope) : Reader Expr := do
  match ← left with
  | '"' :: _ => return .quoted (← quotedTemplate inner)
  | '[' :: _ => listLike inner scope
  | '{' :: _ => objectLike inner
  | '(' :: _ => group inner
  | '<' :: _ => heredoc inner
  | c :: _ => if Text.isDigit c then return .number (← number) else named inner scope
  | [] => failure

def access (inner : Inner) (extent : Extent) : Reader (Expr → Expr) := do
  trivia extent
  match ← left with
  | '.' :: '.' :: _ => failure
  | '.' :: '*' :: rest =>
      set rest
      return .attributeSplat
  | '.' :: c :: rest =>
      set (c :: rest)
      if Text.isDigit c then
        let place ← wholeNumber
        return (.element · place)
      else
        let name ← identifier
        return (.attribute · name)
  | _ =>
      char '['
      space
      if ← given (char '*') then
        space
        char ']'
        return .fullSplat
      else
        let key ← inner.expression .lines
        space
        char ']'
        return (.index · key)

def operand (inner : Inner) (scope : Scope) : Reader Expr := do
  let ops ← many (do
    let op ← unaryOp
    trivia scope.extent
    return op)
  let core ← primary inner scope
  let accesses ← many (access inner scope.extent)
  return ops.foldr .unary (accesses.foldl (fun e f => f e) core)

def conditional (inner : Inner) (scope : Scope) (condition : Expr) : Reader Expr := do
  char '?'
  trivia scope.extent
  let yes ← inner.expression scope.branch
  trivia scope.extent
  char ':'
  trivia scope.extent
  return .conditional condition yes (← inner.expression scope.branch)

def binary (inner : Inner) (scope : Scope) (left : Expr) (op : BinaryOp) : Reader Expr := do
  trivia scope.extent
  return .binary op left (← inner.expression scope.behindOperator)

def expression (inner : Inner) (scope : Scope) : Reader Expr := do
  let first ← operand inner scope
  let behind ← left
  trivia scope.extent
  let ahead ← left
  if scope.conditional ∧ ahead.head? = some '?' then conditional inner scope first
  else match binaryOp? ahead with
    | some (op, rest) =>
        set rest
        binary inner scope first op
    | none =>
        set behind
        return first

end Read

def inner : List Char → Inner
  | [] => ⟨fun _ => failure, failure⟩
  | _ :: bound =>
      ⟨fun scope text => Read.expression (inner bound) scope text,
        fun text => Read.parts (inner bound) .directive text⟩

def Read.fullExpression (scope : Scope) : Reader Expr := fun text => (inner text).expression scope text

end DeclOrder.Hcl
