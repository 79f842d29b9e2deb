/-! Syntax of an HCL body. Contents are decoded: quoted text, labels and template literals stand
without their escapes, and nothing depends on where or with what white space a thing was written.
Binary operators nest to the right as written; precedence is left to whoever evaluates. -/
namespace DeclOrder.Hcl

inductive UnaryOp where
  | negate | complement
  deriving DecidableEq, Repr

inductive BinaryOp where
  | equal | unequal | lessEqual | less | greaterEqual | greater
  | plus | minus | times | divided | modulo | both | either
  deriving DecidableEq, Repr

structure Strip where
  before : Bool
  after : Bool
  deriving DecidableEq, Repr

mutual

inductive Expr where
  | null
  | bool (value : Bool)
  | number (digits : String)
  | quoted (parts : List Part)
  | heredoc (indented : Bool) (marker : String) (parts : List Part)
  | list (items : List Expr)
  | object (items : List (Expr × Expr))
  | group (inner : Expr)
  | variable (name : String)
  | call (path : List String) (arguments : List Expr) (spread : Bool)
  | unary (op : UnaryOp) (operand : Expr)
  | binary (op : BinaryOp) (left right : Expr)
  | conditional (condition yes no : Expr)
  | attribute (of : Expr) (name : String)
  | element (of : Expr) (index : Nat)
  | index (of key : Expr)
  | attributeSplat (of : Expr)
  | fullSplat (of : Expr)
  | listFor (names : List String) (collection value : Expr) (guard : Option Expr)
  | objectFor (names : List String) (collection key value : Expr) (grouping : Bool) (guard : Option Expr)

inductive Part where
  | literal (text : String)
  | interpolation (strip : Strip) (value : Expr)
  | choice (strip : Strip) (condition : Expr) (yes : List Part) (otherwise : Option (Strip × List Part))
      (close : Strip)
  | loop (strip : Strip) (names : List String) (collection : Expr) (each : List Part) (close : Strip)

end

inductive Label where
  | quoted (text : String)
  | word (text : String)
  deriving DecidableEq, Repr

def Label.text : Label → String
  | .quoted text => text
  | .word text => text

inductive Structure where
  | attribute (name : String) (value : Expr)
  | block (kind : String) (labels : List Label) (body : List Structure)

def Structure.attributeName? : Structure → Option String
  | .attribute name _ => some name
  | .block .. => none

abbrev Body := List Structure

end DeclOrder.Hcl
