import DeclOrder.Hcl.Syntax

/-! Whether every heredoc of a body has a text. One without any ends right behind its opening only if its
marker does not come again, so where it ends depends on all that follows. -/
namespace DeclOrder.Hcl

mutual

def Expr.filled : Expr → Bool
  | .null => true
  | .bool _ => true
  | .number _ => true
  | .quoted parts => partsFilled parts
  | .heredoc _ _ parts => !parts.isEmpty && partsFilled parts
  | .list items => expressionsFilled items
  | .object items => itemsFilled items
  | .group inner => inner.filled
  | .variable _ => true
  | .call _ arguments _ => expressionsFilled arguments
  | .unary _ operand => operand.filled
  | .binary _ left right => left.filled && right.filled
  | .conditional condition yes no => condition.filled && yes.filled && no.filled
  | .attribute of _ => of.filled
  | .element of _ => of.filled
  | .index of key => of.filled && key.filled
  | .attributeSplat of => of.filled
  | .fullSplat of => of.filled
  | .listFor _ collection value guard => collection.filled && value.filled && guardFilled guard
  | .objectFor _ collection key value _ guard => collection.filled && key.filled && value.filled && guardFilled guard

def expressionsFilled : List Expr → Bool
  | [] => true
  | e :: rest => e.filled && expressionsFilled rest

def itemsFilled : List (Expr × Expr) → Bool
  | [] => true
  | (key, value) :: rest => key.filled && value.filled && itemsFilled rest

def guardFilled : Option Expr → Bool
  | none => true
  | some e => e.filled

def Part.filled : Part → Bool
  | .literal _ => true
  | .interpolation _ value => value.filled
  | .choice _ condition yes otherwise _ => condition.filled && partsFilled yes && otherwiseFilled otherwise
  | .loop _ _ collection each _ => collection.filled && partsFilled each

def otherwiseFilled : Option (Strip × List Part) → Bool
  | none => true
  | some (_, parts) => partsFilled parts

def partsFilled : List Part → Bool
  | [] => true
  | part :: rest => part.filled && partsFilled rest

end

mutual

def Structure.filled : Structure → Bool
  | .attribute _ value => value.filled
  | .block _ _ body => bodyFilled body

def bodyFilled : Body → Bool
  | [] => true
  | item :: rest => item.filled && bodyFilled rest

end

end DeclOrder.Hcl
