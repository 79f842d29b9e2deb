import DeclOrder.Hcl.Syntax

/-! What a body says literally: its quoted texts, labels and heredocs in reading order. A template
with `n` marks says `n + 1` texts, the empty ones too. -/
namespace DeclOrder.Hcl

mutual

def Expr.literals : Expr → List String
  | .null => []
  | .bool _ => []
  | .number _ => []
  | .quoted parts => templateLiterals parts
  | .heredoc _ _ parts => templateLiterals parts
  | .list items => expressionLiterals items
  | .object items => itemLiterals items
  | .group inner => inner.literals
  | .variable _ => []
  | .call _ arguments _ => expressionLiterals arguments
  | .unary _ operand => operand.literals
  | .binary _ left right => left.literals ++ right.literals
  | .conditional condition yes no => condition.literals ++ yes.literals ++ no.literals
  | .attribute of _ => of.literals
  | .element of _ => of.literals
  | .index of key => of.literals ++ key.literals
  | .attributeSplat of => of.literals
  | .fullSplat of => of.literals
  | .listFor _ collection value guard => collection.literals ++ value.literals ++ guardLiterals guard
  | .objectFor _ collection key value _ guard =>
      collection.literals ++ key.literals ++ value.literals ++ guardLiterals guard

def expressionLiterals : List Expr → List String
  | [] => []
  | e :: rest => e.literals ++ expressionLiterals rest

def itemLiterals : List (Expr × Expr) → List String
  | [] => []
  | (key, value) :: rest => key.literals ++ value.literals ++ itemLiterals rest

def guardLiterals : Option Expr → List String
  | none => []
  | some e => e.literals

def Part.literals : Part → List String
  | .literal text => [text]
  | .interpolation _ value => value.literals
  | .choice _ condition yes otherwise _ => condition.literals ++ templateLiterals yes ++ otherwiseLiterals otherwise
  | .loop _ _ collection each _ => collection.literals ++ templateLiterals each

def otherwiseLiterals : Option (Strip × List Part) → List String
  | none => []
  | some (_, parts) => templateLiterals parts

def templateLiterals : List Part → List String
  | [] => [""]
  | .literal text :: rest => text :: literalsBehind rest
  | part :: rest => "" :: (part.literals ++ templateLiterals rest)

def literalsBehind : List Part → List String
  | [] => []
  | part :: rest => part.literals ++ templateLiterals rest

end

def Label.literals : Label → List String
  | .quoted text => [text]
  | .word _ => []

mutual

def Structure.literals : Structure → List String
  | .attribute _ value => value.literals
  | .block _ labels body => labels.flatMap Label.literals ++ bodyLiterals body

def bodyLiterals : Body → List String
  | [] => []
  | item :: rest => item.literals ++ bodyLiterals rest

end

end DeclOrder.Hcl
