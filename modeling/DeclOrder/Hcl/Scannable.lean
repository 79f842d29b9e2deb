import DeclOrder.Hcl.Syntax

/-! Whether a scan by characters tells the quoted texts of a body from their marks. It takes two characters
that are the same for a doubled mark, and inside a directive quotes and backslashes for what they are
outside of it. -/
namespace DeclOrder.Hcl

/-- Whether a mark stands literally behind its own first character. That is spelled as three of these and a brace,
where the last two can be taken for a mark that is open. -/
def hasDoubled : List Char → Bool
  | '$' :: '$' :: '{' :: _ => true
  | '%' :: '%' :: '{' :: _ => true
  | _ :: rest => hasDoubled rest
  | [] => false

def textScannable (directive : Bool) (text : String) : Bool :=
  !hasDoubled text.toList && !(directive && (text.toList.contains '"' || text.toList.contains '\\'))

mutual

def Expr.scannable : Expr → Bool
  | .null => true
  | .bool _ => true
  | .number _ => true
  | .quoted parts => partsScannable false parts
  | .heredoc _ _ _ => true
  | .list items => expressionsScannable items
  | .object items => itemsScannable items
  | .group inner => inner.scannable
  | .variable _ => true
  | .call _ arguments _ => expressionsScannable arguments
  | .unary _ operand => operand.scannable
  | .binary _ left right => left.scannable && right.scannable
  | .conditional condition yes no => condition.scannable && yes.scannable && no.scannable
  | .attribute of _ => of.scannable
  | .element of _ => of.scannable
  | .index of key => of.scannable && key.scannable
  | .attributeSplat of => of.scannable
  | .fullSplat of => of.scannable
  | .listFor _ collection value guard => collection.scannable && value.scannable && guardScannable guard
  | .objectFor _ collection key value _ guard =>
      collection.scannable && key.scannable && value.scannable && guardScannable guard

def expressionsScannable : List Expr → Bool
  | [] => true
  | e :: rest => e.scannable && expressionsScannable rest

def itemsScannable : List (Expr × Expr) → Bool
  | [] => true
  | (key, value) :: rest => key.scannable && value.scannable && itemsScannable rest

def guardScannable : Option Expr → Bool
  | none => true
  | some e => e.scannable

def Part.scannable (directive : Bool) : Part → Bool
  | .literal text => textScannable directive text
  | .interpolation _ value => value.scannable
  | .choice _ condition yes otherwise _ => condition.scannable && partsScannable true yes && otherwiseScannable otherwise
  | .loop _ _ collection each _ => collection.scannable && partsScannable true each

def otherwiseScannable : Option (Strip × List Part) → Bool
  | none => true
  | some (_, parts) => partsScannable true parts

def partsScannable (directive : Bool) : List Part → Bool
  | [] => true
  | part :: rest => part.scannable directive && partsScannable directive rest

end

def Label.scannable : Label → Bool
  | .quoted text => textScannable false text
  | .word _ => true

mutual

def Structure.scannable : Structure → Bool
  | .attribute _ value => value.scannable
  | .block _ labels body => labels.all Label.scannable && bodyScannable body

def bodyScannable : Body → Bool
  | [] => true
  | item :: rest => item.scannable && bodyScannable rest

end

end DeclOrder.Hcl
