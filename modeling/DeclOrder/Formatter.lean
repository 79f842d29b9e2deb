import DeclOrder.Hcl.Document
import DeclOrder.Layout.Canonical

/-! Formatters, which rules use for the texts they suggest, and the canonical one. -/
namespace DeclOrder

inductive FormatError where
  | malformed
  /-- The canonical layout of the document is not one. -/
  | broken
  | refused (reason : String)
  deriving DecidableEq, Repr

def FormatError.message : FormatError → String
  | .malformed => Hcl.syntaxErrorText
  | .broken => "formatted text does not parse: " ++ Hcl.syntaxErrorText
  | .refused reason => reason

/-- What becomes of a text. Where a formatter panics nothing does. -/
abbrev Formatter := List Char → Option (Except FormatError (List Char))

def canonicalFormatter : Formatter := fun text =>
  if (Hcl.parse? text).isNone then some (.error .malformed)
  else do
    let out ← Layout.canonical text
    return if (Hcl.parse? out).isNone then .error .broken else .ok out

end DeclOrder
