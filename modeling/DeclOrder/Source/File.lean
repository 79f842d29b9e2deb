import DeclOrder.Hcl.Document
import DeclOrder.Position

/-! Source files as rules see them: the text with its top-level blocks, or the reason why it is not
available. -/
namespace DeclOrder

/-- A top-level block. Its range reaches from the kind to the closing brace, its header to the last
label. -/
structure Block where
  kind : String
  labels : List String
  range : SourceRange
  header : SourceRange
  deriving DecidableEq, Repr

def Block.name? (b : Block) : Option String := b.labels.head?

inductive Content where
  | parsed (source : List Char) (blocks : List Block)
  | unavailable (reason : String)
  deriving DecidableEq, Repr

structure SourceFile where
  path : RepoPath
  content : Content
  deriving DecidableEq, Repr

def SourceFile.blocks (f : SourceFile) : List Block :=
  match f.content with
  | .parsed _ blocks => blocks
  | .unavailable _ => []

namespace Source

def blockOf? (index : LineIndex) (path : RepoPath) (placed : Hcl.Placed) : Option Block :=
  match placed.item with
  | .attribute .. => none
  | .block kind labels _ =>
      let start := index.offsetOf placed.start
      some ⟨kind, labels.map Hcl.Label.text, index.range path start (index.offsetOf placed.stop),
        index.range path start (index.offsetOf placed.header)⟩

def parse? (path : RepoPath) (text : List Char) : Option SourceFile :=
  (Hcl.parsePlaced? text).map (fun items =>
    ⟨path, .parsed text (items.filterMap (blockOf? (.ofText text) path))⟩)

def syntaxReason (path : RepoPath) : String := "parse " ++ path.text ++ ": " ++ Hcl.syntaxErrorText

/-- The file of a text; one that is not a document is unavailable. -/
def ofText (path : RepoPath) (text : List Char) : SourceFile :=
  (parse? path text).getD ⟨path, .unavailable (syntaxReason path)⟩

end Source
end DeclOrder
