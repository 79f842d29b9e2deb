import DeclOrder.Rule.OutputOrder
import DeclOrder.Text.Bytes

/-! Explanations of rules and codes, and the list of rules. -/
namespace DeclOrder

structure Explanation where
  title : String
  description : String
  remediation : String
  before : String
  after : String
  deriving DecidableEq, Repr

namespace Explanation

def lines (texts : List String) : String := "\n".intercalate texts

def unsortedExample : String := lines [
  "output \"vpc_id\" \x7b",
  "  value = aws_vpc.main.id",
  "\x7d",
  "",
  "output \"subnet_ids\" \x7b",
  "  value = aws_subnet.private[*].id",
  "\x7d"]

def sortedExample : String := lines [
  "output \"subnet_ids\" \x7b",
  "  value = aws_subnet.private[*].id",
  "\x7d",
  "",
  "output \"vpc_id\" \x7b",
  "  value = aws_vpc.main.id",
  "\x7d"]

def outputOrder : Explanation where
  title := "Terraform Output Order"
  description := lines [
    "Checks that `output` blocks in each Terraform file are declared in lexicographic",
    "order by output name.",
    "",
    "Sorted outputs make modules easier to scan and keep diffs small when outputs are",
    "added: a new output lands in a predictable place instead of wherever the author",
    "happened to append it.",
    "",
    "Only top-level `output` blocks are considered, per file. Names are compared",
    "byte-wise, so `Zeta` sorts before `alpha`. This rule is disabled by default."]
  remediation := lines [
    "Reorder the `output` blocks so their names are sorted. The finding message",
    "contains the full recommended block sequence, formatted, with each block's",
    "comments and body preserved; replace the file's outputs with it.",
    "",
    "Enable the rule in `tfguard.toml`:",
    "",
    "    [rules.terraform_output_order]",
    "    enabled = true"]
  before := unsortedExample
  after := sortedExample

def unsortedOutputs : Explanation where
  title := "Unsorted Outputs"
  description := lines [
    "A file declares `output` blocks whose names are not in lexicographic order.",
    "The finding is anchored at the first `output` block of the file, even when a",
    "later block is the one out of place."]
  remediation := lines [
    "Replace the file's `output` blocks with the recommended order from the finding",
    "message."]
  before := unsortedExample
  after := sortedExample

def find? (identifier : String) : Option Explanation :=
  if identifier = OutputOrder.ruleName then some outputOrder
  else if identifier = OutputOrder.unsortedCode then some unsortedOutputs
  else none

def text (e : Explanation) : String :=
  e.title ++ "\n" ++ String.ofList (List.replicate e.title.utf8ByteSize '=') ++ "\n\n" ++
  e.description ++ "\n\nRemediation\n-----------\n" ++ e.remediation ++
  "\n\nExamples\n--------\n\nBefore (violation):\n```hcl\n" ++ e.before ++
  "\n```\n\nAfter (fixed):\n```hcl\n" ++ e.after ++ "\n```\n"

def notFound (identifier : String) (rules codes : List String) : String :=
  "Unknown rule or code: " ++ identifier ++ "\n\nAvailable rules:\n" ++
  String.join (rules.map (fun name => "  - " ++ name ++ "\n")) ++ "\nAvailable codes:\n" ++
  String.join (codes.map (fun code => "  - " ++ code ++ "\n"))

end Explanation

structure RuleEntry where
  name : String
  enabled : Bool
  severity : Severity
  link : String
  deriving DecidableEq, Repr

namespace RuleEntry

def ofRule (r : Rule) : RuleEntry := ⟨r.name, r.enabled, r.severity, r.link⟩

def all : List RuleEntry := (allRules canonicalFormatter).map ofRule

def padded (width : Nat) (text : String) : Option String := (Layout.pad width text.toList).map String.ofList

def row (width : Nat) (e : RuleEntry) : Option String := do
  let name ← padded width e.name
  let state ← padded 8 (if e.enabled then "enabled" else "disabled")
  return name ++ "  " ++ state ++ "  " ++ (← padded 7 e.severity.text) ++ "  " ++ e.link ++ "\n"

/-- One line for each rule. Names are as wide as the longest one has bytes. -/
def listing (entries : List RuleEntry) : Option String := do
  let width := entries.foldl (fun w e => max w e.name.utf8ByteSize) 0
  return String.join (← entries.mapM (row width))

end RuleEntry
end DeclOrder
