import DeclOrder.Command.Flags
import DeclOrder.Config.Basic

/-! The commands of the tool and the arguments that ask for them. -/
namespace DeclOrder

inductive SchemaKind where
  | report
  | config
  deriving DecidableEq, Repr

inductive Command where
  | check (report : String) (comment : Option String)
  | markdown (report : String) (output : Option String)
  | annotations (report : String) (limit : Nat)
  | explain (identifier : String)
  | rules
  | schema (kind : SchemaKind)
  deriving DecidableEq, Repr

namespace Command

structure Options where
  root : String
  config : String
  overrides : Overrides
  deriving DecidableEq, Repr

def defaultRoot : String := "."

def defaultReport : String := "artifacts/tfguard/report.json"

def defaultMarkdown : String := "artifacts/tfguard/comment.md"

def defaultLimit : Nat := 10

def valued (name : String) : Flag := ⟨name, none, true, fun _ => true⟩

def upperFlags : List Flag :=
  [valued "repo-root", valued "config", valued "profile",
    ⟨"max-findings", none, true, fun text => (signedBelow? (twoTo 32) text.toList).isSome⟩]

def optionsOf (g : Given) : Options where
  root := (g.value? "repo-root").getD defaultRoot
  config := (g.value? "config").getD Config.fileName
  overrides := ⟨g.value? "profile", (g.value? "max-findings").bind (fun text => signedBelow? (twoTo 32) text.toList)⟩

def checkFlags : List Flag :=
  [valued "report-out", ⟨"write-markdown", none, false, fun _ => true⟩, valued "markdown-out"]

def checkOf (g : Given) : Command :=
  .check ((g.value? "report-out").getD defaultReport)
    (if g.has "write-markdown" then some ((g.value? "markdown-out").getD defaultMarkdown) else none)

def markdownFlags : List Flag := [valued "report", ⟨"output", some 'o', true, fun _ => true⟩]

def markdownOf (g : Given) : Command := .markdown ((g.value? "report").getD defaultReport) (g.value? "output")

def annotationsFlags : List Flag :=
  [valued "report", ⟨"max", none, true, fun text => (wholeBelow? (twoTo 64) text.toList).isSome⟩]

def annotationsOf (g : Given) : Command :=
  .annotations ((g.value? "report").getD defaultReport)
    (((g.value? "max").bind (fun text => wholeBelow? (twoTo 64) text.toList)).getD defaultLimit)

def schemaOf : List String → Except Halt Command
  | [] => .ok (.schema .report)
  | ["report"] => .ok (.schema .report)
  | ["config"] => .ok (.schema .config)
  | _ => .error .misuse

def explainOf : List String → Except Halt Command
  | [identifier] => .ok (.explain identifier)
  | _ => .error .misuse

def flagged (flags : List Flag) (make : Given → Command) (arguments : List String) : Except Halt Command := do
  let (g, _) ← scan flags false .empty arguments
  if g.plain.isEmpty then return make g else .error .misuse

def unflagged (make : List String → Except Halt Command) (arguments : List String) : Except Halt Command := do
  let (g, _) ← scan [] false .empty arguments
  make g.plain

def ofArguments (name : String) (arguments : List String) : Except Halt Command :=
  match name with
  | "check" => flagged checkFlags checkOf arguments
  | "md" => flagged markdownFlags markdownOf arguments
  | "annotations" => flagged annotationsFlags annotationsOf arguments
  | "explain" => unflagged explainOf arguments
  | "rules" => flagged [] (fun _ => .rules) arguments
  | "schema" => unflagged schemaOf arguments
  | "help" => .error .help
  | _ => .error .misuse

def parse (arguments : List String) : Except Halt (Options × Command) := do
  let (g, rest) ← scan upperFlags true .empty arguments
  match rest with
  | [] => .error .misuse
  | name :: more => return (optionsOf g, ← ofArguments name more)

end Command
end DeclOrder
