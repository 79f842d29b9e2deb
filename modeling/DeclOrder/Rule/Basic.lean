import DeclOrder.Finding
import DeclOrder.Formatter
import DeclOrder.Source.Module

/-! Rules, what they report and why they can fail on a file. -/
namespace DeclOrder

inductive CheckError where
  | read (path : RepoPath) (reason : String)
  | missingLabel (path : RepoPath) (kind : String) (line : Nat)
  | format (path : RepoPath) (cause : FormatError)
  deriving DecidableEq, Repr

namespace CheckError

def path : CheckError → RepoPath
  | .read path _ => path
  | .missingLabel path _ _ => path
  | .format path _ => path

def outline : CheckError → String
  | .read path reason => path.text ++ ": content unavailable: " ++ reason
  | .missingLabel path kind line => path.text ++ ":" ++ toString line ++ ": `" ++ kind ++ "` block has no name label"
  | .format path _ => path.text ++ ": cannot format recommended block order"

def detail : CheckError → String
  | .format path cause => (format path cause).outline ++ ": " ++ cause.message
  | e => e.outline

def listing (errors : List CheckError) : String :=
  let noun := if errors.length = 1 then "error" else "errors"
  toString errors.length ++ " " ++ noun ++ " occurred:" ++
    String.join (errors.map (fun e => "\n\t* " ++ e.detail))

end CheckError

/-- What a rule reports. The severity is decided by the policy. -/
structure Issue where
  code : String
  subject : String
  message : String
  range : SourceRange
  help : Option String
  data : Json

/-- An issue with the name and the link of the rule that it is reported under. -/
structure Emitted where
  rule : String
  link : String
  issue : Issue

structure Outcome where
  issues : List Emitted
  errors : List CheckError

structure Rule where
  name : String
  enabled : Bool
  severity : Severity
  link : String
  /-- What the rule makes of the files of a module and of the paths that the rule of some name is to
  ignore; nothing if it panics. -/
  check : Module → (String → RepoPath → Bool) → Option Outcome

def referenceLink (rule : String) : String :=
  "https://github.com/tfguard/tfguard/blob/main/docs/rules/" ++ rule ++ ".md"

end DeclOrder
