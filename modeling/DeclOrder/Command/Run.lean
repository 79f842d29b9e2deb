import DeclOrder.Command.Basic
import DeclOrder.Command.Failure
import DeclOrder.Config.Schema
import DeclOrder.Explanation
import DeclOrder.Json.Writing
import DeclOrder.Report.Schema
import DeclOrder.View.Annotation
import DeclOrder.View.Markdown

/-! Running commands. A check leaves a report in any case, if it can be saved: the one on the module,
or one that says why there is none. -/
namespace DeclOrder

structure Exit where
  code : Nat
  output : String
  errors : String
  deriving DecidableEq, Repr

namespace Command

def toolErrorCode : Nat := 1

def misuseCode : Nat := 2

/-- The exit status of a run that panics. -/
def crashCode : Nat := 101

def status : Option Exit → Nat
  | some exit => exit.code
  | none => crashCode

def printed (text : String) : Exit := ⟨0, text, ""⟩

def attempt {α ε φ : Type} (wrap : ε → φ) (a : Action (Except ε α)) : ExceptT φ Action α :=
  ExceptT.mk (do return (← a).mapError wrap)

/-! Checks. -/

def findRoot (path : String) : ExceptT CheckFailure Action String := ExceptT.mk do
  match ← Action.lookAt path with
  | some (root, .directory _) => return .ok root
  | some (root, .file _) => return .error (.missingRoot root)
  | none => return .error (.missingRoot path)

def configText (root config : String) : ExceptT CheckFailure Action String := ExceptT.mk do
  let path := String.ofList (Path.join root.toList config.toList)
  match ← Action.readText path with
  | .ok text => return .ok text
  | .error .notFound => return .ok ""
  | .error e => return .error (.unreadableConfig path e)

def markdownText (r : Report) : String := View.Markdown.render (View.ofReport r)

def saveReport (path : String) (r : Report) : ExceptT CheckFailure Action Unit := do
  let text ← attempt .reportNotWritten (pure r.written)
  attempt .reportNotSaved (Action.saveText path text)

def checkModule (o : Options) (report : String) (comment : Option String) :
    ExceptT CheckFailure Action (String × Report) := do
  let root ← findRoot o.root
  let text ← configText root o.config
  let (found, _) ← attempt .unchecked (Check.run root text o.overrides)
  saveReport report found
  match comment with
  | some path => attempt .markdownNotSaved (Action.saveText path (markdownText found))
  | none => pure ()
  return (root, found)

def emptyNotice (root : String) (r : Report) : String :=
  if r.summary.filesScanned = 0 then "tfguard: no Terraform files found under " ++ root ++ "\n" else ""

def toolErrorNotice (report : String) (errors : List ToolError) : String :=
  String.join (errors.map (fun e => "tfguard: " ++ e.rule ++ ": " ++ e.message ++ "\n")) ++
    "tfguard: " ++ toString errors.length ++ " file(s) could not be checked; see data.errors in " ++ report ++ "\n"

def checkedExit (report root : String) (r : Report) : Exit :=
  if r.hasToolErrors then
    ⟨toolErrorCode, "", emptyNotice root r ++ toolErrorNotice report r.summary.errors⟩
  else ⟨r.verdict.exitCode, "", emptyNotice root r⟩

def runCheck (o : Options) (report : String) (comment : Option String) : Action Exit := do
  match ← (checkModule o report comment).run with
  | .ok (root, found) => return checkedExit report root found
  | .error e =>
      let _ ← (saveReport report (Report.runtimeError (← Action.now) e.message)).run
      return ⟨toolErrorCode, "", "tfguard error: " ++ e.message ++ "\n"⟩

/-! Stored reports. -/

def readReport (path : String) : ExceptT ReportFailure Action Report := do
  let text ← attempt (.unreadable path) (Action.readText path)
  attempt .malformed (pure (Report.parse text))

def renderMarkdown (report : String) (output : Option String) : ExceptT ReportFailure Action Exit := do
  let found ← readReport report
  match output with
  | none => return printed (markdownText found)
  | some path =>
      attempt .notSaved (Action.saveText path (markdownText found))
      return printed ""

def renderAnnotations (report : String) (limit : Nat) : ExceptT ReportFailure Action Exit := do
  let found ← readReport report
  return printed (String.join ((View.Annotation.render (View.ofReport found) limit).map (· ++ "\n")))

def settled (a : ExceptT ReportFailure Action Exit) : Action Exit := do
  match ← a.run with
  | .ok exit => return exit
  | .error e => return ⟨1, "", errorText e.chain⟩

/-! Commands without files. -/

def explained (identifier : String) : Exit :=
  match Explanation.find? identifier with
  | some e => printed e.text
  | none => ⟨1, "", Explanation.notFound identifier allRuleNames allCodes⟩

def schemaText : SchemaKind → String
  | .report => Report.schema.pretty ++ "\n"
  | .config => Config.schemaDocument.pretty ++ "\n"

def run (o : Options) : Command → Action Exit
  | .check report comment => runCheck o report comment
  | .markdown report output => settled (renderMarkdown report output)
  | .annotations report limit => settled (renderAnnotations report limit)
  | .explain identifier => return explained identifier
  | .rules => do return printed (← Action.certain (RuleEntry.listing RuleEntry.all))
  | .schema kind => return printed (schemaText kind)

def versionText : String := Report.toolMeta.name ++ " " ++ Report.toolMeta.version ++ "\n"

def misuseText : String :=
  "error: the arguments ask for no command\n\nFor more information, try '--help'.\n"

def helpText : String :=
  "Declaration-order hygiene linter for Terraform configurations\n\n" ++
  "Usage: tfguard [OPTIONS] <COMMAND>\n\n" ++
  "Commands:\n" ++
  "  check        Run the enabled rules and write artifacts\n" ++
  "  md           Render markdown from an existing JSON report\n" ++
  "  annotations  Render GitHub Actions annotations from an existing JSON report\n" ++
  "  explain      Explain a rule or finding code with remediation guidance\n" ++
  "  rules        List built-in rules with their default state and severity\n" ++
  "  schema       Print a JSON schema\n" ++
  "  help         Print this message or the help of the given subcommand(s)\n\n" ++
  "Options:\n" ++
  "      --repo-root <REPO_ROOT>        Terraform module root to scan [default: .]\n" ++
  "      --config <CONFIG>              Path to tfguard config TOML, relative to the module root [default: tfguard.toml]\n" ++
  "      --profile <PROFILE>            Override profile (default|all)\n" ++
  "      --max-findings <MAX_FINDINGS>  Override maximum findings to emit\n" ++
  "  -h, --help                         Print help\n" ++
  "  -V, --version                      Print version\n"

def halted : Halt → Exit
  | .help => printed helpText
  | .version => printed versionText
  | .misuse => ⟨misuseCode, "", misuseText⟩

/-- Runs what the arguments ask for. Without any, help is what went wrong. -/
def runArguments (arguments : List String) : Action Exit :=
  if arguments.isEmpty then return ⟨misuseCode, "", helpText⟩
  else match parse arguments with
    | .ok (options, command) => run options command
    | .error halt => return halted halt

end Command
end DeclOrder
