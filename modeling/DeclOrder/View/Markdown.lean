import DeclOrder.Text.Lines
import DeclOrder.View.Basic

/-! A sheet as Markdown. What follows the first line of a message stands in a fenced block. -/
namespace DeclOrder.View.Markdown

def verdictWord : Verdict → String
  | .pass => "PASS"
  | .warn => "WARN"
  | .fail => "FAIL"

def severityWord : Severity → String
  | .notice => "NOTICE"
  | .warning => "WARN"
  | .error => "ERROR"

def splitMessage (message : List Char) : List Char × Option (List Char) :=
  match message.dropWhile (· != '\n') with
  | [] => (message, none)
  | _ :: details => (message.takeWhile (· != '\n'), some details)

def indented (line : List Char) : List Char := if line.isEmpty then [] else ' ' :: ' ' :: line

def fenced (details : List Char) : List (List Char) :=
  [[], "  ```hcl".toList] ++ (Text.lines details).map indented ++ ["  ```".toList, []]

def headline (item : Item) (summary : List Char) : List Char :=
  ("- [" ++ severityWord item.severity ++ "] `" ++ item.checkId.getD "" ++ "` / `" ++ item.code ++ "`: ").toList ++ summary ++
    (item.place.elim "" (fun p => " (`" ++ p.path ++ "`:" ++ toString (p.line.getD 0) ++ ")")).toList

def itemLines (item : Item) : List (List Char) :=
  let (summary, details) := splitMessage item.message.toList
  [headline item summary] ++ details.elim [] fenced ++
    item.help.elim [] (fun help => [("  - help: " ++ help).toList]) ++
    item.url.elim [] (fun url => [("  - url: " ++ url).toList])

/-- Further lines of an error stay in its list item. -/
def errorLine (e : ErrorItem) : List Char :=
  ("- `" ++ e.rule ++ "`" ++ e.path.elim "" (fun p => " `" ++ p ++ "`") ++ ": ").toList ++
    e.message.toList.flatMap (fun c => if c = '\n' then ['\n', ' ', ' '] else [c])

def sheetLines (s : Sheet) : List (List Char) :=
  ["# Tfguard report".toList, [], ("- Verdict: **" ++ verdictWord s.verdict ++ "**").toList,
    ("- Findings: " ++ toString s.emitted ++ " (emitted) / " ++ toString s.total ++ " (total)").toList, []] ++
  s.truncatedReason.elim [] (fun reason => [("> Note: " ++ reason).toList, []]) ++
  (if s.items.isEmpty then ["No findings.".toList]
    else ["## Findings".toList, []] ++ s.items.flatMap itemLines) ++
  (if s.errors.isEmpty then [] else [[], "## Tool errors".toList, []] ++ s.errors.map errorLine)

def render (s : Sheet) : String := String.ofList (Text.unlines (sheetLines s))

end DeclOrder.View.Markdown
