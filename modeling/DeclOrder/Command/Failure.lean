import DeclOrder.Check
import DeclOrder.Report.Decoding
import DeclOrder.Report.Encoding

/-! Why a command fails, and how that is told. -/
namespace DeclOrder.Command

/-- Causes, one below the other. Further lines of a cause are indented like its first one, and several
causes are numbered. -/
def causesText (causes : List String) : String :=
  let indented (indent text : String) := ("\n" ++ indent).intercalate (text.splitOn "\n")
  match causes with
  | [cause] => "    " ++ indented "    " cause
  | _ => "\n".intercalate (causes.zipIdx.map (fun (cause, n) =>
      let number := toString n
      String.ofList (List.replicate (5 - number.length) ' ') ++ number ++ ": " ++ indented "       " cause))

def errorText : List String → String
  | [] => "Error: \n"
  | [error] => "Error: " ++ error ++ "\n"
  | error :: causes => "Error: " ++ error ++ "\n\nCaused by:\n" ++ causesText causes ++ "\n"

inductive ReportFailure where
  | unreadable (path : String) (cause : FileError)
  | malformed (cause : Report.ParseError)
  | notSaved (cause : SaveError)
  deriving DecidableEq, Repr

def ReportFailure.chain : ReportFailure → List String
  | .unreadable path cause => ["read report: " ++ path, cause.message]
  | .malformed cause => cause.chain
  | .notSaved cause => "write markdown output" :: cause.chain

inductive CheckFailure where
  | missingRoot (path : String)
  | unreadableConfig (path : String) (cause : FileError)
  | unchecked (cause : Check.Error)
  | reportNotWritten (cause : Report.WriteError)
  | reportNotSaved (cause : SaveError)
  | markdownNotSaved (cause : SaveError)
  deriving DecidableEq, Repr

def CheckFailure.message : CheckFailure → String
  | .missingRoot path => "module root does not exist: " ++ path
  | .unreadableConfig path cause => "read config: " ++ path ++ ": " ++ cause.message
  | .unchecked cause => cause.located
  | .reportNotWritten cause => ": ".intercalate ("write report json" :: "serialize report" :: cause.chain)
  | .reportNotSaved cause => ": ".intercalate ("write report json" :: cause.chain)
  | .markdownNotSaved cause => ": ".intercalate ("write markdown" :: cause.chain)

end DeclOrder.Command
