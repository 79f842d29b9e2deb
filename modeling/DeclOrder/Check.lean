import DeclOrder.Config.Decoding
import DeclOrder.Config.Resolution
import DeclOrder.Report.Basic
import DeclOrder.Source.Loading
import DeclOrder.Text.Blank

/-! Checking a module: its config is read and settled, its files are loaded, and every rule runs. -/
namespace DeclOrder.Check

inductive Error where
  | config (cause : Config.ParseError)
  | policy (cause : Config.ResolveError)
  | root (path : String)
  deriving DecidableEq, Repr

def Error.message : Error → String
  | .config cause => "parse config: " ++ cause.message
  | .policy cause => "resolve config: " ++ cause.message
  | .root path => "load Terraform files under " ++ path ++ ": " ++ Source.notDirectoryText path

/-- The message for a reader who is to find the place in the config file. One text stands for every
description of such a place. -/
def Error.located : Error → String
  | .config _ => "parse config: " ++ Toml.syntaxErrorText
  | e => e.message

def readConfig (text : String) : Except Error Config :=
  if Text.allBlank text.toList then .ok .empty else (Config.parse text).mapError .config

def settle (text : String) (overrides : Overrides) : Except Error Policy := do
  let config ← readConfig text
  (config.resolve overrides).mapError .policy

def evaluated (policy : Policy) (m : Module) : Option DomainReport :=
  Evaluation.evaluate m policy (allRules canonicalFormatter)

def run (root configText : String) (overrides : Overrides) : Action (Except Error (Report × Policy)) := do
  let started ← Action.now
  match settle configText overrides with
  | .error e => return .error e
  | .ok policy => match ← Source.loadModule root with
      | none => return .error (.root root)
      | some m =>
          let found ← Action.certain (evaluated policy m)
          return .ok (.ofDomain started (← Action.now) found, policy)

end DeclOrder.Check
