import DeclOrder.Rule.Basic

/-! The rule on the order of outputs: in each file the `output` blocks are declared by name, in the
order of its bytes. -/
namespace DeclOrder.OutputOrder

def ruleName : String := "terraform_output_order"

def unsortedCode : String := "unsorted_outputs"

def trackedKind : String := "output"

structure Entry where
  name : String
  header : SourceRange
  text : List Char
  deriving DecidableEq, Repr

structure Suggestion where
  anchor : SourceRange
  declared : List String
  expected : List String
  formatted : List Char
  deriving DecidableEq, Repr

def Suggestion.message (s : Suggestion) : String :=
  "Recommended output order:\n" ++ String.ofList (Text.trimEnd s.formatted)

def outsideReason (block : Block) (name : String) : String :=
  "block `" ++ block.kind ++ " \"" ++ name ++ "\"` spans bytes " ++ toString block.range.start.byte ++ ".." ++
    toString block.range.stop.byte ++ " outside the file"

def entryOf (path : RepoPath) (source : List Char) (block : Block) : Except CheckError Entry :=
  match block.name? with
  | none => .error (.missingLabel path block.kind block.header.start.line)
  | some name => match block.range.slice? source with
      | none => .error (.read path (outsideReason block name))
      | some text => .ok ⟨name, block.header, text⟩

def collect (path : RepoPath) (source : List Char) : List Block → Except CheckError (List Entry)
  | [] => .ok []
  | block :: rest =>
      if block.kind = trackedKind then do
        let entry ← entryOf path source block
        return entry :: (← collect path source rest)
      else collect path source rest

def inOrder (a b : Entry) : Bool := decide (a.name ≤ b.name)

def isSorted : List Entry → Bool
  | a :: b :: rest => inOrder a b && isSorted (b :: rest)
  | _ => true

def sorted (entries : List Entry) : List Entry := entries.mergeSort inOrder

def joined : List Entry → List Char
  | [] => []
  | [e] => Text.trimEnd e.text
  | e :: rest => Text.trimEnd e.text ++ ['\n', '\n'] ++ joined rest

def checkEntries (format : Formatter) (path : RepoPath) :
    List Entry → Option (Except CheckError (Option Suggestion))
  | [] => some (.ok none)
  | first :: rest =>
      let entries := first :: rest
      if isSorted entries then some (.ok none)
      else do match ← format (joined (sorted entries)) with
        | .error cause => return .error (.format path cause)
        | .ok formatted =>
            return .ok (some ⟨first.header, entries.map (·.name), (sorted entries).map (·.name), formatted⟩)

/-- The suggestion for a file, if its outputs are out of order. Where the formatter panics there is no
answer at all. -/
def checkFile (format : Formatter) (file : SourceFile) : Option (Except CheckError (Option Suggestion)) :=
  match file.content with
  | .unavailable reason => some (.error (.read file.path reason))
  | .parsed source blocks => match collect file.path source blocks with
      | .error e => some (.error e)
      | .ok entries => checkEntries format file.path entries

def helpText : String :=
  "Reorder the output blocks by name; the message shows the full recommended order."

def issueOf (s : Suggestion) : Issue :=
  ⟨unsortedCode, s.declared.headD "", s.message, s.anchor, some helpText,
    .object [("declared", .strings s.declared), ("expected", .strings s.expected), ("file", .string s.anchor.path.text)]⟩

def link : String := referenceLink ruleName

def emit (s : Suggestion) : Emitted := ⟨ruleName, link, issueOf s⟩

def add (others : Outcome) : Except CheckError (Option Suggestion) → Outcome
  | .ok (some s) => { others with issues := emit s :: others.issues }
  | .ok none => others
  | .error e => { others with errors := e :: others.errors }

/-- Every file counts, also behind one that could not be checked. -/
def checkAll (format : Formatter) : List SourceFile → Option Outcome
  | [] => some ⟨[], []⟩
  | file :: rest => do
      let found ← checkFile format file
      return add (← checkAll format rest) found

def rule (format : Formatter) : Rule where
  name := ruleName
  enabled := false
  severity := .notice
  link := link
  check m ignored := checkAll format (m.fileList.filter (fun f => !ignored ruleName f.path))

end DeclOrder.OutputOrder

namespace DeclOrder

def allRules (format : Formatter) : List Rule := [OutputOrder.rule format]

def allRuleNames : List String := [OutputOrder.ruleName]

def allCodes : List String := [OutputOrder.unsortedCode]

end DeclOrder
