import DeclOrder.Table
import DeclOrder.Toml.Scalar

/-! TOML documents. A document is a list of statements, and each of them adds to one tree of tables.
What is written as a value is closed. A table may be opened once by a header of its own, and dotted
keys add only to tables that they have made themselves. -/
namespace DeclOrder.Toml

inductive Origin where
  | implied
  | dotted
  | header
  deriving DecidableEq, Repr

inductive Item where
  | value (value : Value)
  | table (origin : Origin) (entries : List (String × Item))
  | tables (earlier : List (List (String × Item))) (last : List (String × Item))

abbrev Entries := List (String × Item)

namespace Entries

def alter (key : String) (change : Option Item → Option Item) : Entries → Option Entries
  | [] => do return [(key, ← change none)]
  | (k, item) :: rest =>
      if k = key then do return (k, ← change (some item)) :: rest
      else do return (k, item) :: (← alter key change rest)

def within (change : Entries → Option Entries) : List String → Entries → Option Entries
  | [] => change
  | key :: path => alter key (fun item =>
      match item with
      | none => (within change path []).map (.table .implied)
      | some (.table origin entries) => (within change path entries).map (.table origin)
      | some (.tables earlier last) => (within change path last).map (.tables earlier)
      | some (.value _) => none)

def assign (value : Value) : List String → Entries → Option Entries
  | [] => fun _ => none
  | [key] => alter key (fun item => if item.isSome then none else some (.value value))
  | key :: next :: path => alter key (fun item =>
      match item with
      | none => (assign value (next :: path) []).map (.table .dotted)
      | some (.table .dotted entries) => (assign value (next :: path) entries).map (.table .dotted)
      | some (.table .implied entries) =>
          if path.isEmpty then none else (assign value (next :: path) entries).map (.table .implied)
      | some (.tables earlier last) =>
          if path.isEmpty then none else (assign value (next :: path) last).map (.tables earlier)
      | some (.table .header _) => none
      | some (.value _) => none)

def openTable : Option Item → Option Item
  | none => some (.table .header [])
  | some (.table .implied entries) => some (.table .header entries)
  | _ => none

def openElement : Option Item → Option Item
  | none => some (.tables [] [])
  | some (.tables earlier last) => some (.tables (earlier ++ [last]) [])
  | _ => none

def enter (open_ : Option Item → Option Item) : List String → Entries → Option Entries
  | [], _ => none
  | [key], entries => alter key open_ entries
  | key :: next :: path, entries => within (fun inner => enter open_ (next :: path) inner) [key] entries

end Entries

mutual

def Item.close : Item → Value
  | .value value => value
  | .table _ entries => .table (closeEntries entries)
  | .tables earlier last => .array (closeTables earlier ++ [.table (closeEntries last)])

def closeEntries : List (String × Item) → List (String × Value)
  | [] => []
  | (key, item) :: rest => Table.put key item.close (closeEntries rest)

def closeTables : List (List (String × Item)) → List Value
  | [] => []
  | entries :: rest => .table (closeEntries entries) :: closeTables rest

end

inductive Statement where
  | pair (path : List String) (value : Value)
  | header (path : List String)
  | element (path : List String)

structure Draft where
  entries : Entries
  here : List String

namespace Draft

def empty : Draft := ⟨[], []⟩

def add (d : Draft) : Statement → Option Draft
  | .pair path value => do return { d with entries := ← d.entries.within (Entries.assign value path) d.here }
  | .header path => do return ⟨← d.entries.enter Entries.openTable path, path⟩
  | .element path => do return ⟨← d.entries.enter Entries.openElement path, path⟩

def addAll (d : Draft) : List Statement → Option Draft
  | [] => some d
  | s :: rest => do (← d.add s).addAll rest

end Draft

def inlineEntries (pairs : List (List String × Value)) : Option (List (String × Value)) := do
  let draft ← Draft.empty.addAll (pairs.map (fun (path, value) => .pair path value))
  return closeEntries draft.entries

namespace Read
open Reader

def listed {α : Type} (item : Reader α) (close : Char) : Reader (List α) := do
  trivia
  if ← given (char close) then return []
  let first ← item
  trivia
  let others ← many (do
    char ','
    trivia
    let next ← item
    trivia
    return next)
  let _ ← given (char ',')
  trivia
  char close
  return first :: others

def pair (value : Reader Value) : Reader (List String × Value) := do
  let path ← key
  gap
  char '='
  gap
  return (path, ← value)

def value : Nat → Reader Value
  | 0 => scalar
  | depth + 1 => do
      match ← left with
      | '[' :: rest =>
          set rest
          return .array (← listed (value depth) ']')
      | '{' :: rest =>
          set rest
          match inlineEntries (← listed (pair (value depth)) '}') with
          | some entries => return .table entries
          | none => failure
      | _ => scalar

end Read

def depthLimit : Nat := 80

namespace Read
open Reader

def bracketed (opening closing : String) : Reader (List String) := do
  word opening.toList
  gap
  let path ← key
  gap
  word closing.toList
  return path

def statement : Reader Statement := do
  match ← left with
  | '[' :: '[' :: _ => return .element (← bracketed "[[" "]]")
  | '[' :: _ => return .header (← bracketed "[" "]")
  | _ =>
      let (path, found) ← pair (value depthLimit)
      return .pair path found

def line : Reader (List Statement) := do
  gap
  let found ← tried statement
  gap
  let _ ← tried comment
  return found.toList

def statements : Reader (List Statement) := do
  let first ← line
  let others ← many (do
    let _ ← lineBreak
    line)
  return first ++ others.flatten

end Read

/-- Stands for the description of a text that is not TOML. -/
def syntaxErrorText : String := "<toml>"

def unmarked : List Char → List Char
  | '\ufeff' :: rest => rest
  | text => text

def parse? (text : String) : Option (List (String × Value)) :=
  match Read.statements (unmarked text.toList) with
  | some (found, []) => (Draft.empty.addAll found).map (closeEntries ·.entries)
  | _ => none

end DeclOrder.Toml
