import DeclOrder.View.Basic

/-! A sheet as annotations of a build log: one line for each finding and then for each error. A
percent sign and line breaks are escaped everywhere, a colon and a comma in properties too. -/
namespace DeclOrder.View.Annotation

def escapeDataChar (c : Char) : List Char :=
  if c = '%' then ['%', '2', '5']
  else if c = '\r' then ['%', '0', 'D']
  else if c = '\n' then ['%', '0', 'A']
  else [c]

def escapePropertyChar (c : Char) : List Char :=
  if c = ':' then ['%', '3', 'A']
  else if c = ',' then ['%', '2', 'C']
  else escapeDataChar c

def escapeData (text : String) : String := String.ofList (text.toList.flatMap escapeDataChar)

def escapeProperty (text : String) : String := String.ofList (text.toList.flatMap escapePropertyChar)

/-- What stands for the rule of a finding that names none. -/
def unnamedCheck : String := "tfguard"

def properties (item : Item) : List String :=
  item.place.elim [] (fun p =>
    ["file=" ++ escapeProperty p.path] ++ p.line.elim [] (fun n => ["line=" ++ toString n]) ++
      p.column.elim [] (fun n => ["col=" ++ toString n])) ++
  ["title=" ++ escapeProperty (item.checkId.getD unnamedCheck)]

def ofItem (item : Item) : String :=
  "::" ++ item.severity.text ++ " " ++ ",".intercalate (properties item) ++ "::" ++
    escapeData ("[" ++ item.checkId.getD unnamedCheck ++ ":" ++ item.code ++ "] " ++ item.message)

def ofError (e : ErrorItem) : String :=
  "::error" ++ e.path.elim "" (fun p => " file=" ++ escapeProperty p) ++ "::" ++
    escapeData ("[" ++ e.rule ++ "] " ++ e.message)

def all (s : Sheet) : List String := s.items.map ofItem ++ s.errors.map ofError

def render (s : Sheet) (limit : Nat) : List String := (all s).take limit

end DeclOrder.View.Annotation
