/-! Trees of directories and files. -/
namespace DeclOrder

inductive Tree (α : Type) where
  | file (content : α)
  | directory (entries : List (String × Tree α))

namespace Tree
variable {α β : Type}

def entries : Tree α → List (String × Tree α)
  | .file _ => []
  | .directory found => found

def isDirectory : Tree α → Bool
  | .file _ => false
  | .directory _ => true

def child? (t : Tree α) (name : String) : Option (Tree α) := t.entries.lookup name

def find? : List String → Tree α → Option (Tree α)
  | [], t => some t
  | name :: names, t => (t.child? name).bind (find? names)

def alter (name : String) (change : Option (Tree α) → Tree α) : List (String × Tree α) → List (String × Tree α)
  | [] => [(name, change none)]
  | (n, t) :: rest => if n = name then (n, change (some t)) :: rest else (n, t) :: alter name change rest

/-- The tree with `leaf` at the names. What is missing on the way becomes a directory. -/
def put (leaf : Tree α) : List String → Tree α → Tree α
  | [], _ => leaf
  | name :: names, t => .directory (alter name (fun old => put leaf names (old.getD (.directory []))) t.entries)

mutual

def map (f : α → β) : Tree α → Tree β
  | .file content => .file (f content)
  | .directory entries => .directory (mapEntries f entries)

def mapEntries (f : α → β) : List (String × Tree α) → List (String × Tree β)
  | [] => []
  | (name, t) :: rest => (name, map f t) :: mapEntries f rest

end

mutual

/-- The files below a tree, each with the names on the way to it. Entries that `keep` refuses are
left out with all that is below them. -/
def files (keep : String → Bool) : Tree α → List (List String × α)
  | .file content => [([], content)]
  | .directory entries => filesOf keep entries

def filesOf (keep : String → Bool) : List (String × Tree α) → List (List String × α)
  | [] => []
  | (name, t) :: rest =>
      (if keep name then (files keep t).map (fun (names, content) => (name :: names, content)) else []) ++
        filesOf keep rest

end

end Tree
end DeclOrder
