/-! Readers. A reader takes the text that is left and gives a value with the text that
is then left, or nothing. -/
namespace DeclOrder

abbrev Reader := StateT (List Char) Option

namespace Reader

def char (c : Char) : Reader Unit := fun text =>
  match text with
  | d :: rest => if c = d then some ((), rest) else none
  | [] => none

def word (w : List Char) : Reader Unit := fun text =>
  if w.isPrefixOf text then some ((), text.drop w.length) else none

def skip (step : List Char → List Char) : Reader Unit := fun text => some ((), step text)

def left : Reader (List Char) := fun text => some (text, text)

def satisfying (p : Char → Bool) : Reader (List Char) := fun text =>
  some (text.takeWhile p, text.dropWhile p)

def tried {α : Type} (r : Reader α) : Reader (Option α) := fun text =>
  match r text with
  | some (value, rest) => some (some value, rest)
  | none => some (none, text)

def given (r : Reader Unit) : Reader Bool := do return (← tried r).isSome

def manyUpTo {α : Type} (r : Reader α) : List Char → Reader (List α)
  | [] => pure []
  | _ :: bound => fun text =>
      match r text with
      | some (value, rest) => (do return value :: (← manyUpTo r bound)) rest
      | none => some ([], text)

/-- As often as `r` succeeds. A reader that takes at least one character never meets the bound. -/
def many {α : Type} (r : Reader α) : Reader (List α) := fun text => manyUpTo r text text

def separated {α : Type} (r : Reader α) : Reader (List α) := do
  match ← tried r with
  | none => return []
  | some first => return first :: (← many (do char ','; r))

end Reader
end DeclOrder
