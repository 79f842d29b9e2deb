/-! Glob patterns and how their text is read. -/
namespace DeclOrder.Glob

inductive Token where
  | literal (c : Char)
  /-- `?`: any one byte. -/
  | any
  /-- `*`: any bytes, slashes too. -/
  | run
  /-- `**` with a slash at the start: nothing, or any directories. -/
  | leading
  /-- `**` behind a slash at the end: everything below. -/
  | trailing
  /-- `**` between slashes: one slash, or any directories between two. -/
  | between
  | charClass (negated : Bool) (ranges : List (Char × Char))
  | alternates (branches : List (List Token))

inductive Fault where
  | unclosedClass
  | invalidRange (first last : Char)
  | unclosedAlternates
  | unopenedAlternates
  | danglingEscape
  deriving DecidableEq, Repr

def Fault.message : Fault → String
  | .unclosedClass => "unclosed character class; missing ']'"
  | .invalidRange first last => "invalid range; '" ++ first.toString ++ "' > '" ++ last.toString ++ "'"
  | .unclosedAlternates => "unclosed alternate group; missing '\x7d' (maybe escape '\x7b' with '[\x7b]'?)"
  | .unopenedAlternates => "unopened alternate group; missing '\x7b' (maybe escape '\x7d' with '[\x7d]'?)"
  | .danglingEscape => "dangling '\\'"

structure Error where
  pattern : String
  fault : Fault
  deriving DecidableEq, Repr

def Error.message (e : Error) : String := "error parsing glob '" ++ e.pattern ++ "': " ++ e.fault.message

structure ClassState where
  ranges : List (Char × Char)
  dashed : Bool

/-- A dash is literal at the start and the end of a class; a closing bracket is literal at the start. -/
def classFrom (s : ClassState) : List Char → Except Fault (List (Char × Char) × List Char)
  | [] => .error .unclosedClass
  | c :: rest =>
      match s.ranges with
      | [] => classFrom ⟨[(c, c)], false⟩ rest
      | (first, last) :: more =>
          if c = ']' then .ok (((if s.dashed then [('-', '-')] else []) ++ s.ranges).reverse, rest)
          else if s.dashed then
            if c < first then .error (.invalidRange first c)
            else classFrom ⟨(first, c) :: more, false⟩ rest
          else if c = '-' then classFrom ⟨s.ranges, true⟩ rest
          else classFrom ⟨(c, c) :: (first, last) :: more, false⟩ rest

def charClass : List Char → Except Fault (Token × List Char)
  | '!' :: rest => (classFrom ⟨[], false⟩ rest).map (fun (ranges, left) => (.charClass true ranges, left))
  | '^' :: rest => (classFrom ⟨[], false⟩ rest).map (fun (ranges, left) => (.charClass true ranges, left))
  | text => (classFrom ⟨[], false⟩ text).map (fun (ranges, left) => (.charClass false ranges, left))

structure Group where
  finished : List (List Token)
  around : List Token

structure State where
  branch : List Token
  groups : List Group
  before : Option Char

def State.push (s : State) (t : Token) (c : Char) : State := { s with branch := t :: s.branch, before := some c }

def twoRuns (s : State) : State := (s.push .run '*').push .run '*'

/-- Two stars behind a slash or at the start of a branch span directories; elsewhere they are two
single stars. A slash behind them belongs to them. -/
def doubleStar (s : State) (rest : List Char) : State × List Char :=
  let inGroup := !s.groups.isEmpty
  if s.branch.isEmpty then
    match rest with
    | [] => (s.push .leading '*', [])
    | '/' :: more => (s.push .leading '/', more)
    | _ => (twoRuns s, rest)
  else if s.before != some '/' && !(inGroup && (s.before == some ',' || s.before == some '{')) then (twoRuns s, rest)
  else
    let replaced (t : Token) : List Token := match s.branch with
      | .leading :: more => .leading :: more
      | .trailing :: more => .trailing :: more
      | _ :: more => t :: more
      | [] => [t]
    match rest with
    | [] => ({ s with branch := replaced .trailing, before := some '*' }, [])
    | '/' :: more => ({ s with branch := replaced .between, before := some '/' }, more)
    | c :: _ =>
        if inGroup && (c == ',' || c == '}') then ({ s with branch := replaced .trailing, before := some '*' }, rest)
        else (twoRuns s, rest)

def step (s : State) : List Char → Except Fault (State × List Char)
  | [] => .ok (s, [])
  | '?' :: rest => .ok (s.push .any '?', rest)
  | '*' :: '*' :: rest => .ok (doubleStar s rest)
  | '*' :: rest => .ok (s.push .run '*', rest)
  | '[' :: rest => (charClass rest).map (fun (t, left) => (s.push t ']', left))
  | '{' :: rest => .ok (⟨[], ⟨[], s.branch⟩ :: s.groups, some '{'⟩, rest)
  | '}' :: rest => match s.groups with
      | [] => .error .unopenedAlternates
      | g :: outer =>
          .ok (⟨.alternates (s.branch.reverse :: g.finished).reverse :: g.around, outer, some '}'⟩, rest)
  | ',' :: rest => match s.groups with
      | [] => .ok (s.push (.literal ',') ',', rest)
      | g :: outer => .ok (⟨[], ⟨s.branch.reverse :: g.finished, g.around⟩ :: outer, some ','⟩, rest)
  | '\\' :: [] => .error .danglingEscape
  | '\\' :: c :: rest => .ok (s.push (.literal c) c, rest)
  | c :: rest => .ok (s.push (.literal c) c, rest)

def readUpTo : Nat → State → List Char → Except Fault State
  | 0, s, _ => .ok s
  | _ + 1, s, [] => .ok s
  | n + 1, s, c :: rest => do
      let (after, left) ← step s (c :: rest)
      readUpTo n after left

def read (text : List Char) : Except Fault (List Token) := do
  let s ← readUpTo text.length ⟨[], [], none⟩ text
  if s.groups.isEmpty then return s.branch.reverse else throw .unclosedAlternates

def parse (pattern : String) : Except Error (List Token) :=
  (read pattern.toList).mapError (⟨pattern, ·⟩)

end DeclOrder.Glob
