import DeclOrder.Text.Digits

/-! Flags on a command line. A flag is named in full behind two dashes or by a letter behind one; its
value follows an equals sign, directly the letter, or is the next argument. No flag is given twice. -/
namespace DeclOrder.Command

structure Flag where
  name : String
  letter : Option Char
  takesValue : Bool
  accepts : String → Bool

inductive Halt where
  | help
  | version
  | misuse
  deriving DecidableEq, Repr

inductive Token where
  | long (name : String) (value : Option String)
  | short (letter : Char) (attached : List Char)
  | plain (text : String)
  /-- Two dashes: no flags behind them. -/
  | escape
  deriving DecidableEq, Repr

def longToken (text : List Char) : Token :=
  .long (String.ofList (text.takeWhile (· != '=')))
    (match text.dropWhile (· != '=') with
      | _ :: value => some (String.ofList value)
      | [] => none)

def tokenOf (argument : String) : Token :=
  match argument.toList with
  | ['-', '-'] => .escape
  | '-' :: '-' :: rest => longToken rest
  | '-' :: letter :: attached => .short letter attached
  | _ => .plain argument

structure Given where
  values : List (String × String)
  plain : List String
  deriving DecidableEq, Repr

namespace Given

def empty : Given := ⟨[], []⟩

def value? (g : Given) (name : String) : Option String := g.values.lookup name

def has (g : Given) (name : String) : Bool := (g.value? name).isSome

def set (g : Given) (flag : Flag) (value : String) : Except Halt Given :=
  if g.has flag.name || !flag.accepts value then .error .misuse
  else .ok { g with values := g.values ++ [(flag.name, value)] }

def add (g : Given) (argument : String) : Given := { g with plain := g.plain ++ [argument] }

end Given

def attachedValue? : List Char → Option String
  | [] => none
  | '=' :: rest => some (String.ofList rest)
  | text => some (String.ofList text)

/-- Flags and arguments in order. On the upper level the first other argument ends them, and there
the version may be asked for; help may be asked for everywhere. -/
def scan (flags : List Flag) (upper : Bool) (g : Given) : List String → Except Halt (Given × List String)
  | [] => .ok (g, [])
  | argument :: rest =>
      let named (flag : Option Flag) (value : Option String) : Except Halt (Given × List String) :=
        match flag, value, rest with
        | none, _, _ => .error .misuse
        | some flag, some value, rest =>
            if flag.takesValue then do scan flags upper (← g.set flag value) rest else .error .misuse
        | some flag, none, rest =>
            if !flag.takesValue then do scan flags upper (← g.set flag "") rest
            else match rest with
              | [] => .error .misuse
              | next :: more => match tokenOf next with
                  | .plain value => do scan flags upper (← g.set flag value) more
                  | _ => .error .misuse
      match tokenOf argument with
      | .escape => if upper then .error .misuse else .ok ({ g with plain := g.plain ++ rest }, [])
      | .plain text => if upper then .ok (g, argument :: rest) else scan flags upper (g.add text) rest
      | .long "help" none => .error .help
      | .long "version" none => .error (if upper then .version else .misuse)
      | .long name value => named (flags.find? (·.name == name)) value
      | .short 'h' _ => .error .help
      | .short letter attached =>
          if upper && letter == 'V' then .error .version
          else named (flags.find? (·.letter == some letter)) (attachedValue? attached)

def wholeBelow? (limit : Nat) (text : List Char) : Option Nat :=
  let digits := match text with
    | '+' :: rest => rest
    | found => found
  if digits.isEmpty || !digits.all Text.isDigit || limit ≤ Text.decimalValue digits then none
  else some (Text.decimalValue digits)

/-- As `wholeBelow?`, but zero may also have a minus sign. -/
def signedBelow? (limit : Nat) : List Char → Option Nat
  | '-' :: rest => if rest.head? = some '+' then none else (wholeBelow? limit rest).filter (· = 0)
  | text => wholeBelow? limit text

end DeclOrder.Command
