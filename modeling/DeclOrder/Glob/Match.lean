import DeclOrder.Glob.Pattern

/-! Which paths a pattern matches. A path matches as a whole and byte by byte: `?` and a class take
one byte of the UTF-8 form, and a class holds bytes. -/
namespace DeclOrder.Glob

def bytesOf (c : Char) : List UInt8 := String.utf8EncodeChar c

def slash : UInt8 := 47

/-- The bytes of a class that is written out in bytes: the last byte of the first character and the
first byte of the last one are the ends of a range. -/
def byteRanges (range : Char × Char) : List (UInt8 × UInt8) :=
  let first := bytesOf range.1
  if range.1 = range.2 then first.map (fun b => (b, b))
  else
    let last := bytesOf range.2
    first.dropLast.map (fun b => (b, b)) ++ [(first.getLastD 0, last.headD 0)] ++ last.tail.map (fun b => (b, b))

def inClass (ranges : List (Char × Char)) (b : UInt8) : Bool :=
  (ranges.flatMap byteRanges).any (fun r => r.1 ≤ b && b ≤ r.2)

def tails : List UInt8 → List (List UInt8)
  | [] => [[]]
  | b :: rest => (b :: rest) :: tails rest

def afterSlashes : List UInt8 → List (List UInt8)
  | [] => []
  | b :: rest => if b = slash then rest :: afterSlashes rest else afterSlashes rest

mutual

def Token.void : Token → Bool
  | .alternates branches => allVoid branches
  | _ => false

def branchVoid : List Token → Bool
  | [] => true
  | t :: rest => t.void && branchVoid rest

def allVoid : List (List Token) → Bool
  | [] => true
  | branch :: rest => branchVoid branch && allVoid rest

end

/-- Every text is left once. All are ends of one text, so their lengths tell them apart. -/
def distinct (texts : List (List UInt8)) : List (List UInt8) :=
  texts.foldr (fun text kept => if kept.any (·.length == text.length) then kept else text :: kept) []

mutual

def Token.rests : Token → List UInt8 → List (List UInt8)
  | .literal c, text => if (bytesOf c).isPrefixOf text then [text.drop (bytesOf c).length] else []
  | .any, text => match text with
      | [] => []
      | _ :: rest => [rest]
  | .run, text => tails text
  | .leading, text => text :: afterSlashes text
  | .trailing, text => match text with
      | b :: rest => if b = slash then tails rest else []
      | [] => []
  | .between, text => match text with
      | b :: rest => if b = slash then rest :: afterSlashes rest else []
      | [] => []
  | .charClass negated ranges, text => match text with
      | b :: rest => if inClass ranges b != negated then [rest] else []
      | [] => []
  | .alternates branches, text => if allVoid branches then [text] else branchRests branches text

def seqRests : List Token → List UInt8 → List (List UInt8)
  | [], text => [text]
  | t :: rest, text => distinct ((distinct (t.rests text)).flatMap (seqRests rest))

def branchRests : List (List Token) → List UInt8 → List (List UInt8)
  | [], _ => []
  | branch :: rest, text =>
      (if branchVoid branch then [] else seqRests branch text) ++ branchRests rest text

end

def isLiteral : Token → Bool
  | .literal _ => true
  | _ => false

def literalIs (c : Char) : Token → Bool
  | .literal d => c == d
  | _ => false

/-- A file name that ends with a dot has no extension and is no base name, so patterns that are looked
up by one of the two never match such a path: those that end with a literal dot and are neither
literal throughout nor a literal ending behind a star. -/
def endsInBareDot (tokens : List Token) : Bool :=
  let (below, behind) := match tokens with
    | .leading :: rest => (true, rest)
    | _ => (false, tokens)
  let (starred, ending) := match behind with
    | .run :: rest => (true, rest)
    | _ => (false, behind)
  (tokens.getLast?.any (literalIs '.')) &&
    (if ending.all isLiteral then
      if starred then ending.length == 1 else below && !ending.any (literalIs '/')
    else true)

structure Pattern where
  tokens : List Token

def Pattern.matches (p : Pattern) (path : String) : Bool :=
  match p.tokens with
  | [.leading] => true
  | tokens => (seqRests tokens (path.toList.flatMap bytesOf)).any (·.isEmpty) && !endsInBareDot tokens

def Pattern.ofString (pattern : String) : Except Error Pattern := (parse pattern).map (⟨·⟩)

end DeclOrder.Glob
