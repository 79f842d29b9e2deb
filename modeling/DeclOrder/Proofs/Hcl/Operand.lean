import DeclOrder.Proofs.Hcl.Object

/-! Operands of respaced texts: primary expressions with prefix operators before them and accessors
behind. -/
namespace DeclOrder.Hcl
open Text Reader Read

variable {inner inner' : Inner} {c : Char} {t t' u u' w w' : List Char}

theorem alikeGroup : Alike Akin Respaced Respaced Expr.literals never group := by
  refine .token (firmChar (by decide)) fun _ => ?_
  refine ((alikeSpaced .lines rfl).given fun _ _ => Respaced.loose).bind [] (fun value => ?_) ?_ ?_
  · exact .token (firmChar (by decide)) fun _ => alikePure _ fun _ _ => id
  · exact fun _ _ _ => startsBind fun _ => startsPure List.prefix_rfl
  · exact fun _ _ _ => refusesBind (heldChar (by decide) (by decide))

theorem pendingDots : Leads Pending (keyword "...") never := by
  intro t v u pending read
  rw [show t = '.' :: '.' :: '.' :: u from wordSome.mp read] at pending
  rcases pending with held | begun | ⟨rest, same, _⟩
  · exact heldDots held
  · exact begunNot begun (by decide)
  · exact absurd (List.cons.inj same).1 (by decide)

theorem alikeArgumentsEnd (values : List Expr) (spread : Bool) : Alike Akin Respaced Respaced (fun p => expressionLiterals p.1)
    never (fun _ => (do space; char ')'; return (values, spread) : Reader (List Expr × Bool))) := by
  refine (Alike.skip .acrossLines ?_ ?_).given fun _ _ => Respaced.loose
  · exact .token (firmChar (by decide)) fun _ => alikePure _ fun _ _ => id
  · exact fun _ _ => refusesBind (stuckOnly (heldChar (by decide) (by decide)))

theorem alikeArguments (scope : Scope) :
    Alike Akin Respaced Respaced (fun p => expressionLiterals p.1) never (fun inner => arguments inner scope) := by
  have close (values : List Expr) (spread : Bool) : Starts (expressionLiterals values) (fun p => expressionLiterals p.1)
      (do space; char ')'; return (values, spread) : Reader (List Expr × Bool)) :=
    startsBind fun _ => startsBind fun _ => startsPure List.prefix_rfl
  have refuses (values : List Expr) (spread : Bool) : Leads Shut
      (do space; char ')'; return (values, spread) : Reader (List Expr × Bool)) never := shutRefuses (by decide)
  refine .token (firmChar (by decide)) fun _ => (alikeSeparated scope).bind [] (fun values => ?_) ?_ ?_
  · refine .if (alikeArgumentsEnd values false) (.token (firmGiven (firmKeyword (by decide))) fun dots => ?_)
    exact .if (alikeArgumentsEnd values true) (.token (firmGiven (firmChar (by decide))) fun _ => alikeArgumentsEnd values false)
  · intro _ _ values
    dsimp only
    split
    · exact close values false
    · refine startsBind fun dots => ?_
      split
      · exact close values true
      · exact startsBind fun _ => close values false
  · intro _ _ values
    dsimp only
    split
    · exact fun _ _ _ pending read => refuses values false (pendingShut pending) read
    · refine leadsBind (leadsGiven pendingDots) fun dots => ?_
      split
      · exact fun _ _ _ pending read => refuses values true (pendingShut pending) read
      · exact leadsBind pendingComma fun _ => refuses values false

def furtherName (e : Extent) : Reader String := do
  trivia e
  keyword "::"
  trivia e
  identifier

theorem stuckIdentifier {e : Extent} : Leads (Stuck e) identifier never := by
  intro t v u stuck read
  obtain ⟨c, w, rfl, start, _⟩ := identifierSome.mp read
  exact stuckHead (identifierHead start).1 (identifierHead start).2.1 stuck

def Uncalled (e : Extent) (t : List Char) : Prop := ∀ w, skipTrivia e t ≠ '(' :: w

theorem alikeFurther {ι : Type} {A : ι → ι → Prop} (e : Extent) :
    Alike A Respaced Respaced silent (Uncalled e) (fun _ => many (furtherName e)) := by
  have name : Alike A Respaced Respaced silent never (fun _ => furtherName e) := by
    refine (Alike.skip e ?_ ?_).given fun _ _ => Respaced.loose
    · refine .token (firmKeyword (by decide)) fun _ => (Alike.skip e ?_ ?_).given fun _ _ => Respaced.loose
      · exact alikeFirm firmIdentifier
      · exact fun _ _ => stuckIdentifier
    · exact fun _ _ => refusesBind (stuckOnly (heldKeyword (by decide)))
  refine (name.many (fun _ _ => Respaced.symm) (fun _ _ => shortFurther e) (fun _ _ _ barred => absurd barred id) ?_).retell ?_
  · intro _ _ _ _ t t' start v u read _ w same
    obtain ⟨_, x, skips, read⟩ := bindSome.mp read
    obtain ⟨_, y, colons, _⟩ := bindSome.mp read
    have ready := skipReady (e := e) start.loose
    rw [skipSome.mp skips, wordSome.mp colons, same] at ready
    rcases ready with tight | stuck | stuck
    · obtain ⟨_, other, _⟩ := tight.front "::".toList (by decide)
      exact absurd (List.cons.inj other).1 (by decide)
    · exact heldToken (by decide) (.stuck stuck)
    · exact stuckHead (by decide) (by decide) stuck
  · intro names
    induction names with
    | nil => rfl
    | cons name rest ih => exact ih

theorem alikeCallOf (scope : Scope) (name : String) :
    Alike Akin Respaced Respaced Expr.literals never (fun inner => callOf inner scope name) := by
  refine (alikeFurther scope.extent).behind (fun further => ?_) ?_
  · refine (Alike.skip scope.extent ?_ ?_).given fun _ _ => Respaced.loose
    · refine (alikeArguments scope).bind [] ?_ ?_ fun _ _ _ => leadsNever
      · rintro ⟨values, spread⟩
        exact alikePure _ fun _ _ => id
      · rintro _ _ ⟨values, spread⟩
        exact startsPure List.prefix_rfl
    · exact fun _ _ => refusesBind (refusesBind (stuckOnly (heldChar (by decide) (by decide))))
  · intro i _ further t v u uncalled read
    obtain ⟨_, x, skips, read⟩ := bindSome.mp read
    obtain ⟨_, _, called, _⟩ := bindSome.mp read
    obtain ⟨_, y, opens, _⟩ := bindSome.mp called
    exact uncalled y ((skipSome.mp skips).trans (charSome.mp opens))

theorem startsCallIff {e : Extent} : startsCall e t = true ↔
    (∃ w, skipTrivia e t = '(' :: w) ∨ ∃ w, skipTrivia e t = ':' :: ':' :: w := by
  unfold startsCall
  split
  · rename_i w same
    exact ⟨fun _ => .inl ⟨w, same⟩, fun _ => rfl⟩
  · rename_i w same
    exact ⟨fun _ => .inr ⟨w, same⟩, fun _ => rfl⟩
  · rename_i notParen notColons
    refine ⟨fun h => absurd h (by decide), ?_⟩
    rintro (⟨w, same⟩ | ⟨w, same⟩)
    · exact absurd same (notParen w)
    · exact absurd same (notColons w)

def Jammed (e : Extent) (t : List Char) : Prop := Stuck e (skipTrivia e t)

theorem startsCallAlone {e : Extent} (h : Respaced t t') (starts : startsCall e t = true) (fails : ¬ startsCall e t' = true) :
    Jammed e t' := by
  have ready := skipReady (e := e) h.loose
  rcases startsCallIff.mp starts with ⟨w, same⟩ | ⟨w, same⟩
  · rw [same] at ready
    rcases ready with tight | stuck | stuck
    · obtain ⟨w', same', _⟩ := tight.inside (by decide)
      exact absurd (startsCallIff.mpr (.inl ⟨w', same'⟩)) fails
    · exact absurd stuck (stuckHead (by decide) (by decide))
    · exact stuck
  · rw [same] at ready
    rcases ready with tight | stuck | stuck
    · obtain ⟨w', same', _⟩ := tight.front [':', ':'] (by decide)
      exact absurd (startsCallIff.mpr (.inr ⟨w', same'⟩)) fails
    · exact absurd stuck (stuckHead (by decide) (by decide))
    · exact stuck

def constant (name : String) : Reader Expr :=
  if name = "null" then return .null
  else if name = "true" then return .bool true
  else if name = "false" then return .bool false
  else return .variable name

theorem constantSome {name : String} {v : Expr} (read : constant name t = some (v, u)) : u = t := by
  unfold constant at read
  split at read
  · exact (pureSome.mp read).2.symm
  split at read
  · exact (pureSome.mp read).2.symm
  split at read
  · exact (pureSome.mp read).2.symm
  · exact (pureSome.mp read).2.symm

theorem firmConstant (name : String) : Firm (constant name) :=
  firmIf (firmPure _) (firmIf (firmPure _) (firmIf (firmPure _) (firmPure _)))

theorem alikeNamed (scope : Scope) :
    Alike Akin Respaced Respaced Expr.literals (Jammed scope.extent) (fun inner => named inner scope) := by
  refine .token firmIdentifier fun name => ?_
  intro i i' akin t t' start v v' u u' read read'
  obtain ⟨x, _, here, read⟩ := bindSome.mp read
  obtain ⟨rfl, rfl⟩ := leftSome.mp here
  obtain ⟨x, _, here', read'⟩ := bindSome.mp read'
  obtain ⟨rfl, rfl⟩ := leftSome.mp here'
  split at read
  · rename_i starts
    split at read'
    · exact (alikeCallOf scope name).barred (fun _ => False.elim) akin start read read'
    · rename_i fails
      rw [constantSome read']
      exact .right (startsCallAlone start starts fails)
  · rename_i fails
    split at read'
    · rename_i starts
      rw [constantSome read]
      exact .left (startsCallAlone start.symm starts fails)
    · exact alikeFirm (firmConstant name) akin start read read'

def primaryAt (inner : Inner) (scope : Scope) (c : Char) : Reader Expr :=
  if c = '"' then do return .quoted (← quotedTemplate inner)
  else if c = '[' then listLike inner scope
  else if c = '{' then objectLike inner
  else if c = '(' then group inner
  else if c = '<' then heredoc inner
  else if Text.isDigit c then do return .number (← number)
  else named inner scope

theorem primaryCons (inner : Inner) (scope : Scope) (c : Char) (t : List Char) :
    primary inner scope (c :: t) = primaryAt inner scope c (c :: t) := by
  unfold primaryAt
  by_cases quote : c = '"'
  · subst quote
    rfl
  by_cases bracket : c = '['
  · subst bracket
    rfl
  by_cases brace : c = '{'
  · subst brace
    rfl
  by_cases paren : c = '('
  · subst paren
    rfl
  by_cases angle : c = '<'
  · subst angle
    rfl
  rw [if_neg quote, if_neg bracket, if_neg brace, if_neg paren, if_neg angle]
  unfold primary
  simp only [bind, StateT.bind, left, Option.bind_some]

theorem digitBegins (digit : Text.isDigit c = true) : Begins c := by
  refine ⟨digitInside digit, fun member => ?_⟩
  simp only [List.mem_cons, List.not_mem_nil, or_false] at member
  rcases member with rfl | rfl | rfl | rfl | rfl | rfl | rfl <;> exact absurd digit (by decide)

theorem identifierBegins (start : startsIdentifier c = true) : Begins c := by
  refine ⟨continuesInside (startsContinues start), fun member => ?_⟩
  simp only [List.mem_cons, List.not_mem_nil, or_false] at member
  rcases member with rfl | rfl | rfl | rfl | rfl | rfl | rfl <;> exact absurd start (by decide)

theorem primaryBegins {scope : Scope} {v : Expr} (read : primary inner scope t = some (v, u)) :
    ∃ c w, t = c :: w ∧ Begins c := by
  cases t with
  | nil => contradiction
  | cons c w =>
      refine ⟨c, w, rfl, ?_⟩
      rw [primaryCons, primaryAt] at read
      split at read
      · subst_vars
        decide
      split at read
      · subst_vars
        decide
      split at read
      · subst_vars
        decide
      split at read
      · subst_vars
        decide
      split at read
      · subst_vars
        decide
      split at read
      · rename_i digit
        exact digitBegins digit
      · obtain ⟨_, _, name, _⟩ := bindSome.mp read
        obtain ⟨d, x, same, start, _⟩ := identifierSome.mp name
        rw [(List.cons.inj same).1]
        exact identifierBegins start

theorem alikePrimary (scope : Scope) :
    Alike Akin Respaced Respaced Expr.literals (Jammed scope.extent) (fun inner => primary inner scope) := by
  have alike (c : Char) : Alike Akin Respaced Respaced Expr.literals (Jammed scope.extent)
      (fun inner => primaryAt inner scope c) := by
    have quoted : Alike Akin Respaced Respaced Expr.literals never
        (fun inner => (do return .quoted (← quotedTemplate inner) : Reader Expr)) :=
      alikeQuotedTemplate.map [] fun parts => rfl
    have digits : Alike Akin Respaced Respaced Expr.literals (Jammed scope.extent)
        (fun _ => (do return .number (← number) : Reader Expr)) := .token firmNumber fun _ => alikePure _ fun _ _ => id
    refine .if (quoted.barred fun _ => False.elim) (.if ((alikeListLike scope).barred fun _ => False.elim) (.if
      (alikeObjectLike.barred fun _ => False.elim) (.if (alikeGroup.barred fun _ => False.elim) (.if
      (alikeHeredoc.barred fun _ => False.elim) (.if digits (alikeNamed scope))))))
  intro i i' akin t t' start v v' u u' read read'
  obtain ⟨c, w, rfl, begins⟩ := primaryBegins read
  obtain ⟨w', rfl, _⟩ := start.inside begins.1
  exact alike c akin start ((primaryCons i scope c w).symm.trans read) ((primaryCons i' scope c w').symm.trans read')

def accessSays (f : Expr → Expr) : List String := (f .null).literals

def bracketed (inner : Inner) : Reader (Expr → Expr) := do
  char '['
  space
  if ← given (char '*') then
    space
    char ']'
    return .fullSplat
  else
    let key ← inner.expression .lines
    space
    char ']'
    return (.index · key)

theorem alikeBracketed : Alike Akin Respaced Respaced accessSays never bracketed := by
  have close (f : Expr → Expr) : Alike Akin Respaced Respaced accessSays never
      (fun _ => (do space; char ']'; return f : Reader (Expr → Expr))) := by
    refine (Alike.skip .acrossLines ?_ ?_).given fun _ _ => Respaced.loose
    · exact .token (firmChar (by decide)) fun _ => alikePure _ fun _ _ => id
    · exact fun _ _ => refusesBind (stuckOnly (heldChar (by decide) (by decide)))
  have refuses (f : Expr → Expr) : Leads (Held .acrossLines) (do space; char ']'; return f : Reader (Expr → Expr)) never :=
    heldSkip (refusesBind (heldChar (by decide) (by decide)))
  have index : Alike Akin Respaced Respaced accessSays never (fun inner => (do
      let key ← inner.expression .lines
      space
      char ']'
      return (.index · key) : Reader (Expr → Expr))) := by
    refine (alikeExpression .lines).bind [] (fun key => close _) ?_ ?_
    · exact fun _ _ key => startsBind fun _ => startsBind fun _ => startsPure List.prefix_rfl
    · exact fun _ _ key => leadsSkip (refusesBind (heldChar (by decide) (by decide)))
  refine .token (firmChar (by decide)) fun _ => (Alike.skip .acrossLines ?_ ?_).given fun _ _ => Respaced.loose
  · exact .token (firmGiven (firmChar (by decide))) fun star => .if (close _) index
  · intro i member
    refine leadsBind (leadsGiven (stuckOnly (heldChar (by decide) (by decide)))) fun star => ?_
    split
    · exact stuckOnly (refuses _)
    · exact refusesBind (expressionRefuses (memberRegular member) _ _)

def memberAt (c : Char) : Reader (Expr → Expr) :=
  if Text.isDigit c then do
    let place ← wholeNumber
    return (.element · place)
  else do
    let name ← identifier
    return (.attribute · name)

theorem firmMember (c : Char) : Firm (memberAt c) :=
  firmIf (firmBind firmWholeNumber fun _ => firmPure _) (firmBind firmIdentifier fun _ => firmPure _)

theorem memberBegins {f : Expr → Expr} (read : memberAt c (c :: t) = some (f, u)) : Begins c := by
  unfold memberAt at read
  split at read
  · rename_i digit
    exact digitBegins digit
  · obtain ⟨_, _, name, _⟩ := bindSome.mp read
    obtain ⟨d, x, same, start, _⟩ := identifierSome.mp name
    rw [(List.cons.inj same).1]
    exact identifierBegins start

def accessor (inner : Inner) : Reader (Expr → Expr) := do
  match ← left with
  | '.' :: '.' :: _ => failure
  | '.' :: '*' :: rest =>
      set rest
      return .attributeSplat
  | '.' :: c :: rest =>
      set (c :: rest)
      memberAt c
  | _ => bracketed inner

inductive Accessed (inner : Inner) : List Char → (Expr → Expr) → List Char → Prop where
  | splat {t : List Char} : Accessed inner ('.' :: '*' :: t) .attributeSplat t
  | member {c : Char} {t u : List Char} {f : Expr → Expr} (noDot : c ≠ '.') (noStar : c ≠ '*')
      (read : memberAt c (c :: t) = some (f, u)) : Accessed inner ('.' :: c :: t) f u
  | bracketed {t u : List Char} {f : Expr → Expr} (read : Hcl.bracketed inner t = some (f, u)) : Accessed inner t f u

theorem accessorReads {f : Expr → Expr} (read : accessor inner t = some (f, u)) : Accessed inner t f u := by
  obtain ⟨x, _, here, read⟩ := bindSome.mp read
  obtain ⟨rfl, rfl⟩ := leftSome.mp here
  split at read
  · exact absurd read failureSome
  · obtain ⟨_, _, moved, read⟩ := bindSome.mp read
    obtain ⟨rfl, rfl⟩ := pureSome.mp read
    rw [← setSome.mp moved]
    exact .splat
  · rename_i noDot noStar _
    obtain ⟨_, _, moved, read⟩ := bindSome.mp read
    rw [← setSome.mp moved] at read
    exact .member noDot noStar read
  · exact .bracketed read

theorem bracketedHead {f : Expr → Expr} (read : bracketed inner t = some (f, u)) : ∃ w, t = '[' :: w := by
  obtain ⟨_, w, bracket, _⟩ := bindSome.mp read
  exact ⟨w, charSome.mp bracket⟩

theorem Accessed.held {f : Expr → Expr} (h : Accessed inner t f u) (start : Respaced t t') {e : Extent} : Held e t' := by
  cases h with
  | splat =>
      obtain ⟨w, rfl, _⟩ := start.front ['.', '*'] (by decide)
      exact .dot (by simp)
  | member noDot _ read =>
      obtain ⟨w, rfl, _⟩ := start.front ['.', _] (List.forall_mem_cons.mpr ⟨by decide, List.forall_mem_singleton.mpr (memberBegins read).1⟩)
      exact .dot fun same => noDot (Option.some.inj same)
  | bracketed read =>
      obtain ⟨w, rfl⟩ := bracketedHead read
      obtain ⟨w', rfl, _⟩ := start.inside (by decide)
      exact .bracket

theorem Accessed.notStuck {f : Expr → Expr} (h : Accessed inner t f u) {e : Extent} : ¬ Stuck e t := by
  cases h with
  | splat => exact stuckHead (by decide) (by decide)
  | member => exact stuckHead (by decide) (by decide)
  | bracketed read =>
      obtain ⟨w, rfl⟩ := bracketedHead read
      exact stuckHead (by decide) (by decide)

theorem accessedAlike {i i' : Inner} (akin : Akin i i') {f f' : Expr → Expr} (h : Accessed i t f u) (h' : Accessed i' t' f' u')
    (start : Respaced t t') : Outcome Respaced accessSays never f f' u u' := by
  have noBracket {s : List Char} {g : Expr → Expr} {x : List Char} {j : Inner} (read : bracketed j ('.' :: s) = some (g, x)) :
      False := by
    obtain ⟨w, same⟩ := bracketedHead read
    exact absurd (List.cons.inj same).1 (by decide)
  cases h with
  | splat =>
      obtain ⟨w, rfl, rest⟩ := start.front ['.', '*'] (by decide)
      cases h' with
      | splat => exact .same rest
      | member _ noStar => exact absurd rfl noStar
      | bracketed read' => exact absurd (noBracket read') id
  | @member c s _ _ noDot noStar read =>
      obtain ⟨w, rfl, rest⟩ := start.inside (by decide)
      obtain ⟨w', rfl, last⟩ := rest.inside (memberBegins read).1
      cases h' with
      | splat => exact absurd rfl noStar
      | member _ _ read' =>
          obtain ⟨rfl, tight⟩ := (firmMember c).both rest read read'
          exact .same tight
      | bracketed read' => exact absurd (noBracket read') id
  | bracketed read =>
      obtain ⟨w, rfl⟩ := bracketedHead read
      obtain ⟨w', rfl, _⟩ := start.inside (by decide)
      cases h' with
      | bracketed read' => exact alikeBracketed akin start read read'

theorem alikeAccess (e : Extent) : Alike Akin Respaced Respaced accessSays never (fun inner => access inner e) := by
  refine (Alike.skip e ?_ ?_).given fun _ _ => Respaced.loose
  · exact fun i i' akin t t' start f f' u u' read read' =>
      accessedAlike akin (accessorReads read) (accessorReads read') start
  · exact fun i _ t f u stuck read => (accessorReads read).notStuck stuck

theorem accessAlone {e : Extent} {f : Expr → Expr} (start : Respaced t t') (read : access inner e t = some (f, u)) :
    Blocked e t' := by
  obtain ⟨_, w, skips, read⟩ := bindSome.mp read
  have h := accessorReads read
  rw [← skipSome.mp skips] at h
  rcases skipReady (e := e) start.loose with tight | stuck | stuck
  · exact h.held tight
  · exact absurd stuck h.notStuck
  · exact .stuck stuck

theorem accessShape {e : Extent} {f : Expr → Expr} (read : access inner e t = some (f, u)) :
    f = .attributeSplat ∨ f = .fullSplat ∨ (∃ place, f = (.element · place)) ∨ (∃ name, f = (.attribute · name)) ∨
      ∃ key, f = (.index · key) := by
  obtain ⟨_, w, _, read⟩ := bindSome.mp read
  cases accessorReads read with
  | splat => exact .inl rfl
  | member _ _ read =>
      unfold memberAt at read
      split at read
      · obtain ⟨place, _, _, read⟩ := bindSome.mp read
        exact .inr (.inr (.inl ⟨place, (pureSome.mp read).1.symm⟩))
      · obtain ⟨name, _, _, read⟩ := bindSome.mp read
        exact .inr (.inr (.inr (.inl ⟨name, (pureSome.mp read).1.symm⟩)))
  | bracketed read =>
      obtain ⟨_, _, _, read⟩ := bindSome.mp read
      obtain ⟨_, _, _, read⟩ := bindSome.mp read
      obtain ⟨star, _, _, read⟩ := bindSome.mp read
      split at read
      · obtain ⟨_, _, _, read⟩ := bindSome.mp read
        obtain ⟨_, _, _, read⟩ := bindSome.mp read
        exact .inr (.inl (pureSome.mp read).1.symm)
      · obtain ⟨key, _, _, read⟩ := bindSome.mp read
        obtain ⟨_, _, _, read⟩ := bindSome.mp read
        obtain ⟨_, _, _, read⟩ := bindSome.mp read
        exact .inr (.inr (.inr (.inr ⟨key, (pureSome.mp read).1.symm⟩)))

theorem accessSaid {e : Extent} {f : Expr → Expr} (read : access inner e t = some (f, u)) (of : Expr) :
    (f of).literals = of.literals ++ accessSays f := by
  rcases accessShape read with rfl | rfl | ⟨_, rfl⟩ | ⟨_, rfl⟩ | ⟨_, rfl⟩
  · exact (List.append_nil _).symm
  · exact (List.append_nil _).symm
  · exact (List.append_nil _).symm
  · exact (List.append_nil _).symm
  · rfl

theorem accessesSaid {e : Extent} {fs : List (Expr → Expr)} (run : Run (access inner e) t fs u) (of : Expr) :
    (fs.foldl (fun e f => f e) of).literals = of.literals ++ fs.flatMap accessSays := by
  induction run generalizing of with
  | stop => exact (List.append_nil _).symm
  | step reads _ ih => rw [List.foldl_cons, ih, accessSaid reads, List.flatMap_cons, List.append_assoc]

theorem unarySaid (ops : List UnaryOp) (of : Expr) : (ops.foldr .unary of).literals = of.literals := by
  induction ops with
  | nil => rfl
  | cons op rest ih => exact ih

def prefixOp (e : Extent) : Reader UnaryOp := do
  let op ← unaryOp
  trivia e
  return op

theorem unaryOpSome {op : UnaryOp} : unaryOp t = some (op, u) ↔
    (t = '-' :: u ∧ op = .negate) ∨ (t = '!' :: u ∧ op = .complement) := by
  unfold unaryOp
  split
  · simp [eq_comm, and_comm]
  · simp [eq_comm, and_comm]
  · rename_i noMinus noMark
    refine ⟨fun h => absurd h (by simp), ?_⟩
    rintro (⟨rfl, _⟩ | ⟨rfl, _⟩)
    · exact absurd rfl (noMinus u)
    · exact absurd rfl (noMark u)

theorem unaryOpBegins {op : UnaryOp} (read : unaryOp t = some (op, u)) : ∃ c, t = c :: u ∧ Begins c := by
  rcases unaryOpSome.mp read with ⟨rfl, _⟩ | ⟨rfl, _⟩
  · exact ⟨'-', rfl, by decide⟩
  · exact ⟨'!', rfl, by decide⟩

theorem firmUnaryOp : Firm unaryOp := by
  refine firmOfTaken fun t op u read => ?_
  rcases unaryOpSome.mp read with ⟨rfl, rfl⟩ | ⟨rfl, rfl⟩
  · exact ⟨['-'], by decide, rfl, fun u' _ => rfl⟩
  · exact ⟨['!'], by decide, rfl, fun u' _ => rfl⟩

theorem alikePrefixes {ι : Type} {A : ι → ι → Prop} (e : Extent) :
    Alike A Respaced Respaced silent (Stuck e) (fun _ => many (prefixOp e)) := by
  have alike : Alike A Respaced Respaced silent (Stuck e) (fun _ => prefixOp e) := by
    refine .token firmUnaryOp fun op => (Alike.skip e ?_ ?_).given fun _ _ => Respaced.loose
    · exact alikePure _ fun _ _ => id
    · exact fun _ _ => leadsPure _ fun _ => id
  refine (alike.many (fun _ _ => Respaced.symm) (fun _ _ => shortPrefix e) (fun _ _ t stuck => ⟨?_, stuck⟩) ?_).retell ?_
  · refine Option.eq_none_iff_forall_ne_some.mpr fun p read => ?_
    obtain ⟨_, _, op, _⟩ := bindSome.mp read
    obtain ⟨c, rfl, begins⟩ := unaryOpBegins op
    refine stuckHead begins.1.1 (fun member => begins.2 ?_) stuck
    simp only [List.mem_cons, List.not_mem_nil, or_false] at member ⊢
    rcases member with same | same <;> simp [same]
  · intro _ _ _ _ t t' start op u read fails
    obtain ⟨a, w, reads, _⟩ := bindSome.mp read
    rcases firmUnaryOp start with ⟨none, _⟩ | ⟨a', _, w', _, reads', _⟩
    · rw [none] at reads
      contradiction
    · have found : prefixOp e t' = some (a', skipTrivia e w') :=
        bindSome.mpr ⟨a', w', reads', bindSome.mpr ⟨(), _, skipSome.mpr rfl, rfl⟩⟩
      exact absurd (fails.symm.trans found) (by simp)
  · intro ops
    induction ops with
    | nil => rfl
    | cons op rest ih => exact ih

theorem stuckPrimary {scope : Scope} {e : Extent} : Leads (Stuck e) (primary inner scope) never := by
  intro t v u stuck read
  obtain ⟨c, w, rfl, begins⟩ := primaryBegins read
  refine stuckHead begins.1.1 (fun member => begins.2 ?_) stuck
  simp only [List.mem_cons, List.not_mem_nil, or_false] at member ⊢
  rcases member with same | same <;> simp [same]

theorem alikeOperand (scope : Scope) :
    Alike Akin Respaced Respaced Expr.literals (Blocked scope.extent) (fun inner => operand inner scope) := by
  have accesses : Alike Akin Respaced Respaced (List.flatMap accessSays) (Blocked scope.extent)
      (fun inner => many (access inner scope.extent)) := by
    refine (alikeAccess scope.extent).many (fun _ _ => Respaced.symm) (fun i member => ?_) (fun _ _ _ => False.elim) ?_
    · exact shortAccess (memberRegular member).toInnerTail _
    · exact fun _ _ _ _ t t' start f u read _ => accessAlone start read
  refine (alikePrefixes scope.extent).behind (fun ops => ?_) fun _ _ ops => refusesBind stuckPrimary
  intro i i' akin t t' start v v' u u' read read'
  obtain ⟨core, w, reads, read⟩ := bindSome.mp read
  obtain ⟨core', w', reads', read'⟩ := bindSome.mp read'
  obtain ⟨fs, x, more, read⟩ := bindSome.mp read
  obtain ⟨fs', x', more', read'⟩ := bindSome.mp read'
  obtain ⟨rfl, rfl⟩ := pureSome.mp read
  obtain ⟨rfl, rfl⟩ := pureSome.mp read'
  have jammed {j : Inner} : Leads (Jammed scope.extent) (many (access j scope.extent)) (Blocked scope.extent) := by
    refine fun _ _ _ barred read => Held.stuck (leadsMany (B := Jammed scope.extent) ?_ barred read)
    exact leadsBind (leadsTrivia fun _ => id) fun _ _ _ _ stuck read => (accessorReads read).notStuck stuck
  have said := accessesSaid (manyRun (shortAccess akin.regular.toInnerTail _) more) core
  have said' := accessesSaid (manyRun (shortAccess akin.regular'.toInnerTail _) more') core'
  have starts : Expr.literals core <+: (ops.foldr .unary (fs.foldl (fun e f => f e) core)).literals := by
    rw [unarySaid, said]
    exact List.prefix_append _ _
  have starts' : Expr.literals core' <+: (ops.foldr .unary (fs'.foldl (fun e f => f e) core')).literals := by
    rw [unarySaid, said']
    exact List.prefix_append _ _
  cases alikePrimary scope akin start reads reads' with
  | same rest =>
      cases accesses akin rest more more' with
      | same rest => exact .same rest
      | differ texts =>
          refine .differ ?_
          rw [unarySaid, unarySaid, said, said']
          exact texts.behind _
      | left barred => exact .left barred
      | right barred => exact .right barred
  | differ texts => exact .differ (texts.extend starts starts')
  | left barred => exact .left (jammed barred more)
  | right barred => exact .right (jammed barred more')

end DeclOrder.Hcl
