import DeclOrder.Proofs.Hcl.Parts

/-! Quoted text and heredocs. -/
namespace DeclOrder.Hcl
open Text Reader Read

variable {inner inner' : Inner} {setting : Setting} {t t' u u' w w' marker : List Char} {ps ps' : List Part}

theorem Template.end (h : Template inner setting t ps u) : literal? setting u = none := by
  induction h with
  | stop text => exact runEnd text
  | step _ _ _ ih => exact ih

def Setting.tight : Setting → Bool
  | .heredoc _ => false
  | _ => true

theorem tightNamed (tight : setting.tight = true) : Named setting := by
  cases setting with
  | quotes => trivial
  | directive => trivial
  | heredoc => contradiction

theorem literalEnd (tight : setting.tight = true) (ends : literal? setting t = none) :
    t = [] ∨ ∃ c w, t = c :: w ∧ isBlank c = false := by
  cases t with
  | nil => exact .inl rfl
  | cons c w =>
      refine .inr ⟨c, w, rfl, ?_⟩
      cases blank : isBlank c with
      | false => rfl
      | true =>
          rw [literalBlank _ _ blank] at ends
          cases setting with
          | quotes => contradiction
          | directive => contradiction
          | heredoc => contradiction

theorem endsTight (tight : setting.tight = true) (ends : literal? setting t = none) (ends' : literal? setting t' = none)
    (h : Loose t t') : Respaced t t' ∨ t = [] ∨ t' = [] := by
  rcases literalEnd tight ends with rfl | ⟨c, w, rfl, solid⟩
  · exact .inr (.inl rfl)
  · rcases literalEnd tight ends' with rfl | ⟨c', w', rfl, solid'⟩
    · exact .inr (.inr rfl)
    · exact .inl (looseTight solid solid' h)

theorem partsReads (regular : Regular inner) (read : parts inner setting t = some (ps, u)) : Template inner setting t ps u :=
  partsTemplate regular.toInnerTail (Nat.le_refl _) read

theorem alikeParts (tight : setting.tight = true) :
    Alike Akin Respaced Respaced templateLiterals Unclosed (fun inner => parts inner setting) := by
  intro inner inner' akin t t' start ps ps' u u' read read'
  have h := partsReads akin.regular read
  have h' := partsReads akin.regular' read'
  cases templateAlike akin (tightNamed tight) h h' start.loose with
  | same loose =>
      rcases endsTight tight h.end h'.end loose with tight | none | none
      · exact .same tight
      · exact .left (.inl none)
      · exact .right (.inl none)
  | differ texts => exact .differ texts
  | left barred => exact .left barred
  | right barred => exact .right barred

theorem quoteRefuses : Leads Unclosed (char '"') never := by
  refine refusesChar fun rest => ?_
  rintro (none | ⟨_, _, _, same, _⟩)
  · contradiction
  · exact absurd (List.cons.inj same).1 (by decide)

theorem alikeQuotedTemplate : Alike Akin Respaced Respaced templateLiterals never quotedTemplate := by
  refine .token (firmChar (by decide)) fun _ => (alikeParts rfl).bind [] (fun found => ?_) ?_ ?_
  · exact .token (firmChar (by decide)) fun _ => alikePure _ fun _ _ => id
  · exact fun _ _ found => startsBind fun _ => startsPure List.prefix_rfl
  · exact fun _ _ found => refusesBind quoteRefuses

section
variable {ι : Type} {A : ι → ι → Prop}

theorem alikeLiteral : Alike A Respaced Respaced (fun s => [s]) Unclosed (fun _ => literal .quotes) := by
  intro _ _ _ t t' start s s' u u' read read'
  obtain ⟨vs, run, rfl⟩ := literalReads read
  obtain ⟨vs', run', rfl⟩ := literalReads read'
  by_cases same : vs.flatten = vs'.flatten
  · rcases runsStopped (tightNamed rfl) start.loose run run' with loose | none | none | other
    · rw [same]
      rcases endsTight rfl (runEnd run) (runEnd run') loose with tight | none | none
      · exact .same tight
      · exact .left (.inl none)
      · exact .right (.inl none)
    · exact .left (.inl none)
    · exact .right (.inl none)
    · exact absurd (congrArg solids same) other
  · exact .differ (differFirst (ofListNe same))

theorem alikeQuotedText : Alike A Respaced Respaced (fun s => [s]) never (fun _ => quotedText) := by
  refine .token (firmChar (by decide)) fun _ => alikeLiteral.bind [] (fun text => ?_) ?_ ?_
  · exact .token (firmChar (by decide)) fun _ => alikePure _ fun _ _ => id
  · exact fun _ _ text => startsBind fun _ => startsPure List.prefix_rfl
  · exact fun _ _ text => refusesBind quoteRefuses

end

theorem lineBreakLoose {x x' : Unit} (h : Loose t t') (read : lineBreak t = some (x, u)) (read' : lineBreak t' = some (x', u')) :
    Loose u u' := by
  have atBreak : Loose ('\n' :: u) t' := by
    rcases lineBreakSome.mp read with rfl | rfl
    · exact h
    · exact h.tailLeft ⟨by decide, by decide⟩
  have atBreak' : Loose ('\n' :: u) ('\n' :: u') := by
    rcases lineBreakSome.mp read' with rfl | rfl
    · exact atBreak
    · exact atBreak.tailRight ⟨by decide, by decide⟩
  rcases looseBreak atBreak' with ⟨b, w, within, same, loose⟩ | ⟨all, all'⟩
  · cases b with
    | nil =>
        rw [(List.cons.inj same).2]
        exact loose
    | cons c b => exact absurd (List.cons.inj same).1.symm (withinCons.mp within).1.2
  · exact (Respaced.blank all (allBlankCons.mp all').2).loose

theorem Loose.dropGaps (h : Loose t t') : Loose (t.dropWhile isGap) t' := by
  rw [← List.takeWhile_append_dropWhile (p := isGap) (l := t)] at h
  exact h.dropLeft (gapsWithin t)

theorem markerTight (named : Named (.heredoc marker)) (h : Loose t t') (found : t.dropWhile isGap = marker ++ u)
    (found' : t'.dropWhile isGap = marker ++ u') : Respaced u u' := by
  have loose := h.dropGaps.symm.dropGaps.symm
  rw [found, found'] at loose
  obtain ⟨c, rest, rfl, start, inside⟩ := named
  have first := continuesInside (startsContinues start)
  obtain ⟨x, same, last⟩ := (looseTight first.1 first.1 loose).front (c :: rest) (List.forall_mem_cons.mpr ⟨first, inside⟩)
  cases (List.append_right_inj (c :: rest)).mp same
  exact last

theorem markerText (named : Named (.heredoc marker)) (h : Loose t t') (found : t'.dropWhile isGap = marker ++ u')
    (template : Template inner (.heredoc marker) t ps u) : Differ (templateLiterals ps) (templateLiterals []) := by
  obtain ⟨vs, w, run, _, more, told⟩ := template.first
  obtain ⟨c, rest, rfl, start, inside⟩ := id named
  have loose := h.symm.dropGaps
  rw [found] at loose
  obtain ⟨b, x, within, rfl, _⟩ := looseSolid (continuesInside (startsContinues start)).1 loose
  have some := runSolid within start run
  rw [told, templateLiterals]
  refine differFirst fun none => some ?_
  have empty : vs.flatten = [] := String.ofList_eq_empty_iff.mp none
  rw [empty]
  rfl

theorem firmHeredocHead : Firm heredocHead :=
  firmBind (firmKeyword (by decide)) fun _ => firmBind (firmGiven (firmChar (by decide))) fun _ =>
    firmBind firmIdentifier fun _ => firmPure _

theorem headNamed {indented : Bool} {marker : String} (head : heredocHead t = some ((indented, marker), u)) :
    Named (.heredoc marker.toList) := by
  obtain ⟨_, _, _, _, name⟩ := heredocHeadSome.mp head
  obtain ⟨c, w, _, starts, rfl, _⟩ := identifierSome.mp name
  rw [String.toList_ofList]
  exact ⟨c, _, rfl, starts, fun d member => continuesInside (List.all_eq_true.mp List.all_takeWhile d member)⟩

theorem unclosedMarker (barred : Unclosed t) : endMarker marker t ≠ some ((), u) := by
  intro ends
  obtain ⟨line, atBreak, _⟩ := afterMarkerSome.mp (endMarkerSome.mp ends)
  rcases barred with rfl | ⟨_, _, _, rfl, _⟩ <;> rcases lineBreakSome.mp atBreak with same | same <;> cases same

theorem headsAlike {body body' start start' : List Char} {head head' : Bool × String} (same : Respaced t t')
    (found : heredocHead t = some (head, body)) (found' : heredocHead t' = some (head', body'))
    (breaks : lineBreak body = some ((), start)) (breaks' : lineBreak body' = some ((), start')) :
    head = head' ∧ Loose start start' := by
  obtain ⟨heads, rest⟩ := firmHeredocHead.both same found found'
  exact ⟨heads, lineBreakLoose rest.loose breaks breaks'⟩

theorem alikeHeredoc : Alike Akin Respaced Respaced Expr.literals never heredoc := by
  intro inner inner' akin t t' same v v' u u' read read'
  cases heredocIff.mp read with
  | closed head breaks texts ends =>
      have template := partsReads akin.regular texts
      cases heredocIff.mp read' with
      | closed head' breaks' texts' ends' =>
          obtain ⟨heads, loose⟩ := headsAlike same head head' breaks breaks'
          cases heads
          have named := headNamed head
          cases templateAlike akin named template (partsReads akin.regular' texts') loose with
          | same loose =>
              obtain ⟨x, atBreak, found⟩ := afterMarkerSome.mp (endMarkerSome.mp ends)
              obtain ⟨x', atBreak', found'⟩ := afterMarkerSome.mp (endMarkerSome.mp ends')
              exact .same (markerTight named (lineBreakLoose loose atBreak atBreak') found found')
          | differ texts => exact .differ texts
          | left barred => exact absurd ends (unclosedMarker barred)
          | right barred => exact absurd ends' (unclosedMarker barred)
      | bare head' breaks' _ _ again =>
          obtain ⟨heads, loose⟩ := headsAlike same head head' breaks breaks'
          cases heads
          exact .differ (markerText (headNamed head) loose again template)
  | bare head breaks _ _ again =>
      cases heredocIff.mp read' with
      | closed head' breaks' texts' _ =>
          obtain ⟨heads, loose⟩ := headsAlike same head head' breaks breaks'
          cases heads
          exact .differ (markerText (headNamed head) loose.symm again (partsReads akin.regular' texts')).symm
      | bare head' breaks' _ _ again' =>
          obtain ⟨heads, loose⟩ := headsAlike same head head' breaks breaks'
          cases heads
          exact .same (markerTight (headNamed head) loose again again')

end DeclOrder.Hcl
