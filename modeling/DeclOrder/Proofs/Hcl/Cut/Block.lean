import DeclOrder.Proofs.Hcl.Cut.Document
import Mathlib.Data.List.Forall2

/-! Blocks that are cut out of a document and stand behind each other in another one. -/
namespace DeclOrder.Hcl
open Text Reader Read

variable {s : List Char} {c : Char} {t u bound : List Char}

/-- Is read as the same structure in front of any text. -/
def Freestanding (text : List Char) (item : Structure) : Prop := ∃ x, text = x ++ ['}'] ∧
  ∀ s bound, x.length ≤ bound.length + 1 → placedItem (bodyUpTo bound) (x ++ '}' :: s) = some (item, s)

theorem blockFreestanding {kind : String} {labels : List Label} {items : Body} (enough : t.length ≤ bound.length + 1)
    (filled : bodyFilled items = true) (read : placedItem (bodyUpTo bound) t = some (.block kind labels items, u)) :
    ∃ text, t = text ++ u ∧ Freestanding text (.block kind labels items) := by
  obtain ⟨x, rfl⟩ := blockBrace read
  refine ⟨x ++ ['}'], by simp, x, rfl, fun s bound' within => blockAgain ?_ within filled read⟩
  rw [List.length_append, List.length_cons] at enough
  omega

theorem Freestanding.head {text : List Char} {item : Structure} (free : Freestanding text item) :
    ∃ c w, text = c :: w ∧ startsIdentifier c = true := by
  obtain ⟨x, rfl, reads⟩ := free
  have read := reads [] x (Nat.le_succ _)
  rw [placedItemReads] at read
  obtain ⟨_, _, name, _⟩ := bindSome.mp read
  obtain ⟨c, w, whole, start, _⟩ := identifierSome.mp name
  exact ⟨c, w, whole, start⟩

theorem placedPlace {body : Reader (List Placed)} {p : Placed} (read : placed body t = some (p, u)) :
    p.start = t ∧ p.stop = u := by
  obtain ⟨header, found⟩ := (placedReads read).placed
  rw [read] at found
  rw [Option.some.inj found |> Prod.mk.inj |>.1]
  exact ⟨rfl, rfl⟩

structure Stood (whole text : List Char) (item : Structure) (p : Placed) : Prop where
  item : p.item = item
  start : p.start = text ++ p.stop
  inside : p.start <:+ whole

def Final (ending : List Char) : Prop := ending = [] ∨ ending = ['\n']

def blankLine : List Char := ['\n', '\n']

theorem endsFinal {ending : List Char} (final : Final ending) :
    ∃ rest, structureEnd ending = some ((), rest) ∧ skipTrivia .acrossLines rest = [] := by
  rcases final with rfl | rfl
  · exact ⟨[], rfl, rfl⟩
  · exact ⟨[], rfl, rfl⟩

theorem endsBlankLine (start : startsIdentifier c = true) :
    ∃ rest, structureEnd (blankLine ++ c :: t) = some ((), rest) ∧ skipTrivia .acrossLines rest = c :: t := by
  refine ⟨'\n' :: c :: t, rfl, ?_⟩
  rw [skipStep (show trivium? .acrossLines ('\n' :: c :: t) = some (c :: t) from rfl), identifierStays start]

theorem freestandingEntry {text rest : List Char} {item : Structure} (free : Freestanding text item)
    (enough : text.length ≤ bound.length + 1) (ends : structureEnd t = some ((), rest)) :
    ∃ p, entry (bodyUpTo bound) (text ++ t) = some (p, skipTrivia .acrossLines rest) ∧ p.item = item ∧
      p.start = text ++ t ∧ p.stop = t := by
  obtain ⟨x, rfl, reads⟩ := free
  rw [List.length_append] at enough
  have read := reads t bound (Nat.le_trans (Nat.le_add_right _ _) enough)
  obtain ⟨p, w, places, last⟩ := bindSome.mp read
  obtain ⟨same, rfl⟩ := pureSome.mp last
  have whole : x ++ ['}'] ++ w = x ++ '}' :: w := by simp
  rw [whole]
  refine ⟨p, bindSome.mpr ⟨p, w, places, bindSome.mpr ⟨(), rest, ends, bindSome.mpr ⟨(), _, skipSome.mpr rfl, rfl⟩⟩⟩, same, ?_⟩
  exact placedPlace places

theorem documentHead {texts : List (List Char × Structure)} (each : ∀ p ∈ texts, Freestanding p.1 p.2) (some : texts ≠ [])
    (ending : List Char) :
    ∃ c t, blankLine.intercalate (texts.map Prod.fst) ++ ending = c :: t ∧ startsIdentifier c = true := by
  cases texts with
  | nil => exact absurd rfl some
  | cons p rest =>
      obtain ⟨c, w, head, start⟩ := (each p List.mem_cons_self).head
      cases rest with
      | nil =>
          rw [List.map_cons, List.map_nil, List.intercalate_singleton, head]
          exact ⟨c, _, rfl, start⟩
      | cons q rest =>
          rw [List.map_cons, List.map_cons, List.intercalate_cons_cons, head]
          exact ⟨c, _, rfl, start⟩

theorem freestandingRun {whole ending : List Char} (final : Final ending) {texts : List (List Char × Structure)}
    (each : ∀ p ∈ texts, Freestanding p.1 p.2) (some : texts ≠ [])
    (enough : (blankLine.intercalate (texts.map Prod.fst) ++ ending).length ≤ bound.length + 1)
    (inside : blankLine.intercalate (texts.map Prod.fst) ++ ending <:+ whole) :
    ∃ items, Run (entry (bodyUpTo bound)) (blankLine.intercalate (texts.map Prod.fst) ++ ending) items [] ∧
      List.Forall₂ (fun p placed => Stood whole p.1 p.2 placed) texts items := by
  induction texts with
  | nil => exact absurd rfl some
  | cons p rest ih =>
      obtain ⟨text, item⟩ := p
      have free : Freestanding text item := each _ List.mem_cons_self
      have later : ∀ p ∈ rest, Freestanding p.1 p.2 := fun p member => each p (List.mem_cons_of_mem _ member)
      cases rest with
      | nil =>
          rw [List.map_cons, List.map_nil, List.intercalate_singleton] at enough inside ⊢
          obtain ⟨left, ends, skips⟩ := endsFinal final
          rw [List.length_append] at enough
          obtain ⟨p, reads, isItem, starts, stops⟩ := freestandingEntry free (Nat.le_trans (Nat.le_add_right _ _) enough) ends
          have none : entry (bodyUpTo bound) [] = none := rfl
          rw [skips] at reads
          have here : Stood whole text item p := ⟨isItem, by rw [starts, stops], starts ▸ inside⟩
          exact ⟨[p], .step reads (.stop none), .cons here .nil⟩
      | cons q rest =>
          rw [List.map_cons, List.map_cons, List.intercalate_cons_cons, ← List.map_cons, List.append_assoc, List.append_assoc]
            at enough inside ⊢
          obtain ⟨c, t, same, start⟩ := documentHead later (List.cons_ne_nil _ _) ending
          obtain ⟨left, ends, skips⟩ := endsBlankLine (t := t) start
          rw [List.length_append, List.length_append] at enough
          rw [← same] at ends skips
          have short : text.length ≤ bound.length + 1 := Nat.le_trans (Nat.le_add_right _ _) enough
          obtain ⟨p, reads, isItem, starts, stops⟩ := freestandingEntry free short ends
          rw [skips] at reads
          have behind := (List.suffix_append blankLine _).trans ((List.suffix_append text _).trans inside)
          obtain ⟨items, run, stood⟩ := ih later (List.cons_ne_nil _ _) (by omega) behind
          have here : Stood whole text item p := ⟨isItem, by rw [starts, stops], starts ▸ inside⟩
          exact ⟨p :: items, .step reads run, .cons here stood⟩

theorem stoodItems {whole : List Char} {texts : List (List Char × Structure)} {items : List Placed}
    (stood : List.Forall₂ (fun p placed => Stood whole p.1 p.2 placed) texts items) :
    items.map Placed.item = texts.map Prod.snd := by
  induction stood with
  | nil => rfl
  | cons here _ ih => rw [List.map_cons, List.map_cons, here.item, ih]

theorem parseFreestanding {ending : List Char} (final : Final ending) {texts : List (List Char × Structure)}
    (each : ∀ p ∈ texts, Freestanding p.1 p.2) (blocks : ∀ p ∈ texts, p.2.attributeName? = none) :
    ∃ items, parsePlaced? (blankLine.intercalate (texts.map Prod.fst) ++ ending) = some items ∧ List.Forall₂
      (fun p placed => Stood (blankLine.intercalate (texts.map Prod.fst) ++ ending) p.1 p.2 placed) texts items := by
  by_cases none : texts = []
  · subst none
    rcases final with rfl | rfl
    · exact ⟨[], rfl, .nil⟩
    · exact ⟨[], rfl, .nil⟩
  · generalize whole : blankLine.intercalate (texts.map Prod.fst) ++ ending = document
    obtain ⟨c, bound, rfl, start⟩ : ∃ c bound, document = c :: bound ∧ startsIdentifier c = true := by
      rw [← whole]
      exact documentHead each none ending
    have enough : (blankLine.intercalate (texts.map Prod.fst) ++ ending).length ≤ bound.length + 1 := by
      rw [whole]
      exact Nat.le_refl _
    have inside : blankLine.intercalate (texts.map Prod.fst) ++ ending <:+ c :: bound := ⟨[], whole⟩
    obtain ⟨items, run, stood⟩ := freestandingRun final each none enough inside
    rw [whole] at run
    have entries : many (entry (bodyUpTo bound)) (c :: bound) = some (items, []) :=
      manyOfRun run (Nat.le_trans (Nat.le_add_right _ _) (runLength (shortEntry (tailBodyUpTo bound)) run))
    have distinct : distinctAttributes items = true := by
      have names : items.filterMap (fun p => p.item.attributeName?) = [] := by
        refine List.filterMap_eq_nil_iff.mpr fun p member => ?_
        have item : p.item ∈ texts.map Prod.snd := stoodItems stood ▸ List.mem_map_of_mem member
        obtain ⟨q, from', same⟩ := List.mem_map.mp item
        rw [← same]
        exact blocks q from'
      rw [distinctAttributes, names]
      rfl
    have body : bodyUpTo (c :: bound) (c :: bound) = some (items, []) := by
      refine bindSome.mpr ⟨(), _, skipSome.mpr (identifierStays start), bindSome.mpr ⟨items, [], entries, ?_⟩⟩
      rw [if_pos distinct]
      rfl
    refine ⟨items, ?_, stood⟩
    rw [parsePlaced?, body]

theorem parsePlacedReads {items : List Placed} (parsed : parsePlaced? t = some items) : bodyUpTo t t = some (items, []) := by
  unfold parsePlaced? at parsed
  split at parsed
  · rename_i found
    cases parsed
    exact found
  · contradiction

theorem runOrdered {items : List Placed} (run : Run (entry (bodyUpTo bound)) t items u) :
    items.Pairwise (fun p q => q.start <:+ p.stop) ∧
    ∀ p ∈ items, p.start <:+ t ∧ placed (bodyUpTo bound) p.start = some (p, p.stop) := by
  induction run with
  | stop => exact ⟨.nil, fun _ member => absurd member List.not_mem_nil⟩
  | @step t w _ _ rest reads _ ih =>
      obtain ⟨ordered, each⟩ := ih
      have taken : w <:+ t := (shortEntry (tailBodyUpTo bound) reads).1
      obtain ⟨p, y, places, read⟩ := bindSome.mp reads
      obtain ⟨_, z, ends, read⟩ := bindSome.mp read
      obtain ⟨_, x, spaces, last⟩ := bindSome.mp read
      obtain ⟨rfl, rfl⟩ := pureSome.mp last
      obtain ⟨rfl, rfl⟩ := placedPlace places
      have behind : x <:+ p.stop := (tailTrivia _ spaces).trans (tailStructureEnd ends)
      refine ⟨.cons (fun q later => (each q later).1.trans behind) ordered, ?_⟩
      exact List.forall_mem_cons.mpr ⟨⟨List.suffix_rfl, places⟩, fun q later => ⟨(each q later).1.trans taken, (each q later).2⟩⟩

theorem parsedOrdered {items : List Placed} (parsed : parsePlaced? t = some items) :
    items.Pairwise (fun p q => q.start <:+ p.stop) ∧ ∀ p ∈ items, p.start <:+ t ∧
      ∃ bound, t.length ≤ bound.length + 1 ∧ placed (bodyUpTo bound) p.start = some (p, p.stop) := by
  have read := parsePlacedReads parsed
  cases t with
  | nil =>
      obtain ⟨rfl, _⟩ := pureSome.mp read
      exact ⟨.nil, fun _ member => absurd member List.not_mem_nil⟩
  | cons c bound =>
      obtain ⟨ordered, each⟩ := runOrdered (bodyReads read)
      have inside := (skipStopped .acrossLines (c :: bound)).2
      exact ⟨ordered, fun p member => ⟨(each p member).1.trans inside, bound, Nat.le_refl _, (each p member).2⟩⟩

theorem parsedFreestanding {items : List Placed} (parsed : parsePlaced? t = some items) {p : Placed} (member : p ∈ items)
    {kind : String} {labels : List Label} {body : Body} (isBlock : p.item = .block kind labels body)
    (filled : bodyFilled body = true) : ∃ text, Stood t text p.item p ∧ Freestanding text p.item := by
  obtain ⟨inside, bound, enough, places⟩ := (parsedOrdered parsed).2 p member
  have item : placedItem (bodyUpTo bound) p.start = some (.block kind labels body, p.stop) :=
    bindSome.mpr ⟨p, p.stop, places, isBlock ▸ rfl⟩
  obtain ⟨text, whole, free⟩ := blockFreestanding (Nat.le_trans inside.length_le enough) filled item
  rw [isBlock]
  exact ⟨text, ⟨isBlock, whole, inside⟩, free⟩

end DeclOrder.Hcl
