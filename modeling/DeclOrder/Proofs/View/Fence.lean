import DeclOrder.Proofs.Reading
import DeclOrder.View.Markdown
import Mathlib.Data.List.TakeWhile

/-! What follows the first line of a message, read back from its fence. Two spaces in front of every line
put it into the list item, and a reader takes them off again. The fence is three back-ticks long whatever
it holds, so a line that starts with as many of them ends it early. -/
namespace DeclOrder.View.Markdown
open Text

def ticks : List Char := "```".toList

/-- Whether a line opens or closes a fence. More than three spaces in front make it text. -/
def isFence (line : List Char) : Bool :=
  (line.takeWhile (· == ' ')).length ≤ 3 && ticks.isPrefixOf (line.dropWhile (· == ' '))

def listIndent : List Char := [' ', ' ']

def fences (line : List Char) : Bool := listIndent.isPrefixOf line && isFence (line.drop 2)

def opening : List Char := "  ```hcl".toList

def closing : List Char := "  ```".toList

/-- The lines from the first fence to the next one, without the indentation of the list item. -/
def readFence (item : List (List Char)) : List (List Char) :=
  (((item.dropWhile (!fences ·)).drop 1).takeWhile (!fences ·)).map (·.drop 2)

def footLines (item : Item) : List (List Char) :=
  item.help.elim [] (fun help => [("  - help: " ++ help).toList]) ++
    item.url.elim [] (fun url => [("  - url: " ++ url).toList])

theorem splitMessageLines {summary details : List Char} (single : '\n' ∉ summary) :
    splitMessage (summary ++ '\n' :: details) = (summary, some details) := by
  have plain : ∀ c ∈ summary, (c != '\n') = true := by
    intro c member
    have other : c ≠ '\n' := fun h => single (h ▸ member)
    simpa using other
  simp [splitMessage, List.dropWhile_append_of_pos plain, List.takeWhile_append_of_pos plain]

theorem itemLinesSplit {item : Item} {summary details : List Char}
    (split : splitMessage item.message.toList = (summary, some details)) : itemLines item =
      [headline item summary, [], opening] ++ (lines details).map indented ++ [closing, []] ++ footLines item := by
  rw [itemLines, split, footLines, ← List.append_assoc]
  rfl

theorem indentedDrop (line : List Char) : (indented line).drop 2 = line := by
  cases line <;> rfl

theorem indentedFences (line : List Char) : fences (indented line) = isFence line := by
  cases line <;> simp [fences, indented, listIndent, isFence, ticks]

theorem indentedBreak {line : List Char} (noBreak : '\n' ∉ line) : '\n' ∉ indented line := by
  cases line <;> simp_all [indented]

theorem headlineFences (item : Item) (summary : List Char) : fences (headline item summary) = false := by
  simp [fences, headline, listIndent]

theorem footFences (item : Item) : (footLines item).filter fences = [] := by
  cases help : item.help <;> cases url : item.url <;> simp [footLines, help, url, fences, listIndent, isFence, ticks]

theorem indentedUnbroken (details : List Char) : ∀ line ∈ (lines details).map indented, '\n' ∉ line := by
  intro line member
  obtain ⟨source, among, rfl⟩ := List.mem_map.mp member
  exact indentedBreak (linesNoBreak details source among)

theorem openingFences : fences opening = true := rfl

theorem closingFences : fences closing = true := rfl

theorem emptyFences : fences [] = false := rfl

section
variable {item : Item} {summary details : List Char} (split : splitMessage item.message.toList = (summary, some details))
include split

theorem itemFences : (itemLines item).filter fences =
    [opening] ++ ((lines details).filter isFence).map indented ++ [closing] := by
  have same : fences ∘ indented = isFence := funext indentedFences
  rw [itemLinesSplit split]
  simp only [List.filter_append, List.filter_map, same, footFences, List.append_nil]
  simp only [List.filter_cons, List.filter_nil, headlineFences, openingFences, closingFences, emptyFences]
  rfl

theorem itemContent : readFence (itemLines item) = (lines details).takeWhile (!isFence ·) := by
  have same : (!fences ·) ∘ indented = (!isFence ·) := funext (fun line => by simp [indentedFences])
  have back : List.drop 2 ∘ indented = id := funext indentedDrop
  have start : (itemLines item).dropWhile (!fences ·) =
      opening :: ((lines details).map indented ++ closing :: [] :: footLines item) := by
    rw [itemLinesSplit split]
    simp [headlineFences, openingFences, emptyFences]
  rw [readFence, start, List.drop_one, List.tail_cons, takeWhileStop (by simp [closingFences]), List.takeWhile_map, same,
    List.map_map, back, List.map_id]

end

theorem takeWhileIff {rows : List (List Char)} :
    rows.takeWhile (!isFence ·) = rows ↔ ∀ row ∈ rows, isFence row = false := by
  simp [List.takeWhile_eq_self_iff]

theorem filterIff {rows : List (List Char)} :
    [opening] ++ (rows.filter isFence).map indented ++ [closing] = [opening, closing] ↔
      ∀ row ∈ rows, isFence row = false := by
  simp [List.filter_eq_nil_iff]

theorem unlinesInfix {part whole : List (List Char)} (within : part <:+: whole) : unlines part <:+: unlines whole := by
  obtain ⟨front, back, rfl⟩ := within
  exact ⟨unlines front, unlines back, by rw [unlinesAppend, unlinesAppend]⟩

theorem itemShown {s : Sheet} {item : Item} (member : item ∈ s.items) :
    unlines (itemLines item) <:+: (render s).toList := by
  obtain ⟨front, back, split⟩ := List.append_of_mem member
  have found : s.items.isEmpty = false := by simp [split]
  have among : itemLines item <:+: s.items.flatMap itemLines := by
    rw [split, List.flatMap_append, List.flatMap_cons]
    exact (List.prefix_append _ _).isInfix.trans (List.suffix_append _ _).isInfix
  have within : s.items.flatMap itemLines <:+: sheetLines s := by
    rw [sheetLines, found, if_neg Bool.false_ne_true]
    exact ((List.suffix_append _ _).trans (List.suffix_append _ _)).isInfix.trans (List.prefix_append _ _).isInfix
  rw [render, String.toList_ofList]
  exact unlinesInfix (among.trans within)

structure Fenced (item : Item) (summary details : List Char) : Prop where
  shape : itemLines item =
    [headline item summary, [], opening] ++ (lines details).map indented ++ [closing, []] ++ footLines item
  shown : ∀ s : Sheet, item ∈ s.items → unlines (itemLines item) <:+: (render s).toList
  unbroken : ∀ line ∈ (lines details).map indented, '\n' ∉ line
  restored : ((lines details).map indented).map (·.drop 2) = lines details

/-- The fence holds exactly if none of the further lines looks like a fence. -/
theorem fenceHolds {item : Item} {summary details : List Char} (single : '\n' ∉ summary)
    (message : item.message.toList = summary ++ '\n' :: details) : Fenced item summary details ∧
      ((itemLines item).filter fences = [opening, closing] ↔ ∀ line ∈ lines details, isFence line = false) ∧
      (readFence (itemLines item) = lines details ↔ ∀ line ∈ lines details, isFence line = false) := by
  have split : splitMessage item.message.toList = (summary, some details) := by
    rw [message, splitMessageLines single]
  refine ⟨⟨itemLinesSplit split, fun s member => itemShown member, indentedUnbroken details, ?_⟩, ?_, ?_⟩
  · have back : List.drop 2 ∘ indented = id := funext indentedDrop
    rw [List.map_map, back, List.map_id]
  · rw [itemFences split]
    exact filterIff
  · rw [itemContent split]
    exact takeWhileIff

def suggestion (details : String) : Item :=
  ⟨.notice, some "terraform_output_order", "unsorted_outputs", "Recommended output order:\n" ++ details,
    some ⟨"outputs.tf", some 1, some 1⟩, some "Reorder the output blocks by name.", none⟩

def indentedTicks : String := "output \"a\" \x7b\n  description = <<-EOT\n``\n\n    ```\n    EOT\n\x7d"

theorem fenceHoldsIndented : (suggestion indentedTicks).message.toList =
      "Recommended output order:".toList ++ '\n' :: indentedTicks.toList ∧
    (itemLines (suggestion indentedTicks)).filter fences = [opening, closing] ∧
    readFence (itemLines (suggestion indentedTicks)) = lines indentedTicks.toList := by
  have message : (suggestion indentedTicks).message.toList =
    "Recommended output order:".toList ++ '\n' :: indentedTicks.toList := by decide
  have plain : ∀ line ∈ lines indentedTicks.toList, isFence line = false := by decide
  obtain ⟨_, fences, content⟩ := fenceHolds (by decide) message
  exact ⟨message, fences.mpr plain, content.mpr plain⟩

def markdownText : String :=
  "output \"a\" \x7b\n  description = <<EOT\n```\nEOT\n\x7d\n\noutput \"b\" \x7b\n  value = 1\n\x7d"

/-- A back-tick fence in a heredoc ends the block, and the rest of the suggestion stands outside. -/
theorem fenceBroken : '\n' ∉ "Recommended output order:".toList ∧
    (suggestion markdownText).message.toList = "Recommended output order:".toList ++ '\n' :: markdownText.toList ∧
    (itemLines (suggestion markdownText)).filter fences = [opening, closing, closing] ∧
    readFence (itemLines (suggestion markdownText)) = ["output \"a\" \x7b".toList, "  description = <<EOT".toList] ∧
    readFence (itemLines (suggestion markdownText)) ≠ lines markdownText.toList := by
  decide +kernel

end DeclOrder.View.Markdown
