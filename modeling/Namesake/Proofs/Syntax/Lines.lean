import Mathlib.Data.Prod.Lex
import Namesake.Proofs.Syntax.Positions

/-!
A line index and the characters of a text agree at every offset, also at a newline, right behind
one and at the end of the text.
-/

namespace Namesake

open List

namespace Position

/-- The place of a position in the order of the text: by lines, then by columns. -/
def order (position : Position) : Int ×ₗ Int :=
  toLex (position.line, position.column)

theorem order_lt_step (position : Position) (char : Char) :
    position.order < (Cursor.step position char).order := by
  unfold Cursor.step
  split
  · exact Prod.Lex.toLex_lt_toLex.2 (.inl (Int.lt_succ position.line))
  · exact Prod.Lex.toLex_lt_toLex.2 (.inr ⟨rfl, Int.lt_succ position.column⟩)

theorem order_lt_after (before : List Char) {middle : List Char} (further : middle ≠ []) :
    (after before).order < (after (before ++ middle)).order := by
  induction middle using List.reverseRecOn with
  | nil => exact absurd rfl further
  | append_singleton middle char ih =>
    rw [← append_assoc, after_append (before ++ middle)]
    have last := order_lt_step (after (before ++ middle)) char
    by_cases none : middle = []
    · rw [none, append_nil] at last ⊢
      exact last
    · exact (ih none).trans last

end Position

namespace LineIndex

variable {source : String} {offset : Nat}

theorem starts_ofSource (source : String) (offset : Nat) :
    (ofSource source).starts = (0 :: startsFrom 0 (source.toList.take offset)) ++
      startsFrom (source.toList.take offset).length (source.toList.drop offset) := by
  have split := startsFrom_append 0 (source.toList.take offset) (source.toList.drop offset)
  rw [take_append_drop, Nat.zero_add] at split
  rw [ofSource, split, cons_append]

theorem pairwise_startsFrom (offset : Nat) (chars : List Char) :
    (startsFrom offset chars).Pairwise (· < ·) := by
  induction chars generalizing offset with
  | nil => exact .nil
  | cons char rest ih =>
    rw [startsFrom]
    split
    · exact .cons (fun start member => (mem_startsFrom member).1) (ih _)
    · exact ih _

theorem position_eq_after (inside : offset ≤ source.toList.length) :
    (ofSource source).position offset = .after (source.toList.take offset) := by
  have isIn : (Position.after (source.toList.take offset)).IsIn source.toList :=
    ⟨_, take_prefix _ _, rfl⟩
  have same := isIn.position_offset
  rwa [Position.offset_after, length_take, Nat.min_eq_left inside] at same

theorem length_splitOn (chars : List Char) :
    (chars.splitOn '\n').length = chars.count '\n' + 1 := by
  induction chars with
  | nil => rfl
  | cons char rest ih =>
    rw [splitOn_cons_eq_if_modifyHead]
    by_cases newline : char = '\n'
    · simp [newline, ih]
    · simp [newline, ih]

/-- Some characters are whole lines and the start of one more, where the last line start says. -/
theorem exists_row (before : List Char) :
    ∃ above row, before = above ++ row ∧ '\n' ∉ row ∧ (above = [] ∨ above.getLast? = some '\n') ∧
      (0 :: startsFrom 0 before).getLast? = some above.length := by
  induction before using List.reverseRecOn with
  | nil => exact ⟨[], [], rfl, by simp, .inl rfl, rfl⟩
  | append_singleton before char ih =>
    rw [startsFrom_append, startsFrom, startsFrom, Nat.zero_add, ← cons_append]
    by_cases newline : char = '\n'
    · refine ⟨before ++ [char], [], by simp, by simp, .inr (by simp [newline]), ?_⟩
      rw [if_pos newline, getLast?_concat, length_append, length_singleton]
    · obtain ⟨above, row, rfl, single, ends, last⟩ := ih
      refine ⟨above, row ++ [char], by simp, by simp [single, Ne.symm newline], ends, ?_⟩
      rw [if_neg newline, append_nil, last]

theorem getLast?_splitOn {above row : List Char} (single : '\n' ∉ row)
    (ends : above = [] ∨ above.getLast? = some '\n') :
    ((above ++ row).splitOn '\n').getLast? = some row := by
  rcases ends with rfl | ends
  · rw [nil_append, splitOn_eq_singleton single]
    rfl
  · obtain ⟨lines, rfl⟩ := getLast?_eq_some_iff.1 ends
    rw [append_assoc, singleton_append, splitOn_append_cons_self, splitOn_eq_singleton single,
      getLast?_concat]

/-- The characters before an offset as whole lines and a row, with what the index says about the
offset: the line is where a binary search in the line starts puts it. -/
structure Places (source : String) (offset line : Nat) (above row : List Char) : Prop where
  split : source.toList.take offset = above ++ row
  single : '\n' ∉ row
  ends : above = [] ∨ above.getLast? = some '\n'
  counted : line = 1 + (source.toList.take offset).count '\n'
  position : (ofSource source).position offset = ⟨offset, line, offset - above.length⟩
  start : (ofSource source).starts[line - 1]? = some above.length
  atMost : ∀ start ∈ (ofSource source).starts.take line, start ≤ offset
  greater : ∀ start ∈ (ofSource source).starts.drop line, offset < start

theorem exists_places (inside : offset ≤ source.toList.length) :
    ∃ line above row, Places source offset line above row := by
  obtain ⟨above, row, split, single, ends, last⟩ := exists_row (source.toList.take offset)
  have taken : (source.toList.take offset).length = offset := by
    rw [length_take, Nat.min_eq_left inside]
  have lines : (0 :: startsFrom 0 (source.toList.take offset)).length =
      1 + (source.toList.take offset).count '\n' := by
    have same := congrArg Position.line ((Position.after_eq_count _).symm.trans
      (Position.after_eq_starts (source.toList.take offset)))
    dsimp only at same
    omega
  refine ⟨_, above, row, split, single, ends, rfl, ?_, ?_, ?_, ?_⟩
  · rw [position_eq_after inside, Position.after_eq_starts, last, lines, taken]
    rfl
  · rw [getLast?_eq_getElem?, lines] at last
    rw [starts_ofSource source offset, List.getElem?_append_left (by omega), last]
  · rw [starts_ofSource source offset, ← lines, take_left]
    intro start member
    rcases mem_cons.1 member with rfl | later
    · exact Nat.zero_le _
    · have bounds := mem_startsFrom later
      omega
  · rw [starts_ofSource source offset, ← lines, drop_left, taken]
    exact fun start member => (mem_startsFrom member).1

end LineIndex

open LineIndex in
/-- The line of an offset is one more than the number of newlines before it, and its column counts
from behind the last of them.  Positions ascend with the offsets, and the last is the end of the
file, behind the last of the rows that the newlines separate. -/
theorem SourceFile.position_of_text (file : SourceFile) :
    (ofSource file.text).starts.Pairwise (· < ·) ∧
    (∀ offset ≤ file.text.toList.length, ∃ line above row,
      Places file.text offset line above row) ∧
    (∀ offset later, offset < later → later ≤ file.text.toList.length →
      ((ofSource file.text).position offset).order < ((ofSource file.text).position later).order) ∧
    (∀ offset ≤ file.text.toList.length, ∀ later ≤ file.text.toList.length,
      ((ofSource file.text).position offset).order = ((ofSource file.text).position later).order →
        offset = later) ∧
    ((ofSource file.text).position file.text.toList.length).mark = file.span.last ∧
    ∃ row, (file.text.toList.splitOn '\n').getLast? = some row ∧
      file.span.last = Position.mark
        ⟨file.text.toList.length, (file.text.toList.splitOn '\n').length, row.length⟩ := by
  have ascends (offset later : Nat) (less : offset < later)
      (inside : later ≤ file.text.toList.length) :
      ((ofSource file.text).position offset).order <
        ((ofSource file.text).position later).order := by
    have split : file.text.toList.take later =
        file.text.toList.take offset ++ (file.text.toList.drop offset).take (later - offset) := by
      rw [← take_add, Nat.add_sub_cancel' less.le]
    rw [position_eq_after (less.le.trans inside), position_eq_after inside, split]
    refine Position.order_lt_after _ fun none => ?_
    have short := congrArg length none
    rw [length_take, length_drop, length_nil] at short
    omega
  have last : ((ofSource file.text).position file.text.toList.length).mark = file.span.last := by
    rw [position_eq_after (Nat.le_refl _), take_length, SourceFile.span_eq]
    rfl
  refine ⟨?_, fun offset inside => exists_places inside, ascends, ?_, last, ?_⟩
  · exact .cons (fun start member => (mem_startsFrom member).1) (pairwise_startsFrom 0 _)
  · intro offset offsetIn later laterIn same
    rcases Nat.lt_trichotomy offset later with less | equal | greater
    · exact absurd same (ascends offset later less laterIn).ne
    · exact equal
    · exact absurd same (ascends later offset greater offsetIn).ne'
  · obtain ⟨line, above, row, places⟩ := exists_places (Nat.le_refl file.text.toList.length)
    have split := take_length.symm.trans places.split
    have lineEq := places.counted
    rw [take_length] at lineEq
    have lengthEq := congrArg length split
    rw [length_append] at lengthEq
    refine ⟨row, by rw [split]; exact getLast?_splitOn places.single places.ends, ?_⟩
    rw [← last, places.position, length_splitOn]
    congr 1
    simp only [Position.mk.injEq, true_and]
    omega

/-- An offset behind a newline and in front of another. -/
theorem SourceFile.position_of_text_blank_line :
    (∃ line above row, LineIndex.Places "a\n\nb" 2 line above row) ∧
    ((LineIndex.ofSource "a\n\nb").position 2).order <
      ((LineIndex.ofSource "a\n\nb").position 3).order ∧
    ((LineIndex.ofSource "a\n\nb").position 4).mark = Position.mark ⟨4, 3, 1⟩ := by
  obtain ⟨_, places, ascends, _, last, _⟩ := position_of_text ⟨"", "a\n\nb"⟩
  exact ⟨places 2 (by decide), ascends 2 3 (by decide) (by decide), last⟩

end Namesake
