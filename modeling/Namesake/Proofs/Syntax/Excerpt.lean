import Namesake.Proofs.Workspace.Files

/-!
A position counts newlines, while the quoted line comes from a text that was split at carriage
returns as well.  Both agree where every carriage return is followed by a newline.
-/

namespace Namesake

open List

/-- The column behind some characters. -/
def columnAfter (before : List Char) : Nat :=
  (before.reverse.takeWhile (· ≠ '\n')).length

theorem columnAfter_cons (char : Char) (before : List Char) :
    columnAfter (char :: before) =
      if char = '\n' ∨ '\n' ∈ before then columnAfter before else columnAfter before + 1 := by
  simp only [columnAfter, reverse_cons, takeWhile_append]
  by_cases broken : '\n' ∈ before
  · have short : (before.reverse.takeWhile (· ≠ '\n')).length ≠ before.reverse.length := by
      intro whole
      have all := ( takeWhile_prefix (· ≠ '\n')).eq_of_length whole
      have kept := takeWhile_eq_self_iff.1 all '\n' (mem_reverse.2 broken)
      simp at kept
    rw [if_neg short, if_pos (.inr broken)]
  · have all : before.reverse.takeWhile (· ≠ '\n') = before.reverse := by
      refine takeWhile_eq_self_iff.2 fun other member => ?_
      have unequal : other ≠ '\n' := by
        rintro rfl
        exact broken (mem_reverse.1 member)
      simpa using unequal
    rw [all, if_pos rfl]
    by_cases newline : char = '\n'
    · simp [newline]
    · simp [newline, broken]

theorem splitLines_cons {char : Char} (notBreak : char ≠ '\n' ∧ char ≠ '\r') (rest : List Char) :
    splitLines (char :: rest) = consToFirst char (splitLines rest) := by
  rw [splitLines.eq_3]
  · simp [notBreak]
  · intro _ carriage
    exact absurd carriage notBreak.2

theorem splitLines_newline (rest : List Char) : splitLines ('\n' :: rest) = [] :: splitLines rest := by
  rw [splitLines.eq_3]
  · simp
  · intro _ carriage
    exact absurd carriage (by decide)

theorem splitLines_ne_nil (chars : List Char) : splitLines chars ≠ [] := by
  induction chars using splitLines.induct with
  | case1 => simp [splitLines]
  | case2 rest => simp [splitLines]
  | case3 char rest apart isBreak => simp [splitLines.eq_3 char rest apart, isBreak]
  | case4 char rest apart notBreak =>
    rw [splitLines.eq_3 char rest apart, if_neg notBreak]
    unfold consToFirst
    split <;> simp

theorem not_mem_of_mem_splitLines {chars line : List Char} (member : line ∈ splitLines chars) :
    '\n' ∉ line := by
  induction chars using splitLines.induct generalizing line with
  | case1 => simp_all [splitLines]
  | case2 rest ih =>
    rcases mem_cons.1 member with rfl | later
    · simp
    · exact ih later
  | case3 char rest apart isBreak ih =>
    rw [splitLines.eq_3 char rest apart, if_pos isBreak] at member
    rcases mem_cons.1 member with rfl | later
    · simp
    · exact ih later
  | case4 char rest apart notBreak ih =>
    have notNewline : '\n' ≠ char := by
      rintro rfl
      simp at notBreak
    rw [splitLines.eq_3 char rest apart, if_neg notBreak] at member
    cases linesEq : splitLines rest with
    | nil => exact absurd linesEq (splitLines_ne_nil rest)
    | cons first others =>
      rw [linesEq, consToFirst] at member
      rcases mem_cons.1 member with rfl | later
      · have inner := ih (by rw [linesEq]; exact mem_cons_self)
        simp [notNewline, inner]
      · exact ih (by rw [linesEq]; exact mem_cons_of_mem _ later)

/-- The character behind some others, in the line and the column that they come to. -/
theorem splitLines_after {char : Char} (notBreak : char ≠ '\n' ∧ char ≠ '\r')
    (before rest : List Char)
    (paired : ∀ index, index < before.length → (before ++ char :: rest)[index]? = some '\r' →
      (before ++ char :: rest)[index + 1]? = some '\n') :
    ∃ row, (splitLines (before ++ char :: rest))[before.count '\n']? = some row ∧
      row[columnAfter before]? = some char := by
  induction before using splitLines.induct with
  | case1 =>
    rw [nil_append, splitLines_cons notBreak]
    unfold consToFirst
    split
    · exact ⟨[char], rfl, rfl⟩
    · exact ⟨char :: _, rfl, rfl⟩
  | case2 before ih =>
    obtain ⟨line, lineEq, charEq⟩ := ih fun index inside =>
      paired (index + 2) (by rw [length_cons, length_cons]; omega)
    refine ⟨line, ?_, ?_⟩
    · have counted : ('\r' :: '\n' :: before).count '\n' = before.count '\n' + 1 := by simp
      rw [counted, cons_append, cons_append, splitLines, List.getElem?_cons_succ]
      exact lineEq
    · rw [columnAfter_cons, if_pos (.inr mem_cons_self), columnAfter_cons, if_pos (.inl rfl)]
      exact charEq
  | case3 first before apart isBreak ih =>
    obtain ⟨line, lineEq, charEq⟩ := ih fun index inside =>
      paired (index + 1) (by rw [length_cons]; omega)
    have newline : first = '\n' := by
      by_contra notNewline
      have carriage : first = '\r' := by simpa [notNewline] using isBreak
      have next := paired 0 (by simp) (by rw [carriage]; rfl)
      cases before with
      | nil => exact notBreak.1 (Option.some.inj next)
      | cons second others =>
        cases Option.some.inj next
        exact apart others carriage rfl
    subst newline
    refine ⟨line, ?_, ?_⟩
    · rw [count_cons_self, cons_append, splitLines_newline, List.getElem?_cons_succ]
      exact lineEq
    · rw [columnAfter_cons, if_pos (.inl rfl)]
      exact charEq
  | case4 first before apart notBreak' ih =>
    obtain ⟨line, lineEq, charEq⟩ := ih fun index inside =>
      paired (index + 1) (by rw [length_cons]; omega)
    simp only [Bool.or_eq_true, decide_eq_true_eq, not_or] at notBreak'
    rw [cons_append, splitLines_cons notBreak', count_cons_of_ne notBreak'.1, columnAfter_cons]
    cases linesEq : splitLines (before ++ char :: rest) with
    | nil => exact absurd linesEq (splitLines_ne_nil _)
    | cons top others =>
      rw [linesEq] at lineEq
      by_cases broken : '\n' ∈ before
      · -- The line does not begin here, so it is not the first one.
        obtain ⟨count, countEq⟩ := Nat.exists_eq_succ_of_ne_zero
          (Nat.pos_iff_ne_zero.1 (count_pos_iff.2 broken))
        rw [countEq, Nat.succ_eq_add_one, List.getElem?_cons_succ] at lineEq
        rw [if_pos (.inr broken), countEq, consToFirst, Nat.succ_eq_add_one,
          List.getElem?_cons_succ]
        exact ⟨line, lineEq, charEq⟩
      · rw [count_eq_zero.2 broken] at lineEq ⊢
        cases lineEq
        rw [if_neg (not_or.2 ⟨notBreak'.1, broken⟩), consToFirst]
        exact ⟨first :: line, rfl, charEq⟩

theorem Data.display_int (value : Int) : (Data.int value).display = toString value := by
  rw [Data.display, Data.toText, Data.render, Text.toString?_ofString, Option.getD_some]
  rintro _ ⟨⟩

theorem Diagnostic.caretCount_pos (location : Location) : 0 < caretCount location := by
  unfold caretCount
  split
  · split
    · split
      · omega
      · exact Nat.one_pos
    · exact Nat.one_pos
  · exact Nat.one_pos

theorem newline_not_mem_toString (value : Nat) : '\n' ∉ (toString (value : Int)).toList := by
  intro member
  have digit : '\n'.isDigit = true := by
    refine Nat.isDigit_of_mem_toDigits (b := 10) (n := value) (by decide) (by decide) ?_
    rw [← Nat.toList_repr]
    exact member
  exact absurd digit (by decide)

namespace Diagnostic

theorem excerpt_rows {location : Location} {number column : Nat} (line : List Char)
    (numberEq : location.first.line = .int number) (columnEq : location.first.column = .int column) :
    excerpt false location (String.ofList line) none =
      [ spaces ((toString (number : Int)).length + 1) ++ "|",
        toString (number : Int) ++ " | " ++ String.ofList line,
        spaces ((toString (number : Int)).length + 1) ++ "|" ++ " " ++ spaces column ++
          String.ofList (List.replicate (caretCount location) '^') ] := by
  simp only [excerpt, numberEq, columnEq, Data.display_int, Data.whole?, Option.getD_some, Style.apply,
    Bool.false_and, Bool.false_eq_true, if_false, Nat.sub_self, Int.toNat_natCast, append_nil]
  rfl

theorem intercalate_ends (head arrow gutter quoted carets : String) :
    ∃ above : List Char, ("\n".intercalate ([head, arrow] ++ [gutter, quoted, carets])).toList =
      above ++ '\n' :: (quoted.toList ++ '\n' :: carets.toList) :=
  ⟨(head ++ "\n" ++ arrow ++ "\n" ++ gutter).toList, by simp [String.intercalate_cons_cons]⟩

/-- The message about a character of a source ends with two rows: in the second, the first caret
stands below that character in the first.  Carriage returns before the character have to belong
to newlines. -/
theorem caret_below_character (file source message : String) (code : Option String) (last : Mark)
    (offset : Nat) {char : Char} (found : source.toList[offset]? = some char)
    (notBreak : char ≠ '\n' ∧ char ≠ '\r')
    (paired : ∀ index, index < offset → source.toList[index]? = some '\r' →
      source.toList[index + 1]? = some '\n') :
    ∃ (above quoted indent : List Char) (more : Nat), (render [(file, source)] false ⟨message,
        some ⟨file, ((LineIndex.ofSource source).position offset).mark, last⟩, code, none⟩).toList =
        above ++ '\n' :: (quoted ++ '\n' :: (indent ++ List.replicate (more + 1) '^')) ∧
      '\n' ∉ quoted ∧ '\n' ∉ indent ∧ '^' ∉ indent ∧ quoted[indent.length]? = some char := by
  obtain ⟨inside, charEq⟩ := List.getElem?_eq_some_iff.1 found
  obtain ⟨before, rest, sourceEq, lengthEq⟩ : ∃ before rest,
      source.toList = before ++ char :: rest ∧ before.length = offset := by
    refine ⟨source.toList.take offset, source.toList.drop (offset + 1), ?_, ?_⟩
    · rw [← charEq, cons_getElem_drop_succ, take_append_drop]
    · rw [length_take]
      omega
  have position : (LineIndex.ofSource source).position offset =
      ⟨before.length, before.count '\n' + 1, columnAfter before⟩ := by
    have isIn : (Position.after before).IsIn source.toList := ⟨before, ⟨char :: rest, sourceEq.symm⟩, rfl⟩
    have same := isIn.position_offset
    rw [Position.offset_after, lengthEq] at same
    rw [same, Position.after_eq_count]
    rfl
  obtain ⟨line, lineEq, charIn⟩ := splitLines_after notBreak before rest
    (by rw [lengthEq, ← sourceEq]; exact paired)
  rw [← sourceEq] at lineEq
  generalize locationEq : (⟨file, ((LineIndex.ofSource source).position offset).mark, last⟩ : Location) =
    location
  have fileEq : location.file = file := by rw [← locationEq]
  have numberEq : location.first.line = .int (before.count '\n' + 1 : Nat) := by
    rw [← locationEq, position]
    rfl
  have columnEq : location.first.column = .int (columnAfter before) := by
    rw [← locationEq, position]
    rfl
  have quotedEq : quotedLine? [(file, source)] location = some (String.ofList line) := by
    simp [quotedLine?, fileEq, numberEq, Data.whole?, lineEq]
  have rows := excerpt_rows line numberEq columnEq
  obtain ⟨more, moreEq⟩ := Nat.exists_eq_succ_of_ne_zero
    (Nat.pos_iff_ne_zero.1 (caretCount_pos location))
  rw [moreEq] at rows
  generalize numberAt : toString ((before.count '\n' + 1 : Nat) : Int) = number at rows
  have numberFree : '\n' ∉ number.toList := by
    rw [← numberAt]
    exact newline_not_mem_toString _
  have lineFree := not_mem_of_mem_splitLines (mem_of_getElem? lineEq)
  obtain ⟨above, ends⟩ : ∃ above, (render [(file, source)] false
      ⟨message, some location, code, none⟩).toList = above ++ '\n' ::
        ((number ++ " | " ++ String.ofList line).toList ++ '\n' ::
          (spaces (number.length + 1) ++ "|" ++ " " ++ spaces (columnAfter before) ++
            String.ofList (List.replicate (more + 1) '^')).toList) := by
    simp only [render, quotedEq, rows]
    exact intercalate_ends ..
  refine ⟨above, number.toList ++ ([' ', '|', ' '] ++ line),
    List.replicate (number.length + 1) ' ' ++ ('|' :: ' ' :: List.replicate (columnAfter before) ' '),
    more, ?_, ?_, ?_, ?_, ?_⟩
  · rw [ends]
    simp [spaces]
  · simp [numberFree, lineFree]
  · simp [mem_replicate]
  · simp [mem_replicate]
  · have place : (List.replicate (number.length + 1) ' ' ++
        ('|' :: ' ' :: List.replicate (columnAfter before) ' ')).length =
        number.toList.length + (columnAfter before + 3) := by
      simp only [length_append, length_cons, length_replicate, String.length_toList]
      omega
    rw [place, List.getElem?_append_right (Nat.le_add_right _ _), Nat.add_sub_cancel_left]
    exact charIn

theorem caret_below_character_line :
    ∃ (above quoted indent : List Char) (more : Nat), (render [("f", "a\r\n b")] false ⟨"m",
        some ⟨"f", ((LineIndex.ofSource "a\r\n b").position 4).mark, Position.mark ⟨0, 0, 0⟩⟩,
        none, none⟩).toList =
        above ++ '\n' :: (quoted ++ '\n' :: (indent ++ List.replicate (more + 1) '^')) ∧
      '\n' ∉ quoted ∧ '\n' ∉ indent ∧ '^' ∉ indent ∧ quoted[indent.length]? = some 'b' :=
  caret_below_character "f" "a\r\n b" "m" none _ 4 (by decide) (by decide) (by decide)

/-- A carriage return alone ends the quoted line, but not the line that is counted: the caret below
the `b` stands behind the end of the row above it. -/
theorem caret_beside_character :
    "a\rb".toList[2]? = some 'b' ∧ render [("f", "a\rb")] false ⟨"m",
        some ⟨"f", ((LineIndex.ofSource "a\rb").position 2).mark, Position.mark ⟨0, 0, 0⟩⟩,
        none, none⟩ = "error: m\n --> f:1:2\n  |\n1 | a\n  |   ^" := by
  decide +kernel

end Diagnostic

end Namesake
