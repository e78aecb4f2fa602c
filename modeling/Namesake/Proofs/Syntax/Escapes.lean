import Namesake.Literal

/-!
The inside of a string is a row of segments, each a character that stands for itself or an
escape, and decoding finds their borders again.
-/

namespace Namesake.Literal

open List

/-- A hexadecimal digit in either case. -/
structure HexDigit where
  value : Fin 16
  upper : Bool

def HexDigit.char (digit : HexDigit) : Char :=
  let lower := Nat.digitChar digit.value
  if digit.upper then lower.toUpper else lower

theorem HexDigit.spec (digit : HexDigit) :
    Lexeme.isHexDigit digit.char = true ∧ hexValue? digit.char = some digit.value.val := by
  obtain ⟨value, upper⟩ := digit
  revert value upper
  decide

/-- The letters that write a control character behind a backslash, with its code point. -/
def controls : List (Char × Nat) :=
  [('n', 10), ('t', 9), ('r', 13), ('b', 8), ('f', 12), ('v', 11), ('0', 0)]

/-- The line breaks that a backslash takes out of a string. -/
def continuations : List (List Char) :=
  [['\n'], ['\r'], ['\r', '\n'], ['\u2028'], ['\u2029']]

inductive Segment where
  | plain (char : Char) (inside : char ≠ '\\' ∧ char ≠ '\n' ∧ char ≠ '\r')
  | byte (high low : HexDigit)
  | unit (first second third fourth : HexDigit)
  | control (entry : Char × Nat) (listed : entry ∈ controls)
  | continuation (ending : List Char) (listed : ending ∈ continuations)
  | itself (char : Char)
      (other : char ∉ controls.map Prod.fst ∧ [char] ∉ continuations ∧ char ≠ 'x' ∧ char ≠ 'u')

namespace Segment

def spelling : Segment → List Char
  | plain char _ => [char]
  | byte high low => ['\\', 'x', high.char, low.char]
  | unit first second third fourth =>
    ['\\', 'u', first.char, second.char, third.char, fourth.char]
  | control entry _ => ['\\', entry.1]
  | continuation ending _ => '\\' :: ending
  | itself char _ => ['\\', char]

def points : Segment → List Nat
  | plain char _ => [char.toNat]
  | byte high low => [16 * high.value + low.value]
  | unit first second third fourth =>
    [4096 * first.value + 256 * second.value + 16 * third.value + fourth.value]
  | control entry _ => [entry.2]
  | continuation _ _ => []
  | itself char _ => [char.toNat]

end Segment

theorem decode_skip (chars rest : List Char) :
    decode chars.length (chars ++ rest) = decode 0 rest := by
  induction chars with
  | nil => rfl
  | cons char chars ih =>
    rw [length_cons, cons_append, decode]
    exact ih

theorem decode_escape (chars : List Char) {rest : List Char} {value : List Nat}
    (escapeEq : escape (chars ++ rest) = (chars.length, value)) :
    decode 0 ('\\' :: (chars ++ rest)) = value ++ decode 0 rest := by
  rw [decode, if_pos rfl, escapeEq]
  exact congrArg (value ++ ·) (decode_skip chars rest)

theorem hexEscape_digits (digits : List HexDigit) (rest : List Char) :
    hexEscape? digits.length (digits.map HexDigit.char ++ rest) =
      some (digits.foldl (fun value digit => 16 * value + digit.value.val) 0) := by
  have taken : (digits.map HexDigit.char ++ rest).take digits.length =
      digits.map HexDigit.char := by
    rw [take_append_of_le_length (by simp), take_of_length_le (by simp)]
  have allHex : (digits.map HexDigit.char).all Lexeme.isHexDigit = true := by
    simp only [all_map, all_eq_true]
    exact fun digit _ => digit.spec.1
  have number : hexNumber (digits.map HexDigit.char) =
      digits.foldl (fun value digit => 16 * value + digit.value.val) 0 := by
    simp only [hexNumber, foldl_map, HexDigit.spec, Option.getD_some]
  simp [hexEscape?, taken, allHex, number]

theorem escape_single {char : Char} {rest : List Char} (notX : char ≠ 'x') (notU : char ≠ 'u')
    (unpaired : char = '\r' → rest.head? ≠ some '\n') : escape (char :: rest) = (1, escaped char) := by
  by_cases carriage : char = '\r'
  · subst carriage
    simp [escape, unpaired rfl, escaped]
  · simp only [escape]
    split
    · exact absurd rfl notX
    · exact absurd rfl notU
    · exact absurd rfl carriage
    · rfl

theorem escaped_itself {char : Char} (notControl : char ∉ controls.map Prod.fst)
    (noBreak : [char] ∉ continuations) : escaped char = [char.toNat] := by
  simp only [controls, continuations, map_cons, map_nil, mem_cons, List.cons.injEq,
    and_true, not_mem_nil, or_false, not_or] at notControl noBreak
  unfold escaped
  split <;> simp_all

theorem decode_segment (segment : Segment) (rest : List Char) (apart : rest.head? ≠ some '\n') :
    decode 0 (segment.spelling ++ rest) = segment.points ++ decode 0 rest := by
  cases segment with
  | plain char inside =>
    simp only [Segment.spelling, Segment.points, cons_append, nil_append]
    rw [decode, if_neg inside.1]
  | byte high low =>
    have found := hexEscape_digits [high, low] rest
    refine decode_escape ['x', high.char, low.char] ?_
    simp only [length_cons, length_nil, map_cons, map_nil,
      cons_append, nil_append, foldl_cons, foldl_nil] at found
    simp [escape, found, Segment.points]
  | unit first second third fourth =>
    have found := hexEscape_digits [first, second, third, fourth] rest
    refine decode_escape ['u', first.char, second.char, third.char, fourth.char] ?_
    simp only [length_cons, length_nil, map_cons, map_nil,
      cons_append, nil_append, foldl_cons, foldl_nil] at found
    simp [escape, found, Segment.points]
    omega
  | control entry listed =>
    refine decode_escape [entry.1] ?_
    have letter : entry.1 ≠ 'x' ∧ entry.1 ≠ 'u' ∧ entry.1 ≠ '\r' ∧ escaped entry.1 = [entry.2] := by
      revert entry
      decide
    rw [singleton_append, escape_single letter.1 letter.2.1, letter.2.2.2]
    · rfl
    · intro carriage
      exact absurd carriage letter.2.2.1
  | continuation ending listed =>
    refine decode_escape ending ?_
    simp only [continuations, mem_cons, not_mem_nil, or_false] at listed
    rcases listed with rfl | rfl | rfl | rfl | rfl
    · rfl
    · exact escape_single (by decide) (by decide) fun _ => apart
    · rfl
    · rfl
    · rfl
  | itself char other =>
    refine decode_escape [char] ?_
    rw [singleton_append, escape_single other.2.2.1 other.2.2.2, escaped_itself other.1 other.2.1]
    · rfl
    · intro carriage
      exact apart

theorem head_spelling (segments : List Segment) :
    (segments.flatMap Segment.spelling).head? ≠ some '\n' := by
  cases segments with
  | nil => simp
  | cons segment segments =>
    cases segment with
    | plain char inside => simpa [Segment.spelling] using inside.2.1
    | byte | unit | control | continuation | itself => simp [Segment.spelling]

theorem decode_segments (segments : List Segment) :
    decode 0 (segments.flatMap Segment.spelling) = segments.flatMap Segment.points := by
  induction segments with
  | nil => rfl
  | cons segment segments ih =>
    rw [flatMap_cons, flatMap_cons, decode_segment segment _ (head_spelling segments), ih]

/-- A string stands for what its segments stand for, one after another, whatever they are and
whichever quotes surround them. -/
theorem string_of_segments (quote : Char) (segments : List Segment) :
    string (quote :: (segments.flatMap Segment.spelling ++ [quote])) =
      ⟨segments.flatMap Segment.points⟩ := by
  rw [string, drop_one, tail_cons, dropLast_concat, decode_segments]

end Namesake.Literal
