import Namesake.Proofs.Syntax.Alignment

/-!
A word is a longest run of characters that an identifier may hold.  A token ends where a word
ends or outside words, except that a number may be followed by letters, and five keywords by
anything in the states in which no name may stand.
-/

namespace Namesake

open Option List

variable {char : Char} {chars : List Char} {length : Nat} {kind : Terminal}

namespace Lexeme

theorem take_run (property : Char → Bool) (chars : List Char) :
    chars.take (run property chars) = chars.takeWhile property :=
  (prefix_iff_eq_take.1 ( takeWhile_prefix property)).symm

theorem drop_run (property : Char → Bool) (chars : List Char) :
    chars.drop (run property chars) = chars.dropWhile property := by
  have parts := takeWhile_append_dropWhile (p := property) (l := chars)
  calc chars.drop (run property chars)
      = (chars.takeWhile property ++ chars.dropWhile property).drop (run property chars) := by
        rw [parts]
    _ = chars.dropWhile property := drop_left

theorem not_of_head?_drop_run {property : Char → Bool}
    (next : (chars.drop (run property chars)).head? = some char) : property char = false := by
  have stops := List.head?_dropWhile_not property chars
  rw [← drop_run, next] at stops
  exact stops

def endsInWord (chars : List Char) : Bool :=
  chars.getLast?.any isNamePart

def startsInWord (chars : List Char) : Bool :=
  chars.head?.any isNamePart

theorem endsInWord_append {before : List Char} (nonempty : chars ≠ []) :
    endsInWord (before ++ chars) = endsInWord chars := by
  rw [endsInWord, List.getLast?_append_of_ne_nil _ nonempty, endsInWord]

theorem exists_of_startsInWord (starts : startsInWord chars = true) :
    ∃ char rest, chars = char :: rest ∧ isNamePart char = true := by
  cases chars with
  | nil => cases starts
  | cons char rest => exact ⟨char, rest, rfl, starts⟩

theorem startsInWord_drop_run (chars : List Char) :
    startsInWord (chars.drop (run isNamePart chars)) = false := by
  unfold startsInWord
  cases next : (chars.drop (run isNamePart chars)).head? with
  | none => rfl
  | some char => exact not_of_head?_drop_run next

theorem not_isNamePart_of_isBlank (blank : Text.isBlank char.toNat = true) :
    isNamePart char = false := by
  have table : (Text.blankRanges.all fun range =>
      (List.range' range.1 (range.2 + 1 - range.1)).all fun point =>
        point != '$'.toNat && !Text.isWord point) = true := by
    decide +kernel
  obtain ⟨range, member, within⟩ := any_eq_true.1 blank
  rw [Bool.and_eq_true, decide_eq_true_eq, decide_eq_true_eq] at within
  have inRange : char.toNat ∈ List.range' range.1 (range.2 + 1 - range.1) :=
    mem_range'_1.2 ⟨within.1, by omega⟩
  have plain := all_eq_true.1 (all_eq_true.1 table range member) _ inRange
  rw [Bool.and_eq_true, bne_iff_ne, Bool.not_eq_true'] at plain
  rw [isNamePart, plain.2, Bool.or_false, beq_eq_false_iff_ne]
  rintro rfl
  exact plain.1 rfl

theorem not_isNamePart_of_isLineEnd (lineEnd : isLineEnd char = true) :
    isNamePart char = false := by
  rw [isLineEnd, Bool.or_eq_true, beq_iff_eq, beq_iff_eq] at lineEnd
  rcases lineEnd with rfl | rfl
  · decide
  · decide

theorem getLast?_of_commentTail? (found : commentTail? chars = some length) :
    (chars.take length).getLast? = some '/' := by
  fun_induction commentTail? chars generalizing length with
  | case1 => cases found
  | case2 => cases found
  | case3 char next rest closes =>
    cases found
    obtain ⟨rfl, rfl⟩ : char = '*' ∧ next = '/' := by simpa using closes
    rfl
  | case4 char next rest _ ih =>
    obtain ⟨count, countFound, rfl⟩ := map_eq_some_iff.1 found
    rw [take_succ_cons, List.getLast?_cons, ih countFound]
    rfl

theorem triviaLength_ends (chars : List Char) :
    endsInWord (chars.take (triviaLength chars)) = false ∨
      startsInWord (chars.drop (triviaLength chars)) = false := by
  unfold triviaLength
  split
  · rename_i rest
    -- A line comment ends at the end of its line.
    refine .inr ?_
    rw [Nat.add_comm, startsInWord]
    cases next :
        (List.drop (run (fun char => !isLineEnd char) rest + 2) ('/' :: '/' :: rest)).head? with
    | none => rfl
    | some char =>
      exact not_isNamePart_of_isLineEnd (by simpa using not_of_head?_drop_run next)
  · rename_i rest
    refine .inl ?_
    cases found : commentTail? rest with
    | none => rfl
    | some count =>
      have last := getLast?_of_commentTail? found
      have nonempty : rest.take count ≠ [] := by
        intro empty
        rw [empty] at last
        cases last
      change endsInWord (['/', '*'] ++ rest.take count) = false
      rw [endsInWord_append nonempty, endsInWord, last]
      decide
  · refine .inl ?_
    rw [take_run, endsInWord]
    cases last : (chars.takeWhile fun char => Text.isBlank char.toNat).getLast? with
    | none => rfl
    | some char =>
      have blank := all_eq_true.1 all_takeWhile char (mem_of_getLast? last)
      exact not_isNamePart_of_isBlank blank

theorem eq_run_of_name? (found : name? chars = some length) :
    length = run isNamePart chars := by
  cases chars with
  | nil => cases found
  | cons char rest =>
    rw [name?] at found
    split at found
    · cases found
      rfl
    · cases found

theorem startsInWord_of_name? (found : name? chars = some length) :
    startsInWord (chars.drop length) = false := by
  rw [eq_run_of_name? found]
  exact startsInWord_drop_run chars

theorem isNamePart_of_name? (found : name? chars = some length)
    (member : char ∈ chars.take length) : isNamePart char = true := by
  rw [eq_run_of_name? found, take_run] at member
  exact all_eq_true.1 all_takeWhile char member

theorem startsInWord_of_regex? (found : regex? chars = some length) :
    startsInWord (chars.drop length) = false := by
  unfold regex? at found
  split at found
  · rename_i char rest
    split at found
    · cases found
    · obtain ⟨tail, _, rfl⟩ := map_eq_some_iff.1 found
      have flags := startsInWord_drop_run ((char :: rest).drop tail)
      rw [drop_drop] at flags
      rw [Nat.add_assoc, Nat.add_comm 1]
      exact flags
  · cases found

theorem endsInWord_of_string? (found : string? chars = some length) :
    endsInWord (chars.take length) = false := by
  obtain ⟨quote, inner, isQuote, takeEq⟩ := isQuoted_of_string? found
  rw [takeEq, ← cons_append, endsInWord_append (cons_ne_nil _ _)]
  rcases isQuote with rfl | rfl
  · decide
  · decide

theorem pos_of_number? (found : number? chars = some length) :
    0 < length := by
  have decimal {length : Nat} (found : decimal? chars = some length) : 0 < length := by
    obtain ⟨whole, mantissa, rfl⟩ := map_eq_some_iff.1 found
    unfold mantissa? at mantissa
    dsimp only at mantissa
    split at mantissa
    · split at mantissa
      · cases mantissa
      · cases mantissa
        omega
    · split at mantissa
      · cases mantissa
      · cases mantissa
        omega
  unfold number? at found
  split at found
  · dsimp only at found
    split at found
    · cases found
      omega
    · exact decimal found
  · exact decimal found

theorem number?_of_isDecimalDigit (digit : isDecimalDigit char = true) (rest : List Char) :
    (number? (char :: rest)).isSome = true := by
  have some : run isDecimalDigit (char :: rest) ≠ 0 := by
    rw [run, takeWhile_cons_of_pos digit]
    exact Nat.succ_ne_zero _
  have decimal : (decimal? (char :: rest)).isSome = true := by
    rw [decimal?, isSome_map]
    unfold mantissa?
    dsimp only
    split
    · rw [if_neg (by simp [some])]
      rfl
    · rw [if_neg some]
      rfl
  unfold number?
  split
  · dsimp only
    split
    · rfl
    · exact decimal
  · exact decimal

theorem name?_of_isNamePart (part : isNamePart char = true) (noDigit : isDecimalDigit char = false)
    (rest : List Char) :
    ∃ length, name? (char :: rest) = some (length + 1) := by
  refine ⟨run isNamePart rest, ?_⟩
  rw [name?, part, noDigit, Bool.not_false, Bool.and_true, if_pos rfl, run,
    takeWhile_cons_of_pos part, length_cons, run]

theorem triviaLength_of_isNamePart (part : isNamePart char = true) (rest : List Char) :
    triviaLength (char :: rest) = 0 := by
  have noBlank : Text.isBlank char.toNat = false := by
    cases blank : Text.isBlank char.toNat with
    | false => rfl
    | true =>
      rw [not_isNamePart_of_isBlank blank] at part
      cases part
  unfold triviaLength
  split
  · rename_i charsEq
    cases charsEq
    cases part
  · rename_i charsEq
    cases charsEq
    cases part
  · rw [run, takeWhile_cons_of_neg (by simp [noBlank]), length_nil]

end Lexeme

namespace Terminal

/-- The kinds of which a token may end within a word of the text: numbers, and the keywords that may
stand where no name may. -/
def breaksWords : Terminal → Bool
  | number | instanceofWord | inWord | whileWord | defaultWord | caseWord => true
  | _ => false

def isName : Terminal → Bool
  | identifier | getWord | setWord => true
  | _ => false

theorem endsInWord_of_mem_spellings (noKeyword : kind.isKeyword = false) {word : String}
    (member : word ∈ kind.spellings) : Lexeme.endsInWord word.toList = false := by
  have table : ∀ kind : Terminal, kind.isKeyword = false →
      kind.spellings.all (fun word => !Lexeme.endsInWord word.toList) = true := by
    intro kind
    cases kind <;> decide
  simpa using all_eq_true.1 (table kind noKeyword) word member

theorem lexeme?_ends (found : kind.lexeme? chars = some length) (noNumber : kind ≠ .number)
    (noKeyword : kind.isKeyword = false) :
    Lexeme.endsInWord (chars.take length) = false ∨
      Lexeme.startsInWord (chars.drop length) = false := by
  unfold lexeme? at found
  split at found
  · exact .inr (Lexeme.startsInWord_of_regex? found)
  · exact absurd rfl noNumber
  · exact .inl (Lexeme.endsInWord_of_string? found)
  · exact .inr (Lexeme.startsInWord_of_name? found)
  · obtain ⟨word, member, wordEq⟩ := Lexeme.take_of_spelled? found
    rw [← wordEq]
    exact .inl (endsInWord_of_mem_spellings noKeyword member)

end Terminal

namespace Automaton

variable {state : Nat} {entry : State}

def takesName (state : Nat) : Bool :=
  (action? state .identifier).isSome

/-- Whether a symbol is a keyword that may stand only where a name may. -/
def isAmongNames : Symbol → Bool
  | .terminal kind => kind.isKeyword && !kind.breaksWords
  | _ => false

/-- Whether a state respects words.  Keywords but for five lead to it only from states in which a
name may follow, and it reduces at such a keyword only if it does so at a name.  If a token enters
it that may end within a word, no name may follow, except behind two operators and `case`. -/
def respectsWords (entry : State) (state : Nat) : Bool :=
  (!isAmongNames entry.symbol || entry.sources.all takesName) &&
    ((entry.reductions.all fun reduction =>
      reduction.2.all (fun kind => !isAmongNames (.terminal kind)) ||
        reduction.2.contains .identifier) &&
    match entry.symbol with
    | .terminal kind => !kind.breaksWords ||
        ([Terminal.inWord, .instanceofWord, .caseWord].contains kind || !takesName state)
    | .nonterminal _ => true)

theorem respectsWords_of_states (found : states[state]? = some entry) :
    respectsWords entry state = true := by
  have table : (states.zipIdx.all fun entry => respectsWords entry.1 entry.2) = true := by
    decide +kernel
  exact of_states respectsWords table found

theorem takesName_of_sources {next : Nat} (found : states[next]? = some entry)
    (amongNames : isAmongNames entry.symbol = true) (isSource : state ∈ entry.sources) :
    takesName state = true := by
  obtain ⟨sources, _⟩ := Bool.and_eq_true_iff.1 (respectsWords_of_states found)
  rw [amongNames, Bool.not_true, Bool.false_or] at sources
  exact all_eq_true.1 sources state isSource

theorem contains_identifier_of_reductions (found : states[state]? = some entry)
    {reduction : Nat × List Terminal} (member : reduction ∈ entry.reductions)
    (contains : reduction.2.contains kind = true)
    (amongNames : isAmongNames (.terminal kind) = true) :
    reduction.2.contains .identifier = true := by
  obtain ⟨_, rest⟩ := Bool.and_eq_true_iff.1 (respectsWords_of_states found)
  obtain ⟨reductions, _⟩ := Bool.and_eq_true_iff.1 rest
  rcases Bool.or_eq_true_iff.1 (all_eq_true.1 reductions reduction member) with
    noneAmong | takes
  · have own := all_eq_true.1 noneAmong kind (contains_iff_mem.1 contains)
    rw [amongNames] at own
    cases own
  · exact takes

theorem takesName_of_action? (keyword : kind.isKeyword = true) (unbroken : kind.breaksWords = false)
    (accepted : (action? state kind).isSome = true) :
    takesName state = true := by
  have amongNames : isAmongNames (.terminal kind) = true := by
    rw [isAmongNames, keyword, unbroken]
    rfl
  obtain ⟨action, actionEq⟩ := isSome_iff_exists.1 accepted
  cases action with
  | shift next =>
    obtain ⟨entry, found, symbolEq, isSource⟩ := exists_entry_of_shift actionEq
    exact takesName_of_sources found (symbolEq ▸ amongNames) isSource
  | reduce production =>
    obtain ⟨entry, reduction, found, member, contained, rule⟩ := exists_reduction actionEq
    have named := contains_identifier_of_reductions found member
      (contains_iff_mem.2 contained) amongNames
    exact isSome_action? found member (contains_iff_mem.1 named) rule

theorem kind_of_takesName (found : states[state]? = some entry)
    (symbolEq : entry.symbol = .terminal kind) (breaks : kind.breaksWords = true)
    (takes : takesName state = true) : kind ∈ [.inWord, .instanceofWord, .caseWord] := by
  obtain ⟨_, rest⟩ := Bool.and_eq_true_iff.1 (respectsWords_of_states found)
  obtain ⟨_, behind⟩ := Bool.and_eq_true_iff.1 rest
  rw [symbolEq] at behind
  dsimp only at behind
  rw [takes, breaks, Bool.not_true, Bool.false_or, Bool.or_false] at behind
  exact contains_iff_mem.1 behind

end Automaton

-- The table of the automaton is a closed term; nothing below may evaluate it.
attribute [local irreducible] Automaton.rows Automaton.states

namespace Vocabulary

/-- Whether a vocabulary has no keyword that is read by its letters alone, but those that may stand
where no name may. -/
def IsCautious (vocabulary : Vocabulary) : Prop :=
  ∀ kind ∈ vocabulary.tried, kind.isKeyword = true → kind.breaksWords = true

theorem isCautious_full : full.IsCautious := by
  intro kind member keyword
  have noKeyword := (mem_filter.1 member).2
  rw [keyword] at noKeyword
  cases noKeyword

theorem isCautious_row (state : Nat) :
    (ofTerminals (Automaton.row state).terminals).IsCautious := by
  intro kind member keyword
  rw [ofTerminals_row] at member
  obtain ⟨accepted, alone⟩ := Bool.and_eq_true_iff.1 (mem_filter.1 member).2
  cases breaks : kind.breaksWords with
  | true => rfl
  | false =>
    have takes := Automaton.takesName_of_action? keyword breaks accepted
    unfold Automaton.takesName at takes
    rw [keyword, takes] at alone
    cases alone

variable {vocabulary : Vocabulary}

theorem IsCautious.breaksWords_of_read? (cautious : vocabulary.IsCautious)
    (found : vocabulary.read? chars = some (kind, length))
    (ends : Lexeme.endsInWord (chars.take length) = true)
    (starts : Lexeme.startsInWord (chars.drop length) = true) : kind.breaksWords = true := by
  rcases cases_of_read? found with ⟨member, _, lexeme⟩ | ⟨_, name, _⟩
  · by_cases isNumber : kind = .number
    · rw [isNumber]
      rfl
    · cases keyword : kind.isKeyword with
      | true => exact cautious kind member keyword
      | false =>
        have apart := Terminal.lexeme?_ends lexeme isNumber keyword
        rw [ends, starts] at apart
        rcases apart with apart | apart <;> cases apart
  · rw [Lexeme.startsInWord_of_name? name] at starts
    cases starts

theorem IsCautious.name_of_read? (cautious : vocabulary.IsCautious)
    (found : vocabulary.read? chars = some (kind, length)) (isName : kind.isName = true) :
    .identifier ∈ vocabulary.tried ∧ Lexeme.name? chars = some length := by
  rcases cases_of_read? found with ⟨member, other, _⟩ | ⟨tried, name, _⟩
  · have careful := cautious kind member
    cases kind with
    | identifier => exact absurd rfl other
    | getWord => cases careful rfl
    | setWord => cases careful rfl
    | _ => cases isName
  · exact ⟨tried, name⟩

theorem read?_full (part : Lexeme.isNamePart char = true) (rest : List Char) :
    ∃ kind length, full.read? (char :: rest) = some (kind, length + 1) := by
  obtain ⟨others, triedEq⟩ : ∃ others, full.tried =
      .regex :: .number :: .string :: .identifier :: others := ⟨_, rfl⟩
  have noRegex : Terminal.lexeme? .regex (char :: rest) = none := by
    change Lexeme.regex? (char :: rest) = none
    unfold Lexeme.regex?
    split
    · rename_i charsEq
      cases charsEq
      cases part
    · rfl
  have noString : Terminal.lexeme? .string (char :: rest) = none := by
    change Lexeme.string? (char :: rest) = none
    rw [Lexeme.string?, if_neg]
    intro isQuote
    rw [Bool.or_eq_true, decide_eq_true_eq, decide_eq_true_eq] at isQuote
    rcases isQuote with rfl | rfl <;> cases part
  unfold read?
  rw [triedEq, List.findSome?_cons, noRegex, map_none, List.findSome?_cons]
  dsimp only
  cases number : Terminal.lexeme? .number (char :: rest) with
  | some length =>
    have positive := Lexeme.pos_of_number? number
    obtain ⟨count, rfl⟩ := Nat.exists_eq_succ_of_ne_zero (Nat.ne_of_gt positive)
    exact ⟨_, count, rfl⟩
  | none =>
    have noDigit : Lexeme.isDecimalDigit char = false := by
      cases digit : Lexeme.isDecimalDigit char with
      | false => rfl
      | true =>
        have some := Lexeme.number?_of_isDecimalDigit digit rest
        rw [show Lexeme.number? (char :: rest) = none from number] at some
        cases some
    obtain ⟨length, name⟩ := Lexeme.name?_of_isNamePart part noDigit rest
    rw [map_none, List.findSome?_cons, noString, map_none, List.findSome?_cons,
      show Terminal.lexeme? .identifier (char :: rest) = some (length + 1) from name]
    exact ⟨_, length, rfl⟩

end Vocabulary

def Position.isBehindWord (source : List Char) (position : Position) : Bool :=
  Lexeme.endsInWord (source.take position.offset.toNat)

theorem Position.isBehindWord_after (before rest : List Char) :
    (after before).isBehindWord (before ++ rest) = Lexeme.endsInWord before := by
  rw [isBehindWord, offset_after, Int.toNat_natCast, take_left]

namespace Cursor

def isInside (source : List Char) (cursor : Cursor) : Bool :=
  cursor.position.isBehindWord source && Lexeme.startsInWord cursor.rest

variable {source : List Char} {cursor : Cursor}

theorem IsAt.isInside_advance (isAt : cursor.IsAt source) {count : Nat}
    (nonempty : cursor.rest.take count ≠ []) :
    (cursor.advance count).isInside source = (Lexeme.endsInWord (cursor.rest.take count) &&
        Lexeme.startsInWord (cursor.rest.drop count)) := by
  obtain ⟨before, sourceEq, positionEq⟩ := isAt
  have place : (cursor.advance count).position = .after (before ++ cursor.rest.take count) := by
    rw [Position.after_append, ← positionEq]
    rfl
  rw [isInside, place, sourceEq, ← take_append_drop count cursor.rest, ← append_assoc,
    take_append_drop, Position.isBehindWord_after, Lexeme.endsInWord_append nonempty,
    rest_advance]

theorem IsAt.skipTrivia_eq (isAt : cursor.IsAt source)
    (inside : cursor.skipTrivia.isInside source = true) : cursor.skipTrivia = cursor := by
  fun_induction Cursor.skipTrivia cursor with
  | case1 cursor count some ih =>
    have same := ih (isAt.advance count) inside
    have nonempty : cursor.rest.take count ≠ [] := by
      rw [Ne, take_eq_nil_iff, ← length_eq_zero_iff]
      omega
    rw [same, isAt.isInside_advance nonempty] at inside
    obtain ⟨ends, starts⟩ := Bool.and_eq_true_iff.1 inside
    rcases Lexeme.triviaLength_ends cursor.rest with apart | apart
    · rw [ends] at apart
      cases apart
    · rw [starts] at apart
      cases apart
  | case2 => rfl

theorem skipTrivia_of_startsInWord (starts : Lexeme.startsInWord cursor.rest = true) :
    cursor.skipTrivia = cursor := by
  obtain ⟨char, rest, restEq, part⟩ := Lexeme.exists_of_startsInWord starts
  rw [skipTrivia, if_neg]
  rw [restEq, Lexeme.triviaLength_of_isNamePart part]
  exact fun some => absurd some.1 (Nat.lt_irrefl 0)

end Cursor

namespace Vocabulary

variable {vocabulary : Vocabulary} {source : List Char} {cursor behind : Cursor} {token : Token}

theorem IsCautious.breaksWords_of_next (cautious : vocabulary.IsCautious)
    (isAt : cursor.IsAt source) (read : vocabulary.next cursor = .token token behind)
    (inside : behind.isInside source = true) : token.kind.breaksWords = true := by
  obtain ⟨length, found, tokenEq, rfl⟩ := eq_of_next read
  have piece := (isPiece_of_next isAt read).1
  have nonempty : cursor.skipTrivia.rest.take (length + 1) ≠ [] := by
    obtain ⟨_, _, _, textSome, _⟩ := piece
    rw [tokenEq] at textSome
    exact textSome
  rw [isAt.skipTrivia.isInside_advance nonempty] at inside
  obtain ⟨ends, starts⟩ := Bool.and_eq_true_iff.1 inside
  exact cautious.breaksWords_of_read? found ends starts

theorem first_of_next (isAt : cursor.IsAt source)
    (read : vocabulary.next cursor = .token token behind)
    (starts : Lexeme.startsInWord token.text = true)
    (behindWord : token.extent.first.isBehindWord source = true) :
    cursor.isInside source = true ∧ token.extent.first = cursor.position := by
  obtain ⟨length, _, tokenEq, _⟩ := eq_of_next read
  have firstEq : token.extent.first = cursor.skipTrivia.position := by
    rw [tokenEq]
    rfl
  have restStarts : Lexeme.startsInWord cursor.skipTrivia.rest = true := by
    rw [tokenEq] at starts
    change Lexeme.startsInWord (cursor.skipTrivia.rest.take (length + 1)) = true at starts
    rwa [Lexeme.startsInWord, List.head?_take, if_neg (Nat.succ_ne_zero _)] at starts
  have inside : cursor.skipTrivia.isInside source = true := by
    rw [Cursor.isInside, ← firstEq, behindWord, restStarts]
    rfl
  have same := isAt.skipTrivia_eq inside
  rw [same] at inside firstEq
  exact ⟨inside, firstEq⟩

theorem IsCautious.name_of_next (cautious : vocabulary.IsCautious) (isAt : cursor.IsAt source)
    (read : vocabulary.next cursor = .token token behind) (isName : token.kind.isName = true) :
    .identifier ∈ vocabulary.tried ∧ (∀ char ∈ token.text, Lexeme.isNamePart char = true) ∧
      Lexeme.startsInWord (source.drop token.extent.last.offset.toNat) = false := by
  obtain ⟨length, found, tokenEq, behindEq⟩ := eq_of_next read
  obtain ⟨tried, name⟩ := cautious.name_of_read? found isName
  obtain ⟨_, ⟨before, sourceEq, positionEq⟩, _, lastEq⟩ := isPiece_of_next isAt read
  refine ⟨tried, fun char member => ?_, ?_⟩
  · rw [tokenEq] at member
    exact Lexeme.isNamePart_of_name? name member
  · rw [lastEq, positionEq, Position.offset_after, Int.toNat_natCast, sourceEq, drop_left, behindEq]
    exact Lexeme.startsInWord_of_name? name

theorem startsInWord_of_full {place : Cursor}
    (unread : ∀ token behind, full.next place ≠ .token token behind) :
    Lexeme.startsInWord place.rest = false := by
  cases starts : Lexeme.startsInWord place.rest with
  | false => rfl
  | true =>
    have same := Cursor.skipTrivia_of_startsInWord starts
    obtain ⟨char, rest, restEq, part⟩ := Lexeme.exists_of_startsInWord starts
    obtain ⟨kind, length, found⟩ := read?_full part rest
    refine absurd ?_ (unread (tokenAt place kind (length + 1)) (place.advance (length + 1)))
    unfold next
    dsimp only
    rw [same, restEq, found]
    rfl

end Vocabulary

end Namesake
