import Namesake.Proofs.Syntax.Boundary
import Namesake.Proofs.Syntax.Layout

/-!
A name ends where its word ends.  It also starts where its word starts, unless a token before it
ends within the word.
-/

namespace Namesake

open Vocabulary List

-- The table of the automaton is a closed term; nothing below may evaluate it.
attribute [local irreducible] Automaton.rows Automaton.states

/-- Whether a token is a word of a text: it consists of letters and ends where a word ends, and if
it starts within a word it starts where another token ends, either a keyword in use or a token that
was left out. -/
structure Token.IsWord (source : List Char) (used leftOut : List Token) (token : Token) : Prop where
  letters : ∀ char ∈ token.text, Lexeme.isNamePart char = true
  ends : Lexeme.startsInWord (source.drop token.extent.last.offset.toNat) = false
  starts : token.extent.first.isBehindWord source = true →
    ∃ other, other.extent.last = token.extent.first ∧
      ((other ∈ used ∧ other.kind ∈ [.inWord, .instanceofWord, .caseWord]) ∨
        (other ∈ leftOut ∧ other.kind.breaksWords = true))

theorem Token.IsWord.mono {source : List Char} {used more leftOut others : List Token}
    {token : Token} (word : token.IsWord source used leftOut) (usedSub : used ⊆ more)
    (leftOutSub : leftOut ⊆ others) :
    token.IsWord source more others := by
  refine ⟨word.letters, word.ends, fun behindWord => ?_⟩
  obtain ⟨other, lastEq, ⟨member, kind⟩ | ⟨member, breaks⟩⟩ := word.starts behindWord
  · exact ⟨other, lastEq, .inl ⟨usedSub member, kind⟩⟩
  · exact ⟨other, lastEq, .inr ⟨leftOutSub member, breaks⟩⟩

theorem Token.asRead_of_breaksWords {token : Token} (breaks : token.kind.breaksWords = true) :
    token.asRead = token := by
  refine asRead_of_ne fun leading => ?_
  rw [leading] at breaks
  cases breaks

namespace Reader

/-- Whether the names on the stack and the waiting one are words. -/
def Spells (source : List Char) (reader : Reader) : Prop :=
  ∀ token ∈ reader.stack.tokens ++ reader.held.toList, token.kind.isName = true →
    token.IsWord source reader.stack.tokens reader.leftOut

/-- Whether a token that is left out or waits, or else is the latest, ends within a word if the
cursor stands there. -/
def Marks (source : List Char) (reader : Reader) (latest : Token → Prop) : Prop :=
  reader.cursor.isInside source = true →
    ∃ token, token.extent.last = reader.cursor.position ∧ token.kind.breaksWords = true ∧
      (token ∈ reader.leftOut ∨ reader.held = some token ∨ (reader.held = none ∧ latest token))

def IsTop (reader : Reader) (token : Token) : Prop :=
  ∃ state below, reader.stack = ⟨state, .leaf token⟩ :: below

/-- Whether the names are words, and the reader has the token that ends within the word in which it
stands. -/
structure Minds (source : List Char) (reader : Reader) : Prop where
  spells : reader.Spells source
  marks : reader.Marks source reader.IsTop

/-- Whether the names are words with a token in hand, unless a semicolon cannot be put in before
it. -/
structure Offers (source : List Char) (given : Token) (reader : Reader) : Prop where
  spells : reader.Spells source
  marks : reader.Marks source (· = given)
  word : given.kind.isName = true → given.IsWord source reader.stack.tokens reader.leftOut ∨
    reader.mayInsertBefore source given = false

/-- Whether the reader minds words when it takes what is next. -/
def Supply.Minds (source : List Char) : Supply → Prop
  | .token given reader => reader.Offers source given ∧
      (given.kind.isName = true → given.IsWord source reader.stack.tokens reader.leftOut)
  | .foreign given reader => reader.Offers source given
  | .stuck reader => reader.Spells source ∧ Lexeme.startsInWord reader.cursor.rest = false
  | .finished reader => reader.Spells source

variable {source : List Char} {tolerant : Bool} {reader next : Reader} {token : Token}

theorem IsTop.kind_of_tried (top : reader.IsTop token) (aligned : reader.stack.Aligned)
    (breaks : token.kind.breaksWords = true) (tried : .identifier ∈ reader.vocabulary.tried) :
    token ∈ reader.stack.tokens ∧ token.kind ∈ [.inWord, .instanceofWord, .caseWord] := by
  obtain ⟨state, below, stackEq⟩ := top
  constructor
  · rw [stackEq, Stack.tokens_cons]
    exact mem_append_right _ (mem_singleton_self token)
  · obtain ⟨entry, found, symbolEq⟩ := aligned ⟨state, .leaf token⟩ (stackEq ▸ mem_cons_self)
    rw [vocabulary, Stack.row, ofTerminals_row, stackEq] at tried
    obtain ⟨takes, _⟩ := Bool.and_eq_true_iff.1 (mem_filter.1 tried).2
    exact Automaton.kind_of_takesName found symbolEq breaks takes

theorem IsTop.not_mayInsertBefore (top : reader.IsTop token) {given : Token}
    (isName : given.kind.isName = true) (lastEq : token.extent.last = given.extent.first) :
    reader.mayInsertBefore source given = false := by
  obtain ⟨state, below, stackEq⟩ := top
  have endEq : reader.previousEnd? = some given.extent.first := by
    rw [previousEnd?, stackEq, ← lastEq]
    rfl
  have noEnd : given.kind ≠ .endOfInput := by
    intro isEnd
    rw [isEnd] at isName
    cases isName
  have noBrace : given.kind ≠ .rightBrace := by
    intro isBrace
    rw [isBrace] at isName
    cases isName
  rw [mayInsertBefore, endEq, decide_eq_false noEnd, decide_eq_false noBrace]
  dsimp only
  rw [newlineBetween, Int.sub_self]
  rfl

theorem Minds.word_of_next (minds : reader.Minds source) (noneHeld : reader.held = none)
    (aligned : reader.stack.Aligned) (isAt : reader.cursor.IsAt source) {vocabulary : Vocabulary}
    (cautious : vocabulary.IsCautious) {behind : Cursor}
    (read : vocabulary.next reader.cursor = .token token behind)
    (isName : token.kind.isName = true) :
    token.IsWord source reader.stack.tokens reader.leftOut ∨
      (.identifier ∈ vocabulary.tried ∧ .identifier ∉ reader.vocabulary.tried ∧
        ∃ top, reader.IsTop top ∧ top.extent.last = token.extent.first) := by
  obtain ⟨tried, letters, ends⟩ := cautious.name_of_next isAt read isName
  have starts : Lexeme.startsInWord token.text = true := by
    obtain ⟨_, _, _, nonempty, _⟩ := (isPiece_of_next isAt read).1
    obtain ⟨char, rest, textEq⟩ := exists_cons_of_ne_nil nonempty
    rw [textEq]
    exact letters char (textEq ▸ mem_cons_self)
  cases behindWord : token.extent.first.isBehindWord source with
  | false =>
    refine .inl ⟨letters, ends, fun isBehind => ?_⟩
    rw [behindWord] at isBehind
    cases isBehind
  | true =>
    obtain ⟨inside, firstEq⟩ := first_of_next isAt read starts behindWord
    obtain ⟨other, lastEq, breaks, place⟩ := minds.marks inside
    rw [← firstEq] at lastEq
    rcases place with leftOut | isHeld | ⟨_, top⟩
    · exact .inl ⟨letters, ends, fun _ => ⟨other, lastEq, .inr ⟨leftOut, breaks⟩⟩⟩
    · rw [noneHeld] at isHeld
      cases isHeld
    · by_cases own : .identifier ∈ reader.vocabulary.tried
      · exact .inl ⟨letters, ends, fun _ =>
          ⟨other, lastEq, .inl (top.kind_of_tried aligned breaks own)⟩⟩
      · exact .inr ⟨tried, own, other, top, lastEq⟩

theorem Minds.skip (minds : reader.Minds source) (isAt : reader.cursor.IsAt source) :
    Minds source { reader with cursor := reader.cursor.skipTrivia } := by
  refine ⟨minds.spells, fun inside => ?_⟩
  have same := isAt.skipTrivia_eq inside
  dsimp only at inside ⊢
  rw [same] at inside ⊢
  exact minds.marks inside

theorem Minds.supply (minds : reader.Minds source) (aligned : reader.stack.Aligned)
    (isAt : reader.cursor.IsAt source) : reader.supply.Minds source := by
  -- What a token read from the text keeps if it starts a line.
  have led {token given : Token} {behind : Cursor} (free : reader.held = none)
      (found : reader.vocabulary.next reader.cursor = .token token behind)
      (isReadAs : IsReadAs token given) :
      given.extent.last = behind.position ∧
        (behind.isInside source = true → given.kind.breaksWords = true) ∧
        (given.kind.isName = true → given.IsWord source reader.stack.tokens reader.leftOut) := by
    have cautious : reader.vocabulary.IsCautious := isCautious_row _
    obtain ⟨_, _, _, lastEq⟩ := isPiece_of_next isAt found
    have breaks := cautious.breaksWords_of_next isAt found
    rcases isReadAs with rfl | ⟨isUpdate, rfl⟩
    · refine ⟨lastEq, breaks, fun isName => ?_⟩
      rcases minds.word_of_next free aligned isAt cautious found isName with
        word | ⟨tried, untried, _⟩
      · exact word
      · exact absurd tried untried
    · refine ⟨lastEq, fun inside => ?_, nofun⟩
      have impossible := breaks inside
      rw [isUpdate] at impossible
      cases impossible
  have supplies := reader.supplies_supply
  generalize reader.supply = supply at supplies ⊢
  cases supplies with
  | @held token waiting =>
    have word := minds.spells token (by simp [waiting])
    refine ⟨⟨fun other member => ?_, fun inside => ?_, fun isName => .inl (word isName)⟩, word⟩
    · exact minds.spells other (by simpa using .inl (by simpa using member))
    · obtain ⟨other, lastEq, breaks, leftOut | isHeld | ⟨free, _⟩⟩ := minds.marks inside
      · exact ⟨other, lastEq, breaks, .inl leftOut⟩
      · cases waiting.symm.trans isHeld
        exact ⟨token, lastEq, breaks, .inr (.inr ⟨rfl, rfl⟩)⟩
      · cases waiting.symm.trans free
  | @read token given behind free found isReadAs =>
    obtain ⟨lastEq, breaks, word⟩ := led free found isReadAs
    exact ⟨⟨minds.spells, fun inside => ⟨given, lastEq, breaks inside, .inr (.inr ⟨free, rfl⟩)⟩,
      fun isName => .inl (word isName)⟩, word⟩
  | @ended token given last behind free found isReadAs =>
    obtain ⟨lastEq, breaks, word⟩ := led free found isReadAs
    refine ⟨⟨fun other member isName => ?_, fun inside => ?_, nofun⟩, nofun⟩
    · rcases mem_append.1 member with onStack | isHeld
      · exact minds.spells other (mem_append_left _ onStack) isName
      · cases mem_singleton.1 isHeld
        exact word isName
    · exact ⟨given, lastEq, breaks inside, .inr (.inl rfl)⟩
  | @foreign token place behind free stuck found =>
    obtain rfl := eq_of_next_stuck stuck
    have cautious := isCautious_full
    obtain ⟨_, _, _, lastEq⟩ := isPiece_of_next isAt.skipTrivia found
    refine ⟨minds.spells, fun inside => ?_, fun isName => ?_⟩
    · exact ⟨token, lastEq, cautious.breaksWords_of_next isAt.skipTrivia found inside,
        .inr (.inr ⟨free, rfl⟩)⟩
    · rcases (minds.skip isAt).word_of_next free aligned isAt.skipTrivia cautious found isName
        with word | ⟨_, _, top, isTop, topLast⟩
      · exact .inl word
      · exact .inr (IsTop.not_mayInsertBefore isTop isName topLast)
  | stuck _ stuck none =>
    obtain rfl := eq_of_next_stuck stuck
    exact ⟨minds.spells, startsInWord_of_full none⟩
  | finished => exact minds.spells

theorem Halts.offers {halted : Reader} {semicolonFits : Bool}
    (halts : reader.Halts token halted semicolonFits) (supply : reader.supply.Minds source) :
    halted.Offers source token := by
  cases halts with
  | refused supplied fed =>
    rw [supplied] at supply
    obtain ⟨⟨spells, marks, _⟩, word⟩ := supply
    unfold Spells at spells
    rw [← Stack.tokens_of_refused fed] at spells word
    exact ⟨spells, marks, fun isName => .inl (word isName)⟩
  | foreign supplied =>
    rw [supplied] at supply
    exact supply

theorem Spells.grow (spells : reader.Spells source) {after : Reader} {added : List Token}
    (held : after.held = reader.held)
    (tokensEq : after.stack.tokens = reader.stack.tokens ++ added)
    (leftOut : reader.leftOut ⊆ after.leftOut)
    (fresh : ∀ token ∈ added, token.kind.isName = true →
      token.IsWord source reader.stack.tokens reader.leftOut) : after.Spells source := by
  intro token member isName
  have grows : reader.stack.tokens ⊆ after.stack.tokens := by simp [tokensEq]
  refine Token.IsWord.mono ?_ grows leftOut
  rw [tokensEq, held, mem_append, mem_append] at member
  rcases member with (old | isNew) | isHeld
  · exact spells token (mem_append_left _ old) isName
  · exact fresh token isNew isName
  · exact spells token (mem_append_right _ isHeld) isName

theorem Marks.shifted {given : Token} (marks : reader.Marks source (· = given)) {after : Reader}
    {before : Stack} (cursor : after.cursor = reader.cursor) (held : after.held = reader.held)
    (leftOut : after.leftOut = reader.leftOut) (fed : before.feed given = .shifted after.stack) :
    after.Marks source after.IsTop := by
  intro inside
  rw [cursor] at inside ⊢
  rw [held, leftOut]
  obtain ⟨token, lastEq, breaks, place⟩ := marks inside
  refine ⟨token, lastEq, breaks, place.imp_right (.imp_right fun isGiven => ?_)⟩
  obtain ⟨noneHeld, rfl⟩ := isGiven
  exact ⟨noneHeld, Stack.head?_of_shifted fed⟩

theorem Marks.without {given : Token} (marks : reader.Marks source (· = given)) :
    (reader.without given).Marks source (reader.without given).IsTop := by
  intro inside
  obtain ⟨token, lastEq, breaks, leftOut | isHeld | ⟨_, rfl⟩⟩ := marks inside
  · exact ⟨token, lastEq, breaks, .inl (mem_cons_of_mem _ leftOut)⟩
  · exact ⟨token, lastEq, breaks, .inr (.inl isHeld)⟩
  · refine ⟨token, lastEq, breaks, .inl ?_⟩
    change token ∈ token.asRead :: reader.leftOut
    rw [Token.asRead_of_breaksWords breaks]
    exact mem_cons_self

theorem Moves.minds (moves : reader.Moves source tolerant (.go next))
    (supply : reader.supply.Minds source)
    (isAt : ∀ supplier, reader.supply = .stuck supplier → supplier.cursor.IsAt source) :
    next.Minds source := by
  cases moves with
  | shifted supplied fed =>
    rw [supplied] at supply
    obtain ⟨⟨spells, marks, _⟩, word⟩ := supply
    refine ⟨spells.grow rfl (Stack.tokens_of_shifted fed) (List.Subset.refl _) ?_,
      marks.shifted rfl rfl rfl fed⟩
    intro other isNew isName
    cases mem_singleton.1 isNew
    exact word isName
  | @inserted token halted between stack halts mayInsert fed again =>
    obtain ⟨spells, marks, word⟩ := halts.offers supply
    have tokensEq : stack.tokens =
        halted.stack.tokens ++ [halted.semicolonBefore token, token] := by
      rw [Stack.tokens_of_shifted again, Stack.tokens_of_shifted fed, append_assoc]
      rfl
    refine ⟨spells.grow rfl tokensEq (List.Subset.refl _) ?_, marks.shifted rfl rfl rfl again⟩
    intro other isNew isName
    rcases mem_cons.1 isNew with rfl | isToken
    · cases isName
    · cases mem_singleton.1 isToken
      rcases word isName with word | mayNot
      · exact word
      · rw [mayInsert] at mayNot
        cases mayNot
  | dropped _ halts =>
    obtain ⟨spells, marks, _⟩ := halts.offers supply
    refine ⟨spells.grow rfl (append_nil _).symm (subset_cons_self _ _) ?_, marks.without⟩
    exact fun other isNew => absurd isNew not_mem_nil
  | @insertedDropped token halted between stack _ halts _ fed again =>
    obtain ⟨spells, marks, _⟩ := halts.offers supply
    have tokensEq : stack.tokens = halted.stack.tokens ++ [halted.semicolonBefore token] := by
      rw [Stack.tokens_of_refused again, Stack.tokens_of_shifted fed]
    refine ⟨spells.grow rfl tokensEq (subset_cons_self _ _) ?_, Marks.without marks⟩
    intro other isNew isName
    cases mem_singleton.1 isNew
    cases isName
  | @skipped supplier char rest _ supplied restEq =>
    have place := isAt supplier supplied
    rw [supplied] at supply
    refine ⟨supply.1, fun inside => ?_⟩
    have nonempty : supplier.cursor.rest.take 1 ≠ [] := by simp [restEq]
    have plain := supply.2
    rw [restEq] at plain
    change (supplier.cursor.advance 1).isInside source = true at inside
    rw [place.isInside_advance nonempty, restEq] at inside
    rw [show Lexeme.endsInWord (List.take 1 (char :: rest)) = false from plain] at inside
    cases inside

theorem Concludes.words {program : Derivation} (concludes : reader.Concludes program)
    (spells : reader.Spells source) :
    ∀ token ∈ program.tokens, token.kind.isName = true →
      token.IsWord source program.tokens reader.leftOut := by
  intro token member isName
  have kept (inStack : token ∈ reader.stack.tokens) :=
    spells token (mem_append_left _ inStack) isName
  cases concludes with
  | complete fed =>
    rw [Stack.tokens_of_accepted fed] at member ⊢
    exact kept member
  | inserted refused _ fed again =>
    rw [Stack.tokens_of_accepted again, Stack.tokens_of_shifted fed,
      Stack.tokens_of_refused refused] at member ⊢
    rcases mem_append.1 member with old | isNew
    · exact (kept old).mono (subset_append_left _ _) (List.Subset.refl _)
    · cases mem_singleton.1 isNew
      cases isName

theorem minds_ofSource (source : String) : (ofSource source).Minds source.toList := by
  have noTokens : (ofSource source).stack.tokens ++ (ofSource source).held.toList = [] := rfl
  have outside : (ofSource source).cursor.position.isBehindWord source.toList = false :=
    Position.isBehindWord_after [] source.toList
  refine ⟨fun token member => ?_, fun inside => ?_⟩
  · rw [noTokens] at member
    cases member
  · rw [Cursor.isInside, outside] at inside
    cases inside

end Reader

theorem Derivation.words_read {source : String} {tolerant : Bool} {derivation : Derivation}
    (read : (Derivation.read source tolerant).result = .ok derivation) :
    ∀ token ∈ derivation.tokens, token.kind.isName = true →
      token.IsWord source.toList derivation.tokens
        ((Derivation.read source tolerant).notices.filterMap Notice.token?) := by
  refine Reader.run_induction
    (fun reader => reader.Regular source.toList ∧ reader.Minds source.toList)
    (fun outcome => ∀ program, outcome.result = .ok program → ∀ token ∈ program.tokens,
      token.kind.isName = true → token.IsWord source.toList program.tokens
        (outcome.notices.filterMap Notice.token?))
    ?_ ?_ ⟨Reader.regular_ofSource source, Reader.minds_ofSource source⟩ derivation read
  · rintro reader next ⟨regular, minds⟩ stepped
    obtain ⟨seen, accounts⟩ := regular.accounts
    refine ⟨regular.step stepped, (Reader.Moves.of_step stepped).minds
      (minds.supply regular.aligned accounts.isAt) fun supplier supplied => ?_⟩
    obtain ⟨_, supplierAccounts⟩ := (regular.ending (.inl supplied)).accounts
    exact supplierAccounts.isAt
  · rintro reader outcome ⟨regular, minds⟩ stepped program ok token member isName
    obtain ⟨supplier, supplied, concludes, noticesEq, _⟩ :=
      (Reader.Moves.of_step stepped).concludes_of_ok ok
    obtain ⟨seen, accounts⟩ := regular.accounts
    have supply := minds.supply regular.aligned accounts.isAt
    have spells : supplier.Spells source.toList := by
      rcases supplied with supplied | supplied
      · rw [supplied] at supply
        exact supply.1
      · rw [supplied] at supply
        exact supply
    refine (concludes.words spells token member isName).mono (List.Subset.refl _) fun other => ?_
    rw [noticesEq, filterMap_reverse, mem_reverse]
    exact id

theorem Leaf.isName_of_isTerm {leaf : Leaf} {file : String} (isTerm : leaf.isTerm = true)
    (isIdentifier : (leaf.token.term file).kind = .identifier) : leaf.token.kind.isName = true := by
  obtain ⟨phrase, ⟨kind, text, extent⟩⟩ := leaf
  cases kind with
  | identifier | getWord | setWord => rfl
  | regex | number | string | nullWord | trueWord | falseWord => cases isIdentifier
  | _ => cases isTerm

namespace SourceFile

variable {file : SourceFile} {tolerant : Bool} {program : Node}

theorem exists_name_of_parse (parsed : (file.parse tolerant).result = .ok program) {node : Node}
    (member : node ∈ program.descend) (isIdentifier : node.kind = .identifier) :
    ∃ derivation token, (Derivation.read file.text tolerant).result = .ok derivation ∧
      token ∈ derivation.tokens ∧ token.kind.isName = true ∧ token.IsPiece file.text.toList ∧
      node = token.term file.name := by
  have ofTerms : node ∈ program.terms := by
    refine mem_filter.2 ⟨member, ?_⟩
    rw [isIdentifier]
    rfl
  obtain ⟨derivation, body, read, rfl, grown⟩ := exists_grown parsed
  obtain ⟨_, account⟩ := Derivation.accounts_read file.text tolerant derivation read
  rw [Node.terms_of_composite _ rfl, children_program, grown.terms_eq] at ofTerms
  obtain ⟨leaf, leafMember, rfl⟩ := mem_map.1 ofTerms
  obtain ⟨ofDerivation, isTerm⟩ := mem_filter.1 leafMember
  have inTokens := derivation.mem_tokens ofDerivation
  have isOf := account.isOf leaf.token inTokens
  exact ⟨derivation, leaf.token, read, inTokens, Leaf.isName_of_isTerm isTerm isIdentifier,
    isOf.isPiece (Leaf.not_isInserted_of_isTerm isOf isTerm), rfl⟩

theorem mem_tokens_of_breaksWords {derivation : Derivation} {token : Token}
    (read : (Derivation.read file.text tolerant).result = .ok derivation)
    (member : token ∈ derivation.tokens) (breaks : token.kind.breaksWords = true) :
    token ∈ file.tokens tolerant := by
  obtain ⟨_, account⟩ := Derivation.accounts_read file.text tolerant derivation read
  have notInserted : token.isInserted = false := by
    cases account.isOf token member with
    | read piece => exact piece.not_isInserted
    | inserted => cases breaks
  have kept : token.asRead ∈
      (derivation.tokens.filter fun token => !token.isInserted).map Token.asRead :=
    mem_map_of_mem (mem_filter.2 ⟨member, by rw [notInserted]; rfl⟩)
  rw [account.kept, Token.asRead_of_breaksWords breaks] at kept
  exact mem_of_mem_filter kept

/-- An identifier of a syntax tree consists of letters and ends where a word of the text ends.  It
starts where the word starts, unless a token ends there within the word: one of the keywords `in`,
`instanceof` and `case` that are read off the front of a word, or, in a tolerant parse, a number or
a keyword that was left out. -/
theorem words_of_parse (parsed : (file.parse tolerant).result = .ok program) {node : Node}
    (member : node ∈ program.descend) (isIdentifier : node.kind = .identifier) :
    ∃ before word after, file.text.toList = before ++ (word ++ after) ∧
      node.span? = some ((before.length : Int), ((before ++ word).length : Int)) ∧
      word ≠ [] ∧ (∀ char ∈ word, Lexeme.isNamePart char = true) ∧
      Lexeme.startsInWord after = false ∧
      (Lexeme.endsInWord before = true → ∃ token : Token, token.extent.last.offset = before.length ∧
        ((token ∈ file.tokens tolerant ∧ token.kind ∈ [.inWord, .instanceofWord, .caseWord]) ∨
          (tolerant = true ∧ token ∈ file.tokensLeftOut tolerant ∧
            token.kind.breaksWords = true))) := by
  obtain ⟨derivation, lexeme, read, inTokens, isName, piece, rfl⟩ :=
    exists_name_of_parse parsed member isIdentifier
  have word := Derivation.words_read read lexeme inTokens isName
  have spans := Node.span?_between (lexeme.location_term file.name)
  obtain ⟨before, after, textEq, nonempty, extentEq⟩ := piece
  have ends := word.ends
  have starts := word.starts
  rw [extentEq, Position.offset_after, Position.offset_after] at spans
  rw [extentEq, Position.offset_after, Int.toNat_natCast, textEq, ← List.append_assoc,
    List.drop_left] at ends
  rw [extentEq, textEq, Position.isBehindWord_after] at starts
  refine ⟨before, lexeme.text, after, textEq, spans, nonempty, word.letters, ends, fun within => ?_⟩
  obtain ⟨token, lastEq, place⟩ := starts within
  refine ⟨token, by rw [lastEq, Position.offset_after], ?_⟩
  rcases place with ⟨inUse, isKeyword⟩ | ⟨leftOut, breaks⟩
  · have breaks : ∀ kind ∈ [Terminal.inWord, .instanceofWord, .caseWord],
        kind.breaksWords = true := by decide
    exact .inl ⟨mem_tokens_of_breaksWords read inUse (breaks _ isKeyword), isKeyword⟩
  · have inLeftOut : token ∈ file.tokensLeftOut tolerant := leftOut
    refine .inr ⟨?_, inLeftOut, breaks⟩
    cases tolerant with
    | true => rfl
    | false =>
      rw [tokensLeftOut_strict] at inLeftOut
      cases inLeftOut

theorem exists_identifier_in_index :
    ∃ program node, ((⟨"", "a\nindex"⟩ : SourceFile).parse false).result = .ok program ∧
      node ∈ program.descend ∧ node.kind = .identifier ∧ node.span? = some (4, 7) := by
  have checked : ((⟨"", "a\nindex"⟩ : SourceFile).parse false).result.toOption.any (fun program =>
      ∃ node ∈ program.descend, node.kind = .identifier ∧ node.span? = some (4, 7)) = true := by
    decide +kernel
  obtain ⟨program, parsed, _, node, found⟩ := Node.exists_isParsed checked
  exact ⟨program, node, parsed, found⟩

/-- Where the identifier `dex` starts, a keyword ends that was read off the front of `index`. -/
theorem words_of_parse_operator :
    ∃ program node, ((⟨"", "a\nindex"⟩ : SourceFile).parse false).result = .ok program ∧
      node ∈ program.descend ∧ node.kind = .identifier ∧ node.span? = some (4, 7) ∧
      ∃ token ∈ SourceFile.tokens ⟨"", "a\nindex"⟩ false,
        token.extent.last.offset = 4 ∧ token.kind ∈ [.inWord, .instanceofWord, .caseWord] := by
  obtain ⟨program, node, parsed, member, isIdentifier, spans⟩ := exists_identifier_in_index
  obtain ⟨before, word, after, textEq, ownSpans, _, _, _, starts⟩ :=
    words_of_parse parsed member isIdentifier
  rw [spans] at ownSpans
  have lengthEq : before.length = 4 := by
    injection ownSpans with pairEq
    injection pairEq with firstEq _
    omega
  have beforeEq : before = "a\nin".toList := by
    rw [← List.take_left' lengthEq, ← textEq]
    decide
  obtain ⟨token, lastEq, ⟨inTokens, isKeyword⟩ | ⟨isTolerant, _⟩⟩ :=
    starts (by rw [beforeEq]; decide)
  · refine ⟨program, node, parsed, member, isIdentifier, spans, token, inTokens, ?_, isKeyword⟩
    rw [lastEq, lengthEq]
    rfl
  · cases isTolerant

/-- The identifier `dex` starts within a word. -/
theorem identifier_within_word :
    ∃ program node, ((⟨"", "a\nindex"⟩ : SourceFile).parse false).result = .ok program ∧
      node ∈ program.descend ∧ node.kind = .identifier ∧ node.span? = some (4, 7) ∧
      Lexeme.endsInWord ("a\nindex".toList.take 4) = true := by
  obtain ⟨program, node, parsed, member, isIdentifier, spans⟩ := exists_identifier_in_index
  exact ⟨program, node, parsed, member, isIdentifier, spans, by decide⟩

end SourceFile

end Namesake
