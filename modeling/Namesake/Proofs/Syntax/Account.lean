import Mathlib.Data.List.Nodup
import Namesake.Proofs.Syntax.Moves
import Namesake.Proofs.Syntax.Piece

/-!
Without the semicolons that were put in, what is derived has the tokens that were read, without
those that were left out.
-/

namespace Namesake

open List

variable {tolerant : Bool}

-- The table of the automaton is a closed term; nothing below may evaluate it.
attribute [local irreducible] Automaton.rows

namespace Stack

def tokens (stack : Stack) : List Token :=
  stack.reverse.flatMap fun frame => frame.tree.tokens

theorem tokens_cons (frame : Frame) (stack : Stack) :
    tokens (frame :: stack) = tokens stack ++ frame.tree.tokens := by
  simp [tokens]

theorem tokensAll_latest (stack : Stack) (count : Nat) :
    Derivation.tokensAll (stack.latest count) =
      (stack.take count).reverse.flatMap fun frame => frame.tree.tokens := by
  rw [Derivation.tokensAll_eq, latest, flatMap_map]

theorem tokens_of_reduce? {stack reduced : Stack} {production : Production}
    (reducedEq : stack.reduce? production = some reduced) : reduced.tokens = stack.tokens := by
  obtain ⟨_, state, _, rfl⟩ := of_reduce? reducedEq
  rw [tokens_cons, Derivation.tokens, tokensAll_latest, tokens, ← flatMap_append,
    ← reverse_append, take_append_drop]
  rfl

theorem Reduces.tokens_eq {kind : Terminal} {stack last : Stack}
    (reduces : Reduces kind stack last) : last.tokens = stack.tokens := by
  induction reduces with
  | refl => rfl
  | step _ reducedEq _ ih => exact ih.trans (tokens_of_reduce? reducedEq)

variable {stack : Stack} {token : Token}

theorem tokens_of_shifted {shifted : Stack} (fed : stack.feed token = .shifted shifted) :
    shifted.tokens = stack.tokens ++ [token] := by
  obtain ⟨last, state, reduces, _, rfl⟩ := reduces_of_shifted fed
  rw [tokens_cons, reduces.tokens_eq]
  rfl

theorem tokens_of_refused {refused : Stack} (fed : stack.feed token = .refused refused) :
    refused.tokens = stack.tokens :=
  (reduces_of_refused fed).tokens_eq

theorem tokens_of_accepted {program : Derivation} (fed : stack.feed token = .accepted program) :
    program.tokens = stack.tokens := by
  obtain ⟨state, reduces, _⟩ := reduces_of_accepted fed
  exact ((tokens_cons _ []).symm).trans reduces.tokens_eq

end Stack

def Token.span : List Token → Option Extent
  | [] => none
  | token :: rest => Extent.join token.extent (Token.span rest)

namespace Token

theorem join_assoc (first second third : Option Extent) :
    Extent.join (Extent.join first second) third = Extent.join first (Extent.join second third) := by
  cases first <;> cases second <;> cases third <;> rfl

theorem span_append (left right : List Token) :
    span (left ++ right) = Extent.join (span left) (span right) := by
  induction left with
  | nil => rfl
  | cons token rest ih =>
    rw [cons_append, span, ih, span, join_assoc]

theorem exists_span {tokens : List Token} (nonempty : tokens ≠ []) :
    ∃ extent, span tokens = some extent := by
  cases tokens with
  | nil => exact absurd rfl nonempty
  | cons token rest =>
    rw [span]
    cases span rest with
    | none => exact ⟨_, rfl⟩
    | some extent => exact ⟨_, rfl⟩

theorem exists_of_span {tokens : List Token} {extent : Extent} (spanned : span tokens = some extent) :
    (∃ token ∈ tokens, extent.first = token.extent.first) ∧
      ∃ token ∈ tokens, extent.last = token.extent.last := by
  induction tokens generalizing extent with
  | nil => cases spanned
  | cons token rest ih =>
    rw [span] at spanned
    cases restEq : span rest with
    | none =>
      rw [restEq] at spanned
      cases spanned
      exact ⟨⟨token, mem_cons_self, rfl⟩, ⟨token, mem_cons_self, rfl⟩⟩
    | some inner =>
      rw [restEq] at spanned
      cases spanned
      obtain ⟨_, other, member, same⟩ := ih restEq
      exact ⟨⟨token, mem_cons_self, rfl⟩, ⟨other, mem_cons_of_mem _ member, same⟩⟩

end Token

namespace Derivation

mutual

theorem cover_eq_span (derivation : Derivation) :
    derivation.cover = Token.span derivation.tokens := by
  cases derivation with
  | leaf token => rfl
  | branch production parts => exact coverAll_eq_span parts

theorem coverAll_eq_span (parts : List Derivation) :
    coverAll parts = Token.span (tokensAll parts) := by
  cases parts with
  | nil => rfl
  | cons part rest =>
    rw [coverAll, tokensAll, Token.span_append, cover_eq_span part, coverAll_eq_span rest]

end

theorem mem_of_innerExtent {parts : List Derivation} {extent : Extent}
    (extentEq : innerExtent parts = some extent) :
    ∃ part ∈ parts, part.extent = some extent := by
  induction parts with
  | nil => cases extentEq
  | cons part rest ih =>
    cases part with
    | leaf token =>
      obtain ⟨other, member, same⟩ := ih extentEq
      exact ⟨other, mem_cons_of_mem _ member, same⟩
    | branch production parts => exact ⟨_, mem_cons_self, extentEq⟩

theorem exists_of_extent {derivation : Derivation} {extent : Extent}
    (extentEq : derivation.extent = some extent) :
    ∃ token ∈ derivation.tokens, extent.last = token.extent.last := by
  induction derivation using ofParts with
  | leaf token =>
    cases extentEq
    exact ⟨token, mem_singleton_self token, rfl⟩
  | branch production parts ih =>
    rw [Derivation.extent] at extentEq
    split at extentEq
    · obtain ⟨part, inParts, partEq⟩ := mem_of_innerExtent extentEq
      obtain ⟨token, inPart, same⟩ := ih part inParts partEq
      exact ⟨token, mem_tokens_branch.2 ⟨part, inParts, inPart⟩, same⟩
    · rw [coverAll_eq_span] at extentEq
      exact (Token.exists_of_span extentEq).2

end Derivation

theorem Reader.exists_of_previousEnd? {reader : Reader} {position : Position}
    (found : reader.previousEnd? = some position) :
    ∃ token ∈ reader.stack.tokens, position = token.extent.last := by
  obtain ⟨frame, frameEq, mapped⟩ := Option.bind_eq_some_iff.1 found
  obtain ⟨extent, extentEq, rfl⟩ := Option.map_eq_some_iff.1 mapped
  obtain ⟨token, member, same⟩ := Derivation.exists_of_extent extentEq
  refine ⟨token, mem_flatMap.2 ⟨frame, ?_, member⟩, same⟩
  exact mem_reverse.2 (mem_of_mem_head? frameEq)

/-- An account of the tokens that were read from a text up to a place: those that are in use, with the
semicolons that were put in among them, and those that were left out. -/
structure Account (source : List Char) (seen leftOut : List Token) (place : Int)
    (used : List Token) : Prop where
  pieces : ∀ token ∈ seen, token.IsPiece source
  ordered : seen.Pairwise fun left right => left.extent.last.offset ≤ right.extent.first.offset
  isOf : ∀ token ∈ used, token.IsOf source
  /-- A token that was read starts where all tokens before it have ended. -/
  behind : used.Pairwise fun left right =>
    right.isInserted = false → left.extent.last.offset ≤ right.extent.first.offset
  before : ∀ token ∈ seen ++ leftOut ++ used, token.extent.last.offset ≤ place
  kept : (used.filter fun token => !token.isInserted).map Token.asRead =
    seen.filter fun token => token ∉ leftOut

namespace Account

variable {source : List Char} {seen leftOut used first rest : List Token} {place : Int}
  {token : Token}

theorem nil (source : List Char) : Account source [] [] 0 [] where
  pieces := by simp
  ordered := .nil
  isOf := by simp
  behind := .nil
  before := by simp
  kept := rfl

theorem nodup_seen (account : Account source seen leftOut place used) : seen.Nodup := by
  refine account.ordered.imp_of_mem fun {left right} leftMember _ order same => ?_
  subst same
  have less := (account.pieces left leftMember).lt
  omega

theorem advance (account : Account source seen leftOut place used) {further : Int}
    (le : place ≤ further) : Account source seen leftOut further used :=
  { account with before := fun token member => Int.le_trans (account.before token member) le }

theorem read (account : Account source seen leftOut place used) (piece : token.IsPiece source)
    (le : place ≤ token.extent.first.offset) (plain : token.kind ≠ .leadingUpdateOp) :
    Account source (seen ++ [token]) leftOut token.extent.last.offset (used ++ [token]) := by
  have less := piece.lt
  have fresh : token ∉ leftOut := by
    intro member
    have early := account.before token (by simp [member])
    omega
  constructor
  · simpa [or_imp, forall_and] using ⟨account.pieces, piece⟩
  · refine pairwise_append.2 ⟨account.ordered, pairwise_singleton _ _, ?_⟩
    intro left leftMember right rightMember
    rw [mem_singleton.1 rightMember]
    exact Int.le_trans (account.before left (by simp [leftMember])) le
  · simpa [or_imp, forall_and] using ⟨account.isOf, .read piece⟩
  · refine pairwise_append.2 ⟨account.behind, pairwise_singleton _ _, ?_⟩
    intro left leftMember right rightMember _
    rw [mem_singleton.1 rightMember]
    exact Int.le_trans (account.before left (by simp [leftMember])) le
  · intro other member
    by_cases same : other = token
    · exact Int.le_of_eq (by rw [same])
    · have early := account.before other (by simpa [same] using member)
      omega
  · rw [filter_append, map_append, account.kept, filter_append]
    simp [piece.not_isInserted, fresh, Token.asRead_of_ne plain]

theorem lead (account : Account source seen leftOut place (first ++ token :: rest))
    (isUpdate : token.kind = .updateOp) :
    Account source seen leftOut place
      (first ++ { token with kind := .leadingUpdateOp } :: rest) := by
  have piece : token.IsPiece source := by
    have isOf := account.isOf token (by simp)
    cases isOf with
    | read piece => exact piece
    | inserted isIn => cases isUpdate
  have same : ({ token with kind := .leadingUpdateOp } : Token).asRead = token.asRead := by
    obtain ⟨kind, text, extent⟩ := token
    cases isUpdate
    rfl
  constructor
  · exact account.pieces
  · exact account.ordered
  · have others := account.isOf
    simp only [mem_append, mem_cons, or_imp, forall_and, forall_eq] at others ⊢
    exact ⟨others.1, .read piece, others.2.2⟩
  · have order := account.behind
    simp only [pairwise_append, pairwise_cons, mem_cons, forall_eq_or_imp] at order ⊢
    exact order
  · have early := account.before
    simp only [mem_append, mem_cons, or_imp, forall_and, forall_eq] at early ⊢
    exact early
  · rw [← account.kept, filter_append, filter_append, filter_cons, filter_cons,
      map_append, map_append]
    congr 1
    change (if (!token.isInserted) = true then _ else _ : List Token).map Token.asRead = _
    split
    · rw [map_cons, map_cons, same]
    · rfl

theorem insert (account : Account source seen leftOut place (first ++ rest)) {position : Position}
    (isIn : position.IsIn source) (le : position.offset ≤ place)
    (ahead : ∀ right ∈ rest, right.isInserted = false →
      position.offset ≤ right.extent.first.offset) :
    Account source seen leftOut place (first ++ Token.semicolonAt position :: rest) := by
  have isInserted := Token.isInserted_semicolonAt position
  constructor
  · exact account.pieces
  · exact account.ordered
  · have others := account.isOf
    simp only [mem_append, mem_cons, or_imp, forall_and, forall_eq] at others ⊢
    exact ⟨others.1, .inserted isIn, others.2⟩
  · have order := account.behind
    simp only [pairwise_append, pairwise_cons, mem_cons, forall_eq_or_imp] at order ⊢
    refine ⟨order.1, ⟨ahead, order.2.1⟩, fun left member => ⟨?_, order.2.2 left member⟩⟩
    intro notInserted
    rw [isInserted] at notInserted
    cases notInserted
  · have early := account.before
    simp only [mem_append, mem_cons, or_imp, forall_and, forall_eq] at early ⊢
    exact ⟨early.1, early.2.1, le, early.2.2⟩
  · rw [← account.kept, filter_append, filter_append, filter_cons, isInserted]
    rfl

theorem drop (account : Account source seen leftOut place (first ++ token :: rest)) :
    Account source seen (token.asRead :: leftOut) place (first ++ rest) := by
  have sublist : (first ++ rest).Sublist (first ++ token :: rest) :=
    (sublist_cons_self token rest).append_left first
  constructor
  · exact account.pieces
  · exact account.ordered
  · exact fun other member => account.isOf other (sublist.subset member)
  · exact account.behind.sublist sublist
  · have early := account.before
    simp only [mem_append, mem_cons, or_imp, forall_and, forall_eq] at early ⊢
    refine ⟨⟨early.1.1, ?_, early.1.2⟩, early.2.1, early.2.2.2⟩
    rw [Token.extent_asRead]
    exact early.2.2.1
  · have split : (seen.filter fun other => other ∉ token.asRead :: leftOut) =
        (seen.filter fun other => other ∉ leftOut).filter fun other => other != token.asRead := by
      rw [filter_filter]
      refine filter_congr fun other _ => ?_
      rw [Bool.eq_iff_iff]
      simp
    have nodup := account.nodup_seen.filter fun other => decide (other ∉ leftOut)
    have kept := account.kept
    rw [filter_append, filter_cons, map_append] at kept
    rw [filter_append, map_append, split, ← nodup.erase_eq_filter]
    cases inserted : token.isInserted with
    | true =>
      -- What was put in is no piece of the text, so it is not among the tokens that were read.
      rw [inserted, Bool.not_true, if_neg Bool.false_ne_true] at kept
      rw [kept, erase_of_not_mem]
      intro member
      have notInserted := (account.pieces _ (mem_of_mem_filter member)).not_isInserted
      rw [Token.isInserted_asRead, inserted] at notInserted
      cases notInserted
    | false =>
      rw [inserted, Bool.not_false, if_pos rfl, map_cons] at kept
      rw [← kept] at nodup ⊢
      have absent := (nodup_cons.1 (nodup_middle.1 nodup)).1
      rw [erase_append_right _ fun member => absent (mem_append_left _ member), erase_cons_head]

theorem reorder (account : Account source seen leftOut place used) {others : List Token}
    (same : ∀ token, token ∈ others ↔ token ∈ leftOut) :
    Account source seen others place used := by
  refine { account with before := ?_, kept := ?_ }
  · intro token member
    exact account.before token (by simpa [same] using member)
  · rw [account.kept]
    exact filter_congr fun token _ => by simp [same]

theorem le_of_mem (account : Account source seen leftOut place (first ++ rest)) {left right : Token}
    (leftMember : left ∈ first) (rightMember : right ∈ rest) (notInserted : right.isInserted = false) :
    left.extent.last.offset ≤ right.extent.first.offset :=
  (pairwise_append.1 account.behind).2.2 left leftMember right rightMember notInserted

end Account

def Notice.token? : Notice → Option Token
  | .droppedToken token => some token.asRead
  | .skippedCharacter _ => none

namespace Reader

def leftOut (reader : Reader) : List Token :=
  reader.notices.filterMap Notice.token?

def taken (reader : Reader) : List Token :=
  match reader.held with
  | some _ => []
  | none =>
    match reader.vocabulary.next reader.cursor with
    | .token token _ => [token]
    | .finished _ => []
    | .stuck place =>
      match Vocabulary.full.next place with
      | .token token _ => [token]
      | _ => []

theorem taken_of_stuck {reader : Reader} {place : Cursor} (free : reader.held = none)
    (stuck : reader.vocabulary.next reader.cursor = .stuck place)
    (none : ∀ token behind, Vocabulary.full.next place ≠ .token token behind) :
    reader.taken = [] := by
  simp only [taken, free, stuck]

/-- The tokens that are taken from the text until the end of reading. -/
def takenAll (source : List Char) (tolerant : Bool) (reader : Reader) : List Token :=
  reader.taken ++ match _stepped : reader.step source tolerant with
    | .done _ => []
    | .go next => next.takenAll source tolerant
termination_by reader.remaining
decreasing_by exact remaining_step _stepped

theorem takenAll_of_done {source : List Char} {reader : Reader} {outcome : Outcome}
    (stepped : reader.step source tolerant = .done outcome) :
    reader.takenAll source tolerant = reader.taken := by
  rw [takenAll]
  split
  · exact append_nil _
  · rename_i next other
    rw [stepped] at other
    cases other

theorem takenAll_of_go {source : List Char} {reader next : Reader}
    (stepped : reader.step source tolerant = .go next) :
    reader.takenAll source tolerant = reader.taken ++ next.takenAll source tolerant := by
  rw [takenAll]
  split
  · rename_i outcome other
    rw [stepped] at other
    cases other
  · rename_i further other
    rw [stepped] at other
    cases other
    rfl

/-- Whether there is an account of what a reader has read, with some tokens in hand that are not on
the stack yet. -/
structure Accounts (source : List Char) (seen hand : List Token) (reader : Reader) : Prop where
  isAt : reader.cursor.IsAt source
  account : Account source seen reader.leftOut reader.cursor.position.offset
    (reader.stack.tokens ++ (hand ++ reader.held.toList))
  known : ∀ token, reader.recent = some token ∨ reader.lexed = some token ∨
    reader.latest = some token →
      token.IsOf source ∧ token.extent.last.offset ≤ reader.cursor.position.offset

def Supply.Accounts (source : List Char) (seen : List Token) : Supply → Prop
  | .token next reader => reader.Accounts source seen [next]
  | .foreign next reader => reader.Accounts source seen [next]
  | .stuck reader => reader.Accounts source seen [] ∧ reader.held = none
  | .finished reader => reader.Accounts source seen [] ∧ reader.held = none

variable {source : List Char} {seen : List Token} {reader : Reader} {token : Token}
variable {hand : List Token}

theorem Accounts.known_of_le (accounts : reader.Accounts source seen []) {cursor : Cursor}
    (le : reader.cursor.position.offset ≤ cursor.position.offset) (other : Token)
    (remembered : reader.recent = some other ∨ reader.lexed = some other ∨
      reader.latest = some other) :
    other.IsOf source ∧ other.extent.last.offset ≤ cursor.position.offset := by
  obtain ⟨isOf, before⟩ := accounts.known other remembered
  exact ⟨isOf, Int.le_trans before le⟩

theorem Accounts.read (accounts : reader.Accounts source seen []) (free : reader.held = none)
    {vocabulary : Vocabulary} {place behind : Cursor} (placeAt : place.IsAt source)
    (le : reader.cursor.position.offset ≤ place.position.offset)
    (found : vocabulary.next place = .token token behind) :
    behind.IsAt source ∧ reader.cursor.position.offset ≤ token.extent.first.offset ∧
      Account source (seen ++ [token]) reader.leftOut behind.position.offset
        (reader.stack.tokens ++ [token]) ∧
      ∀ other, reader.recent = some other ∨ some token = some other ∨ reader.latest = some other →
          other.IsOf source ∧ other.extent.last.offset ≤ behind.position.offset := by
  obtain ⟨piece, behindAt, first, last⟩ := Vocabulary.isPiece_of_next placeAt found
  have starts := Int.le_trans le first
  have account := accounts.account
  rw [free, Option.toList_none, append_nil, append_nil] at account
  have readAccount := account.read piece starts (Vocabulary.kind_of_next found)
  rw [last] at readAccount
  have behindLe : reader.cursor.position.offset ≤ behind.position.offset := by
    rw [← last]
    exact Int.le_trans starts (Int.le_of_lt piece.lt)
  refine ⟨behindAt, starts, readAccount, ?_⟩
  rintro other (remembered | same | remembered)
  · exact accounts.known_of_le behindLe other (.inl remembered)
  · cases same
    exact ⟨.read piece, Int.le_of_eq (by rw [last])⟩
  · exact accounts.known_of_le behindLe other (.inr (.inr remembered))

theorem Accounts.supply (accounts : reader.Accounts source seen []) :
    reader.supply.Accounts source (seen ++ reader.taken) := by
  have account := accounts.account
  have led {token given : Token} {place : Int} {tokens : List Token}
      (isReadAs : IsReadAs token given)
      (account : Account source tokens reader.leftOut place (reader.stack.tokens ++ [token])) :
      Account source tokens reader.leftOut place (reader.stack.tokens ++ [given]) := by
    rcases isReadAs with rfl | ⟨isUpdate, rfl⟩
    · exact account
    · exact account.lead isUpdate
  have supplies := reader.supplies_supply
  generalize reader.supply = supply at supplies ⊢
  cases supplies with
  | held waiting =>
    rw [waiting] at account
    simp only [taken, waiting, append_nil]
    refine ⟨accounts.isAt, by simpa [leftOut] using account, ?_⟩
    rintro other (same | remembered)
    · cases same
      exact ⟨account.isOf _ (by simp), account.before _ (by simp)⟩
    · exact accounts.known other (.inr remembered)
  | read free found isReadAs =>
    obtain ⟨behindAt, _, read, known⟩ := accounts.read free accounts.isAt (Int.le_refl _) found
    have given := led isReadAs read
    simp only [taken, free, found]
    refine ⟨behindAt, by simpa [free, leftOut] using given, ?_⟩
    rintro other (same | remembered)
    · cases same
      exact ⟨given.isOf _ (by simp), given.before _ (by simp)⟩
    · exact known other (.inr remembered)
  | @ended token given last behind free found isReadAs recent =>
    obtain ⟨behindAt, starts, read, known⟩ := accounts.read free accounts.isAt (Int.le_refl _) found
    obtain ⟨lastOf, lastBefore⟩ := known last (.inl recent)
    simp only [taken, free, found]
    refine ⟨behindAt, ?_, known⟩
    refine (led isReadAs read).insert lastOf.isIn.2 lastBefore fun right member _ => ?_
    rw [mem_singleton.1 member, isReadAs.extent_eq]
    exact Int.le_trans (accounts.known last (.inl recent)).2 starts
  | foreign free stuck found =>
    obtain ⟨placeAt, le⟩ := Vocabulary.isAt_of_next_stuck accounts.isAt stuck
    obtain ⟨behindAt, _, read, known⟩ := accounts.read free placeAt le found
    simp only [taken, free, stuck, found]
    exact ⟨behindAt, by simpa [free, leftOut] using read, known⟩
  | stuck free stuck none =>
    obtain ⟨placeAt, le⟩ := Vocabulary.isAt_of_next_stuck accounts.isAt stuck
    rw [taken_of_stuck free stuck none, append_nil]
    exact ⟨⟨placeAt, account.advance le, accounts.known_of_le le⟩, free⟩
  | finished free found =>
    obtain ⟨placeAt, le⟩ := Vocabulary.isAt_of_next_finished accounts.isAt found
    have none : reader.taken = [] := by simp only [taken, free, found]
    rw [none, append_nil]
    exact ⟨⟨placeAt, account.advance le, accounts.known_of_le le⟩, free⟩

theorem Accounts.withStack {others : List Token} (accounts : reader.Accounts source seen hand)
    {stack : Stack} {inserted : Nat} (same : stack.tokens ++ others = reader.stack.tokens ++ hand) :
    Reader.Accounts source seen others { reader with stack, inserted } := by
  have account := accounts.account
  rw [← append_assoc, ← same, append_assoc] at account
  exact ⟨accounts.isAt, account, accounts.known⟩

theorem Accounts.remember (accounts : reader.Accounts source seen hand)
    (member : token ∈ reader.stack.tokens ++ hand) :
    Reader.Accounts source seen hand { reader with latest := some token } := by
  have used : token ∈ reader.stack.tokens ++ (hand ++ reader.held.toList) := by
    rw [← append_assoc]
    exact mem_append_left _ member
  refine ⟨accounts.isAt, accounts.account, ?_⟩
  rintro other (remembered | remembered | same)
  · exact accounts.known other (.inl remembered)
  · exact accounts.known other (.inr (.inl remembered))
  · cases same
    exact ⟨accounts.account.isOf token used,
      accounts.account.before token (mem_append_right _ used)⟩

theorem Accounts.advance (accounts : reader.Accounts source seen hand) {dropped : Nat}
    {place : Position} :
    Reader.Accounts source seen hand { reader with
        cursor := reader.cursor.advance 1, dropped
        notices := .skippedCharacter place :: reader.notices } := by
  have le := reader.cursor.le_advance 1
  refine ⟨accounts.isAt.advance 1, accounts.account.advance le, fun token remembered => ?_⟩
  obtain ⟨isOf, before⟩ := accounts.known token remembered
  exact ⟨isOf, Int.le_trans before le⟩

theorem Accounts.insert (accounts : reader.Accounts source seen hand)
    (isIn : token.extent.first.IsIn source)
    (le : token.extent.first.offset ≤ reader.cursor.position.offset)
    (ahead : ∀ right ∈ hand ++ reader.held.toList, right.isInserted = false →
      token.extent.first.offset ≤ right.extent.first.offset) :
    reader.Accounts source seen (reader.semicolonBefore token :: hand) := by
  refine ⟨accounts.isAt, ?_, accounts.known⟩
  have account := accounts.account
  unfold semicolonBefore
  cases found : reader.previousEnd? with
  | none => exact account.insert isIn le ahead
  | some position =>
    obtain ⟨last, member, rfl⟩ := exists_of_previousEnd? found
    refine account.insert ?_ ?_ fun right rightMember => account.le_of_mem member rightMember
    · exact (account.isOf last (mem_append_left _ member)).isIn.2
    · exact account.before last (by simp [member])

theorem Accounts.drop (accounts : reader.Accounts source seen (token :: hand)) :
    Reader.Accounts source seen hand
      { reader with dropped := reader.dropped + 1, notices := .droppedToken token :: reader.notices } :=
  ⟨accounts.isAt, accounts.account.drop, accounts.known⟩

theorem Accounts.resume (accounts : reader.Accounts source seen hand) :
    Reader.Accounts source seen hand { reader with latest := reader.lexed } := by
  refine ⟨accounts.isAt, accounts.account, ?_⟩
  rintro other (remembered | remembered | remembered)
  · exact accounts.known other (.inl remembered)
  · exact accounts.known other (.inr (.inl remembered))
  · exact accounts.known other (.inr (.inl remembered))

theorem Accounts.recall (accounts : reader.Accounts source seen (token :: hand)) :
    Reader.Accounts source seen (token :: hand) { reader with recent := some token } := by
  refine ⟨accounts.isAt, accounts.account, ?_⟩
  rintro other (same | remembered)
  · cases same
    exact ⟨accounts.account.isOf token (by simp), accounts.account.before token (by simp)⟩
  · exact accounts.known other (.inr remembered)

theorem Accounts.insertBefore (accounts : reader.Accounts source seen [token]) :
    reader.Accounts source seen [reader.semicolonBefore token, token] := by
  have isOf := accounts.account.isOf token (by simp)
  have before := accounts.account.before token (by simp)
  refine accounts.insert isOf.isIn.1 (Int.le_trans isOf.le before) fun right member plain => ?_
  rcases mem_append.1 member with same | waiting
  · cases mem_singleton.1 same
    exact Int.le_refl _
  · have account := accounts.account
    rw [← append_assoc] at account
    exact Int.le_trans isOf.le (account.le_of_mem (by simp) waiting plain)

variable {halted next : Reader} {semicolonFits : Bool}

theorem Halts.accounts (halts : reader.Halts token halted semicolonFits)
    (accounts : reader.Accounts source seen []) :
    halted.Accounts source (seen ++ reader.taken) [token] := by
  have supply := accounts.supply
  cases halts with
  | @refused supplier stack supplied fed =>
    rw [supplied] at supply
    have same : stack.tokens ++ [token] = supplier.stack.tokens ++ [token] := by
      rw [Stack.tokens_of_refused fed]
    exact (supply.withStack same).remember (by simp)
  | foreign supplied =>
    rw [supplied] at supply
    exact supply

theorem Moves.accounts (moves : reader.Moves source tolerant (.go next))
    (accounts : reader.Accounts source seen []) :
    next.Accounts source (seen ++ reader.taken) [] := by
  have supply := accounts.supply
  cases moves with
  | @shifted token supplier stack supplied fed =>
    rw [supplied] at supply
    have whole : stack.tokens ++ [] = supplier.stack.tokens ++ [token] := by
      rw [append_nil, Stack.tokens_of_shifted fed]
    exact (supply.withStack whole).remember (by simp [whole])
  | inserted halts _ fed again =>
    refine ((halts.accounts accounts).recall.insertBefore.withStack ?_).resume
    rw [Stack.tokens_of_shifted again, Stack.tokens_of_shifted fed, append_nil, append_assoc]
    rfl
  | dropped _ halts => exact (halts.accounts accounts).recall.drop.resume
  | insertedDropped _ halts _ fed again =>
    refine ((halts.accounts accounts).recall.insertBefore.withStack ?_).drop.resume
    rw [Stack.tokens_of_refused again, Stack.tokens_of_shifted fed, append_assoc]
    rfl
  | skipped _ supplied _ =>
    rw [supplied] at supply
    exact supply.1.advance.resume

theorem Concludes.account {program : Derivation} (concludes : reader.Concludes program)
    (accounts : reader.Accounts source seen []) (noneHeld : reader.held = none) :
    Account source seen reader.leftOut reader.cursor.position.offset program.tokens := by
  -- The tokens of the program are those on the stack and the ones in hand.
  have whole {reader : Reader} {hand : List Token} (accounts : reader.Accounts source seen hand)
      (noneHeld : reader.held = none) (same : program.tokens = reader.stack.tokens ++ hand) :
      Account source seen reader.leftOut reader.cursor.position.offset program.tokens := by
    have account := accounts.account
    rwa [noneHeld, Option.toList_none, append_nil, ← same] at account
  cases concludes with
  | complete fed =>
    exact whole accounts noneHeld (by rw [Stack.tokens_of_accepted fed, append_nil])
  | @inserted stack ended refused _ fed again =>
    have reduced : Reader.Accounts source seen [] { reader with stack } :=
      accounts.withStack (by rw [Stack.tokens_of_refused refused])
    have early : (Token.endAfter reader.latest).extent.first.IsIn source ∧
        (Token.endAfter reader.latest).extent.first.offset ≤ reader.cursor.position.offset := by
      cases remembered : reader.latest with
      | none => exact ⟨⟨[], nil_prefix, rfl⟩, accounts.isAt.isIn.bounds.1⟩
      | some last =>
        obtain ⟨isOf, before⟩ := accounts.known last (.inr (.inr remembered))
        exact ⟨isOf.isIn.1, Int.le_trans isOf.le before⟩
    have inserted := whole (reduced.insert early.1 early.2 (by simp [noneHeld])) noneHeld (by
      rw [Stack.tokens_of_accepted again, Stack.tokens_of_shifted fed])
    exact inserted

theorem Accounts.run (accounts : reader.Accounts source seen []) {program : Derivation}
    (ok : (reader.run source tolerant).result = .ok program) :
    ∃ place, Account source (seen ++ reader.takenAll source tolerant)
      ((reader.run source tolerant).notices.filterMap Notice.token?) place program.tokens := by
  fun_induction Reader.run source tolerant reader generalizing seen with
  | case1 reader outcome stepped =>
    obtain ⟨supplier, supplied, concludes, noticesEq, _⟩ :=
      (Moves.of_step stepped).concludes_of_ok ok
    have supply := accounts.supply
    have ending : supplier.Accounts source (seen ++ reader.taken) [] ∧ supplier.held = none := by
      rcases supplied with supplied | supplied
      · rw [supplied] at supply
        exact supply
      · rw [supplied] at supply
        exact supply
    rw [takenAll_of_done stepped, noticesEq]
    refine ⟨_, (concludes.account ending.1 ending.2).reorder fun token => ?_⟩
    simp [leftOut]
  | case2 reader next stepped ih =>
    rw [takenAll_of_go stepped, ← append_assoc]
    exact ih ((Moves.of_step stepped).accounts accounts) ok

theorem accounts_ofSource (source : String) :
    (ofSource source).Accounts source.toList [] [] := by
  refine ⟨⟨[], rfl, rfl⟩, .nil _, ?_⟩
  rintro _ (⟨⟨⟩⟩ | ⟨⟨⟩⟩ | ⟨⟨⟩⟩)

end Reader

theorem Derivation.accounts_read (source : String) (tolerant : Bool) (program : Derivation)
    (read : (read source tolerant).result = .ok program) :
    ∃ place, Account source.toList ((Reader.ofSource source).takenAll source.toList tolerant)
      ((Derivation.read source tolerant).notices.filterMap Notice.token?) place program.tokens :=
  (Reader.accounts_ofSource source).run read

end Namesake
