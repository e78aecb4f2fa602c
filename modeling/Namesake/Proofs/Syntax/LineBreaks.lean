import Mathlib.Data.List.Chain
import Namesake.Proofs.Syntax.Layout
import Namesake.Proofs.Syntax.Semicolons

/-!
Where a line break would end a statement or make an operator lead its operand, a strict reader finds
no line break.  It decides by the token before, which is the last one on its stack unless a token
waits behind a semicolon.
-/

namespace Namesake

open List

/-- Whether a token is in the line of the one before it if a line break between them would end the
statement, or would make an operator a prefix.  A semicolon may stand anywhere. -/
def Token.KeepsLine (left right : Token) : Prop :=
  left.kind ≠ .semicolon → right.kind ≠ .semicolon →
    left.kind.isRestricted = true ∨ right.kind = .updateOp → right.startsLineAfter left = false

theorem Token.isChain_append {tokens : List Token} {token : Token}
    (chain : tokens.IsChain KeepsLine) (line : ∀ last ∈ tokens.getLast?, last.KeepsLine token) :
    (tokens ++ [token]).IsChain KeepsLine := by
  refine List.isChain_append.2 ⟨chain, isChain_singleton _, ?_⟩
  rintro last isLast _ ⟨⟩
  exact line last isLast

-- The table of the automaton is a closed term; nothing below may evaluate it.
attribute [local irreducible] Automaton.rows

namespace Reader

/-- Whether the tokens on the stack keep to their lines, with the token that the reader remembers as
the last, or a semicolon if a token waits. -/
structure InLine (reader : Reader) : Prop where
  chain : reader.stack.tokens.IsChain Token.KeepsLine
  recent : reader.held = none → reader.stack.tokens.getLast? = reader.recent
  held : reader.held ≠ none → ∀ last ∈ reader.stack.tokens.getLast?, last.kind = .semicolon

variable {source : List Char} {reader supplier next : Reader} {token : Token}

theorem InLine.supply (inLine : reader.InLine) (supplied : reader.supply = .token token supplier) :
    (∀ last ∈ reader.stack.tokens.getLast?, last.KeepsLine token) ∧
      (supplier.held = none → supplier.recent = some token) ∧
      (supplier.held ≠ none → token.kind = .semicolon) := by
  have supplies := reader.supplies_supply
  rw [supplied] at supplies
  cases supplies with
  | held waiting =>
    refine ⟨fun last isLast notSemicolon => ?_, fun _ => rfl, fun waits => absurd rfl waits⟩
    exact absurd (inLine.held (by simp [waiting]) last isLast) notSemicolon
  | @read read _ behind free found isReadAs unbroken =>
    refine ⟨fun last isLast _ _ breaks => ?_, fun _ => rfl, fun waits => absurd free waits⟩
    rw [inLine.recent free] at isLast
    rw [Bool.eq_false_iff, Token.startsLineAfter, isReadAs.extent_eq]
    intro starts
    obtain ⟨unrestricted, notUpdate⟩ := unbroken last isLast starts
    rcases breaks with restricted | isUpdate
    · cases unrestricted.symm.trans restricted
    · exact notUpdate isUpdate
  | ended =>
    exact ⟨fun last _ _ notSemicolon => absurd rfl notSemicolon, by simp, fun _ => rfl⟩

theorem Halts.inLine {halted : Reader} {semicolonFits : Bool}
    (halts : reader.Halts token halted semicolonFits) (inLine : reader.InLine) :
    halted.stack.tokens = reader.stack.tokens ∧
      (halted.held ≠ none → token.kind = .semicolon) := by
  have stackEq := stack_supply reader
  cases halts with
  | refused supplied fed =>
    rw [supplied] at stackEq
    exact ⟨(Stack.tokens_of_refused fed).trans (congrArg Stack.tokens stackEq),
      (inLine.supply supplied).2.2⟩
  | foreign supplied =>
    have supplies := reader.supplies_supply
    rw [supplied] at supplies
    cases supplies with
    | foreign free => exact ⟨rfl, fun waits => absurd free waits⟩

theorem Moves.inLine (moves : reader.Moves source false (.go next)) (inLine : reader.InLine) :
    next.InLine := by
  have stackEq := stack_supply reader
  cases moves with
  | @shifted token supplier stack supplied fed =>
    obtain ⟨line, recent, held⟩ := inLine.supply supplied
    rw [supplied] at stackEq
    change supplier.stack = reader.stack at stackEq
    have tokensEq := Stack.tokens_of_shifted fed
    rw [stackEq] at tokensEq
    refine ⟨?_, fun free => ?_, fun waits last isLast => ?_⟩
    · rw [tokensEq]
      exact Token.isChain_append inLine.chain line
    · rw [tokensEq, getLast?_concat]
      exact (recent free).symm
    · rw [tokensEq, getLast?_concat] at isLast
      cases isLast
      exact held waits
  | @inserted token halted between stack halts _ fed again =>
    have tokensEq := Stack.tokens_of_shifted again
    rw [Stack.tokens_of_shifted fed] at tokensEq
    obtain ⟨same, held⟩ := halts.inLine inLine
    rw [same] at tokensEq
    have semicolon : (reader.stack.tokens ++ [halted.semicolonBefore token]).IsChain Token.KeepsLine :=
      Token.isChain_append inLine.chain fun _ _ _ notSemicolon => absurd rfl notSemicolon
    refine ⟨?_, fun _ => ?_, fun waits last isLast => ?_⟩
    · rw [tokensEq]
      refine Token.isChain_append semicolon fun last isLast notSemicolon => ?_
      rw [getLast?_concat] at isLast
      cases isLast
      exact absurd rfl notSemicolon
    · rw [tokensEq, getLast?_concat]
    · rw [tokensEq, getLast?_concat] at isLast
      cases isLast
      exact held waits
  | dropped isTolerant | insertedDropped isTolerant | skipped isTolerant => cases isTolerant

theorem Concludes.isChain {program : Derivation} (concludes : reader.Concludes program)
    (chain : reader.stack.tokens.IsChain Token.KeepsLine) :
    program.tokens.IsChain Token.KeepsLine := by
  cases concludes with
  | complete fed =>
    rw [Stack.tokens_of_accepted fed]
    exact chain
  | inserted refused _ fed again =>
    rw [Stack.tokens_of_accepted again, Stack.tokens_of_shifted fed,
      Stack.tokens_of_refused refused]
    exact Token.isChain_append chain fun _ _ _ notSemicolon => absurd rfl notSemicolon

end Reader

theorem Derivation.isChain_read {source : String} {derivation : Derivation}
    (read : (Derivation.read source false).result = .ok derivation) :
    derivation.tokens.IsChain Token.KeepsLine := by
  refine Reader.run_induction Reader.InLine
    (fun outcome => ∀ program, outcome.result = .ok program →
      program.tokens.IsChain Token.KeepsLine) ?_ ?_ ?_ derivation read
  · intro reader next inLine stepped
    exact (Reader.Moves.of_step stepped).inLine inLine
  · intro reader outcome inLine stepped program ok
    obtain ⟨supplier, supplied, concludes, _⟩ := (Reader.Moves.of_step stepped).concludes_of_ok ok
    have stackEq := Reader.stack_supply reader
    have same : reader.supply.reader = supplier := by
      rcases supplied with supplied | supplied <;> rw [supplied] <;> rfl
    rw [same] at stackEq
    exact concludes.isChain (stackEq ▸ inLine.chain)
  · exact ⟨.nil, fun _ => rfl, fun waits => absurd rfl waits⟩

theorem Reader.newlineBetween_eq_false {source : List Char} {first last : Position}
    (firstIn : first.IsIn source) (lastIn : last.IsIn source) (le : first.offset ≤ last.offset)
    (inLine : ¬ first.line < last.line) : newlineBetween source first last = false := by
  obtain ⟨before, ⟨_, rfl⟩, rfl⟩ := firstIn
  obtain ⟨further, isPrefix, rfl⟩ := lastIn
  rw [Position.offset_after, Position.offset_after, Int.ofNat_le] at le
  obtain ⟨inner, rfl⟩ := prefix_of_prefix_length_le ( prefix_append _ _) isPrefix le
  obtain ⟨behind, sourceEq⟩ := isPrefix
  have none : '\n' ∉ inner := by
    simp only [Position.after_eq_count, count_append] at inLine
    rw [← count_eq_zero]
    omega
  have length : (((before ++ inner).length : Int) - before.length).toNat = inner.length := by
    rw [length_append]
    omega
  rw [newlineBetween, ← sourceEq, Position.offset_after, Position.offset_after, length]
  simpa using none

/-- Whether a phrase may stand before a postfix operator, or at the end of such a phrase. -/
def Nonterminal.isOperand : Nonterminal → Bool
  | .leftHandSide _ | .creation _ | .member _ | .application _ | .primary _ | .arguments | .literal
  | .arrayLiteral | .objectLiteral | .functionExpression | .block => true
  | _ => false

/-- Whether an operand does not end with a semicolon, and a postfix operator stands behind one. -/
def Production.endsOperand (production : Production) : Bool :=
  (!production.head.isOperand ||
    match production.body.getLast? with
    | some (.terminal kind) => kind ≠ .semicolon
    | some (.nonterminal phrase) => phrase.isOperand
    | none => false) &&
  (production.form ≠ .postfixUpdate ||
    match production.body with
    | [.nonterminal operand, .terminal kind] => operand.isOperand && kind = .updateOp
    | _ => false)

theorem Grammar.endsOperand_of_mem_rules :
    ∀ production ∈ rules, production.endsOperand = true := by
  decide +kernel

namespace Derivation

/-- Whether a phrase is a part of another, or of a part of it. -/
inductive Within (inner : Derivation) : Derivation → Prop
  | refl : Within inner inner
  | part {production : Production} {parts : List Derivation} {part : Derivation} :
      part ∈ parts → Within inner part → Within inner (branch production parts)

theorem Within.isInfix {inner derivation : Derivation} (within : inner.Within derivation)
    (sound : derivation.Sound) : inner.Sound ∧ inner.tokens <:+: derivation.tokens := by
  induction within with
  | refl => exact ⟨sound, infix_rfl⟩
  | part member _ ih =>
    obtain ⟨innerSound, isInfix⟩ := ih (allSound_iff.1 sound.2.2 _ member)
    refine ⟨innerSound, isInfix.trans ?_⟩
    obtain ⟨before, after, rfl⟩ := append_of_mem member
    exact ⟨tokensAll before, tokensAll after, by simp [tokens, tokensAll_eq]⟩

theorem Sound.exists_last {derivation : Derivation} (sound : derivation.Sound)
    {phrase : Nonterminal} (symbolEq : derivation.symbol = .nonterminal phrase)
    (isOperand : phrase.isOperand = true) :
    ∃ front last, derivation.tokens = front ++ [last] ∧ last.kind ≠ .semicolon := by
  induction derivation using ofParts generalizing phrase with
  | leaf token => cases symbolEq
  | branch production parts ih =>
    obtain ⟨rule, symbols, allSound⟩ := sound
    cases symbolEq
    have ends := (Bool.and_eq_true_iff.1 (Grammar.endsOperand_of_mem_rules production rule)).1
    rw [isOperand, Bool.not_true, Bool.false_or, ← symbols, getLast?_map] at ends
    cases finalEq : parts.getLast? with
    | none =>
      rw [finalEq] at ends
      cases ends
    | some final =>
      have member := mem_of_getLast? finalEq
      obtain ⟨init, partsEq⟩ := getLast?_eq_some_iff.1 finalEq
      have tokensEq : (branch production parts).tokens = tokensAll init ++ final.tokens := by
        simp [tokens, tokensAll_eq, partsEq]
      rw [finalEq, Option.map_some] at ends
      rw [tokensEq]
      cases finalSymbol : final.symbol with
      | terminal kind =>
        obtain ⟨token, rfl, rfl⟩ := eq_leaf_of_symbol finalSymbol
        exact ⟨_, token, rfl, of_decide_eq_true ends⟩
      | nonterminal inner =>
        rw [finalSymbol] at ends
        obtain ⟨front, last, innerEq, notSemicolon⟩ :=
          ih final member (allSound_iff.1 allSound final member) finalSymbol ends
        exact ⟨tokensAll init ++ front, last, by rw [innerEq, append_assoc], notSemicolon⟩

end Derivation

namespace SourceFile

variable {file : SourceFile} {program : Node}

/-- In what a strict reader accepts, no newline stands behind `return`, `throw`, `break` or `continue`
before a token that goes on with the statement, nor between an operand and a postfix operator. -/
theorem inLine_of_parse (parsed : (file.parse false).result = .ok program) :
    ∃ derivation, (Derivation.read file.text false).result = .ok derivation ∧
      (∀ left right, [left, right] <:+: derivation.tokens → left.kind.isRestricted = true →
        right.kind ≠ .semicolon →
          Reader.newlineBetween file.text.toList left.extent.last right.extent.first = false) ∧
      ∀ production parts, (Derivation.branch production parts).Within derivation →
        production.form = .postfixUpdate →
          ∃ operand sign front last, parts = [operand, .leaf sign] ∧ sign.kind = .updateOp ∧
            operand.tokens = front ++ [last] ∧
            Reader.newlineBetween file.text.toList last.extent.last sign.extent.first = false := by
  obtain ⟨derivation, _, read, _⟩ := exists_grown parsed
  obtain ⟨_, account⟩ := Derivation.accounts_read file.text false derivation read
  have inLine {left right : Token} (follows : [left, right] <:+: derivation.tokens)
      (leftPlain : left.kind ≠ .semicolon) (rightPlain : right.kind ≠ .semicolon)
      (breaks : left.kind.isRestricted = true ∨ right.kind = .updateOp) :
      Reader.newlineBetween file.text.toList left.extent.last right.extent.first = false := by
    have leftOf := account.isOf left (follows.subset (by simp))
    have rightOf := account.isOf right (follows.subset (by simp))
    have rightRead : right.isInserted = false := by
      cases rightOf with
      | read piece => exact piece.not_isInserted
      | inserted => exact absurd rfl rightPlain
    refine Reader.newlineBetween_eq_false leftOf.isIn.2 rightOf.isIn.1 ?_ ?_
    · exact pairwise_pair.1 (account.behind.sublist follows.sublist) rightRead
    · obtain ⟨before, after, tokensEq⟩ := follows
      have chain := tokensEq ▸ Derivation.isChain_read read
      have keeps := isChain_pair.1 chain.left_of_append.right_of_append
      exact of_decide_eq_false (keeps leftPlain rightPlain breaks)
  refine ⟨derivation, read, fun left right follows restricted notSemicolon => ?_, ?_⟩
  · exact inLine follows (fun isSemicolon => by simp [isSemicolon, Terminal.isRestricted] at restricted)
      notSemicolon (.inl restricted)
  · intro production parts within isPostfix
    obtain ⟨⟨rule, symbols, allSound⟩, isInfix⟩ :=
      within.isInfix (Derivation.sound_read file.text false derivation read).1
    have ends := (Bool.and_eq_true_iff.1 (Grammar.endsOperand_of_mem_rules production rule)).2
    rw [isPostfix] at ends
    simp only [ne_eq, not_true_eq_false, decide_false, Bool.false_or] at ends
    split at ends
    · rename_i phrase kind bodyEq
      obtain ⟨isOperand, isUpdate⟩ := Bool.and_eq_true_iff.1 ends
      obtain rfl := of_decide_eq_true isUpdate
      rw [bodyEq] at symbols
      obtain ⟨operand, rest, rfl, operandEq, restEq⟩ := map_eq_cons_iff.1 symbols
      obtain ⟨sign, rfl, signKind⟩ := Derivation.eq_leaf_of_symbols restEq
      obtain ⟨front, last, tokensEq, notSemicolon⟩ := allSound.1.exists_last operandEq isOperand
      have follows : [last, sign] <:+: derivation.tokens := by
        refine IsInfix.trans ⟨front, [], ?_⟩ isInfix
        simp [Derivation.tokens, Derivation.tokensAll, tokensEq]
      exact ⟨operand, sign, front, last, rfl, signKind, tokensEq,
        inLine follows notSemicolon (by simp [signKind]) (.inr signKind)⟩
    · cases ends

theorem inLine_of_parse_throw :
    ∃ program derivation left right,
      ((⟨"", "throw a++"⟩ : SourceFile).parse false).result = .ok program ∧
      (Derivation.read "throw a++" false).result = .ok derivation ∧
      [left, right] <:+: derivation.tokens ∧ left.kind = .throwWord ∧ right.kind = .identifier ∧
      Reader.newlineBetween "throw a++".toList left.extent.last right.extent.first = false := by
  have checked : (Derivation.read (SourceFile.text ⟨"", "throw a++"⟩) false).result.toOption.any
      (fun derivation => derivation.tokens.map Token.kind =
        [.throwWord, .identifier, .updateOp, .semicolon] ∧
          (derivation.toNode "").toOption.isSome) = true := by
    decide +kernel
  obtain ⟨program, derivation, parsed, read, kinds⟩ := exists_of_read checked
  obtain ⟨other, otherRead, inLine, _⟩ := inLine_of_parse parsed
  obtain rfl := Except.ok.inj (read.symm.trans otherRead)
  obtain ⟨left, rest, tokensEq, isThrow, restEq⟩ := map_eq_cons_iff.1 kinds
  obtain ⟨right, others, rfl, isName, _⟩ := map_eq_cons_iff.1 restEq
  have follows : [left, right] <:+: derivation.tokens := ⟨[], others, tokensEq.symm⟩
  exact ⟨program, derivation, left, right, parsed, read, follows, isThrow, isName,
    inLine left right follows (by rw [isThrow]; rfl) (by simp [isName])⟩

end SourceFile

end Namesake
