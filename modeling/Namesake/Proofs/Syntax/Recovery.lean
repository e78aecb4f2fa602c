import Mathlib
import Namesake.Proofs.Syntax.Evaluation
import Namesake.Proofs.Syntax.Moves

/-!
A token causes only so many reductions, since a phrase weighs less than what it is made of, and
an interruption takes a character, a token or a semicolon away for good, or is at the end.
-/

namespace Namesake

open List

/-- The reductions that a phrase can still take part in, before a longer body swallows it. -/
def Nonterminal.weight : Nonterminal → Nat
  | program | forInit | forTest | forUpdate | arrayItem => 0
  | statements | expression _ => 1
  | statement | assignment _ => 2
  | declarator | caseClause | logicalOr _ => 4
  | logicalAnd _ => 5
  | bitOr _ => 6
  | bitXor _ => 7
  | bitAnd _ => 8
  | equality _ => 9
  | relational _ => 10
  | shift _ => 11
  | additive _ => 12
  | multiplicative _ => 13
  | unary _ => 14
  | postfixed _ => 15
  | leftHandSide _ => 16
  | creation _ | application _ => 17
  | member _ => 18
  | primary _ | functionExpression => 19
  | literal | arrayLiteral | objectLiteral => 20
  | _ => 3

def Symbol.weight : Symbol → Nat
  | terminal _ => 31
  | nonterminal phrase => phrase.weight

theorem Symbol.weight_le (symbol : Symbol) : symbol.weight ≤ 31 := by
  cases symbol with
  | terminal => exact Nat.le_refl _
  | nonterminal phrase =>
    unfold weight Nonterminal.weight
    dsimp only
    split <;> decide

theorem Grammar.weight_of_mem {production : Production} (member : production ∈ rules) :
    if production.body = [] then production.head.weight = 0
    else production.head.weight < (production.body.map Symbol.weight).sum := by
  revert production
  decide +kernel

/-- Whether a state is entered behind a phrase only if the phrases that it reduces are made of
something. -/
def Automaton.State.isSettled (state : State) : Bool :=
  match state.symbol with
  | .terminal _ => true
  | .nonterminal _ => state.reductions.all fun reduction =>
    (Grammar.rules[reduction.1]?.map fun production => !production.body.isEmpty).getD true

theorem Automaton.isSettled_of_mem : ∀ state ∈ states, state.isSettled = true := by
  decide +kernel

-- The tables of the automaton are closed terms; nothing below may evaluate them.
attribute [local irreducible] Automaton.states Automaton.rows

theorem Automaton.body_of_entered {source state : Nat} {phrase : Nonterminal} {kind : Terminal}
    {production : Production} (entered : (row source).enter? (.nonterminal phrase) = some state)
    (action : (row state).action? kind = some (.reduce production)) : production.body ≠ [] := by
  rw [enter?_row] at entered
  rw [action?_row] at action
  unfold enter? at entered
  unfold action? at action
  split at entered
  · obtain ⟨target, found, rfl⟩ := Option.map_eq_some_iff.1 entered
    obtain ⟨⟨entry, index⟩, listed, targetEq⟩ := mem_filterMap.1 (mem_of_find?_eq_some found)
    dsimp only at targetEq
    split at targetEq
    · rename_i symbolEq
      cases targetEq
      have entryAt : states[index]? = some entry := mem_zipIdx_iff_getElem?.1 listed
      have settled := isSettled_of_mem entry (mem_of_getElem? entryAt)
      rw [State.isSettled, symbolEq, all_eq_true] at settled
      split at action
      · cases action
      · rw [entryAt, Option.bind_some] at action
        obtain ⟨reduction, member, reductionEq⟩ := exists_of_findSome?_eq_some action
        rw [reduction?] at reductionEq
        split at reductionEq
        · obtain ⟨_, rule, reduceEq⟩ := Option.map_eq_some_iff.1 reductionEq
          cases reduceEq
          have full := settled reduction member
          rw [rule] at full
          simpa using full
        · cases reductionEq
    · cases targetEq
  · cases entered

namespace Stack

def weight (stack : Stack) : Nat :=
  (stack.map fun frame => frame.tree.symbol.weight).sum

/-- Whether the next reduction at a kind of token makes a phrase of nothing. -/
def isHollow (stack : Stack) (kind : Terminal) : Bool :=
  match stack.row.action? kind with
  | some (.reduce production) => production.body.isEmpty
  | _ => false

def potential (stack : Stack) (kind : Terminal) : Nat :=
  stack.weight + (stack.isHollow kind).toNat

theorem weight_le (stack : Stack) : stack.weight ≤ 31 * stack.length := by
  induction stack with
  | nil => exact Nat.le_refl _
  | cons frame stack ih =>
    have bound := frame.tree.symbol.weight_le
    simp only [weight, map_cons, sum_cons, length_cons] at ih ⊢
    omega

theorem weight_latest (stack : Stack) (count : Nat) :
    stack.weight = (((stack.latest count).map Derivation.symbol).map Symbol.weight).sum +
      Stack.weight (stack.drop count) := by
  have parts : stack.weight = Stack.weight (stack.take count) + Stack.weight (stack.drop count) := by
    rw [weight, weight, weight, ← sum_append, ← map_append, take_append_drop]
  rw [parts, latest, map_map, map_map, map_reverse, sum_reverse]
  rfl

theorem potential_reduce {stack reduced : Stack} {production : Production} {kind : Terminal}
    (action : stack.row.action? kind = some (.reduce production))
    (reducedEq : stack.reduce? production = some reduced) :
    reduced.potential kind < stack.potential kind := by
  obtain ⟨symbols, state, entered, rfl⟩ := of_reduce? reducedEq
  have weights := Grammar.weight_of_mem (Automaton.mem_rules_of_action? action)
  have parts := weight_latest stack production.body.length
  rw [symbols] at parts
  have full : isHollow (⟨state, .branch production (stack.latest production.body.length)⟩ ::
      stack.drop production.body.length) kind = false := by
    unfold isHollow
    split
    · rename_i next nextAction
      exact isEmpty_eq_false_iff.2 (Automaton.body_of_entered entered nextAction)
    · rfl
  have cons : weight (⟨state, .branch production (stack.latest production.body.length)⟩ ::
      stack.drop production.body.length) =
      production.head.weight + weight (stack.drop production.body.length) := rfl
  have hollow : stack.isHollow kind = production.body.isEmpty := by rw [isHollow, action]
  rw [potential, potential, full, cons, hollow]
  split at weights
  · rename_i empty
    rw [empty] at parts ⊢
    simp only [map_nil, sum_nil, isEmpty_nil, Bool.toNat_true, Bool.toNat_false] at parts ⊢
    omega
  · rename_i notEmpty
    rw [isEmpty_eq_false_iff.2 notEmpty, Bool.toNat_false]
    omega

theorem feedWithin_add (token : Token) (bound more : Nat) (stack : Stack)
    (enough : stack.potential token.kind < bound) :
    feedWithin token (bound + more) stack = feedWithin token bound stack := by
  induction bound generalizing stack with
  | zero => cases enough
  | succ bound ih =>
    have further : bound + 1 + more = bound + more + 1 := by omega
    rw [further, feedWithin_succ, feedWithin_succ]
    cases action : stack.row.action? token.kind with
    | none => rfl
    | some found =>
      cases found with
      | shift state => rfl
      | reduce production =>
        dsimp only
        cases reducedEq : stack.reduce? production with
        | none => rfl
        | some reduced =>
          have less := potential_reduce action reducedEq
          dsimp only
          rw [ih reduced (by omega)]

/-- The bound on the reductions that a token may cause is never reached: a larger one changes
nothing. -/
theorem feed_of_bound (stack : Stack) (token : Token) (more : Nat) :
    feedWithin token (32 * (stack.length + 2) + more) stack = stack.feed token := by
  refine feedWithin_add token _ more stack ?_
  have heavy := stack.weight_le
  have one := (stack.isHollow token.kind).toNat_le
  rw [potential]
  omega

end Stack

inductive Interruption where
  | character
  | token
  | semicolon
  | ending
deriving DecidableEq

namespace Reader

attribute [local irreducible] Stack.feed

def atEnd? (reader : Reader) : Option Interruption :=
  match reader.stack.feed (Token.endAfter reader.latest) with
  | .refused _ => some .ending
  | _ => none

/-- What interrupts the next step, if anything does. -/
def interruption? (reader : Reader) : Option Interruption :=
  match reader.supply with
  | .token token supplier =>
    match supplier.stack.feed token with
    | .refused _ => some (if supplier.held.isSome then .semicolon else .token)
    | _ => none
  | .foreign _ _ => some .token
  | .stuck supplier => if supplier.cursor.rest = [] then supplier.atEnd? else some .character
  | .finished supplier => supplier.atEnd?

def interruptions (source : List Char) (tolerant : Bool) (reader : Reader) : List Interruption :=
  reader.interruption?.toList ++ match _stepped : reader.step source tolerant with
    | .done _ => []
    | .go next => next.interruptions source tolerant
termination_by reader.remaining
decreasing_by exact remaining_step _stepped

def unread (reader : Reader) : Nat :=
  reader.cursor.rest.length

/-- The characters that are left, and the waiting token. -/
def untaken (reader : Reader) : Nat :=
  reader.unread + reader.held.isSome.toNat

namespace Step

@[simp] def unread : Step → Nat
  | go reader => reader.unread
  | done _ => 0

@[simp] def untaken : Step → Nat
  | go reader => reader.untaken
  | done _ => 0

@[simp] def inserted : Step → Nat
  | go reader => reader.inserted
  | done outcome => outcome.inserted

@[simp] def dropped : Step → Nat
  | go reader => reader.dropped
  | done outcome => outcome.dropped

@[simp] def goes : Step → Nat
  | go _ => 1
  | done _ => 0

end Step

/-- What some interruptions on the way from a reader to a step come to: what they take away is
gone, the end of the text is the last, and each but the last is answered. -/
structure Bounds (reader : Reader) (calls : List Interruption) (step : Step) : Prop where
  untaken : calls.count .character + calls.count .token + step.untaken ≤ reader.untaken
  unread : calls.count .semicolon + step.unread ≤ reader.unread
  ending : calls.count .ending + step.goes ≤ 1
  inserted : reader.inserted ≤ step.inserted ∧ step.inserted ≤ reader.inserted + calls.length
  dropped : reader.dropped ≤ step.dropped ∧ step.dropped ≤ reader.dropped + calls.length
  answered : reader.inserted + reader.dropped + calls.length + step.goes ≤
    step.inserted + step.dropped + 1

variable {source : List Char} {tolerant : Bool} {reader supplier : Reader} {token : Token}

theorem Bounds.trans {next : Reader} {outcome : Outcome} {calls later : List Interruption}
    (first : reader.Bounds calls (.go next)) (second : next.Bounds later (.done outcome)) :
    reader.Bounds (calls ++ later) (.done outcome) := by
  obtain ⟨untaken, unread, ending, inserted, dropped, answered⟩ := first
  obtain ⟨untaken', unread', ending', inserted', dropped', answered'⟩ := second
  simp only [Step.untaken, Step.unread, Step.goes, Step.inserted, Step.dropped] at *
  constructor <;> simp only [count_append, length_append, Step.untaken, Step.unread,
    Step.goes, Step.inserted, Step.dropped] <;> omega

/-- A token that may not follow is dealt with in one way or another, and nothing more is read. -/
theorem recover_spec {semicolonFits : Bool} {step : Step}
    (recovered : reader.recover source tolerant token semicolonFits = step) :
    step.untaken ≤ reader.untaken ∧ step.unread ≤ reader.unread ∧
      (reader.inserted ≤ step.inserted ∧ step.inserted ≤ reader.inserted + 1) ∧
      (reader.dropped ≤ step.dropped ∧ step.dropped ≤ reader.dropped + 1) ∧
      reader.inserted + reader.dropped + step.goes ≤ step.inserted + step.dropped := by
  unfold recover at recovered
  dsimp only at recovered
  split at recovered
  · split at recovered
    · split at recovered
      · subst recovered
        simp [resume, Reader.untaken, Reader.unread]
      · split at recovered
        · subst recovered
          simp [drop, resume, Reader.untaken, Reader.unread]
          omega
        · subst recovered
          simp [fail, finish]
      · subst recovered
        simp [fail, finish]
    · subst recovered
      simp [fail, finish]
  · split at recovered
    · subst recovered
      simp [drop, resume, Reader.untaken, Reader.unread]
    · subst recovered
      simp [fail, finish]

theorem Bounds.of_recover {halted : Reader} {call : Interruption} {semicolonFits : Bool}
    (inserted : halted.inserted = reader.inserted) (dropped : halted.dropped = reader.dropped)
    (untaken : [call].count .character + [call].count .token + halted.untaken ≤ reader.untaken)
    (unread : [call].count .semicolon + halted.unread ≤ reader.unread)
    (inside : [call].count .ending = 0) :
    reader.Bounds [call] (halted.recover source tolerant token semicolonFits) := by
  generalize recovered : halted.recover source tolerant token semicolonFits = step
  obtain ⟨untaken', unread', inserted', dropped', answered⟩ := recover_spec recovered
  have single : step.goes ≤ 1 := by cases step <;> simp
  constructor <;> (try simp only [length_singleton]) <;> omega

theorem untaken_supply_token (supplied : reader.supply = .token token supplier) :
    supplier.unread ≤ reader.unread ∧ supplier.untaken ≤ reader.untaken ∧
      (supplier.held.isSome = false → supplier.untaken < reader.untaken) ∧
      (supplier.held.isSome = true → supplier.unread < reader.unread) ∧
      supplier.inserted = reader.inserted ∧ supplier.dropped = reader.dropped := by
  have supplies := reader.supplies_supply
  rw [supplied] at supplies
  cases supplies with
  | held waiting => simp [unread, untaken, waiting]
  | read free found | ended free found =>
    have shorter := Vocabulary.length_of_next_token found
    simp [unread, untaken, free]
    omega

theorem bounds_conclude (reader : Reader) :
    reader.Bounds reader.atEnd?.toList (.done reader.conclude) := by
  unfold conclude atEnd?
  dsimp only
  generalize reader.stack.feed (Token.endAfter reader.latest) = fed
  rcases fed with stack | program | stack
  · constructor <;> simp [finish]
  · constructor <;> simp [finish]
  · dsimp only
    split
    · split
      · split
        · constructor <;> simp [finish]
        · constructor <;> simp [finish]
      · constructor <;> simp [finish]
    · constructor <;> simp [finish]

theorem Bounds.of_conclude {calls : List Interruption} {step : Step}
    (bounds : supplier.Bounds calls step) (inserted : supplier.inserted = reader.inserted)
    (dropped : supplier.dropped = reader.dropped) (unread : supplier.unread ≤ reader.unread)
    (held : supplier.held = reader.held) : reader.Bounds calls step := by
  obtain ⟨untaken', unread', ending, inserted', dropped', answered⟩ := bounds
  rw [inserted] at inserted' answered
  rw [dropped] at dropped' answered
  refine ⟨?_, Nat.le_trans unread' unread, ending, inserted', dropped', answered⟩
  rw [Reader.untaken, held] at untaken'
  rw [Reader.untaken]
  omega

theorem bounds_step (source : List Char) (tolerant : Bool) (reader : Reader) :
    reader.Bounds reader.interruption?.toList (reader.step source tolerant) := by
  have supplies := reader.supplies_supply
  unfold step interruption?
  cases supplied : reader.supply with
  | token token supplier =>
    obtain ⟨unread, untaken, own, behind, inserted, dropped⟩ := untaken_supply_token supplied
    dsimp only
    cases fed : supplier.stack.feed token with
    | shifted stack =>
      refine ⟨?_, ?_, ?_, ?_, ?_, ?_⟩ <;>
        simp_all [Reader.untaken, Reader.unread]
    | accepted program =>
      refine ⟨?_, ?_, ?_, ?_, ?_, ?_⟩ <;> simp_all [fail, finish]
    | refused stack =>
      dsimp only
      cases waiting : supplier.held.isSome with
      | true =>
        rw [if_pos rfl]
        refine .of_recover inserted dropped ?_ ?_ rfl
        · simpa [Reader.untaken, Reader.unread] using untaken
        · have less := behind waiting
          simp [Reader.unread] at less ⊢
          omega
      | false =>
        rw [if_neg Bool.false_ne_true]
        refine .of_recover inserted dropped ?_ ?_ rfl
        · have less := own waiting
          simp [Reader.untaken, Reader.unread] at less ⊢
          omega
        · simpa [Reader.unread] using unread
  | foreign token supplier =>
    rw [supplied] at supplies
    cases supplies with
    | foreign free stuck found =>
      have inside := Vocabulary.length_of_next_stuck stuck
      have shorter := Vocabulary.length_of_next_token found
      refine .of_recover rfl rfl ?_ ?_ rfl
      · simp [Reader.untaken, Reader.unread]
        omega
      · simp [Reader.unread]
        omega
  | stuck supplier =>
    rw [supplied] at supplies
    cases supplies with
    | @stuck place free stuck _ =>
      have inside := Vocabulary.length_of_next_stuck stuck
      dsimp only
      cases restEq : place.rest with
      | nil => exact (bounds_conclude _).of_conclude rfl rfl inside rfl
      | cons char rest =>
        have shorter : rest.length < reader.cursor.rest.length := by
          rw [restEq] at inside
          exact inside
        dsimp only
        rw [if_neg (cons_ne_nil char rest)]
        split
        · refine ⟨?_, ?_, ?_, ?_, ?_, ?_⟩ <;>
            simp [resume, Reader.untaken, Reader.unread, Cursor.rest_advance, restEq]
          all_goals omega
        · refine ⟨?_, ?_, ?_, ?_, ?_, ?_⟩ <;> simp [fail, finish, Reader.untaken, Reader.unread]
          all_goals omega
  | finished supplier =>
    rw [supplied] at supplies
    cases supplies with
    | @finished place free found =>
      refine (bounds_conclude _).of_conclude rfl rfl ?_ rfl
      rw [unread, (Vocabulary.eq_of_next_finished found).2]
      exact Nat.zero_le _

theorem interruptions_of_done {outcome : Outcome} (stepped : reader.step source tolerant = .done outcome) :
    reader.interruptions source tolerant = reader.interruption?.toList := by
  rw [interruptions]
  split
  · exact append_nil _
  · rename_i next other
    cases stepped.symm.trans other

theorem interruptions_of_go {next : Reader} (stepped : reader.step source tolerant = .go next) :
    reader.interruptions source tolerant =
      reader.interruption?.toList ++ next.interruptions source tolerant := by
  rw [interruptions]
  split
  · rename_i outcome other
    cases stepped.symm.trans other
  · rename_i next' other
    cases stepped.symm.trans other
    rfl

theorem bounds_run (source : List Char) (tolerant : Bool) (reader : Reader) :
    reader.Bounds (reader.interruptions source tolerant) (.done (reader.run source tolerant)) := by
  have first := bounds_step source tolerant reader
  fun_induction Reader.run source tolerant reader with
  | case1 reader outcome stepped =>
    rw [stepped] at first
    rw [interruptions_of_done stepped]
    exact first
  | case2 reader next stepped ih =>
    rw [stepped] at first
    rw [interruptions_of_go stepped]
    exact first.trans (ih (bounds_step source tolerant next))

theorem length_eq_counts (calls : List Interruption) : calls.length =
    calls.count .character + calls.count .token + calls.count .semicolon + calls.count .ending := by
  induction calls with
  | nil => rfl
  | cons call rest ih =>
    cases call <;> simp [ih] <;> omega

end Reader

namespace Derivation

def interruptions (source : String) (tolerant : Bool) : List Interruption :=
  (Reader.ofSource source).interruptions source.toList tolerant

/-- Reading any text ends: no token causes more reductions than it may, and reading is interrupted
at most twice for each character and once at the end.  Every interruption but the last is answered
by a semicolon or by leaving something out. -/
theorem interruptions_read (source : String) (tolerant : Bool) :
    ((interruptions source tolerant).count .character +
        (interruptions source tolerant).count .token ≤ source.length ∧
      (interruptions source tolerant).count .semicolon ≤ source.length ∧
      (interruptions source tolerant).count .ending ≤ 1 ∧
      (interruptions source tolerant).length ≤ 2 * source.length + 1) ∧
    ((read source tolerant).inserted ≤ (interruptions source tolerant).length ∧
      (read source tolerant).dropped ≤ (interruptions source tolerant).length ∧
      (interruptions source tolerant).length ≤
        (read source tolerant).inserted + (read source tolerant).dropped + 1) ∧
    ∀ (stack : Stack) (token : Token) (more : Nat),
      stack.feedWithin token (32 * (stack.length + 2) + more) = stack.feed token := by
  have bounds : (Reader.ofSource source).Bounds (interruptions source tolerant)
      (.done (read source tolerant)) :=
    Reader.bounds_run source.toList tolerant (Reader.ofSource source)
  obtain ⟨untaken, unread, ending, inserted, dropped, answered⟩ := bounds
  have total := Reader.length_eq_counts (interruptions source tolerant)
  have start : (Reader.ofSource source).unread = source.length := by
    rw [← String.length_toList]
    rfl
  have fresh : (Reader.ofSource source).untaken = source.length := by
    rw [Reader.untaken, start]
    rfl
  have none : (Reader.ofSource source).inserted = 0 ∧ (Reader.ofSource source).dropped = 0 :=
    ⟨rfl, rfl⟩
  rw [fresh] at untaken
  rw [start] at unread
  rw [none.1] at inserted answered
  rw [none.2] at dropped answered
  simp only [Reader.Step.untaken, Reader.Step.unread, Reader.Step.goes, Reader.Step.inserted,
    Reader.Step.dropped] at untaken unread ending inserted dropped answered
  refine ⟨⟨untaken, unread, ending, ?_⟩, ⟨?_, ?_, ?_⟩, Stack.feed_of_bound⟩ <;> omega

end Derivation

end Namesake
