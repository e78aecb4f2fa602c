import Namesake.Proofs.Syntax.Account
import Namesake.Proofs.Syntax.Evaluation

/-!
Each state of the automaton is entered by one symbol, and the stack enters a state with a
derivation of that symbol.
-/

namespace Namesake

open List

variable {state : Nat}

namespace Automaton

variable {kind : Terminal}

theorem symbol_of_enter? {next : Nat} {symbol : Symbol}
    (found : (row state).enter? symbol = some next) :
    ∃ entry, states[next]? = some entry ∧ entry.symbol = symbol ∧ state ∈ entry.sources := by
  rw [enter?_row] at found
  unfold enter? at found
  split at found
  · obtain ⟨⟨sources, target⟩, targetFound, rfl⟩ := Option.map_eq_some_iff.1 found
    have isSource := List.find?_some targetFound
    obtain ⟨⟨entry, index⟩, member, kept⟩ := mem_filterMap.1 (mem_of_find?_eq_some targetFound)
    dsimp only at kept
    split at kept
    · cases kept
      exact ⟨entry, mem_zipIdx_iff_getElem?.1 member, ‹_›, contains_iff_mem.1 isSource⟩
    · cases kept
  · cases found

theorem exists_entry_of_shift {next : Nat} (action : action? state kind = some (.shift next)) :
    ∃ entry, states[next]? = some entry ∧ entry.symbol = .terminal kind ∧
      state ∈ entry.sources := by
  rw [← action?_row] at action
  unfold Row.action? at action
  split at action
  · rename_i entered
    cases action
    exact symbol_of_enter? entered
  · obtain ⟨_, _, other⟩ := Option.map_eq_some_iff.1 action
    cases other

theorem exists_reduction {production : Production}
    (action : action? state kind = some (.reduce production)) :
    ∃ entry reduction, states[state]? = some entry ∧ reduction ∈ entry.reductions ∧
      kind ∈ reduction.2 ∧ Grammar.rules[reduction.1]? = some production := by
  unfold action? at action
  split at action
  · cases action
  · obtain ⟨entry, found, chosen⟩ := Option.bind_eq_some_iff.1 action
    obtain ⟨reduction, member, reduces⟩ := exists_of_findSome?_eq_some chosen
    unfold reduction? at reduces
    split at reduces
    · rename_i contained
      obtain ⟨_, rule, same⟩ := Option.map_eq_some_iff.1 reduces
      cases same
      exact ⟨entry, reduction, found, member, contains_iff_mem.1 contained, rule⟩
    · cases reduces

theorem isSome_action? {entry : State} {reduction : Nat × List Terminal} {production : Production}
    (found : states[state]? = some entry) (member : reduction ∈ entry.reductions)
    (contained : kind ∈ reduction.2) (rule : Grammar.rules[reduction.1]? = some production) :
    (action? state kind).isSome = true := by
  unfold action?
  split
  · rfl
  · rw [found, Option.bind_some, List.findSome?_isSome_iff]
    refine ⟨reduction, member, ?_⟩
    rw [reduction?, if_pos (contains_iff_mem.2 contained), rule]
    rfl

theorem of_states (check : State → Nat → Bool)
    (checked : (states.zipIdx.all fun entry => check entry.1 entry.2) = true) {entry : State}
    (found : states[state]? = some entry) : check entry state = true :=
  all_eq_true.1 checked (entry, state) (mem_zipIdx_iff_getElem?.2 found)

end Automaton

-- The table of the automaton is a closed term; nothing below may evaluate it.
attribute [local irreducible] Automaton.rows Automaton.states

def Frame.IsAligned (frame : Frame) : Prop :=
  ∃ entry, Automaton.states[frame.state]? = some entry ∧ entry.symbol = frame.tree.symbol

namespace Stack

variable {token : Token}

/-- Whether every state on the stack is entered by the symbol of its derivation. -/
def Aligned (stack : Stack) : Prop :=
  ∀ frame ∈ stack, frame.IsAligned

variable {stack : Stack}

theorem Aligned.cons (aligned : stack.Aligned) {frame : Frame} (own : frame.IsAligned) :
    Aligned (frame :: stack) := by
  intro other member
  rcases mem_cons.1 member with rfl | member
  · exact own
  · exact aligned other member

theorem Aligned.shift (aligned : stack.Aligned)
    (action : stack.row.action? token.kind = some (.shift state)) :
    Aligned (⟨state, .leaf token⟩ :: stack) := by
  rw [row, Automaton.action?_row] at action
  obtain ⟨entry, found, symbolEq, _⟩ := Automaton.exists_entry_of_shift action
  exact aligned.cons ⟨entry, found, symbolEq⟩

theorem Aligned.reduce {reduced : Stack} {production : Production} (aligned : stack.Aligned)
    (reducedEq : stack.reduce? production = some reduced) : reduced.Aligned := by
  obtain ⟨_, state, entered, rfl⟩ := of_reduce? reducedEq
  have below : Aligned (stack.drop production.body.length) :=
    fun frame member => aligned frame (mem_of_mem_drop member)
  obtain ⟨entry, found, symbolEq, _⟩ := Automaton.symbol_of_enter? entered
  exact below.cons ⟨entry, found, symbolEq⟩

theorem Aligned.reduces {kind : Terminal} {last : Stack} (aligned : stack.Aligned)
    (reduces : Reduces kind stack last) : last.Aligned := by
  induction reduces with
  | refl => exact aligned
  | step _ reducedEq _ ih => exact ih (aligned.reduce reducedEq)

theorem Aligned.of_shifted {shifted : Stack} (aligned : stack.Aligned)
    (fed : stack.feed token = .shifted shifted) : shifted.Aligned := by
  obtain ⟨last, state, reduces, action, rfl⟩ := reduces_of_shifted fed
  exact (aligned.reduces reduces).shift action

theorem Aligned.of_refused {refused : Stack} (aligned : stack.Aligned)
    (fed : stack.feed token = .refused refused) : refused.Aligned :=
  aligned.reduces (reduces_of_refused fed)

end Stack

namespace Reader

theorem stack_supply (reader : Reader) : reader.supply.reader.stack = reader.stack := by
  have supplies := reader.supplies_supply
  generalize reader.supply = supply at supplies ⊢
  cases supplies <;> rfl

variable {source : List Char} {tolerant : Bool} {reader next : Reader}
variable {semicolonFits : Bool} {halted : Reader} {token : Token}

theorem Halts.aligned (halts : reader.Halts token halted semicolonFits)
    (aligned : reader.stack.Aligned) :
    halted.stack.Aligned := by
  rw [← stack_supply reader] at aligned
  cases halts with
  | refused supplied fed =>
    rw [supplied] at aligned
    exact aligned.of_refused fed
  | foreign supplied =>
    rw [supplied] at aligned
    exact aligned

theorem Moves.aligned (moves : reader.Moves source tolerant (.go next))
    (aligned : reader.stack.Aligned) : next.stack.Aligned := by
  have supplier := aligned
  rw [← stack_supply reader] at supplier
  cases moves with
  | shifted supplied fed =>
    rw [supplied] at supplier
    exact supplier.of_shifted fed
  | inserted halts _ fed again => exact ((halts.aligned aligned).of_shifted fed).of_shifted again
  | dropped _ halts => exact halts.aligned aligned
  | insertedDropped _ halts _ fed again =>
    exact ((halts.aligned aligned).of_shifted fed).of_refused again
  | skipped _ supplied _ =>
    rw [supplied] at supplier
    exact supplier

/-- What every reader keeps that starts at the beginning of a text. -/
structure Regular (source : List Char) (reader : Reader) : Prop where
  accounts : ∃ seen, reader.Accounts source seen []
  sound : reader.Sound
  aligned : reader.stack.Aligned

theorem regular_ofSource (source : String) : (ofSource source).Regular source.toList := by
  refine ⟨⟨[], accounts_ofSource source⟩, sound_ofSource source, fun frame member => ?_⟩
  cases member

theorem Regular.step (regular : reader.Regular source)
    (stepped : reader.step source tolerant = .go next) : next.Regular source := by
  obtain ⟨seen, accounts⟩ := regular.accounts
  have moves := Moves.of_step stepped
  exact ⟨⟨_, moves.accounts accounts⟩, moves.sound regular.sound, moves.aligned regular.aligned⟩

theorem Regular.ending (regular : reader.Regular source) {supplier : Reader}
    (supplied : reader.supply = .stuck supplier ∨ reader.supply = .finished supplier) :
    supplier.Regular source := by
  obtain ⟨seen, accounts⟩ := regular.accounts
  have supplyAccounts := accounts.supply
  have aligned := regular.aligned
  rw [← stack_supply reader] at aligned
  have sound := regular.sound.ending supplied
  rcases supplied with supplied | supplied
  all_goals
    rw [supplied] at supplyAccounts aligned
    exact ⟨⟨_, supplyAccounts.1⟩, sound, aligned⟩

end Reader

end Namesake
