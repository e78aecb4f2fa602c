import Mathlib.Logic.Basic
import Namesake.Proofs.Syntax.Moves
import Namesake.SourceFile

/-!
A run of the reader on a given text asks each row and each vocabulary for one entry.  Here the
same entries are found without the rows, so that a run can be evaluated.
-/

namespace Namesake

open List

namespace Automaton

def targets (symbol : Symbol) : List (List Nat × Nat) :=
  states.zipIdx.filterMap fun entry =>
    if entry.1.symbol = symbol then some (entry.1.sources, entry.2) else none

@[irreducible] def enter? (state : Nat) (symbol : Symbol) : Option Nat :=
  if state < states.length then
    ((targets symbol).find? fun target => target.1.contains state).map Prod.snd
  else none

/-- The reduction at a kind of token by a production that is given by its number. -/
def reduction? (kind : Terminal) (reduction : Nat × List Terminal) : Option Action :=
  if reduction.2.contains kind then Grammar.rules[reduction.1]?.map .reduce else none

def action? (state : Nat) (kind : Terminal) : Option Action :=
  match enter? state (.terminal kind) with
  | some next => some (.shift next)
  | none => states[state]?.bind fun entry => entry.reductions.findSome? (reduction? kind)

theorem lookup_transitions (entries : List (State × Nat)) (source : Nat) (symbol : Symbol) :
    (entries.filterMap fun (state, index) =>
        if state.sources.contains source then some (state.symbol, index) else none).lookup symbol =
      ((entries.filterMap fun entry =>
        if entry.1.symbol = symbol then some (entry.1.sources, entry.2) else none).find?
          fun target => target.1.contains source).map Prod.snd := by
  induction entries with
  | nil => rfl
  | cons entry rest ih =>
    obtain ⟨state, index⟩ := entry
    rw [filterMap_cons, filterMap_cons]
    dsimp only
    by_cases isSource : state.sources.contains source = true
    · rw [if_pos isSource]
      by_cases same : state.symbol = symbol
      · rw [if_pos same]
        dsimp only
        rw [lookup_cons, same, beq_self_eq_true, List.find?_cons, isSource]
        rfl
      · have different : (symbol == state.symbol) = false := beq_eq_false_iff_ne.2 (Ne.symm same)
        rw [if_neg same]
        dsimp only
        rw [lookup_cons, different]
        exact ih
    · rw [if_neg isSource]
      by_cases same : state.symbol = symbol
      · rw [if_pos same]
        dsimp only
        rw [List.find?_cons, Bool.of_not_eq_true isSource]
        exact ih
      · rw [if_neg same]
        exact ih

theorem row_eq (state : Nat) : row state =
    (states[state]?.map fun entry => (⟨transitionsFrom state, reductionsOf entry⟩ : Row)).getD
      ⟨[], []⟩ := by
  rw [row, rows, Array.getD_eq_getD_getElem?, List.getElem?_toArray, List.getElem?_map,
    List.getElem?_zipIdx, Option.map_map]
  simp only [Nat.zero_add, Function.comp_def]

theorem enter?_row (state : Nat) (symbol : Symbol) :
    (row state).enter? symbol = enter? state symbol := by
  unfold enter? Row.enter?
  rw [row_eq]
  by_cases isState : state < states.length
  · rw [if_pos isState, List.getElem?_eq_getElem isState]
    exact lookup_transitions states.zipIdx state symbol
  · rw [if_neg isState, List.getElem?_eq_none (Nat.le_of_not_lt isState)]
    rfl

theorem find?_reductions (entries : List (Nat × List Terminal)) (kind : Terminal) :
    ((entries.filterMap fun (index, terminals) =>
        (Grammar.rules[index]?).map fun production => (production, terminals)).find?
          fun reduction => reduction.2.contains kind).map (fun reduction => .reduce reduction.1) =
      entries.findSome? (reduction? kind) := by
  induction entries with
  | nil => rfl
  | cons entry rest ih =>
    obtain ⟨index, terminals⟩ := entry
    rw [filterMap_cons, List.findSome?_cons, reduction?]
    dsimp only
    generalize Grammar.rules[index]? = rule
    cases rule with
    | none =>
      rw [Option.map_none, Option.map_none, ite_self]
      exact ih
    | some production =>
      rw [Option.map_some, Option.map_some]
      dsimp only
      rw [List.find?_cons]
      dsimp only
      cases terminals.contains kind with
      | true => rfl
      | false => exact ih

theorem action?_row (state : Nat) (kind : Terminal) :
    (row state).action? kind = action? state kind := by
  have reductions : (row state).reductions = (states[state]?.map reductionsOf).getD [] := by
    rw [row_eq]
    cases states[state]? with
    | none => rfl
    | some entry => rfl
  unfold Row.action? action?
  rw [enter?_row, reductions]
  cases enter? state (.terminal kind) with
  | some next => rfl
  | none =>
    cases states[state]? with
    | none => rfl
    | some entry => exact find?_reductions entry.reductions kind

end Automaton

namespace Stack

/-- A reduction, with the faster lookups in place of rows. -/
def lookupReduce : { reduce : Stack → Production → Option Stack // reduce = reduce? } := ⟨_, by
  funext stack production
  unfold reduce? Stack.row
  simp only [Automaton.enter?_row]
  exact rfl⟩

def lookupFeed (token : Token) :
    (bound : Nat) → { feed : Stack → Fed // feed = feedWithin token bound }
  | 0 => ⟨_, rfl⟩
  | bound + 1 => ⟨_, by
    funext stack
    rw [feedWithin_succ, Stack.row, Automaton.action?_row, ← lookupReduce.2,
      ← (lookupFeed token bound).2]⟩

theorem feed_eq (stack : Stack) (token : Token) :
    stack.feed token = (lookupFeed token (32 * (stack.length + 2))).1 stack := by
  rw [(lookupFeed token _).2, feed]

end Stack

theorem Automaton.accepts_row (state : Nat) (kind : Terminal) :
    (Automaton.row state).accepts kind = (Automaton.action? state kind).isSome := by
  rw [Row.accepts, action?_row]

namespace Vocabulary

def tries (state : Nat) (kind : Terminal) : Bool :=
  (Automaton.action? state kind).isSome &&
    !(kind.isKeyword && (Automaton.action? state .identifier).isSome)

def recognises (state : Nat) (kind : Terminal) : Bool :=
  kind.isKeyword && (Automaton.action? state kind).isSome &&
    (Automaton.action? state .identifier).isSome

/-- The part of the vocabulary of a state that a text may start with. -/
def near (state : Nat) (chars : List Char) : Vocabulary where
  tried := Terminal.all.filter fun kind => (kind.lexeme? chars).isSome && tries state kind
  keywords := Terminal.all.filter fun kind =>
    (kind.spellings.any fun word => word.toList.isPrefixOf chars) && recognises state kind

theorem ofTerminals_row (state : Nat) : ofTerminals (Automaton.row state).terminals =
    ⟨Terminal.all.filter (tries state), Terminal.all.filter (recognises state)⟩ := by
  have allowed (kind : Terminal) (member : kind ∈ Terminal.all) :
      (Automaton.row state).terminals.contains kind = (Automaton.action? state kind).isSome := by
    rw [Bool.eq_iff_iff, contains_iff_mem, Row.terminals, mem_filter, Automaton.accepts_row]
    exact and_iff_right member
  have ordered : Terminal.all.filter (Automaton.row state).terminals.contains =
      Terminal.all.filter fun kind => (Automaton.action? state kind).isSome :=
    filter_congr allowed
  unfold ofTerminals
  dsimp only
  rw [ordered, allowed .identifier (by decide)]
  cases names : (Automaton.action? state .identifier).isSome with
  | true =>
    rw [if_pos rfl, filter_filter, filter_filter]
    refine congrArg₂ Vocabulary.mk (filter_congr fun kind _ => ?_) (filter_congr fun kind _ => ?_)
    · rw [tries, names, Bool.and_true, Bool.and_comm]
    · rw [recognises, names, Bool.and_true]
  | false =>
    rw [if_neg Bool.false_ne_true]
    refine congrArg₂ Vocabulary.mk (filter_congr fun kind _ => ?_)
      (filter_eq_nil_iff.2 fun kind _ => ?_).symm
    · rw [tries, names, Bool.and_false, Bool.not_false, Bool.and_true]
    · rw [recognises, names, Bool.and_false]
      exact Bool.false_ne_true

theorem findSome?_filter_of_none {kinds : List Terminal} {keep : Terminal → Bool}
    {found : Terminal → Option (Terminal × Nat)}
    (none_of : ∀ kind, keep kind = false → found kind = none) :
    (kinds.filter keep).findSome? found = kinds.findSome? found := by
  induction kinds with
  | nil => rfl
  | cons kind rest ih =>
    cases kept : keep kind with
    | true => rw [filter_cons_of_pos kept, List.findSome?_cons, List.findSome?_cons, ih]
    | false =>
      rw [filter_cons_of_neg (Bool.eq_false_iff.1 kept), List.findSome?_cons, none_of kind kept]
      exact ih

theorem kindOfName_near (state : Nat) (chars : List Char) (length : Nat) :
    (near state chars).kindOfName (chars.take length) =
      (ofTerminals (Automaton.row state).terminals).kindOfName (chars.take length) := by
  rw [kindOfName, kindOfName, ofTerminals_row, near, List.find?_filter, List.find?_filter]
  refine congrArg (fun kind => Option.getD kind Terminal.identifier) (congrArg (List.find? · _) ?_)
  funext kind
  refine decide_eq_decide.2 (and_congr_left fun spelled => ?_)
  obtain ⟨word, member, same⟩ := any_eq_true.1 spelled
  have isPrefix : (kind.spellings.any fun word => word.toList.isPrefixOf chars) = true := by
    refine any_eq_true.2 ⟨word, member, isPrefixOf_iff_prefix.2 ?_⟩
    rw [of_decide_eq_true same]
    exact take_prefix length chars
  rw [isPrefix, Bool.true_and]

theorem read?_near (state : Nat) (chars : List Char) :
    (near state chars).read? chars = (ofTerminals (Automaton.row state).terminals).read? chars := by
  have tried : ((near state chars).tried.findSome? fun kind => (kind.lexeme? chars).map (kind, ·)) =
      (ofTerminals (Automaton.row state).terminals).tried.findSome? fun kind =>
        (kind.lexeme? chars).map (kind, ·) := by
    rw [ofTerminals_row, near, ← filter_filter]
    refine findSome?_filter_of_none fun kind unread => ?_
    rw [Option.isSome_eq_false_iff, Option.isNone_iff_eq_none] at unread
    rw [unread]
    rfl
  unfold read?
  rw [tried]
  simp only [kindOfName_near]

theorem next_near (state : Nat) (cursor : Cursor) :
    (ofTerminals (Automaton.row state).terminals).next cursor =
      (near state cursor.skipTrivia.rest).next cursor := by
  unfold next
  dsimp only
  rw [read?_near]

end Vocabulary

namespace Reader

/-- A step of the reader, with the faster lookups in place of rows. -/
def lookupStep : { step : List Char → Bool → Reader → Step // step = Reader.step } := ⟨_, by
  funext source tolerant reader
  unfold Reader.step Reader.recover Reader.conclude endsStatement Reader.supply Reader.vocabulary
    Stack.row
  simp only [Stack.feed_eq, Automaton.accepts_row, Vocabulary.next_near]
  exact rfl⟩

def runWithin (source : List Char) (tolerant : Bool) : Nat → Reader → Option Outcome
  | 0, _ => none
  | bound + 1, reader =>
    match lookupStep.1 source tolerant reader with
    | .done outcome => some outcome
    | .go next => runWithin source tolerant bound next

theorem runWithin_eq {source : List Char} {tolerant : Bool} {bound : Nat} {reader : Reader}
    (enough : reader.remaining < bound) :
    runWithin source tolerant bound reader = some (reader.run source tolerant) := by
  induction bound generalizing reader with
  | zero => omega
  | succ bound ih =>
    rw [runWithin, lookupStep.2]
    cases stepped : reader.step source tolerant with
    | done outcome => rw [run_of_done stepped]
    | go next =>
      have less := remaining_step stepped
      rw [run_of_go stepped]
      exact ih (by omega)

end Reader

namespace Derivation

def lookupRead (source : String) (tolerant : Bool) : Outcome :=
  (Reader.runWithin source.toList tolerant ((Reader.ofSource source).remaining + 1)
    (Reader.ofSource source)).get (by rw [Reader.runWithin_eq (Nat.lt_succ_self _)]; rfl)

theorem read_eq_lookup (source : String) (tolerant : Bool) :
    read source tolerant = lookupRead source tolerant :=
  (Option.get_of_eq_some _ (Reader.runWithin_eq (Nat.lt_succ_self _))).symm

instance (source : String) (tolerant : Bool) (check : Derivation → Bool) :
    Decidable ((read source tolerant).result.toOption.any check = true) :=
  decidable_of_iff ((lookupRead source tolerant).result.toOption.any check = true)
    (by rw [read_eq_lookup])

end Derivation

namespace SourceFile

/-- The syntax tree of a source file, read with the lookups. -/
def lookupParse (file : SourceFile) (tolerant : Bool) :
    { parsed : Parsed // file.parse tolerant = parsed } := ⟨_, by
  unfold parse
  rw [Derivation.read_eq_lookup]⟩

theorem parse_eq_lookup (file : SourceFile) (tolerant : Bool) :
    file.parse tolerant = (file.lookupParse tolerant).1 :=
  (file.lookupParse tolerant).2

instance (file : SourceFile) (tolerant : Bool) (check : Node → Bool) :
    Decidable ((file.parse tolerant).result.toOption.any check = true) :=
  decidable_of_iff ((file.lookupParse tolerant).1.result.toOption.any check = true)
    (by rw [← parse_eq_lookup])

end SourceFile

end Namesake
