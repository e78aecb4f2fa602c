import Namesake.Grammar.States

/-!
`Automaton.row` collects the transitions and reductions of one state: at a terminal that
leads on it is shifted, at a terminal of a reduction the production is reduced, and any other
terminal may not follow.
-/

namespace Namesake

inductive Action where
  | shift (state : Nat)
  | reduce (production : Production)
deriving DecidableEq, Inhabited

structure Row where
  transitions : List (Symbol × Nat)
  reductions : List (Production × List Terminal)
deriving Inhabited

namespace Row

def enter? (row : Row) (symbol : Symbol) : Option Nat :=
  row.transitions.lookup symbol

def action? (row : Row) (kind : Terminal) : Option Action :=
  match row.enter? (.terminal kind) with
  | some state => some (.shift state)
  | none =>
    (row.reductions.find? fun reduction => reduction.2.contains kind).map fun reduction =>
      .reduce reduction.1

def accepts (row : Row) (kind : Terminal) : Bool :=
  (row.action? kind).isSome

def terminals (row : Row) : List Terminal :=
  Terminal.all.filter row.accepts

end Row

namespace Automaton

def transitionsFrom (source : Nat) : List (Symbol × Nat) :=
  states.zipIdx.filterMap fun (state, index) =>
    if state.sources.contains source then some (state.symbol, index) else none

def reductionsOf (state : State) : List (Production × List Terminal) :=
  state.reductions.filterMap fun (index, terminals) =>
    (Grammar.rules[index]?).map fun production => (production, terminals)

def rows : Array Row :=
  (states.zipIdx.map fun (state, index) =>
    { transitions := transitionsFrom index, reductions := reductionsOf state }).toArray

def row (state : Nat) : Row :=
  rows.getD state ⟨[], []⟩

end Automaton

end Namesake
