import Namesake.Derivation
import Namesake.Grammar.Automaton

/-!
A frame pairs a state of the automaton with the derivation that led there.  `Stack.feed` gives
a token to the stack: it reduces as long as the automaton says so and then shifts the token.
Reductions are kept even if the token is refused in the end.
-/

namespace Namesake

structure Frame where
  state : Nat
  tree : Derivation
deriving Inhabited

abbrev Stack := List Frame

namespace Stack

def state : Stack → Nat
  | [] => 0
  | frame :: _ => frame.state

def row (stack : Stack) : Row :=
  Automaton.row stack.state

def latest (stack : Stack) (count : Nat) : List Derivation :=
  (stack.take count).reverse.map Frame.tree

/-- Replaces the frames of a body by one for its head.  Fails unless the latest frames are the body
of the production. -/
def reduce? (stack : Stack) (production : Production) : Option Stack := do
  let parts := stack.latest production.body.length
  guard (parts.map Derivation.symbol = production.body)
  let below := stack.drop production.body.length
  let state ← (row below).enter? (.nonterminal production.head)
  return ⟨state, .branch production parts⟩ :: below

inductive Fed where
  | shifted (stack : Stack)
  | accepted (program : Derivation)
  | refused (stack : Stack)

def program? : Stack → Option Derivation
  | [frame] => if frame.tree.symbol = .nonterminal .program then some frame.tree else none
  | _ => none

def feedWithin (token : Token) : Nat → Stack → Fed
  | 0, stack => .refused stack
  | bound + 1, stack =>
    match stack.row.action? token.kind with
    | none => .refused stack
    | some (.shift state) => .shifted (⟨state, .leaf token⟩ :: stack)
    | some (.reduce production) =>
      match stack.reduce? production with
      | none => .refused stack
      | some reduced =>
        match if token.kind = .endOfInput then program? reduced else none with
        | some program => .accepted program
        | none => feedWithin token bound reduced

/-- Gives a token to the stack.  A frame takes part in fewer than 32 reductions before a longer body
swallows it, so the bound is never reached. -/
def feed (stack : Stack) (token : Token) : Fed :=
  feedWithin token (32 * (stack.length + 2)) stack

end Stack

end Namesake
