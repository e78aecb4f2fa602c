import Namesake.Grammar

/-!
A derivation is a parse tree: a token, or a production with a derivation for each symbol of
its body.  Two extents belong to it.  `cover` is all the text under it; `extent` is the text
of the phrase it stands for, which for a phrase between parentheses leaves them out.
-/

namespace Namesake

inductive Derivation where
  | leaf (token : Token)
  | branch (production : Production) (parts : List Derivation)
deriving Inhabited

namespace Derivation

def symbol : Derivation → Symbol
  | leaf token => .terminal token.kind
  | branch production _ => .nonterminal production.head

mutual

/-- All the text under a derivation; `none` if it has no token. -/
def cover : Derivation → Option Extent
  | leaf token => some token.extent
  | branch _ parts => coverAll parts

def coverAll : List Derivation → Option Extent
  | [] => none
  | part :: rest => Extent.join part.cover (coverAll rest)

end

mutual

/-- The text of the phrase: for a production that only passes a phrase on, the text of that phrase. -/
def extent : Derivation → Option Extent
  | leaf token => some token.extent
  | branch production parts =>
    if production.form = .inner then innerExtent parts else coverAll parts

def innerExtent : List Derivation → Option Extent
  | [] => none
  | leaf _ :: rest => innerExtent rest
  | branch production parts :: _ => (branch production parts).extent

end

mutual

def tokens : Derivation → List Token
  | leaf token => [token]
  | branch _ parts => tokensAll parts

def tokensAll : List Derivation → List Token
  | [] => []
  | part :: rest => part.tokens ++ tokensAll rest

end

end Derivation

end Namesake
