import Namesake.Diagnostic

/-!
Every token has a line with its place and its text, and a rule stands between two groups.
-/

namespace Namesake.Listing

def rule (colour : Bool) : String :=
  Style.apply colour [.grey] (String.ofList (List.replicate 16 '-'))

def line (sources : Sources) (colour : Bool) (token : Location) : String :=
  let text := ((sources.lookup token.file).map token.text).getD ""
  token.renderEnds ++ "  " ++ Style.apply colour [.bold] text

def render (sources : Sources) (colour : Bool) (groups : List (List Location)) : String :=
  ("\n" ++ rule colour ++ "\n").intercalate
    (groups.map fun group => "\n".intercalate (group.map (line sources colour)))

end Namesake.Listing
