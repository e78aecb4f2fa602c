/-!
A path is kept in a plain form, in which it has no empty parts and no parts that stay in place.
A part that goes up stays, since it depends on the directories how much it undoes.
-/

namespace Namesake

namespace Path

def parts (path : String) : List String :=
  (path.splitOn "/").filter fun part => part ≠ "" && part ≠ "."

/-- What an absolute path starts with.  Exactly two slashes mean something else than one. -/
def lead (path : String) : String :=
  match (path.toList.takeWhile (· = '/')).length with
  | 0 => ""
  | 2 => "//"
  | _ => "/"

def plain (path : String) : String :=
  let text := lead path ++ "/".intercalate (parts path)
  if text = "" then "." else text

end Path

abbrev Directory := List (String × List UInt8)

namespace Directory

def isDirectory (directory : Directory) (reversed : List String) : Bool :=
  directory.any fun (path, _) =>
    let parts := Path.parts path
    reversed.length < parts.length && parts.take reversed.length == reversed.reverse

/-- Where the parts of a path lead, the last part first; going up is possible only from a
directory. -/
def resolve (directory : Directory) : List String → List String → Option (List String)
  | reversed, [] => some reversed
  | reversed, part :: rest =>
    if part = ".." then
      match reversed with
      | [] => none
      | _ :: outer => resolve directory outer rest
    else if rest.isEmpty || directory.isDirectory (part :: reversed) then
      resolve directory (part :: reversed) rest
    else none

/-- The bytes of a file.  A path that is not absolute may go up and down on its way. -/
def read? (directory : Directory) (path : String) : Option (List UInt8) :=
  (directory.lookup path).or do
    guard (Path.lead path = "")
    let reversed ← directory.resolve [] (Path.parts path)
    directory.lookup ("/".intercalate reversed.reverse)

end Directory

end Namesake
