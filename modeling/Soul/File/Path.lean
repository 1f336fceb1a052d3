/-!
# Paths

A path is a list of names with slashes between them. In its normal form empty
names and single dots are left out; double dots stay. A path that starts with a
slash starts at the root, and so does one that starts with two slashes, which
are kept; any other number of slashes counts as one. A path without a name is
the current directory.
-/

namespace Soul.File

/-- The pieces between the slashes of a path. -/
def pieces (path : String) : List String :=
  let (last, before) := path.toList.foldr
    (fun c (piece, pieces) => if c = '/' then ([], piece :: pieces) else (c :: piece, pieces))
    ([], [])
  (last :: before).map String.ofList

/-- The slashes that a path starts with, in its normal form. -/
def root (path : String) : String :=
  match (path.toList.takeWhile (· = '/')).length with
  | 0 => ""
  | 2 => "//"
  | _ => "/"

/-- The normal form of a path. -/
def normalize (path : String) : String :=
  let names := (pieces path).filter fun piece => piece != "" && piece != "."
  let text := root path ++ "/".intercalate names
  if text.isEmpty then "." else text

end Soul.File
