import Soul.File.Path

/-!
# File stores

A store holds files by their paths, below one working directory. Every part of
the path of a file but the last is a directory. What lies outside the working
directory is not known: there are directories there, and nothing in them.

A path is followed piece by piece. An empty piece or a single dot stays in the
directory, and double dots go one directory up; only from a directory can a
path go on. Names and paths are of limited length.
-/

namespace Soul.File

/-- What is at a path. -/
inductive Lookup where
  | missing
  /-- Nothing can be there, since the path or a name in it is too long. -/
  | tooLong
  | directory
  | file (bytes : List UInt8)
  deriving DecidableEq, Inhabited

/-- Files by the pieces of their paths. -/
structure Store where
  files : List (List String × List UInt8)

/-- Where a path has come to. -/
inductive Place where
  /-- A directory, the names on the way to it in reverse. -/
  | inside (names : List String)
  /-- A directory beyond the working directory. -/
  | outside
  | file (bytes : List UInt8)

/-- The greatest length of a name, in bytes. -/
def maxName : Nat := 255

/-- The greatest length of a path, in bytes. -/
def maxPath : Nat := 4095

namespace Store

/-- What has the given name in the directory `names`. -/
def child (store : Store) (names : List String) (name : String) : Except Lookup Place :=
  let path := (name :: names).reverse
  match store.files.lookup path with
  | some bytes => .ok (.file bytes)
  | none =>
    if store.files.any fun entry => path.isPrefixOf entry.1 then .ok (.inside (name :: names))
    else .error .missing

/-- Follows one piece of a path. -/
def step (store : Store) : Place → String → Except Lookup Place
  | .file _, _ => .error .missing
  | place, "" | place, "." => .ok place
  | .outside, ".." | .inside [], ".." => .ok .outside
  | .inside (_ :: names), ".." => .ok (.inside names)
  | place, name =>
    if maxName < name.utf8ByteSize then .error .tooLong
    else match place with
      | .inside names => store.child names name
      | _ => .error .missing

/-- What is at a path. -/
def look (store : Store) (path : String) : Lookup :=
  let start := if (root path).isEmpty then Place.inside [] else .outside
  if path.isEmpty then .missing
  else if maxPath < path.utf8ByteSize then .tooLong
  else match (pieces path).foldlM store.step start with
    | .error found => found
    | .ok (.file bytes) => .file bytes
    | .ok _ => .directory

end Store

end Soul.File
