/-
# Paths as they are written

A path is the list of the names between its slashes, exactly as written: an empty name stands
where two slashes meet or where one stands at an end.  What a path leads to is a matter of the
file system; here are the parts that can be told from the text alone.
-/

namespace PartitionKeys

/-- The names between the slashes of a path. -/
abbrev Path := List String

namespace Path

/-- The path that a text writes. -/
def ofText (text : String) : Path := text.splitToList (· == '/')

/-- A path seen from a directory; one that starts with a slash starts at the root anyway. -/
def under (path directory : Path) : Path :=
  match path with
  | "" :: _ :: _ => path
  | _ => directory ++ path

/-- Whether a name stays where it stands: the empty name and the single dot. -/
def stays (name : String) : Bool := name == "" || name == "."

/-- The most bytes that a name may have. -/
def nameLimit : Nat := 255

/-- The most bytes that a path may have, the mark of its end included. -/
def sizeLimit : Nat := 4096

/-- The bytes of a path: each name with the slash or the mark of the end behind it. -/
def size (path : Path) : Nat := path.foldr (fun name size => name.utf8ByteSize + 1 + size) 0

/-- Whether a path can be used at all: it is not too long and holds no zero byte, which would
end it. -/
def isUsable (path : Path) : Bool :=
  decide (path.size ≤ sizeLimit) && path.all fun name => name.toList.all (· != '\x00')

/-- The path without the names at its end that stay where they stand. -/
def trimmed (path : Path) : Path := (path.reverse.dropWhile stays).reverse

/-- The path that leads to the directory of what this one names last. -/
def parent (path : Path) : Path := trimmed (trimmed path).dropLast

/-- The path with an ending added to its last name. -/
def withEnding (path : Path) (ending : String) : Path :=
  path.dropLast ++ [path.getLast?.getD "" ++ ending]

end Path

end PartitionKeys
