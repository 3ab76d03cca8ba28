/-!
# Paths

A path is names between slashes, counted from the top or from the working directory. The extension
of its file name tells the format of a file.
-/

namespace Toolpath

structure Path where
  /-- The path counts from the top and not from the working directory. -/
  absolute : Bool
  /-- The names in order; two points stand for the way up. -/
  parts : List String
  /-- The text ends in a slash or a point of its own, so that only a directory can be meant. -/
  endsOpen : Bool
deriving DecidableEq, Repr

namespace Path

def consPiece (c : Char) : List (List Char) → List (List Char)
  | [] => if c = '/' then [[], []] else [[c]]
  | piece :: later => if c = '/' then [] :: piece :: later else (c :: piece) :: later

def pieces (cs : List Char) : List (List Char) := cs.foldr consPiece [[]]

/-- A piece that leads nowhere: nothing between two slashes, or a point alone. -/
def isIdle (piece : List Char) : Bool := piece = [] || piece = ['.']

def ofText (text : String) : Path :=
  let pieces := pieces text.toList
  { absolute := text.toList.head? = some '/'
    parts := (pieces.filter fun piece => !isIdle piece).map String.ofList
    endsOpen := pieces.getLast?.any isIdle }

def up : String := ".."

def fileName? (p : Path) : Option String := p.parts.getLast?.filter (· ≠ up)

def parents (p : Path) : List String := p.parts.dropLast

/-- The text after the last point of a file name. A point at its front does not count. -/
def extensionOf? (name : String) : Option String :=
  let reversed := name.toList.reverse
  match reversed.span (· ≠ '.') with
  | (_, []) => none
  | (_, [_]) => none
  | (ext, _) => some (String.ofList ext.reverse)

def extension? (p : Path) : Option String := p.fileName?.bind extensionOf?

end Path

end Toolpath
