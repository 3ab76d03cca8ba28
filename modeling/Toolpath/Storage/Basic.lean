import Toolpath.Storage.Path

/-!
# Storage

A storage is a tree of directories and files, kept as the entries at its locations. Reading follows
a path through directories that exist. Saving makes the parents of a path that are missing and puts
one file in place; all other entries stay as they were.
-/

namespace Toolpath

/-- A place in a storage: the names that lead to it from the top or from the working directory. -/
structure Location where
  absolute : Bool
  /-- The number of names. It is compared before them, so that most places are told apart by it. -/
  depth : Nat := 0
  /-- The names, the innermost first. -/
  names : List String := []
  length_names : names.length = depth := by rfl
deriving DecidableEq, Repr

namespace Location

def child (l : Location) (name : String) : Location :=
  { l with
    depth := l.depth + 1
    names := name :: l.names
    length_names := by simp [l.length_names] }

/-- The top, the working directory, and the directories above it. They are always there. -/
def isBase (l : Location) : Bool :=
  if l.absolute then l.names.isEmpty else l.names.all (· = Path.up)

/-- The place one level up. Above the working directory the way up is kept as a name, and the top
leads to itself. -/
def parent (l : Location) : Location :=
  if !l.absolute && l.isBase then l.child Path.up
  else
    { l with
      depth := l.depth - 1
      names := l.names.tail
      length_names := by simp [l.length_names] }

end Location

inductive Entry where
  | file (content : ByteArray)
  | directory

structure Storage where
  entries : List (Location × Entry) := []

namespace Storage

def entry? (s : Storage) (l : Location) : Option Entry :=
  if l.isBase then some .directory else s.entries.lookup l

def put (s : Storage) (l : Location) (e : Entry) : Storage := ⟨(l, e) :: s.entries⟩

def isDirectory (s : Storage) (l : Location) : Bool := s.entry? l matches some .directory

/-- A name that an entry can have: at most 255 bytes, and no null character. -/
def isName (name : String) : Bool := name.utf8ByteSize ≤ 255 && !name.toList.contains '\x00'

/-- A text that can be used as a path: not empty, and at most 4095 bytes. -/
def isPath (text : String) : Bool := !text.isEmpty && text.utf8ByteSize ≤ 4095

/-- One step of a path from a location, which must be a directory. -/
def step? (s : Storage) (l : Location) (part : String) : Option Location :=
  if !s.isDirectory l then none
  else if part = Path.up then some l.parent
  else if isName part then some (l.child part)
  else none

def follow? (s : Storage) (l : Location) (parts : List String) : Option Location :=
  parts.foldlM s.step? l

def start (p : Path) : Location := { absolute := p.absolute }

/-- The location that a text names, if it can be used as a path and leads through directories. -/
def locate? (s : Storage) (text : String) : Option Location :=
  let p := Path.ofText text
  if isPath text then
    (s.follow? (start p) p.parts).filter fun l => !p.endsOpen || s.isDirectory l
  else none

def find? (s : Storage) (text : String) : Option Entry := (s.locate? text).bind s.entry?

def has (s : Storage) (text : String) : Bool := (s.find? text).isSome

def read? (s : Storage) (text : String) : Option ByteArray :=
  match s.find? text with
  | some (.file content) => some content
  | _ => none

def readText? (s : Storage) (text : String) : Option String := (s.read? text).bind String.fromUTF8?

/-- One part of a path from a location, made a directory if nothing is there. The location is `none`
once a part has failed. -/
def makeStep (state : Storage × Option Location) (part : String) : Storage × Option Location :=
  match state with
  | (s, none) => (s, none)
  | (s, some l) =>
    match s.step? l part with
    | none => (s, none)
    | some next =>
      match s.entry? next with
      | some .directory => (s, some next)
      | some (.file _) => (s, none)
      | none => (s.put next .directory, some next)

def makeDirectories (s : Storage) (l : Location) (parts : List String) :
    Storage × Option Location :=
  parts.foldl makeStep (s, some l)

/-- Puts a file at a name in a directory, unless the name leads to a directory. -/
def putFile? (s : Storage) (l : Location) (name : String) (content : ByteArray) : Option Storage :=
  match s.step? l name with
  | none => none
  | some target => if s.isDirectory target then none else some (s.put target (.file content))

/-- Makes the parents of a path and puts a file there. The flag says whether this has succeeded;
parents may have been made even if not. -/
def savePath (s : Storage) (p : Path) (content : ByteArray) : Storage × Bool :=
  match s.makeDirectories (start p) p.parents, p.fileName? with
  | (s, some l), some name =>
    if p.endsOpen then (s, false)
    else
      match s.putFile? l name content with
      | some s => (s, true)
      | none => (s, false)
  | (s, _), _ => (s, false)

/-- Saves a file at the path that a text names. A text that is no path changes nothing. -/
def save (s : Storage) (text : String) (content : ByteArray) : Storage × Bool :=
  if isPath text then s.savePath (Path.ofText text) content else (s, false)

end Storage

end Toolpath
