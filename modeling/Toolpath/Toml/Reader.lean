import Toolpath.Toml.Moment
import Toolpath.Toml.Quoted
import Toolpath.Toml.Value

/-!
# Reading a table file

`statements?` takes a text apart into headers and pairs, `Layout.ofStatements` puts the pairs below
their headers, and `Layout.build?` grows the tables. `read?` does all three.
-/

namespace Toolpath.Toml

/-- A text with a line feed alone at each line end. A carriage return without a line feed stays, and
is refused wherever it stands. -/
def plainLineEnds : List Char → List Char
  | [] => []
  | '\r' :: '\n' :: cs => '\n' :: plainLineEnds cs
  | c :: cs => c :: plainLineEnds cs

/-- The text after spaces, line ends and comments. The flag says that a comment has begun. -/
def skipFiller : Bool → List Char → List Char
  | _, [] => []
  | true, c :: cs =>
    if isPlain c then skipFiller true cs else if c = '\n' then skipFiller false cs else c :: cs
  | false, c :: cs =>
    if isSpace c || c = '\n' then skipFiller false cs
    else if c = '#' then skipFiller true cs
    else c :: cs

def isBare (c : Char) : Bool := c.isAlphanum || c = '_' || c = '-'

def part? (cs : List Char) : Option (String × List Char) :=
  match cs.span isBare with
  | ([], _) => (quotedLine? cs).map fun (text, rest) => (String.ofList text, rest)
  | (name, rest) => some (String.ofList name, rest)

/-- The parts of a key joined by points, and the rest. The first argument is the most parts that a
key may have. -/
def key? : Nat → List Char → Option (Key × List Char)
  | 0, _ => none
  | parts + 1, cs => do
    let (name, rest) ← part? (skipSpace cs)
    match skipSpace rest with
    | '.' :: rest => do
      let (key, rest) ← key? parts rest
      some ({ key with parents := name :: key.parents }, rest)
    | rest => some ({ last := name }, rest)

/-- A key has at most so many parts, and values nest at most so deep. -/
def maxDepth : Nat := 79

/-- A scalar, a moment or a text, and the rest. -/
def simple? (cs : List Char) : Option (Value × List Char) :=
  match quoted? cs with
  | some (text, rest) => some (.text (String.ofList text), rest)
  | none =>
    match afterMoment? cs with
    | some rest => some (.moment, rest)
    | none => (scalar? cs).map fun (s, rest) => (.scalar s, rest)

mutual

/-- A value that starts here, and the rest. The first argument is fuel, the second the depth to
which values may nest. -/
def value? : Nat → Nat → List Char → Option (Value × List Char)
  | 0, _, _ => none
  | fuel + 1, depth, cs =>
    match cs, depth with
    | '[' :: _, 0 => none
    | '[' :: rest, depth + 1 =>
      match skipFiller false rest with
      | ']' :: rest => some (.array [], rest)
      | rest => (items? fuel depth rest).map fun (items, rest) => (.array items, rest)
    | '\x7b' :: _, 0 => none
    | '\x7b' :: rest, depth + 1 =>
      match skipSpace rest with
      | '\x7d' :: rest => some (.table .closed [], rest)
      | rest => do
        let (pairs, rest) ← pairs? fuel depth rest
        let members ← assignAll pairs []
        some (.table .closed members, rest)
    | cs, _ => simple? cs

/-- The items of an array from one that starts here, and the rest after the closing bracket. A comma
may follow the last item. -/
def items? : Nat → Nat → List Char → Option (List Value × List Char)
  | 0, _, _ => none
  | fuel + 1, depth, cs => do
    let (v, rest) ← value? fuel depth cs
    match skipFiller false rest with
    | ']' :: rest => some ([v], rest)
    | ',' :: rest =>
      match skipFiller false rest with
      | ']' :: rest => some ([v], rest)
      | rest => do
        let (later, rest) ← items? fuel depth rest
        some (v :: later, rest)
    | _ => none

def pairs? : Nat → Nat → List Char → Option (List (Key × Value) × List Char)
  | 0, _, _ => none
  | fuel + 1, depth, cs => do
    let (key, rest) ← key? maxDepth cs
    match rest with
    | '=' :: rest => do
      let (v, rest) ← value? fuel depth (skipSpace rest)
      match skipSpace rest with
      | '\x7d' :: rest => some ([(key, v)], rest)
      | ',' :: rest => do
        let (later, rest) ← pairs? fuel depth rest
        some ((key, v) :: later, rest)
      | _ => none
    | _ => none

end

/-- A table file is a list of statements. -/
inductive Statement where
  | pair (key : Key) (v : Value)
  | header (key : Key)
  /-- A header that may be repeated and opens a new table each time. -/
  | repeated (key : Key)

def afterLine? (cs : List Char) : Option (List Char) :=
  let rest := match skipSpace cs with
    | '#' :: comment => comment.dropWhile isPlain
    | cs => cs
  match rest with
  | [] => some []
  | '\n' :: rest => some rest
  | _ => none

def statement? (cs : List Char) : Option (Statement × List Char) :=
  match cs with
  | '[' :: '[' :: cs => do
    let (key, rest) ← key? maxDepth cs
    match rest with
    | ']' :: ']' :: rest => (afterLine? rest).map fun rest => (.repeated key, rest)
    | _ => none
  | '[' :: cs => do
    let (key, rest) ← key? maxDepth cs
    match rest with
    | ']' :: rest => (afterLine? rest).map fun rest => (.header key, rest)
    | _ => none
  | cs => do
    let (key, rest) ← key? maxDepth cs
    match rest with
    | '=' :: rest => do
      let (v, rest) ← value? (rest.length + 1) maxDepth (skipSpace rest)
      (afterLine? rest).map fun rest => (.pair key v, rest)
    | _ => none

def statements? : Nat → List Char → Option (List Statement)
  | 0, _ => none
  | fuel + 1, cs =>
    match skipFiller false cs with
    | [] => some []
    | cs => do
      let (s, rest) ← statement? cs
      let later ← statements? fuel rest
      some (s :: later)

structure Section where
  key : Key
  repeated : Bool
  pairs : List (Key × Value)

/-- The pairs of a text, those before the first header and those below each. -/
structure Layout where
  top : List (Key × Value) := []
  sections : List Section := []

def Layout.cons (s : Statement) (l : Layout) : Layout :=
  match s with
  | .pair key v => { l with top := (key, v) :: l.top }
  | .header key => ⟨[], ⟨key, false, l.top⟩ :: l.sections⟩
  | .repeated key => ⟨[], ⟨key, true, l.top⟩ :: l.sections⟩

def Layout.ofStatements (ss : List Statement) : Layout := ss.foldr Layout.cons {}

def Section.add? (ms : Members) (s : Section) : Option Members :=
  place (if s.repeated then tablesOf s.pairs else tableOf s.pairs) s.key.last s.key.parents ms

def Layout.build? (l : Layout) : Option Members := do
  let top ← assignAll l.top []
  l.sections.foldlM Section.add? top

def skipMark : List Char → List Char
  | '\ufeff' :: cs => cs
  | cs => cs

def read? (text : String) : Option Value := do
  let cs := plainLineEnds (skipMark text.toList)
  let statements ← statements? (cs.length + 1) cs
  let members ← (Layout.ofStatements statements).build?
  some (.table .header members)

end Toolpath.Toml
