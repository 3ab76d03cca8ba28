import Toolpath.Json.Value
import Toolpath.Text.Hex

/-!
# Writing JSON

`compact` writes a value without any space; `pretty` indents by two spaces a level, with one item
or member a line.
-/

namespace Toolpath.Json

def escape (c : Char) : List Char :=
  if c = '"' then ['\\', '"']
  else if c = '\\' then ['\\', '\\']
  else if c = '\n' then ['\\', 'n']
  else if c = '\r' then ['\\', 'r']
  else if c = '\t' then ['\\', 't']
  else if c.toNat = 8 then ['\\', 'b']
  else if c.toNat = 12 then ['\\', 'f']
  else if c.toNat < 32 then
    ['\\', 'u', '0', '0', Text.hexDigit (c.toNat / 16), Text.hexDigit (c.toNat % 16)]
  else [c]

def quote (s : String) : List Char := '"' :: s.toList.flatMap escape ++ ['"']

/-- A string in quotes; one that spells no text is written empty. -/
def Content.render (s : Content) : List Char := quote (s.getD "")

def joined (separator : List Char) : List (List Char) → List Char
  | [] => []
  | [cs] => cs
  | cs :: later => cs ++ separator ++ joined separator later

mutual

def Value.compact : Value → List Char
  | .null => ['n', 'u', 'l', 'l']
  | .bool true => ['t', 'r', 'u', 'e']
  | .bool false => ['f', 'a', 'l', 's', 'e']
  | .number n => n.render
  | .string s => s.render
  | .array items => '[' :: joined [','] (compactItems items) ++ [']']
  | .object members => '\x7b' :: joined [','] (compactMembers members) ++ ['\x7d']

def compactItems : List Value → List (List Char)
  | [] => []
  | v :: later => v.compact :: compactItems later

def compactMembers : List (Content × Value) → List (List Char)
  | [] => []
  | (key, v) :: later => (key.render ++ ':' :: v.compact) :: compactMembers later

end

def newline (depth : Nat) : List Char := '\n' :: List.replicate (2 * depth) ' '

/-- Items between brackets, one a line; brackets alone when there are none. -/
def bracketed (start stop : Char) (depth : Nat) (items : List (List Char)) : List Char :=
  if items.isEmpty then [start, stop]
  else start :: newline (depth + 1) ++ joined (',' :: newline (depth + 1)) items
    ++ newline depth ++ [stop]

mutual

def Value.prettyAt (depth : Nat) : Value → List Char
  | .array items => bracketed '[' ']' depth (prettyItems (depth + 1) items)
  | .object members => bracketed '\x7b' '\x7d' depth (prettyMembers (depth + 1) members)
  | .null => Value.compact .null
  | .bool b => Value.compact (.bool b)
  | .number n => Value.compact (.number n)
  | .string s => Value.compact (.string s)

def prettyItems (depth : Nat) : List Value → List (List Char)
  | [] => []
  | v :: later => v.prettyAt depth :: prettyItems depth later

def prettyMembers (depth : Nat) : List (Content × Value) → List (List Char)
  | [] => []
  | (key, v) :: later => (key.render ++ ':' :: ' ' :: v.prettyAt depth) :: prettyMembers depth later

end

def Value.compactText (v : Value) : String := String.ofList v.compact

def Value.prettyText (v : Value) : String := String.ofList (v.prettyAt 0)

end Toolpath.Json
