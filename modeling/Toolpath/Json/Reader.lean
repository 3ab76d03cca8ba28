import Toolpath.Json.Value
import Toolpath.Text.Hex

/-!
# Reading JSON

`read?` accepts exactly one value with blanks around it. The grammar is the strict one: no comments,
no trailing commas, no leading zeros. Each step of the reader takes fuel, and as many steps as the
text has characters suffice.
-/

namespace Toolpath.Json

open Decimal

def isSpace (c : Char) : Bool := c = ' ' || c = '\n' || c = '\t' || c = '\r'

def skipSpace (cs : List Char) : List Char := cs.dropWhile isSpace

def hexUnit? : List Char → Option (Nat × List Char)
  | a :: b :: c :: d :: rest => (Text.hexNumber? [a, b, c, d]).map fun n => (n, rest)
  | _ => none

/-- One piece of a string: a character, or a 16-bit unit that an escape names. -/
inductive Piece where
  | char (c : Char)
  | unit (n : Nat)
deriving DecidableEq, Repr

def escaped? (c : Char) : Option Char :=
  if c = '"' then some '"'
  else if c = '\\' then some '\\'
  else if c = '/' then some '/'
  else if c = 'b' then some '\x08'
  else if c = 'f' then some '\x0c'
  else if c = 'n' then some '\n'
  else if c = 'r' then some '\r'
  else if c = 't' then some '\t'
  else none

/-- The pieces of a string up to its closing quote, and the rest. A control character must be
escaped. -/
def pieces? : Nat → List Char → Option (List Piece × List Char)
  | 0, _ => none
  | _, [] => none
  | fuel + 1, c :: cs =>
    if c = '"' then some ([], cs)
    else if c = '\\' then
      match cs with
      | 'u' :: rest => do
        let (n, rest) ← hexUnit? rest
        let (later, rest) ← pieces? fuel rest
        some (.unit n :: later, rest)
      | e :: rest => do
        let c ← escaped? e
        let (later, rest) ← pieces? fuel rest
        some (.char c :: later, rest)
      | [] => none
    else if c.toNat < 32 then none
    else do
      let (later, rest) ← pieces? fuel cs
      some (.char c :: later, rest)

def unitChar? (n : Nat) : Option Char :=
  if 0xD800 ≤ n && n < 0xE000 then none else some (Char.ofNat n)

def pairChar? (high low : Nat) : Option Char :=
  if 0xD800 ≤ high && high < 0xDC00 && 0xDC00 ≤ low && low < 0xE000 then
    some (Char.ofNat (0x10000 + (high - 0xD800) * 0x400 + (low - 0xDC00)))
  else none

/-- The text of pieces, or `none` if half of a surrogate pair stands alone. -/
def spell? : List Piece → Option (List Char)
  | [] => some []
  | .char c :: later => (spell? later).map (c :: ·)
  | .unit n :: later =>
    match unitChar? n with
    | some c => (spell? later).map (c :: ·)
    | none =>
      match later with
      | .unit low :: rest =>
        match pairChar? n low with
        | some c => (spell? rest).map (c :: ·)
        | none => none
      | _ => none

def string? (cs : List Char) : Option (Content × List Char) := do
  let (pieces, rest) ← pieces? (cs.length + 1) cs
  some ((spell? pieces).map String.ofList, rest)

/-- The digits before the point: a zero alone, or a row that starts with another digit. -/
def wholeDigits? (cs : List Char) : Option (List Char × List Char) :=
  match cs.span Char.isDigit with
  | ([], _) => none
  | (['0'], rest) => some (['0'], rest)
  | ('0' :: _, _) => none
  | (ds, rest) => some (ds, rest)

def fraction? : List Char → Option (Option (List Char) × List Char)
  | '.' :: cs =>
    match cs.span Char.isDigit with
    | ([], _) => none
    | (ds, rest) => some (some ds, rest)
  | cs => some (none, cs)

def exponentPart? : List Char → Option (Option Int × List Char)
  | [] => some (none, [])
  | c :: cs =>
    if c = 'e' || c = 'E' then
      let (negative, cs) := splitSign cs
      match cs.span Char.isDigit with
      | ([], _) => none
      | (ds, rest) => some (some (if negative then -(ofDigits ds : Int) else ofDigits ds), rest)
    else some (none, c :: cs)

def numeral? (cs : List Char) : Option (Numeral × List Char) := do
  let (negative, cs) := match cs with
    | '-' :: rest => (true, rest)
    | _ => (false, cs)
  let (whole, cs) ← wholeDigits? cs
  let (fraction, cs) ← fraction? cs
  let (exponent, cs) ← exponentPart? cs
  some (⟨negative, whole, fraction, exponent⟩, cs)

mutual

def value? : Nat → List Char → Option (Value × List Char)
  | 0, _ => none
  | fuel + 1, cs =>
    match cs with
    | 'n' :: 'u' :: 'l' :: 'l' :: rest => some (.null, rest)
    | 't' :: 'r' :: 'u' :: 'e' :: rest => some (.bool true, rest)
    | 'f' :: 'a' :: 'l' :: 's' :: 'e' :: rest => some (.bool false, rest)
    | '"' :: rest => (string? rest).map fun (s, rest) => (.string s, rest)
    | '[' :: rest =>
      match skipSpace rest with
      | ']' :: rest => some (.array [], rest)
      | rest => (items? fuel rest).map fun (items, rest) => (.array items, rest)
    | '\x7b' :: rest =>
      match skipSpace rest with
      | '\x7d' :: rest => some (.object [], rest)
      | rest => (members? fuel rest).map fun (members, rest) => (.object members, rest)
    | cs => (numeral? cs).map fun (n, rest) => (.number n, rest)

def items? : Nat → List Char → Option (List Value × List Char)
  | 0, _ => none
  | fuel + 1, cs => do
    let (v, rest) ← value? fuel cs
    match skipSpace rest with
    | ']' :: rest => some ([v], rest)
    | ',' :: rest => do
      let (later, rest) ← items? fuel (skipSpace rest)
      some (v :: later, rest)
    | _ => none

def members? : Nat → List Char → Option (List (Content × Value) × List Char)
  | 0, _ => none
  | fuel + 1, cs =>
    match cs with
    | '"' :: rest => do
      let (key, rest) ← string? rest
      match skipSpace rest with
      | ':' :: rest => do
        let (v, rest) ← value? fuel (skipSpace rest)
        match skipSpace rest with
        | '\x7d' :: rest => some ([(key, v)], rest)
        | ',' :: rest => do
          let (later, rest) ← members? fuel (skipSpace rest)
          some ((key, v) :: later, rest)
        | _ => none
      | _ => none
    | _ => none

end

/-- The value of a text that holds one value and nothing else but spaces. -/
def read? (text : String) : Option Value :=
  let cs := text.toList
  match value? (cs.length + 1) (skipSpace cs) with
  | some (v, rest) => if (skipSpace rest).isEmpty then some v else none
  | none => none

end Toolpath.Json
