import Toolpath.Text.Hex

/-!
# Quoted text of a table file

Text stands between double quotes, where a backslash begins an escape, or between single quotes,
where nothing does. Three quotes of either kind enclose text of several lines. The readers begin
after the opening quotes and hand back the text and the rest; a line end is a line feed here.
-/

namespace Toolpath.Toml

/-- The character may stand in a comment or a quoted text as it is: no control character but the
tab. -/
def isPlain (c : Char) : Bool := c = '\t' || (32 ≤ c.toNat && c.toNat ≠ 127)

def isSpace (c : Char) : Bool := c = ' ' || c = '\t'

def skipSpace (cs : List Char) : List Char := cs.dropWhile isSpace

def doubleQuote : Char := '\x22'

def singleQuote : Char := '\x27'

def letterEscape? (c : Char) : Option Char :=
  if c = 'b' then some '\x08'
  else if c = 't' then some '\t'
  else if c = 'n' then some '\n'
  else if c = 'f' then some '\x0c'
  else if c = 'r' then some '\r'
  else if c = doubleQuote then some doubleQuote
  else if c = '\\' then some '\\'
  else none

def codePoint? (count : Nat) (cs : List Char) : Option (Char × List Char) :=
  if (cs.take count).length = count then do
    let n ← Text.hexNumber? (cs.take count)
    if n.isValidChar then some (Char.ofNat n, cs.drop count) else none
  else none

def escaped? : List Char → Option (Char × List Char)
  | [] => none
  | 'u' :: cs => codePoint? 4 cs
  | 'U' :: cs => codePoint? 8 cs
  | c :: cs => (letterEscape? c).map fun e => (e, cs)

/-- A line with escapes up to its closing quote, and the rest. Each step takes fuel. -/
def escapedLine? : Nat → List Char → Option (List Char × List Char)
  | 0, _ => none
  | _, [] => none
  | fuel + 1, c :: cs =>
    if c = doubleQuote then some ([], cs)
    else if c = '\\' then do
      let (e, rest) ← escaped? cs
      let (later, rest) ← escapedLine? fuel rest
      some (e :: later, rest)
    else if isPlain c then do
      let (later, rest) ← escapedLine? fuel cs
      some (c :: later, rest)
    else none

def literalLine? (cs : List Char) : Option (List Char × List Char) :=
  match cs.span fun c => isPlain c && c ≠ singleQuote with
  | (body, c :: rest) => if c = singleQuote then some (body, rest) else none
  | (_, []) => none

/-- What a row of quotes means inside a text of several lines: fewer than three belong to the text,
three close it, and up to two more before the closing ones belong to it. -/
inductive QuoteRow where
  | inside
  | closing (inner : Nat)
  | tooMany
deriving DecidableEq, Repr

def QuoteRow.ofLength (n : Nat) : QuoteRow :=
  if n < 3 then .inside else if n ≤ 5 then .closing (n - 3) else .tooMany

/-- The rest after a line end that a backslash hides, with the spaces and line ends around it. -/
def afterHiddenEnd? (cs : List Char) : Option (List Char) :=
  match skipSpace cs with
  | '\n' :: rest => some (rest.dropWhile fun c => isSpace c || c = '\n')
  | _ => none

def escapedLines? : Nat → List Char → Option (List Char × List Char)
  | 0, _ => none
  | _, [] => none
  | fuel + 1, c :: cs =>
    if c = doubleQuote then
      let (quotes, rest) := (c :: cs).span (· = doubleQuote)
      match QuoteRow.ofLength quotes.length with
      | .inside => do
        let (later, rest) ← escapedLines? fuel rest
        some (quotes ++ later, rest)
      | .closing inner => some (List.replicate inner doubleQuote, rest)
      | .tooMany => none
    else if c = '\\' then
      match afterHiddenEnd? cs with
      | some rest => escapedLines? fuel rest
      | none => do
        let (e, rest) ← escaped? cs
        let (later, rest) ← escapedLines? fuel rest
        some (e :: later, rest)
    else if isPlain c || c = '\n' then do
      let (later, rest) ← escapedLines? fuel cs
      some (c :: later, rest)
    else none

def literalLines? : Nat → List Char → Option (List Char × List Char)
  | 0, _ => none
  | _, [] => none
  | fuel + 1, c :: cs =>
    if c = singleQuote then
      let (quotes, rest) := (c :: cs).span (· = singleQuote)
      match QuoteRow.ofLength quotes.length with
      | .inside => do
        let (later, rest) ← literalLines? fuel rest
        some (quotes ++ later, rest)
      | .closing inner => some (List.replicate inner singleQuote, rest)
      | .tooMany => none
    else if isPlain c || c = '\n' then do
      let (later, rest) ← literalLines? fuel cs
      some (c :: later, rest)
    else none

def skipLineEnd : List Char → List Char
  | '\n' :: cs => cs
  | cs => cs

def quotedLine? : List Char → Option (List Char × List Char)
  | [] => none
  | c :: cs =>
    if c = doubleQuote then escapedLine? (cs.length + 1) cs
    else if c = singleQuote then literalLine? cs
    else none

def quoted? (cs : List Char) : Option (List Char × List Char) :=
  if cs.take 3 = List.replicate 3 doubleQuote then
    escapedLines? (cs.length + 1) (skipLineEnd (cs.drop 3))
  else if cs.take 3 = List.replicate 3 singleQuote then
    literalLines? (cs.length + 1) (skipLineEnd (cs.drop 3))
  else quotedLine? cs

end Toolpath.Toml
