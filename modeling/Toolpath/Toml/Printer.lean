import Toolpath.Toml.Scalar

/-!
# Writing a table file

A file of sections holds one table for each section, with one scalar a line. A blank line stands
between two sections.
-/

namespace Toolpath.Toml

open Decimal

def Scalar.render : Scalar → List Char
  | .integer n => (Numeral.ofInt n).render
  | .decimal n => n.render
  | .infinity negative => (if negative then ['-'] else []) ++ ['i', 'n', 'f']
  | .notANumber => ['n', 'a', 'n']
  | .boolean true => ['t', 'r', 'u', 'e']
  | .boolean false => ['f', 'a', 'l', 's', 'e']

def renderEntry (entry : String × Scalar) : List Char :=
  entry.1.toList ++ ' ' :: '=' :: ' ' :: entry.2.render ++ ['\n']

def renderSection (name : String) (entries : List (String × Scalar)) : List Char :=
  '[' :: name.toList ++ ']' :: '\n' :: entries.flatMap renderEntry

def renderSections : List (String × List (String × Scalar)) → List Char
  | [] => []
  | [(name, entries)] => renderSection name entries
  | (name, entries) :: later => renderSection name entries ++ '\n' :: renderSections later

end Toolpath.Toml
