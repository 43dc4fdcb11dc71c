/-
**Texts quoted for a reader.**

A message that names a text of the user puts it between quotes in such a way that the text can be told
from its surroundings: the quote, the backslash, the tabulator, the two line ends and the character of
code zero are escaped by a letter, and every character that attaches to the one before or does not
show as itself by its hexadecimal code.

Main definitions:

* `Text.escape`, `Text.quoted` — a character and a text as they are shown.
-/
import GraphDelta.Text.Extending
import GraphDelta.Text.Printable

set_option autoImplicit false

namespace GraphDelta.Text

/-- A character inside a text quoted for a reader. -/
def escape (c : Char) : List Char :=
  if c = '\x00' then ['\\', '0']
  else if c = '\t' then ['\\', 't']
  else if c = '\r' then ['\\', 'r']
  else if c = '\n' then ['\\', 'n']
  else if c = '"' then ['\\', '"']
  else if c = '\\' then ['\\', '\\']
  else if isExtending c || !isPrintable c then
    ['\\', 'u', '\x7b'] ++ Nat.toDigits 16 c.toNat ++ ['\x7d']
  else [c]

def quoted (s : String) : String :=
  String.ofList ('"' :: s.toList.flatMap escape ++ ['"'])

end GraphDelta.Text
