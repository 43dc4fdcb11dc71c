/-
**Styled output.**

Parts of the output may be bold or coloured.  A terminal is told so by a control sequence in front of
the part and one behind it that ends all styles.  Where the part itself holds a sequence of the second
kind, the first one is repeated after it, so that the style lasts to the end.

Main definitions:

* `CommandLine.Style` — how a part of the output looks;
* `CommandLine.Style.paint` — a text in a style, or the bare text where styles are off.
-/

set_option autoImplicit false

namespace GraphDelta.CommandLine

/-- A colour of the terminal. -/
inductive Colour where
  | red
  | green
  | yellow
deriving DecidableEq

def Colour.code : Colour → String
  | .red => "31"
  | .green => "32"
  | .yellow => "33"

/-- How a part of the output looks. -/
inductive Style where
  | bold
  | coloured (c : Colour)
  | boldColoured (c : Colour)
deriving DecidableEq

namespace Style

def code : Style → String
  | .bold => "1"
  | .coloured c => c.code
  | .boldColoured c => "1;" ++ c.code

/-- The control sequence that begins a style. -/
def start (s : Style) : List Char := '\x1b' :: '[' :: s.code.toList ++ ['m']

/-- The control sequence that ends all styles. -/
def stop : List Char := ['\x1b', '[', '0', 'm']

/-- The text with a sequence repeated after each end of all styles. -/
def resume (start : List Char) : List Char → List Char
  | '\x1b' :: '[' :: '0' :: 'm' :: cs => stop ++ start ++ resume start cs
  | c :: cs => c :: resume start cs
  | [] => []

/-- A text in a style, or the bare text where styles are off. -/
def paint (on : Bool) (s : Style) (text : String) : String :=
  if on then String.ofList (s.start ++ resume s.start text.toList ++ stop) else text

end Style

end GraphDelta.CommandLine
