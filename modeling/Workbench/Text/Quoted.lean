import Workbench.Text.Unseen

/-!
# Text between quotation marks

A message shows a piece of text between quotation marks. Line ends, tabs,
quotation marks and backslashes are written with a backslash, and a character
that could not be seen is written by its code point.
-/

namespace Workbench

/-- One character as it stands between quotation marks. -/
def quotedChar (c : Char) : List Char :=
  if c = '\x00' then ['\\', '0']
  else if c = '\t' then ['\\', 't']
  else if c = '\r' then ['\\', 'r']
  else if c = '\n' then ['\\', 'n']
  else if c = '"' || c = '\\' then ['\\', c]
  else if isUnseen c
    then ['\\', 'u', '\x7b'] ++ Nat.toDigits 16 c.toNat ++ ['\x7d']
  else [c]

/-- The text between quotation marks. -/
def quoted (s : String) : String :=
  String.ofList ('"' :: s.toList.flatMap quotedChar ++ ['"'])

end Workbench
