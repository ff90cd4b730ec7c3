import Dataflow.Text.Standalone

/-!
# Quoted texts

A text between quotes, in which every character that does not stand for itself is written as an
escape: some by a letter, all others by their hexadecimal number in braces.

This is how inspections show names (`Dataflow.Inspection`), for people; it is not how JSON writes
texts, which escapes fewer characters and others. Quotes and backslashes are escaped although they
can be seen, so two texts that differ are shown differently.
-/

namespace Dataflow.Text

/-- The number of a character between braces. -/
def escapeNumber (c : Char) : List Char :=
  ['\\', 'u', '\x7b'] ++ Nat.toDigits 16 c.toNat ++ ['\x7d']

def escapeChar (c : Char) : List Char :=
  if c = '"' then ['\\', '"']
  else if c = '\\' then ['\\', '\\']
  else if c = '\n' then ['\\', 'n']
  else if c = '\r' then ['\\', 'r']
  else if c = '\t' then ['\\', 't']
  else if c = Char.ofNat 0 then ['\\', '0']
  else if standsForItself c then [c]
  else escapeNumber c

/-- A text between quotes. -/
def quoted (s : String) : String :=
  String.ofList ('"' :: (s.toList.flatMap escapeChar ++ ['"']))

end Dataflow.Text
