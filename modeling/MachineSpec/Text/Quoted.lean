import MachineSpec.Text.Invisible

/-!
# Quoted text

A text as error messages show it: in double quotes, with a backslash before a quote or a backslash,
letters for the common controls, and the number of every other character that would not be seen.

* `hexDigits`   a number in base sixteen
* `quoteChar`   one character inside the quotes
* `quote`       a text in quotes
-/

namespace MachineSpec.Text

/-- a number in base sixteen, lower case, without leading zeros -/
def hexDigits (n : Nat) : List Char := Nat.toDigits 16 n

def quoteChar (c : Char) : List Char :=
  if c = '"' then ['\\', '"']
  else if c = '\\' then ['\\', '\\']
  else if c = '\n' then ['\\', 'n']
  else if c = '\r' then ['\\', 'r']
  else if c = '\t' then ['\\', 't']
  else if c = '\x00' then ['\\', '0']
  else if isInvisible c then '\\' :: 'u' :: '\x7b' :: (hexDigits c.toNat ++ ['\x7d'])
  else [c]

def quote (s : String) : String :=
  String.ofList ('"' :: (s.toList.flatMap quoteChar ++ ['"']))

end MachineSpec.Text
