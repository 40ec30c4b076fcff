import MachineSpec.Text.Digit
import MachineSpec.Text.Utf8

/-!
# JSON values

What a JSON text stands for, and which texts stand for it, told without reading one.  A value has
many spellings: white space may stand around it and between its parts, and a character of a string
may be written by a letter or by its number.

* `Numeral`          a number, with its sign, its fraction and its exponent as they are written
* `Value`            null, a flag, a number, a text, a list or an object
* `Blanks`           white space
* `CharSpelled`      the spellings of a character in a string
* `TextSpelled`      the spellings of a string behind its opening quote
* `ValueSpelled`     the spellings of a value
* `Value.Encoded`    the byte texts with nothing but white space around a value
-/

namespace MachineSpec.Json

/-! ## numbers -/

/-- one or more decimal digits -/
structure Digits where
  chars : List Char
  filled : chars ≠ []
  decimal : ∀ c ∈ chars, c.isDigit = true

/-- the letter of an exponent, perhaps a sign, and digits -/
structure Exponent where
  upper : Bool
  minus? : Option Bool
  digits : Digits

/-- a number as it is written; the whole number in it has no zero in front -/
structure Numeral where
  minus : Bool := false
  whole : Nat
  fraction? : Option Digits := none
  exponent? : Option Exponent := none

namespace Numeral

def sign (minus : Bool) : List Char := if minus then ['-'] else []

def fraction : Option Digits → List Char
  | none => []
  | some ds => '.' :: ds.chars

def exponent : Option Exponent → List Char
  | none => []
  | some e =>
    let sign := match e.minus? with
      | none => []
      | some minus => if minus then ['-'] else ['+']
    (if e.upper then 'E' else 'e') :: (sign ++ e.digits.chars)

def spelling (n : Numeral) : List Char :=
  sign n.minus ++ ((toString n.whole).toList ++ (fraction n.fraction? ++ exponent n.exponent?))

end Numeral

/-! ## values -/

inductive Value where
  | null
  | flag (b : Bool)
  | number (n : Numeral)
  | text (s : String)
  | list (items : List Value)
  | object (members : List (String × Value))

/-! ## spellings -/

def Blanks (cs : List Char) : Prop := ∀ c ∈ cs, c ∈ [' ', '\n', '\t', '\r']

/-- the letters that stand for a character behind a backslash -/
def letters : List (Char × Char) := [
  ('"', '"'), ('\\', '\\'), ('/', '/'), ('b', '\x08'), ('f', '\x0c'), ('n', '\n'), ('r', '\r'),
  ('t', '\t')]

/-- four digits in base sixteen, of either case -/
def FourDigits (n : Nat) (ds : List Char) : Prop :=
  ds.length = 4 ∧ Text.digitsFrom 16 0 ds = some n

/-- the spellings of a character in a string: itself, a letter, its number, or the two halves of a
number of more than sixteen bits -/
inductive CharSpelled (c : Char) : List Char → Prop
  | plain (quote : c ≠ '"') (backslash : c ≠ '\\') (control : 0x20 ≤ c.toNat) : CharSpelled c [c]
  | letter {l : Char} (named : (l, c) ∈ letters) : CharSpelled c ['\\', l]
  | number {ds : List Char} (digits : FourDigits c.toNat ds) : CharSpelled c ('\\' :: 'u' :: ds)
  | halves {high low : List Char} (wide : 0x10000 ≤ c.toNat)
      (first : FourDigits (0xD800 + (c.toNat - 0x10000) / 0x400) high)
      (second : FourDigits (0xDC00 + (c.toNat - 0x10000) % 0x400) low) :
      CharSpelled c ('\\' :: 'u' :: (high ++ '\\' :: 'u' :: low))

/-- the spellings of characters up to the closing quote of their string -/
inductive TextSpelled : List Char → List Char → Prop
  | close : TextSpelled [] ['"']
  | char {c : Char} {cs as bs : List Char} (char : CharSpelled c as) (rest : TextSpelled cs bs) :
      TextSpelled (c :: cs) (as ++ bs)

/-- what stands in front of an item: white space, and a comma unless it is the first one -/
inductive Lead : Bool → List Char → Prop
  | first {ws : List Char} (blanks : Blanks ws) : Lead true ws
  | comma {ws ws' : List Char} (before : Blanks ws) (behind : Blanks ws') :
      Lead false (ws ++ ',' :: ws')

mutual

/-- the spellings of a value, from its first character to its last one -/
inductive ValueSpelled : Value → List Char → Prop
  | null : ValueSpelled .null "null".toList
  | flag (b : Bool) : ValueSpelled (.flag b) (toString b).toList
  | number (n : Numeral) : ValueSpelled (.number n) n.spelling
  | text {s : String} {cs : List Char} (chars : TextSpelled s.toList cs) :
      ValueSpelled (.text s) ('"' :: cs)
  | list {vs : List Value} {cs : List Char} (items : ItemsSpelled true vs cs) :
      ValueSpelled (.list vs) ('[' :: cs)
  | object {ms : List (String × Value)} {cs : List Char} (members : MembersSpelled true ms cs) :
      ValueSpelled (.object ms) ('\x7b' :: cs)

/-- the spellings of items up to the end of their list; is the next one the first of them -/
inductive ItemsSpelled : Bool → List Value → List Char → Prop
  | close {first : Bool} {ws : List Char} (blanks : Blanks ws) :
      ItemsSpelled first [] (ws ++ [']'])
  | item {first : Bool} {ls cs ds : List Char} {v : Value} {vs : List Value}
      (lead : Lead first ls) (value : ValueSpelled v cs) (rest : ItemsSpelled false vs ds) :
      ItemsSpelled first (v :: vs) (ls ++ (cs ++ ds))

/-- the spellings of members up to the end of their object -/
inductive MembersSpelled : Bool → List (String × Value) → List Char → Prop
  | close {first : Bool} {ws : List Char} (blanks : Blanks ws) :
      MembersSpelled first [] (ws ++ ['\x7d'])
  | member {first : Bool} {ls ks ws ws' cs ds : List Char} {k : String} {v : Value}
      {ms : List (String × Value)} (lead : Lead first ls) (key : TextSpelled k.toList ks)
      (before : Blanks ws) (behind : Blanks ws') (value : ValueSpelled v cs)
      (rest : MembersSpelled false ms ds) :
      MembersSpelled first ((k, v) :: ms)
        (ls ++ '"' :: (ks ++ (ws ++ ':' :: (ws' ++ (cs ++ ds)))))

end

/-- the byte texts of a value: one spelling of it, and nothing but white space around it -/
def Value.Encoded (v : Value) (bytes : Bytes) : Prop :=
  ∃ before cs behind, Blanks before ∧ ValueSpelled v cs ∧ Blanks behind ∧
    bytes = Utf8.encodeList (before ++ (cs ++ behind))

end MachineSpec.Json
