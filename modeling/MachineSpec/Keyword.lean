/-!
# Keywords

Fixed choices that are written as one lower-case word.

* `Keyword.word`      the word of a choice
* `Keyword.words`     every word, in the order in which messages list them
* `Keyword.ofWord?`   the choice of a word
-/

namespace MachineSpec

class Keyword (α : Type) where
  all : List α
  word : α → String

namespace Keyword
variable {α : Type} [Keyword α]

def words (α : Type) [Keyword α] : List String := (all : List α).map word

def ofWord? (s : String) : Option α := all.find? fun a => word a == s

end Keyword

/-- whether an address is requested or already there -/
inductive AllocationType where
  | new
  | existing
  deriving DecidableEq, Repr

instance : Keyword AllocationType where
  all := [.new, .existing]
  word
    | .new => "new"
    | .existing => "existing"

inductive IpVersion where
  | ipv4
  | ipv6
  deriving DecidableEq, Repr

instance : Keyword IpVersion where
  all := [.ipv4, .ipv6]
  word
    | .ipv4 => "ipv4"
    | .ipv6 => "ipv6"

inductive Interval where
  | hourly
  | daily
  | weekly
  | monthly
  | yearly
  deriving DecidableEq, Repr

instance : Keyword Interval where
  all := [.hourly, .daily, .weekly, .monthly, .yearly]
  word
    | .hourly => "hourly"
    | .daily => "daily"
    | .weekly => "weekly"
    | .monthly => "monthly"
    | .yearly => "yearly"

/-- a word leads back to its choice -/
class LawfulKeyword (α : Type) [Keyword α] : Prop where
  ofWord?_word : ∀ a : α, Keyword.ofWord? (Keyword.word a) = some a

instance : LawfulKeyword AllocationType := ⟨fun a => by cases a <;> decide⟩
instance : LawfulKeyword IpVersion := ⟨fun a => by cases a <;> decide⟩
instance : LawfulKeyword Interval := ⟨fun a => by cases a <;> decide⟩

end MachineSpec
