import MachineSpec.Markup.Content

/-!
# Arrangements of markup

How a tree can be put differently without saying anything else: elements of different names that
stand side by side change places, the items of a list are spread over other elements of its name,
and a grant is put in front of one that replaces it.

* `wrappers`              the elements that stand around the items of a list
* `Element.IsPlain`       an element with nothing of its own but its children
* `Element.IsGrant`       an element that says who gets access
* `Element.Rearranged`    one such change, anywhere in a tree
-/

namespace MachineSpec.Markup

open Logged (outcome)

/-- the elements that stand around the items of a list -/
def wrappers : List String :=
  ["SystemDisks", "SharedDisks", "NetworkInterfaces", "Tags", "BackupPolicies"]

namespace Element

/-- an element with nothing of its own but its children -/
structure IsPlain (e : Element) : Prop where
  attributes : e.attributes = []
  blank : ∀ c ∈ e.text.toList, Text.isBlank c = true

/-- an element that says whose keys, or which of them, give access -/
inductive IsGrant (e : Element) : Prop
  | users (named : e.name = "Users") (a : Access .user)
      (read : outcome (Access.ofElement "User" e) = .ok a)
  | sshKeys (named : e.name = "SSHKeys") (a : Access .sshKey)
      (read : outcome (Access.ofElement "SSHKey" e) = .ok a)

/-- one change, in an element or somewhere below it; `n`, `as` and `t` are its name, its attributes
and its text -/
inductive Rearranged : Element → Element → Prop
  /-- the children of the host name are two ways to say the same thing, so they keep their order -/
  | swap {n as t} {before after : List Element} {c d : Element} (parent : n ≠ "Hostname")
      (names : c.name ≠ d.name) :
      Rearranged (.mk n as t (before ++ c :: d :: after)) (.mk n as t (before ++ d :: c :: after))
  /-- the items of neighbours around one list are spread over others, in the same order -/
  | regroup {n as t} {before ws ws' after : List Element} {name : String}
      (wrapper : name ∈ wrappers) (some : ws ≠ []) (named : ∀ w ∈ ws, w.name = name)
      (some' : ws' ≠ []) (named' : ∀ w ∈ ws', w.name = name) (plain' : ∀ w ∈ ws', w.IsPlain)
      (items : ws.flatMap children = ws'.flatMap children) :
      Rearranged (.mk n as t (before ++ ws ++ after)) (.mk n as t (before ++ ws' ++ after))
  | precede {as t} {before between after : List Element} {c d : Element} (grant : c.IsGrant)
      (named : c.name = d.name) :
      Rearranged (.mk "AuthorizedKeys" as t (before ++ (between ++ d :: after)))
        (.mk "AuthorizedKeys" as t (before ++ c :: (between ++ d :: after)))
  | inside {n as t} {before after : List Element} {c c' : Element} (child : Rearranged c c') :
      Rearranged (.mk n as t (before ++ c :: after)) (.mk n as t (before ++ c' :: after))

end Element

end MachineSpec.Markup
