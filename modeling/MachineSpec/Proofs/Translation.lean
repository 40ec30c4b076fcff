import MachineSpec.Proofs.RoundTrip
import MachineSpec.Proofs.Spec.Canonical

/-!
# Translating specifications

A specification is written in one format after the other, and read back each time.  The first step
leaves it canonical, and from then on nothing is lost but the empty tags, with the first markup on
the way.

* `Spec.relay`           a specification after each step through some formats
* `Spec.relay_eq`        what every step leaves
* `Spec.relay_emptyTag`  an empty tag is lost in markup
-/

namespace MachineSpec.Spec

/-- a specification after each step through some formats -/
def relay : List Format → Spec → Except ReadError (List Spec)
  | [], _ => .ok []
  | f :: fs, s => do
    let t ← s.recode f
    let ts ← relay fs t
    return t :: ts

theorem relay_cons (f : Format) (fs : List Format) (s : Spec) :
    relay (f :: fs) s = (relay fs (s.kept f)).map (s.kept f :: ·) := by
  rw [relay, recode_eq]
  show (relay fs (s.kept f) >>= fun ts => Except.ok (s.kept f :: ts)) = _
  cases relay fs (s.kept f) <;> rfl

/-- what several formats keep of a specification -/
def keptBy (fs : List Format) (s : Spec) : Spec :=
  if .xml ∈ fs then s.canonical.dropEmptyTags else s.canonical

theorem kept_eq (f : Format) (s : Spec) : s.kept f = s.keptBy [f] := by
  cases f <;> rfl

theorem keptBy_kept (f : Format) (fs : List Format) (s : Spec) :
    (s.kept f).keptBy fs = s.keptBy (f :: fs) := by
  unfold keptBy
  by_cases hf : f = .xml
  · subst hf
    have hd : s.canonical.dropEmptyTags.canonical = s.canonical.dropEmptyTags := by
      rw [canonical_dropEmptyTags, canonical_canonical]
    rw [if_pos List.mem_cons_self]
    show (if Format.xml ∈ fs then s.canonical.dropEmptyTags.canonical.dropEmptyTags
      else s.canonical.dropEmptyTags.canonical) = _
    rw [hd, dropEmptyTags_dropEmptyTags, ite_self]
  · have hm : Format.xml ∈ f :: fs ↔ Format.xml ∈ fs := by
      rw [List.mem_cons]
      exact ⟨fun h => h.resolve_left (Ne.symm hf), Or.inr⟩
    rw [kept_of_ne hf, canonical_canonical]
    simp only [hm]

theorem relay_keptBy (fs : List Format) (s : Spec) :
    relay fs s = .ok ((List.range fs.length).map fun i => s.keptBy (fs.take (i + 1))) := by
  induction fs generalizing s with
  | nil => rfl
  | cons f fs ih =>
    -- what the first step keeps is what every later step starts from
    have hsteps : (List.range fs.length).map (fun i => (s.kept f).keptBy (fs.take (i + 1))) =
        (List.range fs.length).map fun i => s.keptBy ((f :: fs).take (i + 1 + 1)) :=
      List.map_congr_left fun i _ => keptBy_kept f (fs.take (i + 1)) s
    rw [relay_cons, ih, hsteps, List.length_cons, List.range_succ_eq_map, List.map_cons,
      List.map_map, kept_eq]
    rfl

/-- translating loses nothing beyond what being canonical does, but for the empty tags from the
first markup on -/
theorem relay_eq (fs : List Format) (s : Spec) :
    relay fs s = .ok ((List.range fs.length).map fun i =>
      if .xml ∈ fs.take (i + 1) then s.canonical.dropEmptyTags else s.canonical) :=
  relay_keptBy fs s

/-- an empty tag is lost in markup, so a step need not leave the canonical specification -/
theorem relay_emptyTag :
    ¬ ∀ (fs : List Format) (s : Spec), fs ≠ [] →
      relay fs s = .ok (fs.map fun _ => s.canonical) := by
  intro h
  have hrelay := h [.xml] { tags := [""] } (by simp)
  rw [relay_cons] at hrelay
  have hkept : [kept .xml { tags := [""] }] = [canonical { tags := [""] }] :=
    Except.ok.inj hrelay
  have htags : ([] : List String) = [""] := congrArg tags (List.cons.inj hkept).1
  cases htags

end MachineSpec.Spec
