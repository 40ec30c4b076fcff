import Mathlib
import MachineSpec.Proofs.Json.Documents
import MachineSpec.Proofs.Json.Nulls
import MachineSpec.Proofs.Json.Uniqueness
import MachineSpec.Proofs.Yaml.Acceptance
import MachineSpec.Proofs.Yaml.Nulls

/-!
# Null and absent members

A member that is null is read as if it were not there, at every depth of a JSON value and of a YAML
document.  So a text with one such member more or less stands for the same specification.

* `Spec.decode_json_change`, `Spec.decode_yaml_change`   a change that what is stood for survives
* `Spec.decode_null`         a member that is null, in both formats
* `Spec.decode_null_iso`     an image whose identifier is null, in both formats
-/

namespace MachineSpec.Spec

open Logged (outcome)

variable {bytes bytes' : Bytes} {s : Spec}

/-- a value that stands for as much as another may take its place -/
theorem decode_json_change {v v' : Json.Value} (hv : v.Encoded bytes) (hv' : v'.Encoded bytes')
    (h : ∀ d, Json.StandsFor shape v d → Json.StandsFor shape v' d)
    (hs : outcome (decode .json bytes) = .ok s) : outcome (decode .json bytes') = .ok s := by
  obtain ⟨w, d, hw, hd, rfl⟩ := (decode_json_eq_ok bytes s).1 hs
  obtain rfl := hw.unique hv
  exact (decode_json_eq_ok bytes' _).2 ⟨v', d, hv', h d hd, rfl⟩

theorem decode_yaml_change {o o' : Yaml.Outline} (ho : o.Written bytes) (ho' : o'.Written bytes')
    (h : ∀ d, Yaml.StandsFor shape o d → Yaml.StandsFor shape o' d)
    (hs : outcome (decode .yaml bytes) = .ok s) : outcome (decode .yaml bytes') = .ok s := by
  obtain ⟨d, hd, rfl⟩ := (decode_yaml_written ho s).1 hs
  exact (decode_yaml_written ho' _).2 ⟨d, h d hd, rfl⟩

/-- a text that is accepted stands for the same with a member that is null more, or less, wherever
its format has a record -/
theorem decode_null (s : Spec) :
    (∀ (bytes bytes' : Bytes) (v v' : Json.Value), v.Encoded bytes → v'.Encoded bytes' →
      (Json.AtRecord Json.AddsNull shape v v' ∨ Json.AtRecord Json.DropsNull shape v v') →
      outcome (decode .json bytes) = .ok s → outcome (decode .json bytes') = .ok s) ∧
    (∀ (bytes bytes' : Bytes) (o o' : Yaml.Outline), o.Written bytes → o'.Written bytes' →
      (Yaml.AtRecord Yaml.AddsNull shape o o' ∨ Yaml.AtRecord Yaml.DropsNull shape o o') →
      outcome (decode .yaml bytes) = .ok s → outcome (decode .yaml bytes') = .ok s) := by
  constructor
  · intro bytes bytes' v v' hv hv' hchange
    refine decode_json_change hv hv' fun d hd => ?_
    cases hchange with
    | inl hadd => exact hadd.standsFor (fun _ _ _ _ h => h.recordsAs) hd
    | inr hdrop => exact hdrop.standsFor (fun _ _ _ _ h => h.recordsAs) hd
  · intro bytes bytes' o o' ho ho' hchange
    refine decode_yaml_change ho ho' fun d hd => ?_
    cases hchange with
    | inl hadd => exact hadd.standsFor (fun _ _ _ _ h => h.recordsAs) hd
    | inr hdrop => exact hdrop.standsFor (fun _ _ _ _ h => h.recordsAs) hd

/-- an image whose identifier is null is one without -/
theorem decode_null_iso :
    outcome (decode .json (Utf8.encode "\x7b\"iso\":\x7b\"id\":null\x7d\x7d")) =
        .ok { iso := some .empty } ∧
      outcome (decode .yaml (Utf8.encode "iso: \x7b\x7d\n")) = .ok { iso := some .empty } := by
  constructor
  · -- here the identifier is added
    have hone : ∀ (key : String) {v : Json.Value} {cs : List Char}, Json.ValueSpelled v cs →
        Json.ValueSpelled (.object [(key, v)]) ("\x7b".toList ++
          ((Json.Quoted.write key).toList ++ (":".toList ++ (cs ++ ['\x7d'])))) :=
      fun key _ _ hv => Json.valueSpelled_object hv (.close Json.blanks_nil)
    have hbare : Json.Value.Encoded (.object [("iso", .object [])])
        (Utf8.encode "\x7b\"iso\":\x7b\x7d\x7d") :=
      Json.encoded_spelled (hone "iso" (.object (.close Json.blanks_nil)))
    have hnull : Json.Value.Encoded (.object [("iso", .object [("id", .null)])])
        (Utf8.encode "\x7b\"iso\":\x7b\"id\":null\x7d\x7d") :=
      Json.encoded_spelled (hone "iso" (hone "id" .null))
    have hadds : Json.AddsNull (Kind.iso.selectors.map (·, .text)) ([] ++ [])
        ([] ++ ("id", .null) :: []) :=
      .between (by decide) List.not_mem_nil
    have hchange : Json.AtRecord Json.AddsNull shape (.object ([] ++ ("iso", .object []) :: []))
        (.object ([] ++ ("iso", .object [("id", .null)]) :: [])) :=
      .member rfl (.here hadds)
    have hread : outcome (decode .json (Utf8.encode "\x7b\"iso\":\x7b\x7d\x7d")) =
        .ok { iso := some .empty } := by
      refine (decode_json_eq_ok _ _).2 ⟨_, .record [("iso", .record [])], hbare, ?_, rfl⟩
      have hiso : Json.StandsFor Kind.iso.shape (.object []) (.record []) :=
        .object List.nodup_nil (.nil _)
      exact .object (by decide) (.cons rfl (.value hiso) (.nil _))
    exact (decode_null _).1 _ _ _ _ hbare hnull (.inl hchange) hread
  · -- here it is taken away
    have hnull : Yaml.Outline.Written
        (.mapping [(.scalar .plain "iso", .mapping [(.scalar .plain "id", .scalar .plain "~")])])
        (Utf8.encode "iso:\n  id: ~\n") := by
      refine ⟨.mapping ⟨0, 0, 0⟩ {} [(.scalar ⟨0, 0, 0⟩ {} .plain "iso", .mapping ⟨7, 1, 2⟩ {}
        [(.scalar ⟨7, 1, 2⟩ {} .plain "id", .scalar ⟨11, 1, 6⟩ {} .plain "~")])], by cbv, ?_⟩
      exact .mapping _ (.cons (.scalar _ _ _)
        (.mapping _ (.cons (.scalar _ _ _) (.scalar _ _ _) .nil)) .nil)
    have hbare : Yaml.Outline.Written (.mapping [(.scalar .plain "iso", .mapping [])])
        (Utf8.encode "iso: \x7b\x7d\n") := by
      refine ⟨.mapping ⟨0, 0, 0⟩ {} [(.scalar ⟨0, 0, 0⟩ {} .plain "iso",
        .mapping ⟨5, 0, 5⟩ {} [])], by cbv, ?_⟩
      exact .mapping _ (.cons (.scalar _ _ _) (.mapping _ .nil) .nil)
    have hdrops : Yaml.DropsNull (Kind.iso.selectors.map (·, .text))
        ([] ++ (.scalar .plain "id", .scalar .plain "~") :: []) ([] ++ []) := .between rfl
    have hchange : Yaml.AtRecord Yaml.DropsNull shape
        (.mapping ([] ++ (.scalar .plain "iso",
          .mapping [(.scalar .plain "id", .scalar .plain "~")]) :: []))
        (.mapping ([] ++ (.scalar .plain "iso", .mapping []) :: [])) :=
      .member rfl (.here hdrops)
    have hread : outcome (decode .yaml (Utf8.encode "iso:\n  id: ~\n")) =
        .ok { iso := some .empty } := by
      refine (decode_yaml_written hnull _).2 ⟨.record [("iso", .record [])], ?_, rfl⟩
      have hid : Yaml.StandsFor Kind.iso.shape
          (.mapping [(.scalar .plain "id", .scalar .plain "~")]) (.record []) :=
        .record (by decide) (.cons .plain rfl (.null rfl) (.nil _))
      exact .record (by decide) (.cons .plain rfl (.value rfl hid) (.nil _))
    exact (decode_null _).2 _ _ _ _ hnull hbare (.inr hchange) hread

end MachineSpec.Spec
