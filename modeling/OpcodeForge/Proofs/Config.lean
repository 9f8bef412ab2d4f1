import Mathlib.Data.List.Basic
import OpcodeForge.Config

/-!
# Valid configurations

A configuration is valid if no two outputs have the same components and none has those of the table
or the manifest. Only components are compared, and the table and the manifest not with each other.
-/

namespace OpcodeForge

theorem Path.same_comm (p q : Path) : p.same q = q.same p := by
  rw [Path.same, Path.same, Bool.beq_comm]

namespace Config

/-- Outputs are accepted that differ from those before them, from each other and from the inputs. -/
theorem checkOutputs_eq_ok_iff {c : Config} {seen outputs : List Path} :
    c.checkOutputs seen outputs = .ok () ↔
      (∀ output ∈ outputs, ∀ earlier ∈ seen, output.same earlier = false) ∧
      outputs.Pairwise (fun output later => output.same later = false) ∧
      ∀ output ∈ outputs, output.same c.table = false ∧ output.same c.manifest = false := by
  induction outputs generalizing seen with
  | nil => simp [checkOutputs]
  | cons output outputs ih =>
      rw [checkOutputs, List.pairwise_cons]
      simp only [List.forall_mem_cons]
      split
      · rename_i hseen
        obtain ⟨earlier, hearlier, hsame⟩ := List.any_eq_true.mp hseen
        grind
      · rename_i hseen
        simp only [List.any_eq_true, not_exists, not_and, Bool.not_eq_true] at hseen
        split
        · grind
        · rw [ih]
          simp only [List.forall_mem_cons]
          grind [Path.same_comm]

theorem validate_eq_ok_iff {c : Config} :
    c.validate = .ok () ↔
      c.outputs.toList.Pairwise (fun output later => output.same later = false) ∧
      (∀ output ∈ c.outputs.toList,
        output.same c.table = false ∧ output.same c.manifest = false) ∧
      ∀ path ∈ c.paths.named, (Text.trim path).isEmpty = false := by
  have houtputs := @checkOutputs_eq_ok_iff c [] c.outputs.toList
  simp only [List.not_mem_nil, false_implies, implies_true, true_and] at houtputs
  rw [← and_assoc, ← houtputs, validate]
  cases c.checkOutputs [] c.outputs.toList with
  | error cause => simp [bind, Except.bind]
  | ok _ =>
      by_cases hnamed : c.paths.named.any (fun path => (Text.trim path).isEmpty) = true
      · simp_all [bind, Except.bind, throw, throwThe, MonadExceptOf.throw]
      · simp_all [bind, Except.bind, pure, Except.pure]

end Config

end OpcodeForge
