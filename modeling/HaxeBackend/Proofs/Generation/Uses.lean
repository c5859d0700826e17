import HaxeBackend.Proofs.Generation.Literals
import HaxeBackend.Proofs.Generation.SourceMaps
import HaxeBackend.Proofs.Lowering.Uses

/-!
# Classes that units use

The functions of a unit use classes as lowered bodies do (`known_of_mem_functions`), and its registration as annotation
literals do (`registered_info?`).  Nothing else in a unit names classes in full.
-/

namespace HaxeBackend.Generation

open Target (ClassUse)

variable {env : Env} {c : ClassModel} {u : Target.SourceUnit}

/-! ### Functions -/

theorem GeneratedFor.known {x : MethodSite × Method} {f : Target.Function} (h : GeneratedFor env x f)
    (hpool : Lowering.PoolIn env.program x.1.pool) : ∀ use ∈ f.body.classUses, Lowering.Known env.program use := by
  cases hf : f.body with
  | lowered b returnsThis =>
    obtain ⟨body, unit, -, hlowered⟩ := h.exists_lowerBody hf
    exact Lowering.known_of_lowerBody hpool hlowered
  | given _ | missing _ _ | errored _ _ _ => exact fun _ huse => absurd huse List.not_mem_nil

/-- The literals of a translated method belong to the class it is written into, or to the class of the unit. -/
theorem pool_of_mem_translated {p : Program} {x : MethodSite × Method} (hx : x ∈ translated p c) :
    x.1.pool = .own ∨ x.1.pool = .through c.name := by
  rcases List.mem_append.1 hx with hx | hx
  · left
    unfold unitMethods at hx
    split at hx
    · obtain ⟨m, -, rfl⟩ := List.mem_map.1 hx
      rfl
    · rcases List.mem_append.1 hx with hx | hx
      · obtain ⟨m, -, rfl⟩ := List.mem_map.1 hx
        rfl
      · obtain ⟨e, -, rfl⟩ := List.mem_map.1 hx
        rfl
  · right
    split at hx
    · unfold adapterCopies at hx
      split at hx
      · obtain ⟨e, -, rfl⟩ := List.mem_map.1 hx
        rfl
      · cases hx
    · cases hx

private theorem poolIn_of_mem_translated (hc : c ∈ env.program.classes) {x : MethodSite × Method}
    (hx : x ∈ translated env.program c) : Lowering.PoolIn env.program x.1.pool := by
  intro className hpool
  rcases pool_of_mem_translated hx with hown | hthrough
  · cases hown.symm.trans hpool
  · obtain rfl := Lowering.PoolAccess.through.inj (hthrough.symm.trans hpool)
    exact ⟨c, Program.find?_name hc⟩

theorem known_of_mem_functions (hc : c ∈ env.program.classes) (h : unit? env c = some u) :
    ∀ f ∈ u.functions, ∀ use ∈ f.body.classUses, Lowering.Known env.program use := by
  intro f hf
  have hall := forall₂_translated h
  obtain ⟨x, hx⟩ : ∃ x, (x, f) ∈ (translated env.program c).zip u.functions := by
    rw [← List.map_snd_zip (Nat.le_of_eq hall.length_eq.symm)] at hf
    obtain ⟨⟨x, f⟩, hmem, rfl⟩ := List.mem_map.1 hf
    exact ⟨x, hmem⟩
  have hgenerated := (List.forall₂_iff_zip.1 hall).2 hx
  exact hgenerated.known (poolIn_of_mem_translated hc (List.of_mem_zip hx).1)

/-! ### Registration -/

private theorem registered_of_gives {info : Option Target.ClassInfo} (h : Gives (classInfo env c) info) :
    Registered env c info := by
  obtain ⟨st, st', hruns⟩ := h
  obtain ⟨info', mid, -, hruns', hregistered, -⟩ := exists_runs_classInfo env c st
  obtain ⟨rfl, -⟩ := hruns.unique hruns'
  exact hregistered

/-- The registration in a unit is that of its class. -/
theorem registered_info? (h : unit? env c = some u) : Registered env c u.info? := by
  obtain ⟨-, i, rfl, hparts⟩ | ⟨-, k, rfl, hparts⟩ := unit?_cases h
  · exact registered_of_gives hparts.info
  · exact registered_of_gives hparts.info

end HaxeBackend.Generation
