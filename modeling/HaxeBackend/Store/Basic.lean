import HaxeBackend.Lowering.Error

/-!
# Writing files into a store

A store takes files one by one and may refuse one, with a reason.  Writing stops at the first refusal, and what was
written until then stays.
-/

namespace HaxeBackend

/-- A way to put a file into a store of type `σ`: whether it was taken, or the reason for a refusal, and the store
afterwards. -/
abbrev FileWriter (σ : Type) := σ → String → String → Except String Unit × σ

/-- Writes files in order and counts them. -/
def writeFiles {σ : Type} (write : FileWriter σ) (store : σ) :
    List (String × String) → Except GenError Nat × σ
  | [] => (.ok 0, store)
  | (path, text) :: rest =>
    match write store path text with
    | (.error reason, last) => (.error (.unwritable path reason), last)
    | (.ok (), next) =>
      let (result, last) := writeFiles write next rest
      (result.map (· + 1), last)

end HaxeBackend
