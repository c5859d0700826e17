import HaxeBackend.Model.Error
import HaxeBackend.Model.Ty

/-!
# Reading type descriptors

A type is `V`, or a run of `[` followed by a primitive letter or by `L`, a class name and `;`.  A method type is
`(`, types other than `V`, `)` and a return type.  Class names are written with slashes and held with dots.
-/

namespace HaxeBackend

/-- Slashes become dots in names. -/
def Ty.dotted (c : Char) : Char := if c = '/' then '.' else c

namespace Descriptor

/-- A type without dimensions, and what follows it. -/
def takeElement : List Char → Option (Ty × List Char)
  | [] => none
  | 'L' :: cs =>
    match cs.dropWhile (· ≠ ';') with
    | [] => none
    | _ :: rest => some (.ref (String.ofList ((cs.takeWhile (· ≠ ';')).map Ty.dotted)), rest)
  | c :: cs => (Prim.ofCode? c).map fun kind => (.prim kind, cs)

/-- One type from the front, and what follows it. -/
def takeType (cs : List Char) : Option (Ty × List Char) :=
  match (cs.takeWhile (· = '[')).length, cs.dropWhile (· = '[') with
  | 0, 'V' :: rest => some (.void, rest)
  | 0, rest => takeElement rest
  | dims, rest =>
    if dims < UInt32.size then (takeElement rest).map fun (element, rest) => (Ty.arrayOf element dims, rest)
    else none

theorem length_takeElement {cs rest : List Char} {t : Ty} (h : takeElement cs = some (t, rest)) :
    rest.length < cs.length := by
  unfold takeElement at h
  split at h
  · simp at h
  · rename_i ds
    have hlen := (List.dropWhile_sublist (l := ds) (· ≠ ';')).length_le
    split at h
    · simp at h
    · rename_i heq
      simp only [Option.some.injEq, Prod.mk.injEq] at h
      rw [heq] at hlen
      simp only [List.length_cons, ← h.2] at hlen ⊢
      omega
  · simp only [Option.map_eq_some_iff, Prod.mk.injEq] at h
    obtain ⟨_, _, _, h⟩ := h
    simp [← h]

theorem length_takeType {cs rest : List Char} {t : Ty} (h : takeType cs = some (t, rest)) :
    rest.length < cs.length := by
  unfold takeType at h
  have hlen := (List.dropWhile_sublist (l := cs) (· = '[')).length_le
  split at h
  · rename_i heq
    simp only [Option.some.injEq, Prod.mk.injEq] at h
    rw [heq] at hlen
    simp only [List.length_cons, h.2] at hlen
    omega
  · have := length_takeElement h
    omega
  · split at h
    · simp only [Option.map_eq_some_iff, Prod.mk.injEq] at h
      obtain ⟨⟨_, _⟩, h, _, rfl⟩ := h
      have := length_takeElement h
      dsimp only
      omega
    · simp at h

/-- The argument types up to the closing parenthesis, and what follows it. -/
def takeArgs (cs : List Char) : Option (List Ty × List Char) :=
  match cs with
  | [] => none
  | ')' :: rest => some ([], rest)
  | cs =>
    match h : takeType cs with
    | none => none
    | some (t, rest) =>
      have := length_takeType h
      if t.isVoid then none
      else (takeArgs rest).map fun (args, rest) => (t :: args, rest)
termination_by cs.length
decreasing_by omega

end Descriptor

/-- The type a descriptor denotes. -/
def Ty.ofDescriptor (text : String) : Except ModelError Ty :=
  match Descriptor.takeType text.toList with
  | some (t, []) => .ok t
  | _ => .error (.descriptor text)

/-- The method type a descriptor denotes.  A bad return type is reported on its own. -/
def MethodTy.ofDescriptor (text : String) : Except ModelError MethodTy :=
  match text.toList with
  | '(' :: cs =>
    match Descriptor.takeArgs cs with
    | some (args, rest) => (Ty.ofDescriptor (String.ofList rest)).map fun ret => ⟨args, ret⟩
    | none => .error (.descriptor text)
  | _ => .error (.descriptor text)

end HaxeBackend
