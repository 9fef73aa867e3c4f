import AdventureScript.Symbols
import Mathlib.Order.Nat

/-!
The storage of variables: which fields a struct has, and which parts a variable consists of.
-/
namespace AdventureScript

inductive TypeTable.HasField (types : TypeTable) : TypeId → Field → Prop where
  | own {id s name f} : types.struct? id = some s → (name, f) ∈ s.fields → HasField types id f
  | inherited {id s parent f} : types.struct? id = some s → s.parent = some parent →
      HasField types parent f → HasField types id f

namespace StructDef

variable {s : StructDef} {name : String} {f : Field}

lemma mem_fields : (name, f) ∈ s.fields ↔ ⟨name, .field f⟩ ∈ s.members.toList := by
  simp only [fields, List.mem_filterMap]
  constructor
  · rintro ⟨m, hm, h⟩
    split at h
    · next hc =>
      obtain ⟨rfl, rfl⟩ : m.name = name ∧ _ = f := by simpa using h
      rwa [← hc]
    · cases h
  · intro h
    exact ⟨_, h, rfl⟩

lemma mem_fields_of_component? (h : s.component? name = some (.field f)) :
    (name, f) ∈ s.fields := by
  rw [component?, Option.map_eq_some_iff] at h
  obtain ⟨m, hm, hc⟩ := h
  have hname : m.name = name := by simpa using List.find?_some hm
  have hmem := List.mem_reverse.1 (List.mem_of_find?_eq_some hm)
  rw [mem_fields, ← hname, ← hc]
  exact hmem

end StructDef

namespace TypeTable

variable {types : TypeTable} {id owner : TypeId} {name : String} {f : Field}

lemma hasField_of_lineageFrom {steps : Nat}
    (h : (types.lineageFrom steps id).findSome? (fun owner =>
      ((types.struct? owner).bind (·.component? name)).map (owner, ·)) = some (owner, .field f)) :
    types.HasField id f := by
  have own : ∀ {id : TypeId}, ((types.struct? id).bind (·.component? name)).map (id, ·) =
      some (owner, .field f) → types.HasField id f := by
    intro id h
    obtain ⟨c, hc, he⟩ := Option.map_eq_some_iff.1 h
    obtain ⟨s, hs, hc⟩ := Option.bind_eq_some_iff.1 hc
    obtain ⟨rfl, rfl⟩ : id = owner ∧ c = .field f := by simpa using he
    exact .own hs (StructDef.mem_fields_of_component? hc)
  induction steps generalizing id with
  | zero =>
    simp only [lineageFrom, List.findSome?_cons] at h
    split at h
    · next hs => exact own (hs.trans h)
    · cases h
  | succ steps ih =>
    simp only [lineageFrom, List.findSome?_cons] at h
    split at h
    · next hs => exact own (hs.trans h)
    · cases hp : types.parent? id with
      | none => simp [hp] at h
      | some parent =>
        simp only [hp] at h
        obtain ⟨s, hs, hp⟩ := Option.bind_eq_some_iff.1 hp
        exact .inherited hs hp (ih h)

lemma hasField_of_findComponent? (h : types.findComponent? id name = some (owner, .field f)) :
    types.HasField id f :=
  hasField_of_lineageFrom h

end TypeTable

/-- A variable of type `t` has a part of the given type, so many bytes behind its start. -/
inductive Ty.HasPart (types : TypeTable) (t : Ty) : UInt32 → Ty → Prop where
  | whole : HasPart types t 0 t
  | field {k u id f} : HasPart types t k u → u.isScalar = true → u.pointer = false →
      u.structId? = some id → types.HasField id f → HasPart types t (k + f.offset) f.ty
  | element {k u dims i} : HasPart types t k u → u.shape = .static dims → i < dims.headD 1 →
      HasPart types t (k + i * u.afterIndex.size types) u.afterIndex

end AdventureScript
