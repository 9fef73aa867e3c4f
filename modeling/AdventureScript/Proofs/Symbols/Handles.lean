import AdventureScript.Types.Handles
import AdventureScript.Proofs.Symbols.Packing
import Mathlib.Algebra.Order.BigOperators.GroupWithZero.List
import Mathlib.Algebra.Order.Ring.Nat
import Mathlib.Data.Finset.Card

/-!
The handles within a variable. Structs are built from structs that come before them, so looking
through as many of them as the table has finds every handle, and what is found lies in places that
do not overlap.
-/
namespace AdventureScript
namespace TypeTable

variable {types : TypeTable} {id p : TypeId} {s : StructDef} {f : Field} {open? : Option TypeId}
  {rank : TypeId → Nat} {m n : Nat}

structure Ranked (types : TypeTable) (rank : TypeId → Nat) : Prop where
  lt : ∀ {id s}, types.struct? id = some s → rank id < types.defs.size
  parent : ∀ {id s p}, types.struct? id = some s → s.parent = some p → rank p < rank id
  field : ∀ {id s name f id'}, types.struct? id = some s → (name, f) ∈ s.fields →
    f.ty.pointer = false → f.ty.base = .struct id' → rank id' < rank id

lemma index_lt (h : types.struct? id = some s) : id.index < types.defs.size :=
  (Array.getElem?_eq_some_iff.1 (struct?_eq_some.1 h)).1

lemma Sound.exists_ranked (h : types.Sound open?) : ∃ rank, types.Ranked rank := by
  obtain ⟨rank, hrank⟩ := h.ordered
  let before (id : TypeId) := (Finset.range types.defs.size).filter fun i => rank ⟨i⟩ < rank id
  have hmono {p id : TypeId} {s : StructDef} (hp : types.struct? p = some s)
      (hlt : rank p < rank id) : (before p).card < (before id).card := by
    refine Finset.card_lt_card (Finset.ssubset_iff_of_subset ?_ |>.2 ⟨p.index, ?_, ?_⟩)
    · intro i hi
      simp only [before, Finset.mem_filter] at hi ⊢
      exact ⟨hi.1, hi.2.trans hlt⟩
    · simpa [before] using ⟨index_lt hp, hlt⟩
    · simp [before]
  refine ⟨fun id => (before id).card, ?_, ?_, ?_⟩
  · intro id s hs
    have hsubset : before id ⊂ Finset.range types.defs.size :=
      Finset.filter_ssubset.2 ⟨id.index, Finset.mem_range.2 (index_lt hs), Nat.lt_irrefl _⟩
    simpa using Finset.card_lt_card hsubset
  · intro id s p hs hp
    obtain ⟨t, ht, _⟩ := h.parent hs hp
    exact hmono ht ((hrank hs).1 hp)
  · intro id s name f id' hs hf hpointer hbase
    obtain ⟨t, ht, _⟩ := h.fields hs hf hpointer id' hbase
    exact hmono ht ((hrank hs).2 hf hpointer hbase)

variable (h : types.Ranked rank)
include h

lemma Ranked.lineageFrom_congr (hm : rank id ≤ m) (hn : rank id ≤ n) :
    types.lineageFrom m id = types.lineageFrom n id := by
  have none_of_zero {id : TypeId} (hz : rank id ≤ 0) : types.parent? id = none := by
    cases hp : types.parent? id with
    | none => rfl
    | some p =>
      obtain ⟨s, hs, hp⟩ := Option.bind_eq_some_iff.1 hp
      have := h.parent hs hp
      omega
  induction m generalizing id n with
  | zero =>
    cases n with
    | zero => rfl
    | succ n => simp [lineageFrom, none_of_zero hm]
  | succ m ih =>
    cases n with
    | zero => simp [lineageFrom, none_of_zero hn]
    | succ n =>
      simp only [lineageFrom]
      cases hp : types.parent? id with
      | none => rfl
      | some p =>
        obtain ⟨s, hs, hp⟩ := Option.bind_eq_some_iff.1 hp
        have := h.parent hs hp
        simp only [ih (n := n) (show rank p ≤ m by omega) (by omega)]

lemma Ranked.lineage_eq (hs : types.struct? id = some s) :
    types.lineage id = id :: ((s.parent.map types.lineage).getD []) := by
  have hlt := h.lt hs
  obtain ⟨n, hn⟩ : ∃ n, types.defs.size = n + 1 := ⟨types.defs.size - 1, by omega⟩
  rw [lineage, hn, lineageFrom]
  have hparent : types.parent? id = s.parent := by simp [parent?, hs]
  rw [hparent]
  cases hp : s.parent with
  | none => rfl
  | some p =>
    have := h.parent hs hp
    simp only [Option.map_some, Option.getD_some, lineage]
    rw [h.lineageFrom_congr (m := n) (n := types.defs.size) (by omega) (by omega)]

lemma Ranked.allFields_eq (hs : types.struct? id = some s) :
    types.allFields id = s.fields.map (·.2) ++ ((s.parent.map types.allFields).getD []) := by
  rw [allFields, h.lineage_eq hs, List.flatMap_cons, hs]
  cases s.parent <;> rfl

omit h in
lemma allFields_eq_nil (hs : types.struct? id = none) : types.allFields id = [] := by
  have hlineage : types.lineage id = [id] := by
    rw [lineage]
    cases types.defs.size <;> simp [lineageFrom, parent?, hs]
  simp [allFields, hlineage, hs]

lemma Ranked.mem_allFields : f ∈ types.allFields id ↔ types.HasField id f := by
  induction hn : rank id using Nat.strong_induction_on generalizing id with
  | _ n ih =>
    cases hs : types.struct? id with
    | none =>
      rw [allFields_eq_nil hs]
      refine ⟨nofun, fun hf => ?_⟩
      cases hf <;> simp_all
    | some s =>
      rw [h.allFields_eq hs, List.mem_append]
      constructor
      · rintro (hf | hf)
        · obtain ⟨⟨name, f'⟩, hmem, rfl⟩ := List.mem_map.1 hf
          exact .own hs hmem
        · cases hp : s.parent with
          | none => simp [hp] at hf
          | some p =>
            rw [hp] at hf
            exact .inherited hs hp ((ih _ (hn ▸ h.parent hs hp) rfl).1 hf)
      · intro hf
        cases hf with
        | own hs' hmem =>
          obtain rfl := Option.some.inj (hs.symm.trans hs')
          exact .inl (List.mem_map.2 ⟨_, hmem, rfl⟩)
        | inherited hs' hp hf =>
          obtain rfl := Option.some.inj (hs.symm.trans hs')
          rw [hp]
          exact .inr ((ih _ (hn ▸ h.parent hs hp) rfl).2 hf)

lemma Ranked.hasField (hf : types.HasField id f)
    (hpointer : f.ty.pointer = false) {id' : TypeId} (hbase : f.ty.base = .struct id') :
    rank id' < rank id := by
  induction hf with
  | own hs hmem => exact h.field hs hmem hpointer hbase
  | inherited hs hp _ ih => exact (ih hpointer hbase).trans (h.parent hs hp)

end TypeTable

namespace Ty

variable {types : TypeTable} {id : TypeId} {f : Field} {t u w : Ty} {k : UInt32}
  {rank : TypeId → Nat} {m n : Nat} {dims : List UInt32}

/-- What a variable of the type stores in place has a rank below `n`. -/
def Within (t : Ty) (rank : TypeId → Nat) (n : Nat) : Prop :=
  t.pointer = false → ∀ id, t.base = .struct id → rank id < n

lemma Complete.within (ht : t.Complete types) (hr : types.Ranked rank) :
    t.Within rank types.defs.size := fun hp id hid => by
  obtain ⟨s, hs, _⟩ := ht hp id hid
  exact hr.lt hs

lemma Within.field (ht : t.Within rank (n + 1)) (hp : t.pointer = false)
    (hid : t.structId? = some id) (hr : types.Ranked rank) (hf : types.HasField id f) :
    f.ty.Within rank n := fun hp' id' hid' => by
  have := hr.hasField hf hp' hid'
  have := ht hp id (TypeTable.structId?_eq_some.1 hid)
  omega

lemma Within.pos (ht : t.Within rank n) (hp : t.pointer = false) (hid : t.structId? = some id) :
    ∃ m, n = m + 1 := by
  have := ht hp id (TypeTable.structId?_eq_some.1 hid)
  exact ⟨n - 1, by omega⟩

def elementSlots (types : TypeTable) (depth : Nat) (t : Ty) : List Int32 :=
  if t.pointer || t.isDynamicArray then [0]
  else match depth, t.structId? with
    | depth + 1, some id =>
      (types.allFields id).flatMap fun f =>
        (handleSlotsWithin types depth f.ty).map (f.offset.toInt32 + ·)
    | _, _ => []

lemma handleSlotsWithin_eq : handleSlotsWithin types n t =
    (t.elementStarts types).flatMap fun start => (elementSlots types n t).map (start + ·) := by
  rw [handleSlotsWithin.eq_def]
  change (if (elementSlots types n t).isEmpty then [] else _) = _
  split
  · next hempty => simp [List.isEmpty_iff.1 hempty]
  · rfl

lemma elementSlots_of_handle (h : (t.pointer || t.isDynamicArray) = true) :
    elementSlots types n t = [0] :=
  if_pos h

lemma elementSlots_of_struct (h : (t.pointer || t.isDynamicArray) = false)
    (hid : t.structId? = some id) : elementSlots types (n + 1) t =
      (types.allFields id).flatMap fun f =>
        (handleSlotsWithin types n f.ty).map (f.offset.toInt32 + ·) := by
  simp [elementSlots, h, hid]

lemma elementSlots_of_none (h : (t.pointer || t.isDynamicArray) = false)
    (hid : t.structId? = none) : elementSlots types n t = [] := by
  simp [elementSlots, h, hid]

/-- Where the handles of a variable are, as distances from its start, as far as they are found by
looking through `n` structs. -/
def slotsWithin (types : TypeTable) (n : Nat) (t : Ty) : List UInt32 :=
  (handleSlotsWithin types n t).map (·.toUInt32)

def slots (t : Ty) (types : TypeTable) : List UInt32 :=
  slotsWithin types types.defs.size t

lemma handleSlots_eq : t.handleSlots types = (t.slots types).map (·.toInt32) := by
  simp [slots, slotsWithin, handleSlots, Function.comp_def]

lemma slotsWithin_scalar (hshape : t.shape = .scalar) : slotsWithin types n t =
    (elementSlots types n t).map (·.toUInt32) := by
  simp [slotsWithin, handleSlotsWithin_eq, elementStarts, hshape]

lemma elementStarts_of_not_static (h : t.isStaticArray = false) : t.elementStarts types = [0] := by
  unfold elementStarts
  split
  · next hshape => simp [isStaticArray, hshape] at h
  · rfl

lemma slotsWithin_of_isHandle (h : t.isHandle = true) : slotsWithin types n t = [0] := by
  have hstatic : t.isStaticArray = false := by
    cases hshape : t.shape <;> simp_all [isHandle, isPointer, isScalar, isDynamicArray, isStaticArray]
  have hp : (t.pointer || t.isDynamicArray) = true := by
    cases hp : t.pointer <;> simp_all [isHandle, isPointer]
  simp [slotsWithin, handleSlotsWithin_eq, elementStarts_of_not_static hstatic,
    elementSlots_of_handle hp]
  rfl

lemma slotsWithin_of_struct (hshape : t.shape = .scalar) (hpointer : t.pointer = false)
    (hid : t.structId? = some id) : slotsWithin types (n + 1) t =
      (types.allFields id).flatMap fun f => (slotsWithin types n f.ty).map (f.offset + ·) := by
  have hp : (t.pointer || t.isDynamicArray) = false := by simp [hpointer, isDynamicArray, hshape]
  rw [slotsWithin_scalar hshape, elementSlots_of_struct hp hid, List.map_flatMap]
  simp [slotsWithin, Function.comp_def]

lemma slotsWithin_static (hshape : t.shape = .static dims) : slotsWithin types n t =
    (List.range (elementCount dims).toNat).flatMap fun i =>
      (slotsWithin types n t.element).map (i.toUInt32 * t.elementSize types + ·) := by
  have helement : elementSlots types n t = elementSlots types n t.element := by
    cases n <;> simp [elementSlots, element, isDynamicArray, hshape, structId?]
  rw [slotsWithin_scalar (t := t.element) rfl, ← helement]
  simp [slotsWithin, handleSlotsWithin_eq, elementStarts, hshape, List.map_flatMap,
    List.flatMap_map, Function.comp_def]

lemma holdsHandleWithin_of_isHandle (h : t.isHandle = true) :
    holdsHandleWithin types n t = true := by
  cases n <;> simp [holdsHandleWithin, h]

lemma holdsHandleWithin_of_struct (hshape : t.shape = .scalar) (hpointer : t.pointer = false)
    (hid : t.structId? = some id) : holdsHandleWithin types (n + 1) t =
      (types.allFields id).any fun f => holdsHandleWithin types n f.ty := by
  simp [holdsHandleWithin, hid, isHandle, isPointer, isDynamicArray, isStaticArray, hpointer, hshape]

lemma holdsHandleWithin_of_none (hshape : t.shape = .scalar) (hpointer : t.pointer = false)
    (hid : t.structId? = none) : holdsHandleWithin types n t = false := by
  cases n <;> simp [holdsHandleWithin, hid, isHandle, isPointer, isDynamicArray, hshape, hpointer]

lemma holdsHandleWithin_static (hshape : t.shape = .static dims) :
    holdsHandleWithin types n t = holdsHandleWithin types n t.element := by
  cases n <;>
    simp [holdsHandleWithin, isHandle, isPointer, isDynamicArray, isScalar, isStaticArray, hshape,
      element, structId?]

/-! ## Parts within parts -/

lemma HasPart.trans (h : t.HasPart types k u) {j : UInt32} (h' : u.HasPart types j w) :
    t.HasPart types (k + j) w := by
  induction h' with
  | whole => simpa using h
  | field _ hscalar hpointer hid hf ih =>
    rw [← UInt32.add_assoc]
    exact .field ih hscalar hpointer hid hf
  | element _ hshape hi ih =>
    rw [← UInt32.add_assoc]
    exact .element ih hshape hi

lemma hasPart_field (hshape : t.shape = .scalar) (hpointer : t.pointer = false)
    (hid : t.structId? = some id) (hf : types.HasField id f) : t.HasPart types f.offset f.ty := by
  have h : t.HasPart types 0 t := .whole
  simpa using h.field (by simp [isScalar, hshape]) hpointer hid hf

lemma hasPart_index {i : UInt32} (hshape : t.shape = .static dims) (hi : i < dims.headD 1) :
    t.HasPart types (i * t.afterIndex.size types) t.afterIndex := by
  have h : t.HasPart types 0 t := .whole
  simpa using h.element hshape hi

lemma HasPart.cases_first (h : t.HasPart types k w) :
    (k = 0 ∧ w = t) ∨
    (∃ id f j, t.isStructValue = true ∧ t.structId? = some id ∧ types.HasField id f ∧
      f.ty.HasPart types j w ∧ k = f.offset + j) ∨
    (∃ dims i j, t.shape = .static dims ∧ i < dims.headD 1 ∧ t.afterIndex.HasPart types j w ∧
      k = i * t.afterIndex.size types + j) := by
  induction h with
  | whole => exact .inl ⟨rfl, rfl⟩
  | @field k u id f hp hscalar hpointer hid hf ih =>
    rcases ih with ⟨rfl, rfl⟩ | ⟨id', f', j, hvalue, hid', hf', hj, rfl⟩ | ⟨dims, i, j, hshape, hi, hj, rfl⟩
    · exact .inr (.inl ⟨id, f, 0, by simp [isStructValue, hscalar, hpointer, hid], hid, hf, .whole, by simp⟩)
    · exact .inr (.inl ⟨id', f', j + f.offset, hvalue, hid', hf', .field hj hscalar hpointer hid hf,
        UInt32.add_assoc ..⟩)
    · exact .inr (.inr ⟨dims, i, j + f.offset, hshape, hi, .field hj hscalar hpointer hid hf,
        UInt32.add_assoc ..⟩)
  | @element k u dims i hp hshape hi ih =>
    rcases ih with ⟨rfl, rfl⟩ | ⟨id', f', j, hvalue, hid', hf', hj, rfl⟩ | ⟨dims', i', j, hshape', hi', hj, rfl⟩
    · exact .inr (.inr ⟨dims, i, 0, hshape, hi, .whole, by simp⟩)
    · exact .inr (.inl ⟨id', f', _, hvalue, hid', hf', .element hj hshape hi, UInt32.add_assoc ..⟩)
    · exact .inr (.inr ⟨dims', i', _, hshape', hi', .element hj hshape hi, UInt32.add_assoc ..⟩)

def HasHandle (types : TypeTable) (t : Ty) (k : UInt32) : Prop :=
  ∃ u, t.HasPart types k u ∧ u.isHandle = true

lemma hasHandle_of_isHandle (h : t.isHandle = true) : t.HasHandle types k ↔ k = 0 := by
  have hvalue : t.isStructValue = false := by
    cases hshape : t.shape <;>
      simp_all [isHandle, isPointer, isScalar, isDynamicArray, isStructValue]
  constructor
  · rintro ⟨u, hu, _⟩
    rcases hu.cases_first with ⟨rfl, _⟩ | ⟨_, _, _, hvalue', _⟩ | ⟨dims, _, _, hshape, _⟩
    · rfl
    · simp [hvalue] at hvalue'
    · simp [isHandle, isPointer, isScalar, isDynamicArray, hshape] at h
  · rintro rfl
    exact ⟨t, .whole, h⟩

lemma hasHandle_of_struct (hshape : t.shape = .scalar) (hpointer : t.pointer = false)
    (hid : t.structId? = some id) :
    t.HasHandle types k ↔ ∃ f j, types.HasField id f ∧ f.ty.HasHandle types j ∧ k = f.offset + j := by
  constructor
  · rintro ⟨u, hu, hhandle⟩
    rcases hu.cases_first with ⟨rfl, rfl⟩ | ⟨id', f, j, _, hid', hf, hj, rfl⟩ | ⟨dims, _, _, hstatic, _⟩
    · simp [isHandle, isPointer, isDynamicArray, hshape, hpointer] at hhandle
    · obtain rfl := Option.some.inj (hid.symm.trans hid')
      exact ⟨f, j, hf, ⟨u, hj, hhandle⟩, rfl⟩
    · simp [hshape] at hstatic
  · rintro ⟨f, j, hf, ⟨u, hj, hhandle⟩, rfl⟩
    exact ⟨u, (hasPart_field hshape hpointer hid hf).trans hj, hhandle⟩

lemma not_hasHandle_of_none (hshape : t.shape = .scalar) (hpointer : t.pointer = false)
    (hid : t.structId? = none) : ¬t.HasHandle types k := by
  rintro ⟨u, hu, hhandle⟩
  rcases hu.cases_first with ⟨_, rfl⟩ | ⟨_, _, _, _, hid', _⟩ | ⟨_, _, _, hstatic, _⟩
  · simp [isHandle, isPointer, isDynamicArray, hshape, hpointer] at hhandle
  · simp [hid] at hid'
  · simp [hshape] at hstatic

/-! ## Arrays -/

def places (dims : List UInt32) : Nat :=
  (dims.map (·.toNat)).prod

lemma afterIndex_size (hshape : t.shape = .static dims) : t.afterIndex.size types =
    UInt32.ofNat (places dims.tail) * t.elementSize types := by
  match dims with
  | [] | [_] => simp [afterIndex, hshape, size, element, elementSize, places]
  | d :: e :: ds => simp [afterIndex, hshape, size, elementSize, elementCount_eq, places]

lemma hasHandle_afterIndex (hshape : t.shape = .static dims) : t.HasHandle types k ↔
    ∃ i j, i < dims.headD 1 ∧ t.afterIndex.HasHandle types j ∧
      k = i * (UInt32.ofNat (places dims.tail) * t.elementSize types) + j := by
  rw [← afterIndex_size hshape]
  constructor
  · rintro ⟨u, hu, hhandle⟩
    rcases hu.cases_first with ⟨rfl, rfl⟩ | ⟨_, _, _, hvalue, _⟩ | ⟨dims', i, j, hshape', hi, hj, rfl⟩
    · simp [isHandle, isPointer, isScalar, isDynamicArray, hshape] at hhandle
    · simp [isStructValue, isScalar, hshape] at hvalue
    · obtain rfl : dims = dims' := by simpa [hshape] using hshape'
      exact ⟨i, j, hi, ⟨u, hj, hhandle⟩, rfl⟩
  · rintro ⟨i, j, hi, ⟨u, hj, hhandle⟩, rfl⟩
    exact ⟨u, (hasPart_index hshape hi).trans hj, hhandle⟩

lemma places_eq : places dims = (dims.headD 1).toNat * places dims.tail := by
  cases dims <;> simp [places]

lemma exists_place_iff {step base : UInt32} :
    (∃ i < places dims, k = UInt32.ofNat i * step + base) ↔
      ∃ h i, h < dims.headD 1 ∧ i < places dims.tail ∧
        k = h * (UInt32.ofNat (places dims.tail) * step) + (UInt32.ofNat i * step + base) := by
  rw [places_eq]
  constructor
  · rintro ⟨i, hi, rfl⟩
    have hpos : 0 < places dims.tail := Nat.pos_of_ne_zero fun hz => by simp [hz] at hi
    have hdiv : i / places dims.tail < (dims.headD 1).toNat :=
      Nat.div_lt_of_lt_mul (by rwa [Nat.mul_comm] at hi)
    refine ⟨UInt32.ofNat (i / places dims.tail), i % places dims.tail, ?_, Nat.mod_lt _ hpos, ?_⟩
    · rw [UInt32.lt_iff_toNat_lt, UInt32.toNat_ofNat_of_lt' (hdiv.trans (dims.headD 1).toNat_lt)]
      exact hdiv
    · have hi : UInt32.ofNat i = UInt32.ofNat (i / places dims.tail) * UInt32.ofNat (places dims.tail) +
          UInt32.ofNat (i % places dims.tail) := by
        rw [← UInt32.ofNat_mul, ← UInt32.ofNat_add, Nat.div_add_mod']
      grind
  · rintro ⟨h, i, hh, hi, rfl⟩
    refine ⟨h.toNat * places dims.tail + i, ?_, ?_⟩
    · calc h.toNat * places dims.tail + i < (h.toNat + 1) * places dims.tail := by
            rw [Nat.add_mul]
            omega
        _ ≤ _ := Nat.mul_le_mul_right _ hh
    · rw [UInt32.ofNat_add, UInt32.ofNat_mul, UInt32.ofNat_toNat]
      grind

lemma hasHandle_static_of_rest (hshape : t.shape = .static dims)
    (hrest : ∀ j, t.afterIndex.HasHandle types j ↔ ∃ l, t.element.HasHandle types l ∧
      ∃ i < places dims.tail, j = UInt32.ofNat i * t.elementSize types + l) :
    t.HasHandle types k ↔ ∃ l, t.element.HasHandle types l ∧
      ∃ i < places dims, k = UInt32.ofNat i * t.elementSize types + l := by
  rw [hasHandle_afterIndex hshape]
  constructor
  · rintro ⟨h, j, hh, hj, rfl⟩
    obtain ⟨l, hl, i, hi, rfl⟩ := (hrest j).1 hj
    exact ⟨l, hl, exists_place_iff.2 ⟨h, i, hh, hi, rfl⟩⟩
  · rintro ⟨l, hl, hplace⟩
    obtain ⟨h, i, hh, hi, rfl⟩ := exists_place_iff.1 hplace
    exact ⟨h, _, hh, (hrest _).2 ⟨l, hl, i, hi, rfl⟩, rfl⟩

lemma hasHandle_static (hshape : t.shape = .static dims) : t.HasHandle types k ↔
    ∃ l, t.element.HasHandle types l ∧
      ∃ i < places dims, k = UInt32.ofNat i * t.elementSize types + l := by
  induction dims generalizing t k with
  | nil => exact hasHandle_static_of_rest hshape fun j => by simp [afterIndex, hshape, places]
  | cons d ds ih =>
    refine hasHandle_static_of_rest hshape fun j => ?_
    cases ds with
    | nil => simp [afterIndex, hshape, places]
    | cons e ds =>
      have hafter : t.afterIndex = { t with shape := .static (e :: ds) } := by
        simp [afterIndex, hshape]
      rw [hafter]
      exact ih rfl

end Ty

/-! ## Places that do not overlap -/

namespace TypeTable

variable {types : TypeTable} {id : TypeId} {s : StructDef} {open? : Option TypeId}
  {rank : TypeId → Nat} {start stop : UInt32} {fields : List (String × Field)}

def ExactStruct (types : TypeTable) (s : StructDef) : Prop :=
  s.size.toNat = (types.inherited s).toNat + (s.fields.map (·.2.ty.bytes types)).sum

def Apart (types : TypeTable) (f g : Field) : Prop :=
  f.offset.toNat + f.ty.bytes types ≤ g.offset.toNat ∨
    g.offset.toNat + g.ty.bytes types ≤ f.offset.toNat

lemma Placed.apart (h : types.Placed start fields stop)
    (hexact : stop.toNat = start.toNat + (fields.map (·.2.ty.bytes types)).sum) :
    (∀ e ∈ fields, start.toNat ≤ e.2.offset.toNat) ∧
      (fields.map (·.2)).Pairwise (types.Apart) := by
  induction fields generalizing start with
  | nil => simp
  | cons e fields ih =>
    obtain ⟨name, f⟩ := e
    obtain ⟨hf, h⟩ := h
    simp only [List.map_cons, List.sum_cons] at hexact
    have hlt := stop.toNat_lt
    have hnext : (start + f.ty.size types).toNat = start.toNat + f.ty.bytes types := by
      rw [UInt32.toNat_add, Ty.toNat_size (by omega), Nat.mod_eq_of_lt (by omega)]
    obtain ⟨hle, hpairs⟩ := ih h (by omega)
    rw [hnext] at hle
    refine ⟨fun e he => ?_, List.pairwise_cons.2 ⟨fun g hg => ?_, hpairs⟩⟩
    · rcases List.mem_cons.1 he with rfl | he
      · exact (congrArg UInt32.toNat hf).ge
      · exact (Nat.le_add_right _ _).trans (hle e he)
    · obtain ⟨e, he, rfl⟩ := List.mem_map.1 hg
      exact .inl (hf ▸ hle e he)

lemma Ranked.allFields_apart (hr : types.Ranked rank) (hs : types.Sound open?)
    (hid : types.struct? id = some s)
    (he : ∀ a ∈ types.lineage id, ∀ s, types.struct? a = some s → types.ExactStruct s) :
    (∀ f ∈ types.allFields id, f.offset.toNat + f.ty.bytes types ≤ s.size.toNat) ∧
      (types.allFields id).Pairwise types.Apart := by
  induction hn : rank id using Nat.strong_induction_on generalizing id s with
  | _ n ih =>
    have hlineage := hr.lineage_eq hid
    have hexact := he id (hlineage ▸ List.mem_cons_self) s hid
    obtain ⟨hstart, hown⟩ := (hs.placed hid).apart hexact
    have hbounds : ∀ f ∈ s.fields.map (·.2), f.offset.toNat + f.ty.bytes types ≤ s.size.toNat := by
      intro f hf
      obtain ⟨⟨name, g⟩, hg, rfl⟩ := List.mem_map.1 hf
      exact (hs.placed hid).bounds hexact hg
    rw [hr.allFields_eq hid]
    cases hp : s.parent with
    | none => simpa using ⟨by simpa using hbounds, hown⟩
    | some p =>
      rw [hp] at hlineage
      obtain ⟨t, ht, _⟩ := hs.parent hid hp
      obtain ⟨hle, hpairs⟩ := ih _ (hn ▸ hr.parent hid hp) ht
        (fun a ha => he a (hlineage ▸ List.mem_cons_of_mem _ ha)) rfl
      have hinherited : types.inherited s = t.size := by simp [inherited, hp, ht]
      rw [hinherited] at hstart
      have hsize : t.size.toNat ≤ s.size.toNat := by
        rw [ExactStruct, hinherited] at hexact
        omega
      refine ⟨fun f hf => ?_, List.pairwise_append.2 ⟨hown, hpairs, fun f hf g hg => .inr ?_⟩⟩
      · rcases List.mem_append.1 hf with hf | hf
        · exact hbounds f hf
        · exact (hle f hf).trans hsize
      · obtain ⟨e, he, rfl⟩ := List.mem_map.1 hf
        exact (hle g hg).trans (hstart e he)

lemma hasField_sized (hs : types.Sound open?) {f : Field} (hf : types.HasField id f) :
    f.ty.Sized := by
  induction hf with
  | own hid hmem => exact hs.sized hid hmem
  | inherited _ _ _ ih => exact ih

end TypeTable

namespace Ty

variable {types : TypeTable} {id : TypeId} {s : StructDef} {f : Field} {t u : Ty} {k : UInt32}
  {open? : Option TypeId} {rank : TypeId → Nat} {n : Nat} {dims : List UInt32}

structure Exact (t : Ty) (types : TypeTable) : Prop where
  bytes : t.bytes types < 2 ^ 32
  structs : ∀ {k u id a s}, t.HasPart types k u → u.isStructValue = true → u.structId? = some id →
    a ∈ types.lineage id → types.struct? a = some s → types.ExactStruct s

def SlotsApart (j k : UInt32) : Prop :=
  j.toNat + handleSize.toNat ≤ k.toNat ∨ k.toNat + handleSize.toNat ≤ j.toNat

/-- What is found by looking through `n` structs are the handles of the type, in places that do not
overlap. -/
structure Slotted (types : TypeTable) (n : Nat) (t : Ty) : Prop where
  mem : ∀ k, k ∈ slotsWithin types n t ↔ t.HasHandle types k
  within : ∀ k ∈ slotsWithin types n t, k.toNat + handleSize.toNat ≤ t.bytes types
  apart : (slotsWithin types n t).Pairwise SlotsApart
  empty : slotsWithin types n t = [] ↔ holdsHandleWithin types n t = false

lemma slots_pieces {ι : Type} {l : List ι} {f : ι → UInt32} {g : ι → Ty} {total : Nat}
    (htotal : total < 2 ^ 32) (hslotted : ∀ p ∈ l, Slotted types n (g p))
    (hbound : ∀ p ∈ l, (f p).toNat + (g p).bytes types ≤ total)
    (hapart : l.Pairwise fun p q => (f p).toNat + (g p).bytes types ≤ (f q).toNat ∨
      (f q).toNat + (g q).bytes types ≤ (f p).toNat) :
    (∀ k ∈ l.flatMap fun p => (slotsWithin types n (g p)).map (f p + ·),
      k.toNat + handleSize.toNat ≤ total) ∧
    (l.flatMap fun p => (slotsWithin types n (g p)).map (f p + ·)).Pairwise SlotsApart := by
  have hplace : ∀ p ∈ l, ∀ k ∈ slotsWithin types n (g p),
      (f p + k).toNat = (f p).toNat + k.toNat ∧
        k.toNat + handleSize.toNat ≤ (g p).bytes types := by
    intro p hp k hk
    have := hbound p hp
    have hin := (hslotted p hp).within k hk
    exact ⟨by rw [UInt32.toNat_add, Nat.mod_eq_of_lt (by omega)], hin⟩
  constructor
  · intro k hk
    obtain ⟨p, hp, hk⟩ := List.mem_flatMap.1 hk
    obtain ⟨j, hj, rfl⟩ := List.mem_map.1 hk
    obtain ⟨hsum, hin⟩ := hplace p hp j hj
    have := hbound p hp
    omega
  · refine List.pairwise_flatMap.2 ⟨fun p hp => ?_, hapart.imp_of_mem fun {p q} hp hq hpq => ?_⟩
    · refine List.pairwise_map.2 ((hslotted p hp).apart.imp_of_mem fun {j k} hj hk hjk => ?_)
      have := (hplace p hp j hj).1
      have := (hplace p hp k hk).1
      unfold SlotsApart at hjk ⊢
      omega
    · intro x hx y hy
      obtain ⟨j, hj, rfl⟩ := List.mem_map.1 hx
      obtain ⟨k, hk, rfl⟩ := List.mem_map.1 hy
      have := hplace p hp j hj
      have := hplace q hq k hk
      unfold SlotsApart
      omega

lemma bytes_of_struct (hshape : t.shape = .scalar) (hpointer : t.pointer = false)
    (hid : t.structId? = some id) (hs : types.struct? id = some s) :
    t.bytes types = s.size.toNat := by
  simp [bytes, hshape, elementSize, hpointer, TypeTable.structId?_eq_some.1 hid, Base.size, hs]

lemma bytes_of_isHandle (h : t.isHandle = true) : t.bytes types = handleSize.toNat := by
  cases hshape : t.shape <;>
    simp_all [isHandle, isPointer, isDynamicArray, isScalar, bytes, elementSize]

lemma slotted_of_isHandle (h : t.isHandle = true) : Slotted types n t where
  mem k := by rw [slotsWithin_of_isHandle h, hasHandle_of_isHandle h, List.mem_singleton]
  within := by simp [slotsWithin_of_isHandle h, bytes_of_isHandle h]
  apart := by simp [slotsWithin_of_isHandle h]
  empty := by simp [slotsWithin_of_isHandle h, holdsHandleWithin_of_isHandle h]

lemma slotted_of_none (hshape : t.shape = .scalar) (hpointer : t.pointer = false)
    (hid : t.structId? = none) : Slotted types n t := by
  have hslots : slotsWithin types n t = [] := by
    rw [slotsWithin_scalar hshape,
      elementSlots_of_none (by simp [hpointer, isDynamicArray, hshape]) hid]
    rfl
  exact
    { mem := fun k => by simpa [hslots] using not_hasHandle_of_none hshape hpointer hid
      within := by simp [hslots]
      apart := by simp [hslots]
      empty := by simp [hslots, holdsHandleWithin_of_none hshape hpointer hid] }

lemma slotted_of_struct (hr : types.Ranked rank) (hs : types.Sound open?) (ht : t.Complete types)
    (he : t.Exact types) (hshape : t.shape = .scalar) (hpointer : t.pointer = false)
    (hid : t.structId? = some id)
    (hfields : ∀ f, types.HasField id f → f.ty.Exact types → Slotted types n f.ty) :
    Slotted types (n + 1) t := by
  obtain ⟨s, hstruct, _⟩ := ht hpointer id (TypeTable.structId?_eq_some.1 hid)
  have hvalue : t.isStructValue = true := by simp [isStructValue, isScalar, hshape, hpointer, hid]
  obtain ⟨hle, hapart⟩ := hr.allFields_apart hs hstruct fun a ha s => he.structs .whole hvalue hid ha
  have hbytes := bytes_of_struct hshape hpointer hid hstruct
  have hslotted : ∀ f ∈ types.allFields id, Slotted types n f.ty := by
    intro f hf
    have hhas := hr.mem_allFields.1 hf
    have hpart := hasPart_field hshape hpointer hid hhas
    have := hle f hf
    have := s.size.toNat_lt
    exact hfields f hhas ⟨by omega, fun hu => he.structs (hpart.trans hu)⟩
  have hslots : slotsWithin types (n + 1) t = _ := slotsWithin_of_struct hshape hpointer hid
  obtain ⟨hwithin, hpairs⟩ := slots_pieces (f := Field.offset) (g := Field.ty)
    s.size.toNat_lt hslotted hle hapart
  refine ⟨fun k => ?_, ?_, hslots ▸ hpairs, ?_⟩
  · rw [hslots, hasHandle_of_struct hshape hpointer hid]
    simp only [List.mem_flatMap, List.mem_map]
    constructor
    · rintro ⟨f, hf, j, hj, rfl⟩
      exact ⟨f, j, hr.mem_allFields.1 hf, ((hslotted f hf).mem j).1 hj, rfl⟩
    · rintro ⟨f, j, hf, hj, rfl⟩
      have hf := hr.mem_allFields.2 hf
      exact ⟨f, hf, j, ((hslotted f hf).mem j).2 hj, rfl⟩
  · rwa [hslots, hbytes]
  · rw [hslots, holdsHandleWithin_of_struct hshape hpointer hid, List.flatMap_eq_nil_iff,
      List.any_eq_false]
    refine forall_congr' fun f => imp_congr_right fun hf => ?_
    rw [List.map_eq_nil_iff, (hslotted f hf).empty, Bool.not_eq_true]

lemma hasPart_element (hshape : t.shape = .static dims) (hsized : t.Sized) :
    t.HasPart types 0 t.element := by
  induction dims generalizing t with
  | nil =>
    simpa [afterIndex, hshape] using @hasPart_index _ _ _ 0 hshape (by simp)
  | cons d ds ih =>
    have hfirst : t.HasPart types 0 t.afterIndex := by
      simpa using @hasPart_index _ _ _ 0 hshape (by simpa using hsized _ hshape d List.mem_cons_self)
    cases ds with
    | nil => simpa [afterIndex, hshape] using hfirst
    | cons e ds =>
      have hafter : t.afterIndex = { t with shape := .static (e :: ds) } := by
        simp [afterIndex, hshape]
      rw [hafter] at hfirst
      refine hfirst.trans (ih rfl fun dims hdims d hd => ?_)
      obtain rfl : e :: ds = dims := by simpa using hdims
      exact hsized _ hshape d (List.mem_cons_of_mem _ hd)

lemma places_pos (hshape : t.shape = .static dims) (hsized : t.Sized) : 0 < places dims := by
  refine List.prod_pos fun n hn => ?_
  obtain ⟨d, hd, rfl⟩ := List.mem_map.1 hn
  exact UInt32.lt_iff_toNat_lt.1 (hsized dims hshape d hd)

lemma bytes_element_eq : t.element.bytes types = (t.elementSize types).toNat :=
  rfl

lemma bytes_static (hshape : t.shape = .static dims) :
    t.bytes types = places dims * t.element.bytes types := by
  rw [bytes_element_eq, bytes, hshape]
  rfl

lemma Exact.element (he : t.Exact types) (hshape : t.shape = .static dims) (hsized : t.Sized) :
    t.element.Exact types := by
  have hle := Nat.le_mul_of_pos_left (t.element.bytes types) (places_pos hshape hsized)
  rw [← bytes_static hshape] at hle
  refine ⟨hle.trans_lt he.bytes, fun hu => ?_⟩
  have hpart := (hasPart_element hshape hsized).trans hu
  exact he.structs hpart

lemma slotted_of_static (he : t.Exact types) (hshape : t.shape = .static dims)
    (hsized : t.Sized) (helement : Slotted types n t.element) : Slotted types n t := by
  have hslots : slotsWithin types n t = _ := slotsWithin_static hshape
  cases hnil : slotsWithin types n t.element with
  | nil =>
    rw [hnil] at hslots
    replace hslots : slotsWithin types n t = [] := by
      rw [hslots, List.flatMap_eq_nil_iff]
      simp
    refine ⟨fun k => ?_, by simp [hslots], by simp [hslots], ?_⟩
    · have hnone : ∀ l, ¬t.element.HasHandle types l := fun l hl => by
        simpa [hnil] using (helement.mem l).2 hl
      simp [hslots, hasHandle_static hshape, hnone]
    · simpa [hslots, holdsHandleWithin_static hshape] using helement.empty.1 hnil
  | cons first rest =>
    -- an element holds a handle, so that counting the elements does not wrap around either
    have hfour := helement.within first (hnil ▸ List.mem_cons_self)
    have hbytes : t.bytes types = _ := bytes_static hshape
    have hlt := he.bytes
    have hplaces : places dims < 2 ^ 32 := by
      refine (Nat.le_mul_of_pos_right _ ?_).trans_lt (hbytes ▸ hlt)
      have : handleSize.toNat = 4 := rfl
      omega
    have hcount : (elementCount dims).toNat = places dims := by
      rw [elementCount_eq]
      exact UInt32.toNat_ofNat_of_lt' hplaces
    have hnext : ∀ i < places dims, (i + 1) * t.element.bytes types ≤ t.bytes types :=
      fun i hi => hbytes ▸ Nat.mul_le_mul_right _ hi
    have hstart : ∀ i < places dims,
        (i.toUInt32 * t.elementSize types).toNat = i * t.element.bytes types := by
      intro i hi
      have hle := hnext i hi
      rw [Nat.add_mul] at hle
      have hi' : i.toUInt32.toNat = i := UInt32.toNat_ofNat_of_lt' (hi.trans hplaces)
      rw [UInt32.toNat_mul, hi', ← bytes_element_eq, Nat.mod_eq_of_lt (by omega)]
    rw [hcount] at hslots
    obtain ⟨hwithin, hpairs⟩ := slots_pieces (l := List.range (places dims))
      (f := fun i => i.toUInt32 * t.elementSize types) (g := fun _ => t.element) hlt
      (fun _ _ => helement)
      (fun i hi => by
        rw [hstart i (List.mem_range.1 hi), ← Nat.succ_mul]
        exact hnext i (List.mem_range.1 hi))
      ((List.pairwise_lt_range).imp_of_mem fun {i j} hi hj hij => .inl (by
        rw [hstart i (List.mem_range.1 hi), hstart j (List.mem_range.1 hj), ← Nat.succ_mul]
        exact Nat.mul_le_mul_right _ hij))
    refine ⟨fun k => ?_, hslots ▸ hwithin, hslots ▸ hpairs, ?_⟩
    · rw [hslots, hasHandle_static hshape]
      simp only [List.mem_flatMap, List.mem_map, List.mem_range, ← helement.mem]
      constructor
      · rintro ⟨i, hi, l, hl, rfl⟩
        exact ⟨l, hl, i, hi, rfl⟩
      · rintro ⟨l, hl, i, hi, rfl⟩
        exact ⟨i, hi, l, hl, rfl⟩
    · have hpos := places_pos hshape hsized
      rw [holdsHandleWithin_static hshape, ← helement.empty, hslots, hnil]
      simpa using ⟨0, hpos⟩

lemma slotted (hs : types.Sound open?) (ht : t.Complete types) (hsized : t.Sized)
    (he : t.Exact types) : Slotted types types.defs.size t := by
  obtain ⟨rank, hr⟩ := hs.exists_ranked
  -- by the rank of the struct that is stored in place
  suffices h : ∀ n (t : Ty), t.Within rank n → t.Complete types → t.Sized → t.Exact types →
      Slotted types n t from h _ t (ht.within hr) ht hsized he
  intro n
  induction n using Nat.strong_induction_on with
  | _ n ih =>
    have hunit : ∀ t : Ty, t.isStaticArray = false → t.Within rank n → t.Complete types →
        t.Exact types → Slotted types n t := by
      intro t hstatic hw ht he
      cases hhandle : t.isHandle with
      | true => exact slotted_of_isHandle hhandle
      | false =>
        obtain ⟨hshape, hpointer⟩ : t.shape = .scalar ∧ t.pointer = false := by
          cases hshape : t.shape <;>
            simp_all [isHandle, isPointer, isDynamicArray, isScalar, isStaticArray]
        cases hid : t.structId? with
        | none => exact slotted_of_none hshape hpointer hid
        | some id =>
          obtain ⟨m, rfl⟩ := hw.pos hpointer hid
          refine slotted_of_struct hr hs ht he hshape hpointer hid fun f hf hexact => ?_
          exact ih m (Nat.lt_succ_self m) f.ty (hw.field hpointer hid hr hf)
            (TypeTable.hasField_complete hs hf) (TypeTable.hasField_sized hs hf) hexact
    intro t hw ht hsized he
    cases hshape : t.shape with
    | scalar => exact hunit t (by simp [isStaticArray, hshape]) hw ht he
    | dynamic => exact hunit t (by simp [isStaticArray, hshape]) hw ht he
    | static dims =>
      exact slotted_of_static he hshape hsized
        (hunit t.element (by simp [isStaticArray, element]) hw ht (he.element hshape hsized))

end Ty
end AdventureScript
