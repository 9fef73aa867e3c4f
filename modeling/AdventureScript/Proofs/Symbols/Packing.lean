import AdventureScript.Proofs.Symbols.Layout
import Mathlib.Algebra.GroupWithZero.Nat
import Mathlib.Data.Finset.Lattice.Fold

/-!
Type tables that grow. What a variable stores in place has a body, so that its parts stay where they
are.
-/
namespace AdventureScript

variable {access : Access} {dims : List UInt32}

def Ty.Complete (t : Ty) (types : TypeTable) : Prop :=
  t.pointer = false → ∀ id, t.base = .struct id →
    ∃ s, types.struct? id = some s ∧ s.defined = true

lemma Ty.Complete.element {t : Ty} {types : TypeTable} (h : t.Complete types) :
    t.afterIndex.Complete types := by
  unfold Ty.afterIndex
  split <;> exact h

def Ty.Sized (t : Ty) : Prop :=
  ∀ dims, t.shape = .static dims → ∀ d ∈ dims, 0 < d

structure StructDef.Stays (s s' : StructDef) : Prop where
  defined : s'.defined = true
  size : s'.size = s.size
  parent : s'.parent = s.parent
  fields : s'.fields = s.fields

def StructDef.Distinct (s : StructDef) : Prop :=
  (s.members.toList.map (·.name)).Nodup

lemma StructDef.component?_eq_none {s : StructDef} {name : String} :
    s.component? name = none ↔ name ∉ s.members.toList.map (·.name) := by
  simp [component?]

lemma StructDef.Distinct.add {s : StructDef} {name : String} {c : Component} (h : s.Distinct)
    (hnew : s.component? name = none) : (s.add name c).Distinct := by
  rw [component?_eq_none] at hnew
  rw [Distinct, StructDef.add, Array.toList_push, List.map_append]
  exact h.append (List.nodup_singleton _) (by simpa using hnew)

namespace TypeTable

variable {types types' types'' : TypeTable} {id : TypeId} {s : StructDef} {f : Field} {t u : Ty}
  {k : UInt32}

structure Grows (types types' : TypeTable) : Prop where
  struct : ∀ {id s}, types.struct? id = some s →
    ∃ s', types'.struct? id = some s' ∧ (s.defined = true → s.Stays s')

lemma Grows.refl : types.Grows types :=
  ⟨fun h => ⟨_, h, fun hd => ⟨hd, rfl, rfl, rfl⟩⟩⟩

section

variable (h : types.Grows types')
include h

lemma Grows.trans (h' : types'.Grows types'') : types.Grows types'' := by
  refine ⟨fun hs => ?_⟩
  obtain ⟨s', hs', hstays⟩ := h.struct hs
  obtain ⟨s'', hs'', hstays'⟩ := h'.struct hs'
  refine ⟨s'', hs'', fun hd => ?_⟩
  have h1 := hstays hd
  have h2 := hstays' h1.defined
  exact ⟨h2.defined, h2.size.trans h1.size, h2.parent.trans h1.parent, h2.fields.trans h1.fields⟩

lemma Grows.complete (ht : t.Complete types) : t.Complete types' := by
  intro hp id hid
  obtain ⟨s, hs, hd⟩ := ht hp id hid
  obtain ⟨s', hs', hstays⟩ := h.struct hs
  exact ⟨s', hs', (hstays hd).defined⟩

lemma Grows.elementSize (ht : t.Complete types) :
    t.elementSize types' = t.elementSize types := by
  unfold Ty.elementSize
  split
  · rfl
  · next hp =>
    unfold Base.size
    split <;> try rfl
    next id hid =>
      obtain ⟨s, hs, hd⟩ := ht (by simpa using hp) id hid
      obtain ⟨s', hs', hstays⟩ := h.struct hs
      simp [hs, hs', (hstays hd).size]

lemma Grows.size (ht : t.Complete types) :
    t.size types' = t.size types := by
  unfold Ty.size
  rw [h.elementSize ht]

/-! ## Tables -/

def inherited (types : TypeTable) (s : StructDef) : UInt32 :=
  ((s.parent.bind types.struct?).map (·.size)).getD 0

def Placed (types : TypeTable) : (start : UInt32) → List (String × Field) → (stop : UInt32) → Prop
  | start, [], stop => stop = start
  | start, (_, f) :: fields, stop =>
    f.offset = start ∧ types.Placed (start + f.ty.size types) fields stop

/-- Structs are built from others that come before them: what they extend, and what they store. -/
def Ordered (types : TypeTable) : Prop :=
  ∃ rank : TypeId → Nat, ∀ {id s}, types.struct? id = some s →
    (∀ {p}, s.parent = some p → rank p < rank id) ∧
    ∀ {name f id'}, (name, f) ∈ s.fields → f.ty.pointer = false → f.ty.base = .struct id' →
      rank id' < rank id

/-- What holds of the structs of a table, of which one may be open: its body is being read. -/
structure Sound (types : TypeTable) (open? : Option TypeId) : Prop where
  fields : ∀ {id s name f}, types.struct? id = some s → (name, f) ∈ s.fields → f.ty.Complete types
  sized : ∀ {id s name f}, types.struct? id = some s → (name, f) ∈ s.fields → f.ty.Sized
  ordered : types.Ordered
  parent : ∀ {id s p}, types.struct? id = some s → s.parent = some p →
    ∃ t, types.struct? p = some t ∧ t.defined = true
  placed : ∀ {id s}, types.struct? id = some s →
    types.Placed (types.inherited s) s.fields s.size
  blank : ∀ {id s}, types.struct? id = some s → s.defined = false → open? ≠ some id →
    s.fields = [] ∧ s.size = 0 ∧ s.parent = none
  distinct : ∀ {id s}, types.struct? id = some s → s.Distinct

def Lacks (types : TypeTable) (id : TypeId) (name : String) : Prop :=
  ∀ s, types.struct? id = some s → s.component? name = none

omit h in
lemma lacks_of_findComponent? {name : String} (hnone : types.findComponent? id name = none) :
    types.Lacks id name := by
  intro s hs
  obtain ⟨rest, hrest⟩ : ∃ rest, types.lineage id = id :: rest := by
    unfold lineage
    cases types.defs.size <;> exact ⟨_, rfl⟩
  simp only [findComponent?, hrest, List.findSome?_cons, hs, Option.bind_some] at hnone
  cases hc : s.component? name with
  | none => rfl
  | some c => simp [hc] at hnone

lemma Grows.hasField {open? : Option TypeId} (hs : types.Sound open?)
    (hf : types.HasField id f) (hd : ∃ s, types.struct? id = some s ∧ s.defined = true) :
    types'.HasField id f := by
  induction hf with
  | own hid hmem =>
    obtain ⟨s, hs', hd⟩ := hd
    obtain rfl := Option.some.inj (hid.symm.trans hs')
    obtain ⟨s', hs', hstays⟩ := h.struct hid
    exact .own hs' (by rwa [(hstays hd).fields])
  | inherited hid hparent _ ih =>
    obtain ⟨s, hs', hd⟩ := hd
    obtain rfl := Option.some.inj (hid.symm.trans hs')
    obtain ⟨s', hs', hstays⟩ := h.struct hid
    exact .inherited hs' ((hstays hd).parent.trans hparent) (ih (hs.parent hid hparent))

end

lemma hasField_complete {open? : Option TypeId} (hs : types.Sound open?)
    (hf : types.HasField id f) : f.ty.Complete types := by
  induction hf with
  | own hid hmem => exact hs.fields hid hmem
  | inherited _ _ _ ih => exact ih

lemma structId?_eq_some : t.structId? = some id ↔ t.base = .struct id := by
  unfold Ty.structId?
  split
  · next id' h => simp [h]
  · next h => simpa using h id

lemma hasPart_complete {open? : Option TypeId} (hs : types.Sound open?) (ht : t.Complete types)
    (h : t.HasPart types k u) : u.Complete types := by
  induction h with
  | whole => exact ht
  | field _ _ _ _ hf _ => exact hasField_complete hs hf
  | element _ _ _ ih => exact ih.element

lemma Grows.hasPart (h : types.Grows types') {open? : Option TypeId} (hs : types.Sound open?)
    (ht : t.Complete types) (hp : t.HasPart types k u) : t.HasPart types' k u := by
  induction hp with
  | whole => exact .whole
  | field hp hscalar hpointer hid hf ih =>
    refine .field ih hscalar hpointer hid (h.hasField hs hf ?_)
    exact hasPart_complete hs ht hp hpointer _ (structId?_eq_some.1 hid)
  | element hp hshape hi ih =>
    rw [← h.size (hasPart_complete hs ht hp).element]
    exact .element ih hshape hi

/-! ## Changes of a table -/

section

variable {open? open?' : Option TypeId} {change : StructDef → StructDef} {id' p : TypeId}
  {start stop : UInt32} {fields : List (String × Field)} {name : String} {d : TypeDef}

lemma struct?_eq_some : types.struct? id = some s ↔ types.defs[id.index]? = some (.struct s) := by
  unfold struct? get?
  split
  · next h => simp [h]
  · next h => simpa using h s

lemma struct?_modifyStruct :
    (types.modifyStruct id change).struct? id' =
      if id = id' then (types.struct? id').map change else types.struct? id' := by
  unfold modifyStruct
  by_cases he : id = id'
  · subst he
    rw [if_pos rfl]
    split
    · next s hs =>
      have hlt := (Array.getElem?_eq_some_iff.1 (struct?_eq_some.1 hs)).1
      rw [hs, Option.map_some, struct?_eq_some]
      simp [hlt]
    · next hs => rw [hs, Option.map_none]
  · rw [if_neg he]
    have hne : id.index ≠ id'.index := fun h => he (by cases id; cases id'; simpa using h)
    split
    · simp [struct?, get?, Array.getElem?_setIfInBounds_ne hne]
    · rfl

lemma get?_modifyStruct (h : (types.modifyStruct id change).get? id' = some d) :
    types.get? id' = some d ∨ ∃ s, types.get? id' = some (.struct s) ∧ d = .struct (change s) := by
  unfold modifyStruct at h
  split at h
  · next s hs =>
    simp only [get?, Array.getElem?_setIfInBounds] at h
    split at h
    · next he =>
      split at h
      · cases h
        refine .inr ⟨s, ?_, rfl⟩
        rw [get?, ← he]
        exact struct?_eq_some.1 hs
      · cases h
    · exact .inl h
  · exact .inl h

lemma size_modifyStruct : (types.modifyStruct id change).defs.size = types.defs.size := by
  unfold modifyStruct
  split <;> simp

lemma grows_modifyStruct (h : ∀ {s}, types.struct? id = some s → s.defined = true →
    s.Stays (change s)) : types.Grows (types.modifyStruct id change) := by
  refine ⟨fun {id' s} hs => ?_⟩
  rw [struct?_modifyStruct]
  split
  · next he =>
    subst he
    exact ⟨change s, by simp [hs], h hs⟩
  · exact ⟨s, hs, fun hd => ⟨hd, rfl, rfl, rfl⟩⟩

lemma struct?_add : (types.add d).2.struct? id' =
    if id'.index = types.defs.size then (match d with | .struct s => some s | .enum _ => none)
    else types.struct? id' := by
  by_cases he : id'.index = types.defs.size
  · cases d <;> simp [struct?, get?, add, he]
  · simp [struct?, get?, add, Array.getElem?_push, he]

lemma struct?_add_self : (types.add (.struct s)).2.struct? (types.add (.struct s)).1 = some s := by
  rw [struct?_add]
  exact if_pos rfl

lemma grows_add : types.Grows (types.add d).2 := by
  refine ⟨fun {id s} hs => ⟨s, ?_, fun hd => ⟨hd, rfl, rfl, rfl⟩⟩⟩
  have hlt := (Array.getElem?_eq_some_iff.1 (struct?_eq_some.1 hs)).1
  rw [struct?_add, if_neg (by omega), hs]

lemma Placed.grow (h : types.Placed start fields stop) (hg : types.Grows types')
    (hc : ∀ {name f}, (name, f) ∈ fields → f.ty.Complete types) :
    types'.Placed start fields stop := by
  induction fields generalizing start with
  | nil => exact h
  | cons e fields ih =>
    obtain ⟨hf, h⟩ := h
    refine ⟨hf, ?_⟩
    rw [hg.size (hc List.mem_cons_self)]
    exact ih h fun hm => hc (List.mem_cons_of_mem _ hm)

lemma Placed.concat (h : types.Placed start fields stop) {ty : Ty} :
    types.Placed start (fields ++ [(name, ⟨ty, stop, access⟩)]) (stop + ty.size types) := by
  induction fields generalizing start with
  | nil =>
    obtain rfl : stop = start := h
    exact ⟨rfl, rfl⟩
  | cons e fields ih => exact ⟨h.1, ih h.2⟩

lemma inherited_grow (hg : types.Grows types')
    (hp : ∀ {p}, s.parent = some p → ∃ t, types.struct? p = some t ∧ t.defined = true) :
    types'.inherited s = types.inherited s := by
  unfold inherited
  cases hs : s.parent with
  | none => rfl
  | some p =>
    obtain ⟨t, ht, hd⟩ := hp hs
    obtain ⟨t', ht', hstays⟩ := hg.struct ht
    simp [ht, ht', (hstays hd).size]

lemma exists_rank_lt (types : TypeTable) (rank : TypeId → Nat) :
    ∃ top, ∀ {id s}, types.struct? id = some s → rank id < top := by
  refine ⟨(Finset.range types.defs.size).sup (fun i => rank ⟨i⟩) + 1, fun {id s} hs => ?_⟩
  have hlt := (Array.getElem?_eq_some_iff.1 (struct?_eq_some.1 hs)).1
  exact Nat.lt_succ_of_le
    (Finset.le_sup (f := fun i => rank ⟨i⟩) (Finset.mem_range.2 hlt))

lemma Sound.ordered_modify (h : types.Sound open?) (hid : types.struct? id = some s)
    (hstays : s.defined = true → s.Stays (change s))
    (hfields : ∀ {name f}, (name, f) ∈ (change s).fields → f.ty.Complete types)
    (hparent : ∀ {p}, (change s).parent = some p →
      ∃ t, types.struct? p = some t ∧ t.defined = true) :
    (types.modifyStruct id change).Ordered := by
  obtain ⟨rank, hrank⟩ := h.ordered
  cases hd : s.defined with
  | true =>
    refine ⟨rank, fun {id' s'} hs' => ?_⟩
    rw [struct?_modifyStruct] at hs'
    split at hs'
    · next he =>
      subst he
      obtain rfl : change s = s' := by simpa [hid] using hs'
      rw [(hstays hd).parent, (hstays hd).fields]
      exact hrank hid
    · exact hrank hs'
  | false =>
    have hne {p : TypeId} (hp : ∃ t, types.struct? p = some t ∧ t.defined = true) : p ≠ id := by
      rintro rfl
      obtain ⟨t, ht, hdefined⟩ := hp
      obtain rfl := Option.some.inj (hid.symm.trans ht)
      simp [hd] at hdefined
    obtain ⟨top, htop⟩ := types.exists_rank_lt rank
    refine ⟨fun id' => if id' = id then top else rank id', fun {id' s'} hs' => ?_⟩
    rw [struct?_modifyStruct] at hs'
    split at hs'
    · next he =>
      subst he
      obtain rfl : change s = s' := by simpa [hid] using hs'
      refine ⟨fun {p} hp => ?_, fun {name f p} hf hpointer hbase => ?_⟩
      · obtain ⟨t, ht, hdefined⟩ := hparent hp
        simp only [hne ⟨t, ht, hdefined⟩, if_true, if_false]
        exact htop ht
      · obtain ⟨t, ht, hdefined⟩ := hfields hf hpointer p hbase
        simp only [hne ⟨t, ht, hdefined⟩, if_true, if_false]
        exact htop ht
    · next he =>
      refine ⟨fun {p} hp => ?_, fun {name f p} hf hpointer hbase => ?_⟩
      · simp only [hne (h.parent hs' hp), Ne.symm he, if_false]
        exact (hrank hs').1 hp
      · simp only [hne (h.fields hs' hf hpointer p hbase), Ne.symm he, if_false]
        exact (hrank hs').2 hf hpointer hbase

lemma Sound.modify (h : types.Sound open?) (hid : types.struct? id = some s)
    (hstays : s.defined = true → s.Stays (change s))
    (hfields : ∀ {name f}, (name, f) ∈ (change s).fields → f.ty.Complete types)
    (hsized : ∀ {name f}, (name, f) ∈ (change s).fields → f.ty.Sized)
    (hparent : ∀ {p}, (change s).parent = some p →
      ∃ t, types.struct? p = some t ∧ t.defined = true)
    (hplaced : types.Placed (types.inherited (change s)) (change s).fields (change s).size)
    (hblank : (change s).defined = false → open?' ≠ some id →
      (change s).fields = [] ∧ (change s).size = 0 ∧ (change s).parent = none)
    (hopen : ∀ {id'}, id' ≠ id → open?' ≠ some id' → open? ≠ some id')
    (hdistinct : (change s).Distinct) : (types.modifyStruct id change).Sound open?' := by
  have hgrows : types.Grows (types.modifyStruct id change) := grows_modifyStruct fun hs hd => by
    obtain rfl := Option.some.inj (hid.symm.trans hs)
    exact hstays hd
  -- Every struct of the new table is an old one or the changed one.
  have hcases : ∀ {id' s'}, (types.modifyStruct id change).struct? id' = some s' →
      (id' = id ∧ s' = change s) ∨ (id' ≠ id ∧ types.struct? id' = some s') := by
    intro id' s' hs'
    rw [struct?_modifyStruct] at hs'
    split at hs'
    · next he =>
      subst he
      exact .inl ⟨rfl, by simpa [hid, eq_comm] using hs'⟩
    · next he => exact .inr ⟨Ne.symm he, hs'⟩
  have hold : ∀ {p}, (∃ t, types.struct? p = some t ∧ t.defined = true) →
      ∃ t, (types.modifyStruct id change).struct? p = some t ∧ t.defined = true := by
    rintro p ⟨t, ht, hd⟩
    obtain ⟨t', ht', hstays⟩ := hgrows.struct ht
    exact ⟨t', ht', (hstays hd).defined⟩
  constructor
  case fields =>
    intro id' s' name f hs' hm
    rcases hcases hs' with ⟨rfl, rfl⟩ | ⟨_, hs'⟩
    · exact hgrows.complete (hfields hm)
    · exact hgrows.complete (h.fields hs' hm)
  case sized =>
    intro id' s' name f hs' hm
    rcases hcases hs' with ⟨rfl, rfl⟩ | ⟨_, hs'⟩
    · exact hsized hm
    · exact h.sized hs' hm
  case ordered => exact h.ordered_modify hid hstays hfields hparent
  case parent =>
    intro id' s' p hs' hp
    rcases hcases hs' with ⟨rfl, rfl⟩ | ⟨_, hs'⟩
    · exact hold (hparent hp)
    · exact hold (h.parent hs' hp)
  case placed =>
    intro id' s' hs'
    rcases hcases hs' with ⟨rfl, rfl⟩ | ⟨_, hs'⟩
    · rw [inherited_grow hgrows hparent]
      exact hplaced.grow hgrows hfields
    · rw [inherited_grow hgrows (h.parent hs')]
      exact (h.placed hs').grow hgrows (h.fields hs')
  case blank =>
    intro id' s' hs' hd ho
    rcases hcases hs' with ⟨rfl, rfl⟩ | ⟨hne, hs'⟩
    · exact hblank hd ho
    · exact h.blank hs' hd (hopen hne ho)
  case distinct =>
    intro id' s' hs'
    rcases hcases hs' with ⟨rfl, rfl⟩ | ⟨_, hs'⟩
    · exact hdistinct
    · exact h.distinct hs'

lemma Sound.modify_other (h : types.Sound open?)
    (hsame : ∀ s, types.struct? id = some s → (change s).fields = s.fields ∧
      (change s).size = s.size ∧ (change s).parent = s.parent ∧ (change s).defined = s.defined ∧
      (change s).Distinct) :
    (types.modifyStruct id change).Sound open? := by
  cases hid : types.struct? id with
  | none =>
    simp only [modifyStruct, hid]
    exact h
  | some s =>
    obtain ⟨hf, hsize, hp, hd, hdistinct⟩ := hsame s hid
    refine h.modify hid (fun hdef => ⟨hd.trans hdef, hsize, hp, hf⟩) ?_ ?_ ?_ ?_ ?_ (fun _ h => h)
      hdistinct
    · rw [hf]
      exact h.fields hid
    · rw [hf]
      exact h.sized hid
    · rw [hp]
      exact h.parent hid
    · rw [hf, hsize, inherited, hp]
      exact h.placed hid
    · rw [hf, hsize, hp, hd]
      exact h.blank hid

lemma Sound.opened (h : types.Sound none) : types.Sound (some id) :=
  { h with blank := fun hs hd _ => h.blank hs hd nofun }

lemma Sound.extend {parent : StructDef} (h : types.Sound none) (hid : types.struct? id = some s)
    (hd : s.defined = false) (hp : types.struct? p = some parent) (hpd : parent.defined = true) :
    (types.modifyStruct id fun s => { s with parent := some p, size := parent.size }).Sound
      (some id) := by
  obtain ⟨hf, _, _⟩ := h.blank hid hd nofun
  have hdistinct := h.distinct hid
  refine h.modify hid (fun hdef => by simp [hd] at hdef) ?_ ?_ ?_ ?_ (fun _ ho => absurd rfl ho)
    (fun _ _ => nofun) hdistinct
  · intro name f hm
    exact h.fields hid hm
  · intro name f hm
    exact h.sized hid hm
  · intro p' hp'
    cases hp'
    exact ⟨parent, hp, hpd⟩
  · have : (types.inherited { s with parent := some p, size := parent.size }) = parent.size := by
      simp [inherited, hp]
    rw [this, show StructDef.fields { s with parent := some p, size := parent.size } = [] from hf]
    rfl

lemma StructDef.fields_addField {size : UInt32} :
    (s.addField name t size access).fields = s.fields ++ [(name, ⟨t, s.size, access⟩)] := by
  simp [StructDef.fields, StructDef.addField, StructDef.add]

lemma Sound.addField (h : types.Sound (some id)) (hid : types.struct? id = some s)
    (hd : s.defined = false) (ht : t.Complete types) (hsized : t.Sized)
    (hnew : types.Lacks id name) :
    (types.modifyStruct id (·.addField name t (t.size types) access)).Sound (some id) := by
  have hdistinct : (s.add name (.field ⟨t, s.size, access⟩)).Distinct :=
    (h.distinct hid).add (hnew _ hid)
  refine h.modify hid (fun hdef => by simp [hd] at hdef) ?_ ?_ (fun hp => h.parent hid hp) ?_
    (fun _ ho => absurd rfl ho) (fun _ h => h) hdistinct
  · intro name f hm
    rw [StructDef.fields_addField] at hm
    rcases List.mem_append.1 hm with hm | hm
    · exact h.fields hid hm
    · simp only [List.mem_singleton, Prod.mk.injEq] at hm
      rw [hm.2]
      exact ht
  · intro name f hm
    rw [StructDef.fields_addField] at hm
    rcases List.mem_append.1 hm with hm | hm
    · exact h.sized hid hm
    · simp only [List.mem_singleton, Prod.mk.injEq] at hm
      rw [hm.2]
      exact hsized
  · rw [StructDef.fields_addField]
    exact (h.placed hid).concat

lemma Sound.close (h : types.Sound (some id)) (hid : types.struct? id = some s) :
    (types.modifyStruct id fun s => { s with defined := true }).Sound none := by
  have hplaced := h.placed hid
  have hdistinct := h.distinct hid
  refine h.modify hid (fun _ => ⟨rfl, rfl, rfl, rfl⟩) (fun hf => h.fields hid hf)
    (fun hf => h.sized hid hf) (fun hp => h.parent hid hp) hplaced nofun ?_ hdistinct
  intro id' hne _ he
  exact hne (Option.some.inj he).symm

lemma Sound.add (h : types.Sound none)
    (hd : ∀ s, d = .struct s → s.members = #[] ∧ s.size = 0 ∧ s.parent = none) :
    (types.add d).2.Sound none := by
  have hcases : ∀ {id' s'}, (types.add d).2.struct? id' = some s' →
      (s'.members = #[] ∧ s'.size = 0 ∧ s'.parent = none) ∨ types.struct? id' = some s' := by
    intro id' s' hs'
    rw [struct?_add] at hs'
    split at hs'
    · split at hs'
      · next s =>
        obtain rfl := Option.some.inj hs'
        exact .inl (hd s rfl)
      · cases hs'
    · exact .inr hs'
  constructor
  case fields =>
    intro id' s' name f hs' hm
    rcases hcases hs' with ⟨hf, _⟩ | hs'
    · simp [StructDef.fields, hf] at hm
    · exact grows_add.complete (h.fields hs' hm)
  case sized =>
    intro id' s' name f hs' hm
    rcases hcases hs' with ⟨hf, _⟩ | hs'
    · simp [StructDef.fields, hf] at hm
    · exact h.sized hs' hm
  case ordered =>
    obtain ⟨rank, hrank⟩ := h.ordered
    refine ⟨rank, fun {id' s'} hs' => ?_⟩
    rcases hcases hs' with ⟨hf, _, hp⟩ | hs'
    · simp [StructDef.fields, hf, hp]
    · exact hrank hs'
  case parent =>
    intro id' s' p hs' hp
    rcases hcases hs' with ⟨_, _, hnone⟩ | hs'
    · simp [hnone] at hp
    · obtain ⟨t, ht, hdef⟩ := h.parent hs' hp
      obtain ⟨t', ht', hstays⟩ := grows_add.struct ht
      exact ⟨t', ht', (hstays hdef).defined⟩
  case placed =>
    intro id' s' hs'
    rcases hcases hs' with ⟨hf, hsize, hp⟩ | hs'
    · simp [StructDef.fields, hf, hsize, inherited, hp, Placed]
    · rw [inherited_grow grows_add (h.parent hs')]
      exact (h.placed hs').grow grows_add (h.fields hs')
  case blank =>
    intro id' s' hs' hdef _
    rcases hcases hs' with ⟨hf, hrest⟩ | hs'
    · exact ⟨by simp [StructDef.fields, hf], hrest⟩
    · exact h.blank hs' hdef (by simp)
  case distinct =>
    intro id' s' hs'
    rcases hcases hs' with ⟨hf, _⟩ | hs'
    · simp [StructDef.Distinct, hf]
    · exact h.distinct hs'

end

/-! ## Sizes that do not overflow -/

end TypeTable

lemma toInt_toInt32 {n : UInt32} (h : n.toNat < 2 ^ 31) : n.toInt32.toInt = n.toNat := by
  rw [Int32.toInt, UInt32.toBitVec_toInt32, BitVec.toInt_eq_toNat_of_lt]
  · rfl
  · rw [UInt32.toNat_toBitVec]
    omega

namespace Ty

def bytes (t : Ty) (types : TypeTable) : Nat :=
  match t.shape with
  | .scalar => (t.elementSize types).toNat
  | .dynamic => handleSize.toNat
  | .static dims => (dims.map (·.toNat)).prod * (t.elementSize types).toNat

variable {t : Ty} {types : TypeTable}

lemma elementCount_eq : elementCount dims = UInt32.ofNat (dims.map (·.toNat)).prod := by
  have hfold : ∀ (dims : List UInt32) (n : Nat), dims.foldl (· * ·) (UInt32.ofNat n) =
      UInt32.ofNat (n * (dims.map (·.toNat)).prod) := by
    intro dims
    induction dims with
    | nil => simp
    | cons d dims ih =>
      intro n
      rw [List.foldl_cons, show UInt32.ofNat n * d = UInt32.ofNat (n * d.toNat) by simp, ih]
      simp [Nat.mul_assoc]
  simpa [elementCount] using hfold dims 1

lemma size_eq : t.size types = UInt32.ofNat (t.bytes types) := by
  cases hshape : t.shape <;> simp [size, bytes, hshape, elementCount_eq]

lemma toNat_size (h : t.bytes types < 2 ^ 32) : (t.size types).toNat = t.bytes types := by
  rw [size_eq, UInt32.toNat_ofNat', Nat.mod_eq_of_lt h]

lemma bytes_element {i : UInt32} (hshape : t.shape = .static dims)
    (hi : i < dims.headD 1) : (i.toNat + 1) * t.afterIndex.bytes types ≤ t.bytes types := by
  have hi' := UInt32.lt_iff_toNat_lt.1 hi
  unfold bytes afterIndex
  rw [hshape]
  match dims with
  | [] =>
    simp only [List.headD_nil, UInt32.toNat_one] at hi'
    rw [show i.toNat = 0 by omega]
    exact le_rfl
  | [d] =>
    simp only [element, elementSize, List.map_cons, List.map_nil, List.prod_cons, List.prod_nil,
      Nat.mul_one]
    exact Nat.mul_le_mul_right _ hi'
  | d :: e :: ds =>
    simp only [List.map_cons, List.prod_cons, Nat.mul_assoc]
    exact Nat.mul_le_mul_right _ hi'

end Ty

namespace TypeTable

variable {types : TypeTable} {id : TypeId} {s : StructDef} {f : Field} {t u : Ty} {k : UInt32}
  {start stop : UInt32} {fields : List (String × Field)} {name : String} {open? : Option TypeId}

def Exact (types : TypeTable) : Prop :=
  ∀ id s, types.struct? id = some s →
    s.size.toNat = (types.inherited s).toNat + (s.fields.map (·.2.ty.bytes types)).sum

lemma exact_iff : types.Exact ↔ (types.defs.toList.all fun
    | .struct s => s.size.toNat =
      (types.inherited s).toNat + (s.fields.map (·.2.ty.bytes types)).sum
    | .enum _ => true) = true := by
  rw [List.all_eq_true]
  constructor
  · intro h d hd
    obtain ⟨i, hi⟩ := Array.mem_iff_getElem?.1 (Array.mem_toList_iff.1 hd)
    cases d with
    | struct s => simpa using h ⟨i⟩ s (by simp only [struct?, get?, hi])
    | enum name => rfl
  · intro h id s hs
    have hmem : .struct s ∈ types.defs.toList := by
      unfold struct? get? at hs
      split at hs
      · next hget =>
        cases hs
        exact Array.mem_toList_iff.2 (Array.mem_of_getElem? hget)
      · cases hs
    simpa using h _ hmem

instance : Decidable types.Exact :=
  decidable_of_iff _ exact_iff.symm

lemma Placed.bounds (h : types.Placed start fields stop)
    (hexact : stop.toNat = start.toNat + (fields.map (·.2.ty.bytes types)).sum)
    (hf : (name, f) ∈ fields) : f.offset.toNat + f.ty.bytes types ≤ stop.toNat := by
  induction fields generalizing start with
  | nil => cases hf
  | cons e fields ih =>
    obtain ⟨n, g⟩ := e
    obtain ⟨hg, h⟩ := h
    simp only [List.map_cons, List.sum_cons] at hexact
    have hlt := stop.toNat_lt
    rcases List.mem_cons.1 hf with he | hf
    · obtain ⟨rfl, rfl⟩ : name = n ∧ f = g := by simpa using he
      rw [hg]
      omega
    · refine ih h ?_ hf
      rw [UInt32.toNat_add, Ty.toNat_size (by omega), Nat.mod_eq_of_lt (by omega)]
      omega

lemma hasField_bounds (hs : types.Sound open?) (he : types.Exact) (hf : types.HasField id f)
    (hid : types.struct? id = some s) : f.offset.toNat + f.ty.bytes types ≤ s.size.toNat := by
  induction hf generalizing s with
  | own hid' hmem =>
    obtain rfl := Option.some.inj (hid.symm.trans hid')
    exact (hs.placed hid).bounds (he _ _ hid) hmem
  | inherited hid' hparent _ ih =>
    obtain rfl := Option.some.inj (hid.symm.trans hid')
    obtain ⟨t, ht, _⟩ := hs.parent hid hparent
    have := ih ht
    have hsize := he _ _ hid
    simp only [inherited, hparent, Option.bind_some, ht, Option.map_some, Option.getD_some] at hsize
    omega

lemma hasPart_bounds (hs : types.Sound open?) (he : types.Exact) (ht : t.Complete types)
    (hlt : t.bytes types < 2 ^ 32) (h : t.HasPart types k u) :
    k.toNat + u.bytes types ≤ t.bytes types := by
  induction h with
  | whole => simp
  | @field k u id f hp hscalar hpointer hid hf ih =>
    have hbase := structId?_eq_some.1 hid
    obtain ⟨s, hstruct, _⟩ := hasPart_complete hs ht hp hpointer id hbase
    have hfield := hasField_bounds hs he hf hstruct
    have hu : u.bytes types = s.size.toNat := by
      have hshape : u.shape = .scalar := by simpa [Ty.isScalar] using hscalar
      simp [Ty.bytes, hshape, Ty.elementSize, hpointer, Base.size, hbase, hstruct]
    rw [UInt32.toNat_add, Nat.mod_eq_of_lt (by omega)]
    omega
  | @element k u dims i hp hshape hi ih =>
    have helem := @Ty.bytes_element dims u types i hshape hi
    rw [Nat.add_mul, Nat.one_mul] at helem
    rw [UInt32.toNat_add, UInt32.toNat_mul, Ty.toNat_size (by omega), Nat.mod_eq_of_lt (by omega),
      Nat.mod_eq_of_lt (by omega)]
    omega

end TypeTable
end AdventureScript
