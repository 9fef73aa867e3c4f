import AdventureScript.Proofs.Emission.Reference
import AdventureScript.Proofs.Symbols.Packing

/-!
Symbol tables that grow by declarations.
-/
namespace AdventureScript

variable {reference : Reference}

structure FuncDef.Stays (f f' : FuncDef) : Prop where
  name : f'.name = f.name
  importName : f'.importName = f.importName
  codeOffset : f'.codeOffset = f.codeOffset
  hasBody : f'.hasBody = f.hasBody
  isImport : f.isImport = true → f'.isImport = true

lemma FuncDef.Stays.refl {f : FuncDef} : f.Stays f :=
  ⟨rfl, rfl, rfl, rfl, id⟩

lemma FuncDef.Stays.isExternal {f f' : FuncDef} (h : f.Stays f') (hf : f.isExternal = true) :
    f'.isExternal = true := by
  simp only [FuncDef.isExternal, Bool.and_eq_true] at hf ⊢
  exact ⟨h.isImport hf.1, by rw [h.hasBody]; exact hf.2⟩

namespace Symbols

variable {symbols symbols' : Symbols} {id id' : FuncId} {f f' : FuncDef} {v : GlobalVar}
  {name name' : String} {m : Meaning} {change : FuncDef → FuncDef} {b : Bool}

@[simp] lemma find?_bind : (symbols.bind name m).find? name' =
    if name' = name then some m else symbols.find? name' := by
  simp only [find?, bind, List.lookup_cons]
  by_cases h : name' = name
  · simp [h]
  · rw [if_neg h, beq_false_of_ne h]

@[simp] lemma find?_noteImport :
    (symbols.noteImport name b).find? name' = symbols.find? name' := by
  unfold noteImport
  split <;> rfl

@[simp] lemma functions_noteImport :
    (symbols.noteImport name b).functions = symbols.functions := by
  unfold noteImport
  split <;> rfl

@[simp] lemma globals_noteImport : (symbols.noteImport name b).globals = symbols.globals := by
  unfold noteImport
  split <;> rfl

@[simp] lemma types_noteImport : (symbols.noteImport name b).types = symbols.types := by
  unfold noteImport
  split <;> rfl

lemma mem_imported_noteImport (h : name' ∈ (symbols.noteImport name b).imported) :
    name' ∈ symbols.imported ∨ (name' = name ∧ b = true) := by
  unfold noteImport at h
  split at h
  · next hb =>
    rcases List.mem_cons.1 h with rfl | h
    · exact .inr ⟨rfl, hb⟩
    · exact .inl h
  · exact .inl h

lemma find?_addFunction : (symbols.addFunction f).2.find? name =
    if name = f.name then some (.function ⟨symbols.functions.size⟩) else symbols.find? name := by
  simp [addFunction]
  rfl

lemma types_addFunction : (symbols.addFunction f).2.types = symbols.types := by
  simp [addFunction, bind]

lemma globals_addFunction : (symbols.addFunction f).2.globals = symbols.globals := by
  simp [addFunction, bind]

lemma mem_functions_addFunction (h : f' ∈ (symbols.addFunction f).2.functions) :
    f' ∈ symbols.functions ∨ f' = f := by
  simpa [addFunction, bind] using h

lemma mem_imported_addFunction (h : name ∈ (symbols.addFunction f).2.imported) :
    name ∈ symbols.imported ∨ (name = f.name ∧ f.isImport = true) := by
  rcases mem_imported_noteImport h with h | h
  · exact .inl h
  · exact .inr h

lemma find?_addGlobal : (symbols.addGlobal v).find? name =
    if name = v.name then some (.variable ⟨symbols.globals.size⟩) else symbols.find? name := by
  simp [addGlobal]
  rfl

lemma types_addGlobal : (symbols.addGlobal v).types = symbols.types := by
  simp [addGlobal, bind]

lemma functions_addGlobal : (symbols.addGlobal v).functions = symbols.functions := by
  simp [addGlobal, bind]

lemma mem_globals_addGlobal {w : GlobalVar} (h : w ∈ (symbols.addGlobal v).globals) :
    w ∈ symbols.globals ∨ w = v := by
  simpa [addGlobal, bind] using h

lemma mem_imported_addGlobal (h : name ∈ (symbols.addGlobal v).imported) :
    name ∈ symbols.imported ∨ (name = v.name ∧ v.isImport = true) := by
  rcases mem_imported_noteImport h with h | h
  · exact .inl h
  · exact .inr h

/-! ## Growth -/

/-- Functions are declared, or declared once more; variables are added; types grow. -/
structure Grows (symbols symbols' : Symbols) : Prop where
  functions : ∀ {id : FuncId} {f}, symbols.functions[id.index]? = some f →
    ∃ f', symbols'.functions[id.index]? = some f' ∧ f.Stays f'
  fresh : ∀ {id : FuncId} {f}, symbols.functions[id.index]? = none →
    symbols'.functions[id.index]? = some f → f.codeOffset = none ∧ f.hasBody = false
  globals : symbols.globals.toList <+: symbols'.globals.toList
  types : symbols.types.Grows symbols'.types

lemma Grows.of_types (hf : symbols'.functions = symbols.functions)
    (hg : symbols'.globals = symbols.globals) (ht : symbols.types.Grows symbols'.types) :
    symbols.Grows symbols' where
  functions h := ⟨_, hf ▸ h, .refl⟩
  fresh h h' := by
    rw [hf, h] at h'
    cases h'
  globals := hg ▸ List.prefix_refl _
  types := ht

section

variable (h : symbols.Grows symbols')
include h

lemma Grows.trans {symbols'' : Symbols}
    (h' : symbols'.Grows symbols'') : symbols.Grows symbols'' where
  functions hf := by
    obtain ⟨f', hf', hs⟩ := h.functions hf
    obtain ⟨f'', hf'', hs'⟩ := h'.functions hf'
    exact ⟨f'', hf'', hs'.name.trans hs.name, hs'.importName.trans hs.importName,
      hs'.codeOffset.trans hs.codeOffset, hs'.hasBody.trans hs.hasBody,
      hs'.isImport ∘ hs.isImport⟩
  fresh {id f} hn hf := by
    cases hf' : symbols'.functions[id.index]? with
    | none => exact h'.fresh hf' hf
    | some f' =>
      have hnew := h.fresh hn hf'
      obtain ⟨f'', hf'', hs⟩ := h'.functions hf'
      obtain rfl := Option.some.inj (hf.symm.trans hf'')
      exact ⟨hs.codeOffset.trans hnew.1, hs.hasBody.trans hnew.2⟩
  globals := h.globals.trans h'.globals
  types := h.types.trans h'.types

lemma Grows.global {id : GlobalId}
    (hv : symbols.globals[id.index]? = some v) : symbols'.globals[id.index]? = some v := by
  obtain ⟨l, hl⟩ := h.globals
  rw [← Array.getElem?_toList] at hv ⊢
  rw [← hl, List.getElem?_append_left (List.getElem?_eq_some_iff.1 hv).1, hv]

lemma Grows.mem_globals (hv : v ∈ symbols.globals) :
    v ∈ symbols'.globals := by
  obtain ⟨i, hi⟩ := Array.mem_iff_getElem?.1 hv
  exact Array.mem_of_getElem? (@Grows.global _ _ _ h ⟨i⟩ hi)

lemma Grows.codeOffset :
    (symbols'.function id).codeOffset = (symbols.function id).codeOffset := by
  cases hf : symbols.functions[id.index]? with
  | some f =>
    obtain ⟨f', hf', hs⟩ := h.functions hf
    simp [function, hf, hf', hs.codeOffset]
  | none =>
    cases hf' : symbols'.functions[id.index]? with
    | none => simp [function, hf, hf']
    | some f' =>
      simp only [function, hf, hf', Option.getD_some, (h.fresh hf hf').1]
      rfl

end

lemma grows_addFunction (hc : f.codeOffset = none) (hb : f.hasBody = false) :
    symbols.Grows (symbols.addFunction f).2 where
  functions {id g} hg := by
    have hlt := (Array.getElem?_eq_some_iff.1 hg).1
    refine ⟨g, ?_, .refl⟩
    simp only [addFunction, functions_noteImport, bind, Array.getElem?_push]
    rw [if_neg (by omega), hg]
  fresh {id g} hn hg := by
    simp only [addFunction, functions_noteImport, bind, Array.getElem?_push, hn] at hg
    split at hg
    · cases hg
      exact ⟨hc, hb⟩
    · cases hg
  globals := by simp [addFunction, bind]
  types := by
    simp only [addFunction, types_noteImport, bind]
    exact .refl

lemma grows_addGlobal : symbols.Grows (symbols.addGlobal v) where
  functions h := ⟨_, by simpa [addGlobal, bind] using h, .refl⟩
  fresh h h' := by simp [addGlobal, bind, h] at h'
  globals := by simp [addGlobal, bind]
  types := by
    simp only [addGlobal, types_noteImport, bind]
    exact .refl

lemma grows_addType {d : TypeDef} : symbols.Grows (symbols.addType d).2 :=
  .of_types rfl rfl TypeTable.grows_add

lemma grows_addConstant {value : Int32} {enum : TypeId} :
    symbols.Grows (symbols.addConstant name value enum) :=
  .of_types rfl rfl .refl

lemma grows_modifyStruct {struct : TypeId} {change : StructDef → StructDef}
    (h : ∀ {s}, symbols.types.struct? struct = some s → s.defined = true → s.Stays (change s)) :
    symbols.Grows (symbols.modifyStruct struct change) :=
  .of_types rfl rfl (TypeTable.grows_modifyStruct h)

lemma getElem?_modifyFunction :
    (symbols.modifyFunction id change).functions[id'.index]? =
      if id = id' then symbols.functions[id'.index]?.map change
      else symbols.functions[id'.index]? := by
  rcases id with ⟨i⟩
  rcases id' with ⟨j⟩
  simp [modifyFunction, Array.getElem?_modify]

lemma grows_modifyFunction
    (h : ∀ {f}, symbols.functions[id.index]? = some f → f.Stays (change f)) :
    symbols.Grows (symbols.modifyFunction id change) where
  functions {id' g} hg := by
    rw [getElem?_modifyFunction]
    split
    · next he =>
      subst he
      exact ⟨change g, by rw [hg]; rfl, h hg⟩
    · exact ⟨g, hg, .refl⟩
  fresh {id' g} hn hg := by
    rw [getElem?_modifyFunction, hn] at hg
    split at hg <;> cases hg
  globals := List.prefix_refl _
  types := .refl

lemma grows_noteImport : symbols.Grows (symbols.noteImport name b) :=
  .of_types functions_noteImport globals_noteImport (by rw [types_noteImport]; exact .refl)

def Stored (symbols : Symbols) : Prop :=
  ∀ v ∈ symbols.globals, v.isImport = false → v.ty.Complete symbols.types

end Symbols

lemma Reference.Means.declare {c : Context} {symbols symbols' : Symbols} {script : Script}
    {r : Register} {w : Int32} {open? : Option TypeId}
    (h : reference.Means c symbols script r w) (hg : symbols.Grows symbols')
    (ht : symbols.types.Sound open?) (hs : symbols.Stored) :
    reference.Means c symbols' script r w := by
  cases reference with
  | data =>
    obtain ⟨hr, v, hv, himport, k, u, hpart, hw⟩ := h
    exact ⟨hr, v, hg.mem_globals hv, himport, k, u, hg.types.hasPart ht (hs v hv himport) hpart, hw⟩
  | text bytes => exact h
  | «variable» id =>
    obtain ⟨hr, v, hv, hrest⟩ := h
    exact ⟨hr, v, hg.global hv, hrest⟩
  | external id =>
    obtain ⟨hr, f, hf, slot, hw, hslot⟩ := h
    obtain ⟨f', hf', hstays⟩ := hg.functions hf
    exact ⟨hr, f', hf', slot, hw, by rw [hstays.importName, hslot]⟩
  | function id =>
    obtain ⟨hr, hid, hw⟩ := h
    obtain ⟨f', hf', _⟩ := hg.functions (Array.getElem?_eq_getElem hid)
    exact ⟨hr, (Array.getElem?_eq_some_iff.1 hf').1, by rw [hg.codeOffset, hw]⟩

lemma Reference.needs?_grows {symbols symbols' : Symbols} {e : Entry}
    (hg : symbols.Grows symbols') (h : reference.needs? symbols = some e) :
    reference.needs? symbols' = some e := by
  cases reference with
  | data | function id => cases h
  | text bytes => exact h
  | «variable» id =>
    obtain ⟨v, hv, rfl⟩ := Option.map_eq_some_iff.1 h
    simp [needs?, hg.global hv]
  | external id =>
    obtain ⟨f, hf, rfl⟩ := Option.map_eq_some_iff.1 h
    obtain ⟨f', hf', hstays⟩ := hg.functions hf
    simp [needs?, hf', hstays.importName]

lemma Mark.waiting?_declare {symbols symbols' : Symbols} (hg : symbols.Grows symbols')
    {m : Mark Reference} : m.waiting? symbols' = m.waiting? symbols := by
  unfold Mark.waiting?
  split
  · rw [hg.codeOffset]
  · rfl

end AdventureScript
