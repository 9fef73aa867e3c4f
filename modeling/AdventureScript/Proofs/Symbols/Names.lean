import AdventureScript.Proofs.Symbols.Growth

/-!
Names. Each function and each variable with storage is what its name means, and names in the import
table tell which function or variable they belong to.
-/
namespace AdventureScript

/-! ## Names in the tables of imports and exports -/

def PlainName (name : String) : Prop :=
  '^' ∉ name.toList ∧ '$' ∉ name.toList

lemma PlainName.append {a b : String} (ha : PlainName a) (hb : PlainName b) :
    PlainName (a ++ b) := by
  simp only [PlainName, String.toList_append, List.mem_append, not_or]
  exact ⟨⟨ha.1, hb.1⟩, ha.2, hb.2⟩

lemma takeWhile_append_of_notMem {mark : Char} {l l' : List Char} (h : mark ∉ l) :
    (l ++ l').takeWhile (· ≠ mark) = l ++ l'.takeWhile (· ≠ mark) := by
  refine List.takeWhile_append_of_pos fun c hc => ?_
  simp only [ne_eq, decide_not, Bool.not_eq_eq_eq_not, Bool.not_true, decide_eq_false_iff_not]
  rintro rfl
  exact h hc

lemma PlainName.takeWhile {name : String} (h : PlainName name) :
    name.toList.takeWhile (· ≠ '^') = name.toList := by
  have htake : (name.toList ++ []).takeWhile (· ≠ '^') = _ := takeWhile_append_of_notMem h.1
  simpa using htake

lemma FuncDef.takeWhile_importName {f : FuncDef} (h : PlainName f.name) :
    f.importName.toList.takeWhile (· ≠ '^') = f.name.toList := by
  simp only [importName]
  generalize f.params.length + (if f.variadic then 100 else 0) = arity
  split
  · have htail : (toString f.name ++ toString "^" ++ toString arity).toList =
        f.name.toList ++ '^' :: (toString arity).toList := by
      simp [toString]
    rw [htail, takeWhile_append_of_notMem h.1]
    simp
  · exact h.takeWhile

lemma FuncDef.name_eq_of_importName {f g : FuncDef} (hf : PlainName f.name) (hg : PlainName g.name)
    (h : f.importName = g.importName) : f.name = g.name := by
  rw [← String.toList_inj, ← takeWhile_importName hf, h, takeWhile_importName hg]

lemma FuncDef.name_eq_of_plain {f : FuncDef} {name : String} (hf : PlainName f.name)
    (hname : PlainName name) (h : f.importName = name) : f.name = name := by
  rw [← String.toList_inj, ← takeWhile_importName hf, h, hname.takeWhile]

lemma FuncDef.toList_exportName {f : FuncDef} :
    f.exportName.toList = f.name.toList ++ '$' :: (toString f.params.length).toList := by
  simp [exportName, toString]

lemma FuncDef.name_eq_of_exportName {f g : FuncDef} (hf : PlainName f.name)
    (hg : PlainName g.name) (h : f.exportName = g.exportName) : f.name = g.name := by
  have htake : ∀ {k : FuncDef}, PlainName k.name →
      k.exportName.toList.takeWhile (· ≠ '$') = k.name.toList := by
    intro k hk
    rw [toList_exportName, takeWhile_append_of_notMem hk.2]
    simp
  rw [← String.toList_inj, ← htake hf, h, htake hg]

lemma FuncDef.exportName_ne {f : FuncDef} {name : String} (hname : PlainName name) :
    f.exportName ≠ name := by
  rintro rfl
  refine hname.2 ?_
  rw [toList_exportName]
  simp

namespace Symbols

variable {symbols symbols' : Symbols} {id : FuncId} {f : FuncDef} {v : GlobalVar} {name : String}
  {change : FuncDef → FuncDef}

/-- The meaning is one of an imported function without a body or of an imported variable. -/
def Elsewhere (symbols : Symbols) : Meaning → Prop
  | .function id => ∃ f, symbols.functions[id.index]? = some f ∧ f.isExternal = true
  | .variable id => ∃ v, symbols.globals[id.index]? = some v ∧ v.isImport = true
  | _ => False

def Lent (symbols : Symbols) (name : String) : Prop :=
  ∃ m, symbols.find? name = some m ∧ symbols.Elsewhere m

lemma Elsewhere.grow {m : Meaning} (h : symbols.Elsewhere m) (hg : symbols.Grows symbols') :
    symbols'.Elsewhere m := by
  cases m with
  | function id =>
    obtain ⟨f, hf, he⟩ := h
    obtain ⟨f', hf', hs⟩ := hg.functions hf
    exact ⟨f', hf', hs.isExternal he⟩
  | «variable» id =>
    obtain ⟨v, hv, hi⟩ := h
    exact ⟨v, hg.global hv, hi⟩
  | type id => exact h
  | constant value enum => exact h

lemma Lent.grow (h : symbols.Lent name) (hg : symbols.Grows symbols')
    (hk : ∀ {m}, symbols.find? name = some m → symbols'.find? name = some m) :
    symbols'.Lent name := by
  obtain ⟨m, hm, he⟩ := h
  exact ⟨m, hk hm, he.grow hg⟩

lemma Imports.grow (h : symbols.Imports name) (hg : symbols.Grows symbols')
    (hk : ∀ {m}, symbols.find? name = some m → symbols'.find? name = some m) :
    symbols'.Imports name := by
  rcases h with ⟨f, hf, he, hn⟩ | ⟨id, v, hfind, hv, hi⟩
  · obtain ⟨i, hi⟩ := Array.mem_iff_getElem?.1 hf
    obtain ⟨f', hf', hs⟩ := @Grows.functions _ _ hg ⟨i⟩ f hi
    exact .inl ⟨f', Array.mem_of_getElem? hf', hs.isExternal he, hs.importName.trans hn⟩
  · exact .inr ⟨id, v, hk hfind, hg.global hv, hi⟩

lemma lent_addFunction (hi : f.isImport = true) (hb : f.hasBody = false) :
    (symbols.addFunction f).2.Lent f.name := by
  refine ⟨.function ⟨symbols.functions.size⟩, by rw [find?_addFunction, if_pos rfl], f, ?_, ?_⟩
  · simp [addFunction, bind]
  · simp [FuncDef.isExternal, hi, hb]

lemma lent_addGlobal (hi : v.isImport = true) : (symbols.addGlobal v).Lent v.name := by
  refine ⟨.variable ⟨symbols.globals.size⟩, by rw [find?_addGlobal, if_pos rfl], v, ?_, hi⟩
  simp [addGlobal, bind]

def Has (symbols : Symbols) (name : String) : Meaning → Prop
  | .function id => ∃ f, symbols.functions[id.index]? = some f ∧ f.name = name
  | .variable id => ∃ v, symbols.globals[id.index]? = some v ∧ v.name = name
  | .type id => ∃ d, symbols.types.get? id = some d
  | .constant _ _ => True

/-- Functions and variables with storage are what their names mean, and what names mean is in the
table. -/
structure Named (symbols : Symbols) : Prop where
  function : ∀ {id : FuncId} {f}, symbols.functions[id.index]? = some f →
    symbols.find? f.name = some (.function id)
  storage : ∀ {id : GlobalId} {v}, symbols.globals[id.index]? = some v → v.isImport = false →
    symbols.find? v.name = some (.variable id)
  found : ∀ {name m}, symbols.find? name = some m → PlainName name ∧ symbols.Has name m
  plainTypes : ∀ {id d}, symbols.types.get? id = some d → PlainName d.name

namespace Named

variable (h : symbols.Named)
include h

lemma plainFunction (hf : symbols.functions[id.index]? = some f) :
    PlainName f.name :=
  (h.found (h.function hf)).1

lemma eq_of_name {id' : FuncId} {f' : FuncDef}
    (hf : symbols.functions[id.index]? = some f) (hf' : symbols.functions[id'.index]? = some f')
    (hn : f.name = f'.name) : id = id' := by
  have := h.function hf
  rw [hn, h.function hf'] at this
  simpa using this.symm

lemma not_imports_function (hf : symbols.functions[id.index]? = some f)
    (he : f.isExternal = false) : ¬symbols.Imports f.importName := by
  rintro (⟨g, hg, hext, hn⟩ | ⟨i, v, hfind, _⟩)
  · obtain ⟨j, hj⟩ := Array.mem_iff_getElem?.1 hg
    have hid := @eq_of_name _ ⟨j⟩ g h id f hj hf
      (FuncDef.name_eq_of_importName (@plainFunction _ ⟨j⟩ g h hj) (h.plainFunction hf) hn)
    subst hid
    obtain rfl := Option.some.inj (hf.symm.trans hj)
    simp [he] at hext
  · have hname := FuncDef.name_eq_of_plain (h.plainFunction hf) (h.found hfind).1 rfl
    rw [← hname, h.function hf] at hfind
    cases hfind

lemma not_imports_name (hp : PlainName name)
    (hf : ∀ id, symbols.find? name ≠ some (.function id))
    (hv : ∀ id v, symbols.find? name = some (.variable id) →
      symbols.globals[id.index]? = some v → v.isImport = false) : ¬symbols.Imports name := by
  rintro (⟨g, hg, _, hn⟩ | ⟨id, v, hfind, hget, hi⟩)
  · obtain ⟨j, hj⟩ := Array.mem_iff_getElem?.1 hg
    have hname := FuncDef.name_eq_of_plain (@plainFunction _ ⟨j⟩ g h hj) hp hn
    exact hf ⟨j⟩ (hname ▸ @Named.function _ h ⟨j⟩ g hj)
  · simp [hv id v hfind hget] at hi

lemma not_imports_storage {id : GlobalId}
    (hv : symbols.globals[id.index]? = some v) (hi : v.isImport = false) :
    ¬symbols.Imports v.name := by
  have hfind := h.storage hv hi
  refine h.not_imports_name (h.found hfind).1 (fun id' h' => by simp [hfind] at h') ?_
  intro id' v' h' hv'
  obtain rfl : id = id' := by simpa [hfind] using h'
  obtain rfl := Option.some.inj (hv.symm.trans hv')
  exact hi

lemma not_lent_function (hf : symbols.functions[id.index]? = some f)
    (he : f.isExternal = false) : ¬symbols.Lent f.name := by
  rintro ⟨m, hm, hlent⟩
  obtain rfl := Option.some.inj ((h.function hf).symm.trans hm)
  obtain ⟨g, hg, hext⟩ := hlent
  obtain rfl := Option.some.inj (hf.symm.trans hg)
  simp [he] at hext

lemma not_lent_storage {id : GlobalId}
    (hv : symbols.globals[id.index]? = some v) (hi : v.isImport = false) :
    ¬symbols.Lent v.name := by
  rintro ⟨m, hm, hlent⟩
  obtain rfl := Option.some.inj ((h.storage hv hi).symm.trans hm)
  obtain ⟨w, hw, himport⟩ := hlent
  obtain rfl := Option.some.inj (hv.symm.trans hw)
  simp [hi] at himport

/-! ## Changes -/

lemma grow (hfunctions : ∀ {id : FuncId} {f}, symbols.functions[id.index]? = some f →
      ∃ f', symbols'.functions[id.index]? = some f' ∧ f'.name = f.name)
    (hglobals : ∀ {id : GlobalId} {v}, symbols.globals[id.index]? = some v →
      symbols'.globals[id.index]? = some v)
    (hfunction : ∀ {id : FuncId} {f}, symbols.functions[id.index]? = none →
      symbols'.functions[id.index]? = some f → symbols'.find? f.name = some (.function id))
    (hstorage : ∀ {id : GlobalId} {v}, symbols.globals[id.index]? = none →
      symbols'.globals[id.index]? = some v → symbols'.find? v.name = some (.variable id))
    (hkeep : ∀ {name m}, symbols.find? name = some m → symbols'.find? name = some m ∨
      ∃ id v, m = .variable id ∧ symbols.globals[id.index]? = some v ∧ v.isImport = true)
    (hfound : ∀ {name m}, symbols'.find? name = some m → symbols.find? name = some m ∨
      (PlainName name ∧ symbols'.Has name m))
    (htypes : ∀ {id d}, symbols.types.get? id = some d → ∃ d', symbols'.types.get? id = some d')
    (hplain : ∀ {id d}, symbols'.types.get? id = some d → PlainName d.name) : symbols'.Named where
  function {id f'} hf' := by
    cases hf : symbols.functions[id.index]? with
    | none => exact hfunction hf hf'
    | some f =>
      obtain ⟨f'', hf'', hn⟩ := hfunctions hf
      obtain rfl := Option.some.inj (hf'.symm.trans hf'')
      refine (hn ▸ hkeep (h.function hf)).resolve_right ?_
      rintro ⟨_, _, he, _⟩
      cases he
  storage {id v'} hv' hi := by
    cases hv : symbols.globals[id.index]? with
    | none => exact hstorage hv hv'
    | some v =>
      obtain rfl := Option.some.inj ((hglobals hv).symm.trans hv')
      refine (hkeep (h.storage hv hi)).resolve_right ?_
      rintro ⟨id', v', he, hv', hi'⟩
      cases he
      obtain rfl := Option.some.inj (hv.symm.trans hv')
      simp [hi] at hi'
  found {name m} hm := by
    rcases hfound hm with hm | hm
    · obtain ⟨hp, hhas⟩ := h.found hm
      refine ⟨hp, ?_⟩
      cases m with
      | function id =>
        obtain ⟨f, hf, hn⟩ := hhas
        obtain ⟨f', hf', hn'⟩ := hfunctions hf
        exact ⟨f', hf', hn'.trans hn⟩
      | «variable» id =>
        obtain ⟨v, hv, hn⟩ := hhas
        exact ⟨v, hglobals hv, hn⟩
      | type id =>
        obtain ⟨d, hd⟩ := hhas
        exact htypes hd
      | constant value enum => trivial
    · exact hm
  plainTypes := hplain

lemma addFunction (hp : PlainName f.name)
    (hnone : symbols.find? f.name = none) : (symbols.addFunction f).2.Named := by
  have hget : ∀ {id : FuncId}, (symbols.addFunction f).2.functions[id.index]? =
      if id.index = symbols.functions.size then some f else symbols.functions[id.index]? := by
    simp [Symbols.addFunction, Symbols.bind, Array.getElem?_push]
  refine h.grow (fun {id g} hg => ?_) (fun hv => by simpa [Symbols.addFunction, Symbols.bind] using hv)
    (fun {id g} hn hg => ?_) (fun hn hv => by simp [Symbols.addFunction, Symbols.bind, hn] at hv)
    (fun {name m} hm => .inl ?_) (fun {name m} hm => ?_)
    (fun hd => ⟨_, by simpa [Symbols.addFunction, Symbols.bind] using hd⟩)
    (fun hd => h.plainTypes (by simpa [Symbols.addFunction, Symbols.bind] using hd))
  · have hlt := (Array.getElem?_eq_some_iff.1 hg).1
    exact ⟨g, by rw [hget, if_neg (by omega), hg], rfl⟩
  · rw [hget, hn] at hg
    split at hg
    · next he =>
      cases hg
      rw [find?_addFunction, if_pos rfl, ← he]
    · cases hg
  · rw [find?_addFunction, if_neg, hm]
    rintro rfl
    simp [hnone] at hm
  · rw [find?_addFunction] at hm
    split at hm
    · next he =>
      cases hm
      exact .inr ⟨he ▸ hp, f, by rw [hget, if_pos rfl], he.symm⟩
    · exact .inl hm

lemma addGlobal (hp : PlainName v.name)
    (hname : symbols.find? v.name = none ∨ ∃ id w, symbols.find? v.name = some (.variable id) ∧
      symbols.globals[id.index]? = some w ∧ w.isImport = true) : (symbols.addGlobal v).Named := by
  have hget : ∀ {id : GlobalId}, (symbols.addGlobal v).globals[id.index]? =
      if id.index = symbols.globals.size then some v else symbols.globals[id.index]? := by
    simp [Symbols.addGlobal, Symbols.bind, Array.getElem?_push]
  refine h.grow (fun hf => ⟨_, by simpa [Symbols.addGlobal, Symbols.bind] using hf, rfl⟩)
    (fun {id w} hw => ?_) (fun hn hf => by simp [Symbols.addGlobal, Symbols.bind, hn] at hf)
    (fun {id w} hn hw => ?_) (fun {name m} hm => ?_) (fun {name m} hm => ?_)
    (fun hd => ⟨_, by simpa [Symbols.addGlobal, Symbols.bind] using hd⟩)
    (fun hd => h.plainTypes (by simpa [Symbols.addGlobal, Symbols.bind] using hd))
  · have hlt := (Array.getElem?_eq_some_iff.1 hw).1
    rw [hget, if_neg (by omega), hw]
  · rw [hget, hn] at hw
    split at hw
    · next he =>
      cases hw
      rw [find?_addGlobal, if_pos rfl, ← he]
    · cases hw
  · rw [find?_addGlobal]
    split
    · next he =>
      subst he
      rcases hname with hnone | ⟨id, w, hw, hrest⟩
      · simp [hnone] at hm
      · exact .inr ⟨id, w, Option.some.inj (hm.symm.trans hw), hrest⟩
    · exact .inl hm
  · rw [find?_addGlobal] at hm
    split at hm
    · next he =>
      cases hm
      exact .inr ⟨he ▸ hp, v, by rw [hget, if_pos rfl], he.symm⟩
    · exact .inl hm

lemma addName {m : Meaning} (hp : PlainName name)
    (hnone : symbols.find? name = none) (hf : symbols'.functions = symbols.functions)
    (hg : symbols'.globals = symbols.globals)
    (hfind : ∀ {name'}, symbols'.find? name' = if name' = name then some m else symbols.find? name')
    (hhas : symbols'.Has name m)
    (htypes : ∀ {id d}, symbols.types.get? id = some d → symbols'.types.get? id = some d)
    (hplain : ∀ {id d}, symbols'.types.get? id = some d →
      symbols.types.get? id = some d ∨ PlainName d.name) : symbols'.Named := by
  refine h.grow (fun h => ⟨_, hf ▸ h, rfl⟩) (fun h => hg ▸ h) (fun hn h => by simp [hf, hn] at h)
    (fun hn h => by simp [hg, hn] at h) (fun {name' m'} hm => .inl ?_) (fun {name' m'} hm => ?_)
    (fun hd => ⟨_, htypes hd⟩) (fun hd => (hplain hd).elim h.plainTypes id)
  · rw [hfind, if_neg, hm]
    rintro rfl
    simp [hnone] at hm
  · rw [hfind] at hm
    split at hm
    · next he =>
      cases hm
      exact .inr ⟨he ▸ hp, he ▸ hhas⟩
    · exact .inl hm

lemma addType {d : TypeDef} (hp : PlainName d.name)
    (hnone : symbols.find? d.name = none) : (symbols.addType d).2.Named := by
  have hget : ∀ {id : TypeId}, (symbols.addType d).2.types.get? id =
      if id.index = symbols.types.defs.size then some d else symbols.types.get? id := by
    simp [Symbols.addType, Symbols.bind, TypeTable.add, TypeTable.get?, Array.getElem?_push]
  refine h.addName hp hnone rfl rfl find?_bind ⟨d, by rw [hget, if_pos rfl]⟩ (fun {id d'} hd => ?_)
    fun {id d'} hd => ?_
  · have hlt := (Array.getElem?_eq_some_iff.1 hd).1
    rw [hget, if_neg (by omega), hd]
  · rw [hget] at hd
    split at hd
    · cases hd
      exact .inr hp
    · exact .inl hd

lemma addConstant {value : Int32} {enum : TypeId} (hp : PlainName name)
    (hnone : symbols.find? name = none) : (symbols.addConstant name value enum).Named :=
  h.addName hp hnone rfl rfl find?_bind trivial (fun h => h) .inl

lemma noteImport {b : Bool} : (symbols.noteImport name b).Named := by
  refine h.grow (fun hf => ⟨_, by simpa using hf, rfl⟩) (fun hv => by simpa using hv)
    (fun hn hf => by simp [hn] at hf) (fun hn hv => by simp [hn] at hv)
    (fun hm => .inl (by simpa using hm)) (fun hm => .inl (by simpa using hm))
    (fun hd => ⟨_, by simpa using hd⟩) (fun hd => h.plainTypes (by simpa using hd))

lemma modifyFunction (hname : ∀ f, (change f).name = f.name) :
    (symbols.modifyFunction id change).Named := by
  refine h.grow (fun {id' f} hf => ?_) (fun hv => hv) (fun {id' f} hn hf => ?_)
    (fun hn hv => by simp [Symbols.modifyFunction, hn] at hv) .inl .inl (fun hd => ⟨_, hd⟩)
    h.plainTypes
  · rw [getElem?_modifyFunction, hf]
    split
    · exact ⟨_, rfl, hname f⟩
    · exact ⟨f, rfl, rfl⟩
  · rw [getElem?_modifyFunction, hn] at hf
    split at hf <;> cases hf

lemma modifyStruct {struct : TypeId} {change : StructDef → StructDef}
    (hname : ∀ s, (change s).name = s.name) : (symbols.modifyStruct struct change).Named := by
  refine h.grow (fun hf => ⟨_, hf, rfl⟩) (fun hv => hv)
    (fun hn hf => by simp [Symbols.modifyStruct, hn] at hf)
    (fun hn hv => by simp [Symbols.modifyStruct, hn] at hv) .inl .inl (fun {id d} hd => ?_)
    (fun {id d} hd => ?_)
  · have hlt := (Array.getElem?_eq_some_iff.1 hd).1
    exact ⟨_, Array.getElem?_eq_getElem
      (by simpa [Symbols.modifyStruct, TypeTable.size_modifyStruct] using hlt)⟩
  · rcases TypeTable.get?_modifyStruct hd with hd | ⟨s, hs, rfl⟩
    · exact h.plainTypes hd
    · simpa [TypeDef.name, hname] using h.plainTypes hs

end Named
end Symbols
end AdventureScript
