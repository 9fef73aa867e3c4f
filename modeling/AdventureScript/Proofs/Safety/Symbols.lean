import AdventureScript.Proofs.Symbols.Growth

/-!
Symbol tables in which every number leads somewhere.
-/
namespace AdventureScript

variable {struct : TypeId} {meaning : Meaning} {change : FuncDef → FuncDef}

def Ty.Proper (t : Ty) : Prop :=
  t.shape ≠ .static []

lemma Ty.Proper.of_not_static {t : Ty} (h : t.isStaticArray = false) : t.Proper := by
  intro hshape
  simp [Ty.isStaticArray, hshape] at h

structure FuncDef.Proper (f : FuncDef) : Prop where
  result : f.returnType.isStaticArray = false
  params : ∀ p ∈ f.params, p.ty.Proper

def Scope.Proper (s : Scope) : Prop :=
  ∀ b ∈ s.blocks, ∀ v ∈ b.vars, v.ty.Proper

def StructDef.flags (d : StructDef) : Bool × Bool × Bool × Bool :=
  (d.managed, d.builtin, d.autoptr, d.internalString)

def TypeTable.flags? (types : TypeTable) (id : TypeId) : Option (Bool × Bool × Bool × Bool) :=
  (types.struct? id).map StructDef.flags

lemma afterLastScope_of_notMem {found cs : List Char} (h : ':' ∉ cs) :
    afterLastScope found cs = found := by
  fun_induction afterLastScope found cs with
  | case1 found cs ih => simp at h
  | case2 found c cs hc ih => exact ih (List.not_mem_of_not_mem_cons h)
  | case3 found => rfl

lemma afterLastScope_append {found cs rest : List Char} (h : ':' ∉ rest) :
    afterLastScope found (cs ++ ':' :: ':' :: rest) = rest := by
  induction cs generalizing found with
  | nil =>
    rw [List.nil_append, afterLastScope]
    unfold afterLastScope
    split
    · next heq =>
      obtain ⟨_, rfl⟩ := List.cons.inj heq
      simp at h
    · next heq =>
      obtain ⟨_, rfl⟩ := List.cons.inj heq
      exact afterLastScope_of_notMem h
    · next heq => cases heq
  | cons c cs ih =>
    unfold afterLastScope
    split
    · next heq =>
      rw [← (List.cons.inj heq).2]
      exact ih
    · next heq =>
      rw [← (List.cons.inj heq).2]
      exact ih
    · next heq => cases heq

lemma FuncDef.shortName_eq {f : FuncDef} {struct member : String}
    (hname : f.name = struct ++ "::" ++ member) (h : ':' ∉ member.toList) :
    f.shortName = member := by
  have hlist : f.name.toList = struct.toList ++ ':' :: ':' :: member.toList := by simp [hname]
  rw [shortName, hlist, afterLastScope_append h, String.ofList_toList]

namespace Symbols

variable {symbols symbols' : Symbols} {id : FuncId} {f : FuncDef} {v : GlobalVar} {name : String}
  {reached : Prop} {c : Component} {b : Bool}

/-- There is such a function, and if it is called through an object, that is `reached`. -/
def Callable (symbols : Symbols) (id : FuncId) (reached : Prop) : Prop :=
  ∃ f, symbols.functions[id.index]? = some f ∧ (f.needsObject = true → reached)

lemma Callable.mono {reached' : Prop} (h : symbols.Callable id reached)
    (himp : reached → reached') : symbols.Callable id reached' := by
  obtain ⟨f, hf, hr⟩ := h
  exact ⟨f, hf, fun hn => himp (hr hn)⟩

lemma Callable.lt_size (h : symbols.Callable id reached) : id.index < symbols.functions.size := by
  obtain ⟨f, hf, _⟩ := h
  exact (Array.getElem?_eq_some_iff.1 hf).1

/-- What a struct may have as a component. The functions of a static attribute need no object. -/
def Offers (symbols : Symbols) : Component → Prop
  | .field f => f.ty.Proper
  | .function id => id.index < symbols.functions.size
  | .attribute a => a.ty.isStaticArray = false ∧ symbols.Callable a.getter (a.isStatic = false) ∧
      ∀ id ∈ a.setter, symbols.Callable id (a.isStatic = false)

/-- What a name may mean. A function that is called through an object has a qualified name. -/
def Resolves (symbols : Symbols) (name : String) : Meaning → Prop
  | .function id => symbols.Callable id (':' ∈ name.toList)
  | .variable id => id.index < symbols.globals.size
  | _ => True

/-- Every number in the table leads somewhere, and what is found there has a sensible type. -/
structure Ranged (symbols : Symbols) : Prop where
  names : ∀ {name meaning}, (name, meaning) ∈ symbols.names → symbols.Resolves name meaning
  components : ∀ {id d}, symbols.types.struct? id = some d → ∀ m ∈ d.members,
    symbols.Offers m.component
  functions : ∀ f ∈ symbols.functions, f.Proper
  globals : ∀ v ∈ symbols.globals, v.ty.Proper ∧ (v.value?.isSome = true → v.ty.isScalar = true)

lemma ranged_empty : Ranged {} where
  names h := by cases h
  components h := by simp [TypeTable.struct?, TypeTable.get?] at h
  functions f h := by simp at h
  globals v h := by simp at h

namespace Ranged

lemma resolves (h : symbols.Ranged) (hname : symbols.find? name = some meaning) :
    symbols.Resolves name meaning := by
  obtain ⟨before, after, hsplit, _⟩ := List.lookup_eq_some_iff.1 hname
  exact h.names (by rw [hsplit]; simp)

lemma offers (h : symbols.Ranged) {owner : TypeId}
    (hc : symbols.types.findComponent? struct name = some (owner, c)) : symbols.Offers c := by
  obtain ⟨id, _, hid⟩ := List.exists_of_findSome?_eq_some hc
  obtain ⟨c', hc', he⟩ := Option.map_eq_some_iff.1 hid
  obtain ⟨d, hd, hd'⟩ := Option.bind_eq_some_iff.1 hc'
  obtain ⟨m, hm, hm'⟩ := Option.map_eq_some_iff.1 hd'
  obtain ⟨rfl, rfl⟩ : id = owner ∧ c' = c := by simpa using he
  have hmem : m ∈ d.members := by simpa using List.mem_of_find?_eq_some hm
  exact hm' ▸ h.components hd m hmem

end Ranged

/-! ## Additions -/

structure Extends (symbols symbols' : Symbols) : Prop where
  functions : ∀ {id : FuncId} {f}, symbols.functions[id.index]? = some f →
    ∃ f', symbols'.functions[id.index]? = some f' ∧ f'.needsObject = f.needsObject
  globals : symbols.globals.size ≤ symbols'.globals.size
  structs : ∀ {id flags}, symbols.types.flags? id = some flags → symbols'.types.flags? id = some flags

lemma Extends.refl : symbols.Extends symbols where
  functions hf := ⟨_, hf, rfl⟩
  globals := le_rfl
  structs := id

lemma Extends.trans {symbols'' : Symbols} (h : symbols.Extends symbols')
    (h' : symbols'.Extends symbols'') : symbols.Extends symbols'' where
  functions hf := by
    obtain ⟨f', hf', hn⟩ := h.functions hf
    obtain ⟨f'', hf'', hn'⟩ := h'.functions hf'
    exact ⟨f'', hf'', hn'.trans hn⟩
  globals := le_trans h.globals h'.globals
  structs hs := h'.structs (h.structs hs)

lemma Extends.isStruct (h : symbols.Extends symbols')
    (hs : (symbols.types.struct? struct).isSome = true) :
    (symbols'.types.struct? struct).isSome = true := by
  obtain ⟨d, hd⟩ := Option.isSome_iff_exists.1 hs
  obtain ⟨d', hd', _⟩ := Option.map_eq_some_iff.1 (h.structs (congrArg (Option.map _) hd))
  rw [hd']
  rfl

lemma Callable.extend (h : symbols.Callable id reached) (he : symbols.Extends symbols') :
    symbols'.Callable id reached := by
  obtain ⟨f, hf, hr⟩ := h
  obtain ⟨f', hf', hn⟩ := he.functions hf
  exact ⟨f', hf', hn ▸ hr⟩

lemma Extends.lt_size (he : symbols.Extends symbols') (h : id.index < symbols.functions.size) :
    id.index < symbols'.functions.size := by
  obtain ⟨f, hf, _⟩ := he.functions (Array.getElem?_eq_getElem h)
  exact (Array.getElem?_eq_some_iff.1 hf).1

lemma Offers.extend (h : symbols.Offers c) (he : symbols.Extends symbols') :
    symbols'.Offers c := by
  cases c with
  | field f => exact h
  | function id => exact he.lt_size h
  | «attribute» a => exact ⟨h.1, h.2.1.extend he, fun id hid => (h.2.2 id hid).extend he⟩

lemma Resolves.extend (h : symbols.Resolves name meaning)
    (he : symbols.Extends symbols') : symbols'.Resolves name meaning := by
  cases meaning with
  | function id => exact Callable.extend h he
  | «variable» id => exact lt_of_lt_of_le h he.globals
  | _ => trivial

lemma names_noteImport : (symbols.noteImport name b).names = symbols.names := by
  unfold noteImport
  split <;> rfl

lemma names_addFunction : (symbols.addFunction f).2.names =
    (f.name, .function ⟨symbols.functions.size⟩) :: symbols.names := by
  rw [addFunction, names_noteImport]
  rfl

lemma names_addGlobal : (symbols.addGlobal v).names =
    (v.name, .variable ⟨symbols.globals.size⟩) :: symbols.names := by
  rw [addGlobal, names_noteImport]
  rfl

lemma extends_addFunction : symbols.Extends (symbols.addFunction f).2 where
  functions {id g} hg := by
    have hlt := (Array.getElem?_eq_some_iff.1 hg).1
    refine ⟨g, ?_, rfl⟩
    simp only [addFunction, functions_noteImport, bind, Array.getElem?_push]
    rw [if_neg (by omega), hg]
  globals := le_of_eq (congrArg Array.size globals_addFunction.symm)
  structs h := by rwa [types_addFunction]

lemma extends_addGlobal : symbols.Extends (symbols.addGlobal v) where
  functions hf := ⟨_, by rwa [functions_addGlobal], rfl⟩
  globals := by simp [addGlobal, bind]
  structs h := by rwa [types_addGlobal]

lemma extends_addType {d : TypeDef} : symbols.Extends (symbols.addType d).2 where
  functions hf := ⟨_, hf, rfl⟩
  globals := le_rfl
  structs {id _} h := by
    obtain ⟨s, hs, rfl⟩ := Option.map_eq_some_iff.1 h
    have hlt := (Array.getElem?_eq_some_iff.1 (TypeTable.struct?_eq_some.1 hs)).1
    have hkept : (symbols.types.add d).2.struct? id = some s := by
      rw [TypeTable.struct?_add, if_neg (by omega), hs]
    exact congrArg (Option.map StructDef.flags) hkept

lemma extends_noteImport : symbols.Extends (symbols.noteImport name b) where
  functions hf := ⟨_, by rwa [functions_noteImport], rfl⟩
  globals := le_of_eq (congrArg Array.size globals_noteImport.symm)
  structs h := by rwa [types_noteImport]

lemma extends_modifyFunction (hchange : ∀ f, (change f).needsObject = f.needsObject) :
    symbols.Extends (symbols.modifyFunction id change) where
  functions {id' f} hf := by
    rw [getElem?_modifyFunction, hf]
    split
    · exact ⟨change f, rfl, hchange f⟩
    · exact ⟨f, rfl, rfl⟩
  globals := le_rfl
  structs h := h

lemma extends_modifyStruct {change : StructDef → StructDef}
    (hflags : ∀ d, (change d).flags = d.flags) :
    symbols.Extends (symbols.modifyStruct struct change) where
  functions hf := ⟨_, hf, rfl⟩
  globals := le_rfl
  structs h := by
    rw [modifyStruct, TypeTable.flags?, TypeTable.struct?_modifyStruct]
    split
    · rw [Option.map_map, funext (f := StructDef.flags ∘ change) hflags]
      exact h
    · exact h

lemma callable_addFunction :
    (symbols.addFunction f).2.Callable (symbols.addFunction f).1 (f.needsObject = true) := by
  refine ⟨f, ?_, fun h => h⟩
  simp [addFunction, bind]

lemma offers_add {d : StructDef} (hc : symbols.Offers c) :
    ∀ e ∈ (d.add name c).members, e ∈ d.members ∨ symbols.Offers e.component := by
  intro e he
  rcases Array.mem_push.1 he with he | rfl
  · exact .inl he
  · exact .inr hc

namespace Ranged

variable (h : symbols.Ranged)
include h

lemma extend (he : symbols.Extends symbols')
    (hnames : ∀ {name meaning}, (name, meaning) ∈ symbols'.names →
      (name, meaning) ∈ symbols.names ∨ symbols'.Resolves name meaning)
    (hstructs : ∀ {id d}, symbols'.types.struct? id = some d →
      symbols.types.struct? id = some d ∨ ∀ m ∈ d.members, symbols'.Offers m.component)
    (hfunctions : ∀ f ∈ symbols'.functions, f.Proper)
    (hglobals : ∀ v ∈ symbols'.globals, v ∈ symbols.globals ∨
      v.ty.Proper ∧ (v.value?.isSome = true → v.ty.isScalar = true)) : symbols'.Ranged where
  names hmem := (hnames hmem).elim (fun hmem => (h.names hmem).extend he) id
  components hd m hm := (hstructs hd).elim (fun hd' => (h.components hd' m hm).extend he)
    fun hnew => hnew m hm
  functions := hfunctions
  globals v hv := (hglobals v hv).elim (h.globals v) id

lemma noteImport : (symbols.noteImport name b).Ranged := by
  unfold Symbols.noteImport
  split
  · exact h.extend ⟨fun hf => ⟨_, hf, rfl⟩, le_rfl, id⟩ .inl .inl h.functions fun _ => .inl
  · exact h

lemma addFunction (hf : f.Proper)
    (hname : f.needsObject = true → ':' ∈ f.name.toList) : (symbols.addFunction f).2.Ranged := by
  refine h.extend extends_addFunction (fun hmem => ?_) (fun hd => ?_) (fun g hg => ?_) fun v hv =>
    ?_
  · rw [names_addFunction] at hmem
    rcases List.mem_cons.1 hmem with he | hmem
    · cases he
      exact .inr (callable_addFunction.mono hname)
    · exact .inl hmem
  · exact .inl (types_addFunction ▸ hd)
  · rcases mem_functions_addFunction hg with hg | rfl
    · exact h.functions g hg
    · exact hf
  · exact .inl (globals_addFunction ▸ hv)

lemma addGlobal (hty : v.ty.Proper)
    (hvalue : v.value?.isSome = true → v.ty.isScalar = true) : (symbols.addGlobal v).Ranged := by
  refine h.extend extends_addGlobal (fun hmem => ?_) (fun hd => ?_) (fun g hg => ?_) fun w hw => ?_
  · rw [names_addGlobal] at hmem
    rcases List.mem_cons.1 hmem with he | hmem
    · cases he
      exact .inr (by simp [Resolves, Symbols.addGlobal, bind])
    · exact .inl hmem
  · exact .inl (types_addGlobal ▸ hd)
  · exact h.functions g (functions_addGlobal ▸ hg)
  · exact (mem_globals_addGlobal hw).imp_right fun (he : w = v) => he ▸ ⟨hty, hvalue⟩

lemma addConstant {value : Int32} {enum : TypeId} :
    (symbols.addConstant name value enum).Ranged := by
  refine h.extend ⟨fun hf => ⟨_, hf, rfl⟩, le_rfl, id⟩ (fun hmem => ?_) .inl h.functions
    fun _ => .inl
  rcases List.mem_cons.1 hmem with he | hmem
  · cases he
    exact .inr trivial
  · exact .inl hmem

lemma addType {d : TypeDef}
    (hd : ∀ s, d = .struct s → s.members = #[]) :
    (symbols.addType d).2.Ranged := by
  refine h.extend extends_addType (fun hmem => ?_) (fun {id s} hs => ?_) h.functions fun _ => .inl
  · rcases List.mem_cons.1 hmem with he | hmem
    · cases he
      exact .inr trivial
    · exact .inl hmem
  · have hs' : (symbols.types.add d).2.struct? id = some s := hs
    rw [TypeTable.struct?_add] at hs'
    split at hs'
    · cases d with
      | struct s' =>
        obtain rfl : s' = s := by simpa using hs'
        exact .inr (by simp [hd _ rfl])
      | enum name => cases hs'
    · exact .inl hs'

lemma modifyFunction (hobject : ∀ f, (change f).needsObject = f.needsObject)
    (hproper : ∀ f, f.Proper → (change f).Proper) :
    (symbols.modifyFunction id change).Ranged := by
  refine h.extend (extends_modifyFunction hobject) .inl .inl (fun g hg => ?_) fun _ => .inl
  obtain ⟨i, hi⟩ := Array.mem_iff_getElem?.1 hg
  rw [show i = (FuncId.mk i).index from rfl, getElem?_modifyFunction] at hi
  split at hi
  · obtain ⟨f, hf, rfl⟩ := Option.map_eq_some_iff.1 hi
    exact hproper f (h.functions f (Array.mem_of_getElem? hf))
  · exact h.functions g (Array.mem_of_getElem? hi)

lemma modifyStruct {change : StructDef → StructDef} (hflags : ∀ d, (change d).flags = d.flags)
    (hmembers : ∀ d, ∀ m ∈ (change d).members, m ∈ d.members ∨ symbols.Offers m.component) :
    (symbols.modifyStruct struct change).Ranged := by
  refine h.extend (extends_modifyStruct hflags) .inl (fun {id d} hd => ?_) h.functions fun _ => .inl
  rw [Symbols.modifyStruct, TypeTable.struct?_modifyStruct] at hd
  split at hd
  · obtain ⟨d', hd', rfl⟩ := Option.map_eq_some_iff.1 hd
    refine .inr fun m hm => Offers.extend ?_ (extends_modifyStruct hflags)
    exact (hmembers d' m hm).elim (h.components hd' m) fun h => h
  · exact .inl hd

end Ranged
end Symbols
end AdventureScript
