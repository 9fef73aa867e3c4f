import AdventureScript.Proofs.Declaration.Shape

/-!
Declarations of variables, enums and exports.
-/
namespace AdventureScript.Gen
open Assembly

variable {c : Context} {due : Agenda} {s s' : State} {u : Unit} {ty : Ty} {name : String}
  {q : Qualifiers} {v : GlobalVar} {script : Script} {init : List UInt8} {r : Constant × List UInt8}
  {types : TypeTable} {size : UInt32} {enum : TypeId}

lemma passes_initialText {bytes : List UInt8} (h : Runs (initialText name) c s bytes s') :
    Passes s s' := by
  simp only [initialText, runs_bind, runs_peek, exists_eq_left, and_assoc] at h
  split at h
  · simp [and_assoc] at h
    exact h.2.1 ▸ Passes.refl.skip _
  · simp at h

lemma passes_initialNumber (hr : Ready False c 0 s)
    (h : Runs (initialNumber ty name) c s r s') : Passes s s' := by
  simp only [initialNumber, runs_bind, runs_orFail] at h
  obtain ⟨value?, t, h1, ⟨value, ty'⟩, _, ⟨rfl, _⟩, h⟩ := h
  refine (parses_constantExpression? hr h1).1.trans ?_
  split at h <;> simp [and_assoc] at h
  · exact h.1 ▸ .refl
  · exact h.2.1 ▸ .refl

lemma passes_initialValue (hr : Ready False c 0 s) {r : List UInt8 × Option Constant}
    (h : Runs (initialValue ty name) c s r s') : Passes s s' := by
  simp [initialValue, and_assoc] at h
  obtain ⟨_, _, _, ⟨_, bytes, h, _⟩ | ⟨_, value, bytes, h, _⟩⟩ := h
  · exact passes_initialText h
  · exact passes_initialNumber hr h

lemma size_of_isScalar (h : ty.isScalar = true) (hh : ty.isHandle = false) :
    ty.size types = ty.base.size types := by
  have hpointer : ty.pointer = false ∧ ty.isDynamicArray = false := by
    simpa [Ty.isHandle, Ty.isPointer, h] using hh
  simp [Ty.size, Ty.elementSize, hpointer.1, of_decide_eq_true h]

lemma bytes_initialNumber (hr : Ready False c 0 s) (hscalar : ty.isScalar = true)
    (hh : ty.isHandle = false) (h : Runs (initialNumber ty name) c s r s') :
    Fills r.1 (ty.size s.symbols.types).toNat r.2 := by
  simp only [initialNumber, runs_bind, runs_orFail] at h
  obtain ⟨value?, t, h1, ⟨value, ty'⟩, _, ⟨rfl, _⟩, h⟩ := h
  have hsymbols := (parses_constantExpression? hr h1).1.symbols_eq
  dsimp only at h
  split at h <;> simp [and_assoc] at h
  · next hbase _ =>
    obtain ⟨_, rfl⟩ := h
    rw [size_of_isScalar hscalar hh, hbase]
    exact ⟨le_refl 4, rfl⟩
  · obtain ⟨hint, _, rfl⟩ := h
    rw [hsymbols]
    refine ⟨?_, rfl⟩
    rw [size_of_isScalar hscalar hh]
    revert hint
    cases ty.base <;> simp [Base.isInteger, Base.size]

lemma bytes_initialValue (hr : Ready False c 0 s) {r : List UInt8 × Option Constant}
    (h : Runs (initialValue ty name) c s r s') {value : Constant} (hvalue : r.2 = some value) :
    Fills value (ty.size s.symbols.types).toNat r.1 := by
  simp [initialValue, and_assoc] at h
  obtain ⟨hh, hscalar, _, ⟨_, bytes, h, rfl⟩ | ⟨_, value', bytes, h, rfl⟩⟩ := h
  · cases hvalue
  · cases hvalue
    exact bytes_initialNumber hr hscalar hh h

/-! ## Variables -/

lemma runs_checkGlobalName {imported : Bool}
    (h : Runs (checkGlobalName name ty imported) c s u s') :
    s' = s ∧ (s.symbols.find? name = none ∨
      ∃ id, s.symbols.find? name = some (.variable id) ∧
        (s.symbols.global id).isImport = true ∧ imported = false ∧
        name ∉ s.script.imports ∧ c.options.noImportOverride = false) := by
  simp only [checkGlobalName, runs_bind, runs_getSymbols, exists_eq_left, and_assoc] at h
  split at h
  · next hnone => exact ⟨(runs_pure.1 h).1, .inl hnone⟩
  · next id hfind =>
    simp [and_assoc] at h
    obtain ⟨v, hv, himport, hnew, _, hunused, hoverride, rfl⟩ := h
    rw [← Symbols.global_eq hv] at himport
    exact ⟨rfl, .inr ⟨id, hfind, himport, hnew, findImport?_eq_none.1 hunused, hoverride⟩⟩
  · simp at h

lemma Coherent.addImport (h : Coherent c due none s) (hp : PlainName v.name)
    (hi : v.isImport = true) (hnone : s.symbols.find? v.name = none) :
    Coherent c due none { s with symbols := s.symbols.addGlobal v } := by
  refine h.declare_symbols Symbols.grows_addGlobal (h.named.addGlobal hp (.inl hnone))
    (by rw [Symbols.types_addGlobal]; exact h.types) (fun hf hp ht => .inl ⟨_, Symbols.functions_addGlobal ▸ hf, _, hp, ht⟩)
    (fun w hw hw' => ?_) (fun {name m} hm => ?_) (fun name hname => ?_)
  · refine (Symbols.mem_globals_addGlobal hw).resolve_right ?_
    rintro rfl
    simp [hi] at hw'
  · rw [Symbols.find?_addGlobal, if_neg, hm]
    rintro rfl
    simp [hnone] at hm
  · rcases Symbols.mem_imported_addGlobal hname with hname | ⟨rfl, _⟩
    · exact .inl hname
    · exact .inr (Symbols.lent_addGlobal hi)

lemma toList_addGlobal :
    (script.addGlobal size init).2.globalData.toList = script.globalData.toList ++
      (init.take size.toNat ++ List.replicate (size.toNat - (init.take size.toNat).length) 0) := by
  simp [Script.addGlobal]

lemma size_addGlobal :
    (script.addGlobal size init).2.globalData.size = script.globalData.size + size.toNat := by
  rw [← Array.length_toList, toList_addGlobal, List.length_append, List.length_append,
    List.length_replicate, List.length_take, Array.length_toList]
  omega

lemma length_littleEndian {count : Nat} {w : Int32} : (littleEndian count w).length = count := by
  simp [littleEndian]

lemma inData_addGlobal (ho : v.offset = script.globalData.size.toUInt32)
    (hinit : ∀ value, v.value? = some value → Fills value (v.ty.size types).toNat init) :
    InData types (script.addGlobal (v.ty.size types) init).2 v := by
  refine ⟨_, ho, le_of_eq size_addGlobal.symm, fun value hvalue => ?_⟩
  obtain ⟨hsize, rfl⟩ := hinit value hvalue
  refine ⟨hsize, ?_⟩
  rw [toList_addGlobal, ← Array.length_toList, List.drop_left, List.take_of_length_le] <;>
    simp [length_littleEndian, List.take_of_length_le]

lemma Coherent.addStorage (h : Coherent c due none s) (hp : PlainName v.name)
    (hi : v.isImport = false) (ht : v.ty.Complete s.symbols.types)
    (ho : v.offset = s.script.globalData.size.toUInt32)
    (hinit : ∀ value, v.value? = some value → Fills value (v.ty.size s.symbols.types).toNat init)
    (hname : s.symbols.find? v.name = none ∨ ∃ id, s.symbols.find? v.name = some (.variable id) ∧
      (s.symbols.global id).isImport = true ∧ v.name ∉ s.script.imports ∧
      c.options.noImportOverride = false) :
    Coherent c due none { s with
      symbols := s.symbols.addGlobal v
      script := (s.script.addGlobal (v.ty.size s.symbols.types) init).2 } := by
  have hnamed : (s.symbols.addGlobal v).Named := by
    refine h.named.addGlobal hp (hname.imp_right ?_)
    rintro ⟨id, hfind, himport, _⟩
    obtain ⟨w, hw, _⟩ := (h.named.found hfind).2
    exact ⟨id, w, hfind, hw, by simpa [Symbols.global, hw] using himport⟩
  refine h.declare Symbols.grows_addGlobal hnamed (by rw [Symbols.types_addGlobal]; exact h.types)
    (fun hf hp ht => .inl ⟨_, Symbols.functions_addGlobal ▸ hf, _, hp, ht⟩) ?_ (fun w hw hw' => ?_)
    (fun {name m} hused hm => ?_) (fun name hn => ?_)
  · exact toList_addGlobal ▸ List.prefix_append ..
  · refine (Symbols.mem_globals_addGlobal hw).imp_right ?_
    rintro rfl
    rw [Symbols.types_addGlobal]
    exact ⟨ht, inData_addGlobal ho hinit⟩
  · rw [Symbols.find?_addGlobal, if_neg, hm]
    rintro rfl
    rcases hname with hnone | ⟨_, _, _, hunused, hoverride⟩
    · simp [hnone] at hm
    · rcases hused with hused | ⟨ho, _⟩
      · exact hunused hused
      · simp [hoverride] at ho
  · refine .inl ((Symbols.mem_imported_addGlobal hn).resolve_right ?_)
    rintro ⟨_, himport⟩
    simp [hi] at himport

lemma Coherent.declareGlobal (hc : c.tokens.Sealed) (h : Coherent c due none s)
    (hf : ty.Found s.symbols.types) (hp : PlainName name)
    (hrun : Runs (declareGlobal q ty name) c s u s') :
    Coherent c due none s' ∧ s'.symbols.types = s.symbols.types := by
  simp only [Gen.declareGlobal, runs_seq] at hrun
  obtain ⟨t, h1, hrun⟩ := hrun
  have ht := complete_checkVariableType hf h1
  obtain rfl := runs_checkVariableType h1
  simp only [runs_bind, runs_currentLine, exists_eq_left, and_assoc] at hrun
  obtain ⟨_, t', h2, hrun⟩ := hrun
  obtain ⟨rfl, hname⟩ := runs_checkGlobalName h2
  simp [and_assoc, runs_updateScript] at hrun
  rcases hrun with ⟨himport, _, rfl⟩ | ⟨_, hrun⟩
  · refine ⟨h.addImport hp rfl (hname.resolve_right ?_), Symbols.types_addGlobal⟩
    rintro ⟨_, _, _, hnew, _⟩
    simp [himport] at hnew
  · -- Both with and without a value the name is checked before.
    have add {t : State} {v : GlobalVar} {init : List UInt8} (hpass : Passes t' t)
        (hv : v.name = name ∧ v.ty = ty ∧ v.isImport = false ∧
          v.offset = t.script.globalData.size.toUInt32)
        (hinit : ∀ value, v.value? = some value →
          Fills value (ty.size t'.symbols.types).toNat init) :
        Coherent c due none { t with
          symbols := t.symbols.addGlobal v
          script := (t.script.addGlobal (ty.size t'.symbols.types) init).2 } ∧
        (t.symbols.addGlobal v).types = t'.symbols.types := by
      obtain ⟨rfl, rfl, hi, ho⟩ := hv
      rw [← hpass.symbols_eq] at ht hname hinit ⊢
      rw [← hpass.script_eq] at hname
      refine ⟨(h.passes hpass).addStorage hp hi ht ho hinit (hname.imp_right ?_), Symbols.types_addGlobal⟩
      rintro ⟨id, hfind, himport, _, hrest⟩
      exact ⟨id, hfind, himport, hrest⟩
    rcases hrun with ⟨_, rfl⟩ | ⟨_, bytes, value?, t, h3, rfl⟩
    · exact add .refl ⟨rfl, rfl, rfl, rfl⟩ (by simp)
    · have hpass := Passes.refl.skip (s := t') (c.tokens.after t'.pos)
      have hr := hpass.ready (h.ready hc)
      exact add (hpass.trans (passes_initialValue hr h3)) ⟨rfl, rfl, rfl, rfl⟩ fun value hvalue =>
        bytes_initialValue hr h3 (Option.filter_eq_some_iff.1 hvalue).1

/-! ## Enums -/

lemma runs_checkNewName :
    Runs (checkNewName name) c s u s' ↔ s' = s ∧ s.symbols.find? name = none := by
  simp only [checkNewName, runs_bind, runs_getSymbols, exists_eq_left, and_assoc]
  cases s.symbols.find? name <;> simp

lemma Coherent.addType {d : TypeDef} (h : Coherent c due none s) (hp : PlainName d.name)
    (hnone : s.symbols.find? d.name = none)
    (hd : ∀ b, d = .struct b → b.members = #[] ∧ b.size = 0 ∧ b.parent = none) :
    Coherent c due none { s with symbols := (s.symbols.addType d).2 } := by
  refine h.declare_symbols Symbols.grows_addType (h.named.addType hp hnone) (h.types.add hd)
    (fun hf hp ht => .inl ⟨_, hf, _, hp, ht⟩) (fun _ hv _ => hv) (fun {name m} hm => ?_)
    (fun _ hn => .inl hn)
  simp only [Symbols.addType, Symbols.find?_bind]
  rw [if_neg]
  · exact hm
  · rintro rfl
    simp [hnone] at hm

lemma Coherent.addConstant {value : Int32} (h : Coherent c due none s)
    (hp : PlainName name) (hnone : s.symbols.find? name = none) :
    Coherent c due none { s with symbols := s.symbols.addConstant name value enum } := by
  refine h.declare_symbols Symbols.grows_addConstant (h.named.addConstant hp hnone) h.types
    (fun hf hp ht => .inl ⟨_, hf, _, hp, ht⟩) (fun _ hv _ => hv) (fun {name' m} hm => ?_)
    (fun _ hn => .inl hn)
  simp only [Symbols.addConstant, Symbols.find?_bind]
  rw [if_neg]
  · exact hm
  · rintro rfl
    simp [hnone] at hm

lemma Coherent.declareEnumValue {next value : Int32} (hc : c.tokens.Lexed)
    (h : Coherent c due none s) (hrun : Runs (declareEnumValue enum next) c s value s') :
    Coherent c due none s' := by
  simp only [Gen.declareEnumValue, runs_bind, runs_expectIdentifier] at hrun
  obtain ⟨name, t, ⟨hk, rfl, rfl⟩, _, t1, h1, hrun⟩ := hrun
  obtain ⟨rfl, hnone⟩ := runs_checkNewName.1 h1
  have add {t : State} {value : Int32} (hpass : Passes s t) :
      Coherent c due none { t with
        symbols := t.symbols.addConstant (c.tokens.get s.pos).lexeme value enum } :=
    (h.passes hpass).addConstant (hc.plain _ hk) (by rw [hpass.symbols_eq]; exact hnone)
  obtain ⟨b, t, h2, hrun⟩ := hrun
  have hpass := (Passes.refl.skip _).trans (passes_eat h2)
  rcases runs_ite.1 hrun with ⟨_, hrun⟩ | ⟨_, hrun⟩
  · obtain ⟨value?, t', h3, hrun⟩ := runs_bind.1 hrun
    split at hrun
    · simp at hrun
      exact hrun.1 ▸ add (hpass.trans
        (parses_constantExpression? (hpass.ready (h.ready hc.ends)) h3).1)
    · simp at hrun
  · simp at hrun
    exact hrun.1 ▸ add hpass

lemma Coherent.compileEnum (hc : c.tokens.Lexed) (h : Coherent c due none s)
    (hrun : Runs (compileEnum q) c s u s') : Coherent c due none s' := by
  simp [Gen.compileEnum, and_assoc, runs_checkNewName] at hrun
  obtain ⟨_, hk, hnone, _, t, h1, _, _, rfl⟩ := hrun
  refine Coherent.passes ?_ (Passes.refl.skip _)
  refine runs_rounds (P := fun _ => Coherent c due none) (Q := fun _ => Coherent c due none) ?again ?done
    h1 ?start
  case start =>
    have hname := h.passes (Passes.refl.skip (c.tokens.after (c.tokens.after s.pos)))
    exact (@Coherent.addType c due _ (.enum _) hname (hc.plain _ hk) hnone nofun).passes
      (Passes.refl.skip _)
  case again =>
    intro next next' t t' h hrun
    simp [and_assoc] at hrun
    obtain ⟨_, value, t1, h1, _, rfl, _⟩ := hrun
    exact (h.declareEnumValue hc h1).passes (Passes.refl.skip _)
  case done =>
    intro next _ t t' h hrun
    simp [and_assoc] at hrun
    rcases hrun with ⟨_, rfl⟩ | ⟨_, ⟨value, h1⟩, _⟩
    · exact h
    · exact h.declareEnumValue hc h1

lemma Coherent.compileExport (h : Coherent c due none s) (hrun : Runs (compileExport q) c s u s') :
    Coherent c due none s' := by
  simp [Gen.compileExport, and_assoc] at hrun
  obtain ⟨_, t, h1, _, rfl⟩ := hrun
  refine Coherent.passes ?_ (Passes.refl.skip _)
  refine runs_repeatWhile (P := Coherent c due none) (Q := Coherent c due none) ?again ?done h1
    (h.passes (Passes.refl.skip _))
  case again =>
    intro t t' h hrun
    simp [and_assoc] at hrun
    obtain ⟨_, _, rfl⟩ := hrun
    exact h.outer _ _ _ _ t.script.exports t.script.sections (h.kept.request _)
  case done =>
    intro t t' h hrun
    simp [and_assoc] at hrun
    obtain ⟨_, _, rfl⟩ := hrun
    exact h.outer _ _ _ _ t.script.exports t.script.sections (h.kept.request _)

end AdventureScript.Gen
