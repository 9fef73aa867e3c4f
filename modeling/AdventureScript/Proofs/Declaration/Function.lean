import AdventureScript.Proofs.Declaration.Shape

/-!
Declarations of functions.
-/
namespace AdventureScript

variable {symbols : Symbols} {struct? : Option TypeId}

lemma StructDef.fields_add {s : StructDef} {name : String} {component : Component}
    (h : ∀ f, component ≠ .field f) : (s.add name component).fields = s.fields := by
  cases component with
  | field f => exact absurd rfl (h f)
  | function id => simp [fields, add]
  | «attribute» a => simp [fields, add]

namespace Gen
open Assembly

variable {c : Context} {due : Agenda} {s s' : State} {u : Unit} {ty : Ty} {name : String}
  {q : Qualifiers} {open? : Option TypeId} {f g : FuncDef} {id : FuncId} {struct : TypeId}
  {component : Component} {hasBody : Bool} {membership : Membership}

lemma Coherent.addFunction (h : Coherent c due open? s) (hp : PlainName f.name)
    (hnone : s.symbols.find? f.name = none) (hcode : f.codeOffset = none)
    (hbody : f.hasBody = false) (hd : c.tokens.Defaults f.params) :
    Coherent c due open? { s with symbols := (s.symbols.addFunction f).2 } := by
  refine h.declare_symbols (Symbols.grows_addFunction hcode hbody) (h.named.addFunction hp hnone)
    (by rw [Symbols.types_addFunction]; exact h.types) (fun {g p bytes} hg hp' ht => ?_)
    (fun v hv _ => by rwa [Symbols.globals_addFunction] at hv) (fun {name m} hm => ?_)
    (fun name hname => ?_)
  · rcases Symbols.mem_functions_addFunction hg with hg | rfl
    · exact .inl ⟨g, hg, p, hp', ht⟩
    · exact .inr (hd p hp' bytes ht)
  · rw [Symbols.find?_addFunction, if_neg, hm]
    rintro rfl
    simp [hnone] at hm
  · rcases Symbols.mem_imported_addFunction hname with hname | ⟨rfl, hi⟩
    · exact .inl hname
    · exact .inr (Symbols.lent_addFunction hi hbody)

lemma Coherent.addComponent (h : Coherent c due open? s) (hfield : ∀ f, component ≠ .field f)
    (hnew : s.symbols.types.Lacks struct name) :
    Coherent c due open? { s with symbols := s.symbols.modifyStruct struct (·.add name component) } :=
  h.declare_symbols
    (Symbols.grows_modifyStruct fun _ hd => ⟨hd, rfl, rfl, StructDef.fields_add hfield⟩)
    (h.named.modifyStruct fun _ => rfl)
    (h.types.modify_other fun _ hs =>
      ⟨StructDef.fields_add hfield, rfl, rfl, rfl, (h.types.distinct hs).add (hnew _ hs)⟩)
    (fun hf hp ht => .inl ⟨_, hf, _, hp, ht⟩) (fun _ hv _ => hv) (fun hm => hm)
    (fun _ hn => .inl hn)

lemma getElem?_addFunction_self :
    (symbols.addFunction f).2.functions[(symbols.addFunction f).1.index]? = some f := by
  simp [Symbols.addFunction, Symbols.bind]

structure Fresh (c : Context) (s : State) (f : FuncDef) : Prop where
  plain : PlainName f.name
  name : s.symbols.find? f.name = none
  codeOffset : f.codeOffset = none
  hasBody : f.hasBody = false
  defaults : c.tokens.Defaults f.params

lemma Coherent.addFunctionOf (h : Coherent c due open? s) (hf : Fresh c s f)
    (hnew : ∀ struct ∈ f.structOf, s.symbols.types.Lacks struct name)
    (hrun : Runs (Gen.addFunction f name) c s id s') :
    Coherent c due open? s' ∧ s'.symbols.functions[id.index]? = some f := by
  obtain ⟨rfl, rfl⟩ := hrun
  have hadd := h.addFunction hf.plain hf.name hf.codeOffset hf.hasBody hf.defaults
  cases hstruct : f.structOf with
  | none => exact ⟨hadd, getElem?_addFunction_self⟩
  | some struct =>
    refine ⟨hadd.addComponent (by simp) ?_, getElem?_addFunction_self⟩
    simpa only [Symbols.types_addFunction] using hnew struct hstruct

lemma Coherent.declareNew (h : Coherent c due open? s) (hf : Fresh c s f)
    (hstruct : f.structOf = membership.struct?)
    (hrun : Runs (Gen.declareNew f membership name) c s id s') :
    Coherent c due open? s' ∧ s'.symbols.functions[id.index]? = some f := by
  simp only [Gen.declareNew, runs_bind, runs_getTypes, exists_eq_left, and_assoc] at hrun
  cases membership with
  | free => exact h.addFunctionOf hf (by simp [hstruct, Membership.struct?]) hrun
  | member struct => simp at hrun
  | extender struct isStatic =>
    simp at hrun
    refine h.addFunctionOf hf (fun struct' hs => ?_) hrun.2
    obtain rfl : struct = struct' := by simpa [hstruct, Membership.struct?] using hs
    exact TypeTable.lacks_of_findComponent? hrun.1

/-! ## Functions that are declared again -/

lemma params_inheritFrom :
    (inheritFrom f g membership).params = g.params.zipIdx.map fun (p, k) =>
      { p with default? := p.default?.or (f.params[k]?.bind (·.default?)) } := by
  unfold inheritFrom
  split <;> rfl

lemma name_inheritFrom : (inheritFrom f g membership).name = g.name := by
  unfold inheritFrom
  split <;> rfl

lemma isImport_inheritFrom : (inheritFrom f g membership).isImport = g.isImport := by
  unfold inheritFrom
  split <;> rfl

lemma default_inheritFrom {p : Param} {bytes : List UInt8}
    (hp : p ∈ (inheritFrom f g membership).params) (ht : p.default? = some (.string bytes)) :
    (∃ p ∈ f.params, p.default? = some (.string bytes)) ∨
      ∃ p ∈ g.params, p.default? = some (.string bytes) := by
  rw [params_inheritFrom] at hp
  obtain ⟨⟨p, k⟩, hk, rfl⟩ := List.mem_map.1 hp
  rcases Option.or_eq_some_iff.1 ht with ht | ⟨_, ht⟩
  · exact .inr ⟨p, List.fst_mem_of_mem_zipIdx hk, ht⟩
  · obtain ⟨p', hp', ht⟩ := Option.bind_eq_some_iff.1 ht
    exact .inl ⟨p', List.mem_of_getElem? hp', ht⟩

lemma length_of_mismatch? {types : TypeTable} (h : f.mismatch? g types = none) :
    f.params.length = g.params.length := by
  unfold FuncDef.mismatch? at h
  split at h
  · cases h
  · next hne => exact not_not.1 fun he => hne (.inl he)

lemma runs_checkRedeclared (h : Runs (checkRedeclared f g hasBody) c s u s') :
    s' = s ∧ (hasBody = true → f.hasBody = false ∧
        (f.isImport = true → c.options.noImportOverride = false ∧
          f.importName ∉ s.script.imports)) ∧
      (hasBody = false → g.isImport = true → f.hasBody = false) := by
  simp [checkRedeclared, and_assoc] at h
  rcases h with ⟨rfl, hbody, hoverride, hunused, rfl⟩ | ⟨rfl, hbody, rfl⟩
  · exact ⟨rfl, fun _ => ⟨hbody, fun hi => ⟨hoverride hi, findImport?_eq_none.1 (hunused hi)⟩⟩, nofun⟩
  · exact ⟨rfl, nofun, fun _ => hbody⟩

def again (hasBody : Bool) (f g : FuncDef) : FuncDef :=
  { g with
    noLoopCheck := g.noLoopCheck || f.noLoopCheck
    params := if hasBody then f.params else g.params
    isImport := g.isImport || f.isImport }

lemma stays_again (h : g.params.length = f.params.length) : g.Stays (again hasBody f g) := by
  refine ⟨rfl, ?_, rfl, rfl, fun hi => by simp [again, hi]⟩
  have hlength : (if hasBody = true then f.params else g.params).length = g.params.length := by
    split <;> simp [h]
  simp only [FuncDef.importName, again, hlength]
  rfl

lemma getElem?_again (hg : symbols.functions[id.index]? = some g) :
    ((symbols.modifyFunction id (again hasBody f)).noteImport f.name f.isImport).functions[id.index]? =
      some (again hasBody f g) := by
  rw [Symbols.functions_noteImport, Symbols.getElem?_modifyFunction, if_pos rfl, hg]
  rfl

lemma Coherent.redeclare (h : Coherent c due open? s) (hg : s.symbols.functions[id.index]? = some g)
    (hfind : s.symbols.find? f.name = some (.function id))
    (hlength : g.params.length = f.params.length)
    (hd : ∀ p ∈ f.params, ∀ bytes, p.default? = some (.string bytes) →
      (∃ p ∈ g.params, p.default? = some (.string bytes)) ∨ c.tokens.HasText bytes)
    (hlent : f.isImport = true → g.hasBody = false) :
    Coherent c due open? { s with
      symbols := (s.symbols.modifyFunction id (again hasBody f)).noteImport f.name f.isImport } := by
  refine h.declare_symbols ((Symbols.grows_modifyFunction fun hf => ?_).trans
    Symbols.grows_noteImport)
    (@Symbols.Named.modifyFunction _ id (again hasBody f) h.named fun _ => rfl).noteImport
    (by rw [Symbols.types_noteImport]; exact h.types) (fun {e p bytes} he hp ht => ?_)
    (fun v hv _ => by rw [Symbols.globals_noteImport] at hv; exact hv) (fun {name m} hm => ?_)
    (fun name hn => ?_)
  · obtain rfl := Option.some.inj (hg.symm.trans hf)
    exact stays_again hlength
  · rw [Symbols.functions_noteImport] at he
    obtain ⟨e', he', rfl | rfl⟩ := Symbols.mem_modifyFunction he
    · exact .inl ⟨e, he', p, hp, ht⟩
    · simp only [again] at hp
      split at hp
      · refine (hd p hp bytes ht).imp_left ?_
        rintro ⟨p, hp, ht⟩
        exact ⟨g, Array.mem_of_getElem? hg, p, hp, ht⟩
      · exact .inl ⟨e', he', p, hp, ht⟩
  · rw [Symbols.find?_noteImport]
    exact hm
  · rcases Symbols.mem_imported_noteImport hn with hn | ⟨rfl, hi⟩
    · exact .inl hn
    · refine .inr ⟨.function id, by rw [Symbols.find?_noteImport]; exact hfind, _,
        getElem?_again hg, ?_⟩
      simp [FuncDef.isExternal, again, hi, hlent hi]

lemma Coherent.declareAgain (h : Coherent c due open? s) (hd : c.tokens.Defaults f.params)
    (hfind : s.symbols.find? f.name = some (.function id)) (hb : hasBody = true → f.isImport = false)
    (hrun : Runs (Gen.declareAgain id f hasBody membership) c s u s') :
    Coherent c due open? s' ∧ ∃ g, s'.symbols.functions[id.index]? = some g ∧
      (hasBody = true → Definable c s' g) := by
  simp only [Gen.declareAgain, runs_bind, runs_functionAt, runs_getTypes, exists_eq_left, and_assoc]
    at hrun
  obtain ⟨g, hg, hrun⟩ := hrun
  split at hrun
  · simp at hrun
  · next hmismatch =>
    simp only [runs_seq, runs_modifySymbols] at hrun
    obtain ⟨t, h1, rfl⟩ := hrun
    obtain ⟨rfl, hdefine, hlent⟩ := runs_checkRedeclared h1
    have hlength := length_of_mismatch? (Option.eq_none_iff_forall_ne_some.2 hmismatch)
    have himport : (inheritFrom g f membership).isImport = f.isImport := isImport_inheritFrom
    refine ⟨h.redeclare hg (by rw [name_inheritFrom, hfind]) hlength (fun p hp bytes ht => ?_) fun hi => ?_,
      again hasBody (inheritFrom g f membership) g, getElem?_again hg, fun hbody => ?_⟩
    · refine (default_inheritFrom hp ht).imp_right ?_
      rintro ⟨p, hp, ht⟩
      exact hd p hp bytes ht
    · refine hlent ?_ hi
      by_contra hbody
      simp [himport, hb (by simpa using hbody)] at hi
    · obtain ⟨hbody', hdef⟩ := hdefine hbody
      have hold : (again hasBody (inheritFrom g f membership) g).isImport = true →
          g.isImport = true := by
        simp [again, himport, hb hbody]
      exact {
        hasBody := hbody'
        unused := fun hi => by rw [(stays_again hlength).importName]; exact (hdef (hold hi)).2
        overridable := fun hi => (hdef (hold hi)).1 }

lemma Coherent.declareFunction (h : Coherent c due open? s) (hp : PlainName f.name)
    (hcode : f.codeOffset = none) (hbody : f.hasBody = false) (hd : c.tokens.Defaults f.params)
    (hstruct : f.structOf = membership.struct?) (hb : hasBody = true → f.isImport = false)
    (hrun : Runs (Gen.declareFunction f hasBody membership name) c s id s') :
    Coherent c due open? s' ∧ ∃ g, s'.symbols.functions[id.index]? = some g ∧
      (hasBody = true → Definable c s' g) := by
  simp only [Gen.declareFunction, runs_bind, runs_getSymbols, exists_eq_left, and_assoc] at hrun
  split at hrun
  · next hnone =>
    obtain ⟨h', hf⟩ := h.declareNew ⟨hp, hnone, hcode, hbody, hd⟩ hstruct hrun
    refine ⟨h', f, hf, fun hhas => ⟨hbody, ?_, ?_⟩⟩
    · simp [hb hhas]
    · simp [hb hhas]
  · next id' hfind =>
    simp at hrun
    obtain ⟨⟨_, h1⟩, rfl⟩ := hrun
    exact h.declareAgain hd hfind hb h1
  · simp at hrun

lemma runs_checkReturnType (h : Runs (checkReturnType ty name) c s u s') : s' = s := by
  simp [checkReturnType] at h
  exact h.2.2

lemma plain_qualified (hn : s.symbols.Named) {d : StructDef}
    (hd : s.symbols.types.struct? struct = some d) (hp : PlainName name) :
    PlainName (s.symbols.types.name struct ++ "::" ++ name) := by
  have hget := TypeTable.struct?_eq_some.1 hd
  have hstruct : PlainName (s.symbols.types.name struct) := by
    have : s.symbols.types.name struct = (TypeDef.struct d).name := by
      simp [TypeTable.name, TypeTable.get?, hget]
    rw [this]
    exact hn.plainTypes hget
  exact (hstruct.append (by simp [PlainName])).append hp

lemma plain_qualifiedName (hn : s.symbols.Named) {full : String}
    (hfound : ∀ struct ∈ struct?, ∃ d, s.symbols.types.struct? struct = some d)
    (hp : PlainName name) (h : Runs (qualifiedName struct? name) c s full s') :
    s' = s ∧ PlainName full := by
  cases struct? with
  | none =>
    simp [qualifiedName] at h
    exact ⟨h.1, h.2 ▸ hp⟩
  | some struct =>
    obtain ⟨d, hd⟩ := hfound struct rfl
    obtain ⟨rfl, rfl⟩ := h
    exact ⟨rfl, plain_qualified hn hd hp⟩

lemma Coherent.compileFunction (hc : c.tokens.Lexed) (h : Coherent c due none s)
    (hp : PlainName name)
    (hfound : ∀ struct ∈ struct?, ∃ d, s.symbols.types.struct? struct = some d)
    (hrun : Runs (Gen.compileFunction q ty name struct?) c s u s') : Coherent c due none s' := by
  simp only [Gen.compileFunction, runs_bind, runs_currentLine, exists_eq_left, and_assoc,
    runs_currentSection, runs_check] at hrun
  obtain ⟨_, t, h1, list, t1, h2, full, t2, h3, hrun⟩ := hrun
  obtain rfl := runs_checkReturnType h1
  obtain ⟨hpass, hd, hextended⟩ := passes_parseParams (h.ready hc.ends) h2
  have h' := h.passes hpass
  rw [← hpass.symbols_eq] at hfound hextended
  obtain ⟨rfl, hplain⟩ := plain_qualifiedName h'.named (by
    intro struct hs
    split at hs
    · exact hfound struct hs
    · next e he => exact Option.some.inj hs ▸ hextended e he
    · cases hs) hp h3
  obtain ⟨himport, hrun⟩ := runs_unless hrun
  obtain ⟨_, hrun⟩ := runs_unless hrun
  obtain ⟨id, t, h1, hrun⟩ := runs_bind.1 hrun
  obtain ⟨h', g, hg, hdef⟩ := h'.declareFunction hplain rfl rfl hd rfl (fun hhas => by
    simpa [hhas] using himport) h1
  rcases runs_ite.1 hrun with ⟨hhas, h2⟩ | ⟨_, h2⟩
  · exact h'.compileBody hc hg (hdef hhas) h2
  · obtain ⟨_, rfl⟩ := runs_expect.1 h2
    exact h'.passes (Passes.refl.skip _)

end Gen
end AdventureScript
