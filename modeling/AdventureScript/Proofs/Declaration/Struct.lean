import AdventureScript.Proofs.Declaration.Function
import AdventureScript.Proofs.Declaration.Variable

/-!
Declarations of structs. The struct whose body is read is open.
-/
namespace AdventureScript.Gen
open Assembly

variable {c : Context} {due : Agenda} {s s' t : State} {u : Unit} {ty : Ty} {name : String}
  {q : Qualifiers} {open? : Option TypeId} {f : FuncDef} {id : FuncId} {struct : TypeId}
  {change : StructDef → StructDef} {d : StructDef} {isStatic : Bool}

structure Opened (c : Context) (due : Agenda) (struct : TypeId) (s : State) : Prop
    extends Coherent c due (some struct) s where
  blank : ∃ d, s.symbols.types.struct? struct = some d ∧ d.defined = false

lemma Opened.passes (h : Opened c due struct s) (hp : Passes s s') : Opened c due struct s' :=
  ⟨h.toCoherent.passes hp, hp.symbols_eq ▸ h.blank⟩

lemma runs_changeStruct {what : String} :
    Runs (changeStruct struct what change) c s u s' ↔
      (s.symbols.types.struct? struct).isSome = true ∧
        s' = { s with symbols := s.symbols.modifyStruct struct change } := by
  simp [changeStruct, Option.isSome_iff_ne_none]

lemma Coherent.modifyStruct {open?' : Option TypeId} (h : Coherent c due open? s)
    (hd : s.symbols.types.struct? struct = some d) (hblank : d.defined = false)
    (hsound : (s.symbols.types.modifyStruct struct change).Sound open?')
    (hname : ∀ d, (change d).name = d.name) :
    Coherent c due open?' { s with symbols := s.symbols.modifyStruct struct change } ∧
      s.symbols.types.Grows (s.symbols.types.modifyStruct struct change) := by
  have hundefined {d'} (hd' : s.symbols.types.struct? struct = some d') : d'.defined ≠ true := by
    obtain rfl := Option.some.inj (hd.symm.trans hd')
    simp [hblank]
  refine ⟨h.declare_symbols ?_ (h.named.modifyStruct hname) hsound
    (fun hf hp ht => .inl ⟨_, hf, _, hp, ht⟩) (fun _ hv _ => hv) (fun hm => hm)
    (fun _ hn => .inl hn), ?_⟩
  · exact Symbols.grows_modifyStruct fun hd' hdef => absurd hdef (hundefined hd')
  · exact TypeTable.grows_modifyStruct fun hd' hdef => absurd hdef (hundefined hd')

/-! ## Members -/

lemma runs_checkNewComponent (h : Runs (checkNewComponent struct name) c s u s') :
    s' = s ∧ s.symbols.types.Lacks struct name := by
  simp only [checkNewComponent, runs_bind, runs_getTypes, exists_eq_left, and_assoc] at h
  split at h
  · simp at h
  · next hnone =>
    exact ⟨(runs_pure.1 h).1,
      TypeTable.lacks_of_findComponent? (Option.eq_none_iff_forall_ne_some.2 fun _ => hnone _ _)⟩

def Goes (c : Context) (due : Agenda) (struct : TypeId) (s s' : State) : Prop :=
  Opened c due struct s' ∧ s.symbols.types.Grows s'.symbols.types

lemma Goes.trans (h : Goes c due struct s t) (h' : Goes c due struct t s') : Goes c due struct s s' :=
  ⟨h'.1, h.2.trans h'.2⟩

section

variable (h : Opened c due struct s)
include h

lemma Opened.goes (hp : Passes s s') : Goes c due struct s s' :=
  ⟨h.passes hp, hp.symbols_eq ▸ .refl⟩

lemma Opened.addComponent {component : Component}
    (hfield : ∀ f, component ≠ .field f) (hnew : s.symbols.types.Lacks struct name) :
    Goes c due struct s
      { s with symbols := s.symbols.modifyStruct struct (·.add name component) } := by
  refine ⟨⟨h.toCoherent.addComponent hfield hnew, ?_⟩, TypeTable.grows_modifyStruct fun _ hd => ?_⟩
  · obtain ⟨d, hd, hblank⟩ := h.blank
    exact ⟨d.add name component, by
      simp [Symbols.modifyStruct, TypeTable.struct?_modifyStruct, hd], hblank⟩
  · exact ⟨hd, rfl, rfl, StructDef.fields_add hfield⟩

lemma Opened.addMemberFunction
    (hrun : Runs (Gen.addMemberFunction struct name f) c s id s') (hp : PlainName f.name)
    (hcode : f.codeOffset = none) (hbody : f.hasBody = false) (hd : c.tokens.Defaults f.params) :
    Goes c due struct s s' ∧ ∀ other ≠ name, s.symbols.types.Lacks struct other →
      s'.symbols.types.Lacks struct other := by
  simp only [Gen.addMemberFunction, runs_bind] at hrun
  obtain ⟨_, t, h1, _, t', h2, hrun⟩ := hrun
  obtain ⟨rfl, hnew⟩ := runs_checkNewComponent h1
  obtain ⟨rfl, rfl⟩ := runs_getSymbols.1 h2
  split at hrun
  · simp at hrun
  · next hnone =>
    simp [runs_changeStruct] at hrun
    obtain ⟨_, ⟨_, rfl⟩, _⟩ := hrun
    have hfind := Option.eq_none_iff_forall_ne_some.2 hnone
    have hadd : Goes c due struct t' { t' with symbols := (t'.symbols.addFunction f).2 } := by
      refine ⟨⟨h.toCoherent.addFunction hp hfind hcode hbody hd, ?_⟩, ?_⟩
      · simpa only [Symbols.types_addFunction] using h.blank
      · exact Symbols.types_addFunction ▸ .refl
    rw [← Symbols.types_addFunction] at hnew
    refine ⟨hadd.trans (hadd.1.addComponent (by simp) hnew), fun other hne hlacks d hd => ?_⟩
    simp only [Symbols.modifyStruct, TypeTable.struct?_modifyStruct, Symbols.types_addFunction,
      if_true] at hd
    obtain ⟨d, hd', rfl⟩ := Option.map_eq_some_iff.1 hd
    have := StructDef.component?_eq_none.1 (hlacks _ hd')
    exact StructDef.component?_eq_none.2 (by simpa [StructDef.add, hne] using this)

omit h in
lemma Opened.declareField (hc : c.tokens.Sealed) (h : Opened c due struct s)
    (hf : ty.Found s.symbols.types) (hsized : ty.Sized) (hnew : s.symbols.types.Lacks struct name)
    (hrun : Runs (Gen.declareField struct q ty name) c s u s') : Goes c due struct s s' := by
  simp [Gen.declareField, runs_changeStruct, and_assoc] at hrun
  obtain ⟨_, _, ty', t, h1, t1, h2, _, rfl⟩ := hrun
  obtain ⟨_, hpass, hbase, hsizes⟩ := parses_arraySuffix (h.ready hc) h1
  have hgoes := h.goes hpass
  rw [← hpass.symbols_eq] at hnew
  have ht := complete_checkFieldType ((hf.of_base hbase).grow hgoes.2) h2
  obtain rfl := runs_checkFieldType h2
  have ho := hgoes.1
  obtain ⟨d, hd, hblank⟩ := ho.blank
  obtain ⟨hcoherent, hgrows⟩ := ho.toCoherent.modifyStruct hd hblank
    (@TypeTable.Sound.addField q.access _ struct d ty' name ho.types hd hblank ht
      (hsizes hsized) hnew) fun _ => rfl
  refine hgoes.trans ⟨⟨hcoherent, ?_⟩, hgrows⟩
  · exact ⟨d.addField name ty' (ty'.size t1.symbols.types) q.access, by
      simp [Symbols.modifyStruct, TypeTable.struct?_modifyStruct, hd], hblank⟩

lemma Opened.plain (hp : PlainName name) :
    PlainName (s.symbols.types.name struct ++ "::" ++ name) := by
  obtain ⟨d, hd, _⟩ := h.blank
  exact plain_qualified h.named hd hp

omit h in
lemma Opened.declareMemberFunction (hc : c.tokens.Lexed) (h : Opened c due struct s)
    (hp : PlainName name) (hrun : Runs (Gen.declareMemberFunction struct q ty name) c s u s') :
    Goes c due struct s s' := by
  simp only [Gen.declareMemberFunction, Bool.or_eq_true, runs_ite, runs_fail, runs_bind,
    runs_currentLine, runs_getTypes, runs_currentSection, runs_expect, and_assoc, exists_eq_left,
    false_and, exists_false, and_false, not_or, Bool.not_eq_true, false_or] at hrun
  obtain ⟨_, _, list, t, h1, id, t1, h2, _, rfl⟩ := hrun
  obtain ⟨hpass, hd, _⟩ := passes_parseParams (h.ready hc.ends) h1
  have hgoes := h.goes hpass
  have hadd := hgoes.trans (hgoes.1.addMemberFunction h2 (hgoes.1.plain hp) rfl rfl hd).1
  exact hadd.trans (hadd.1.goes (Passes.refl.skip _))

lemma Opened.addAccessor (hp : PlainName name)
    {params : List Ty} (hrun : Runs (Gen.addAccessor struct isStatic name ty params) c s id s') :
    Goes c due struct s s' ∧ ∀ other ≠ name, s.symbols.types.Lacks struct other →
      s'.symbols.types.Lacks struct other := by
  simp only [Gen.addAccessor, runs_bind, runs_getTypes, runs_currentLine, runs_currentSection,
    and_assoc, exists_eq_left] at hrun
  refine h.addMemberFunction hrun (h.plain hp) rfl rfl fun p hp bytes ht => ?_
  obtain ⟨_, _, rfl⟩ := List.mem_map.1 hp
  cases ht

lemma Opened.addAttribute {getName setName : String}
    (hget : PlainName getName) (hset : PlainName setName) (hnew : s.symbols.types.Lacks struct name)
    (hne : name ≠ getName ∧ name ≠ setName) {indices : List Ty}
    {getter : FuncId} (h1 : Runs (Gen.addAccessor struct isStatic getName ty indices) c s getter t)
    (h2 : (∃ a, s' = { t with
        symbols := t.symbols.modifyStruct struct (·.add name (.attribute a)) }) ∨
      ∃ params setter t', Runs (Gen.addAccessor struct isStatic setName .void params) c t setter t' ∧
        ∃ a, s' = { t' with
          symbols := t'.symbols.modifyStruct struct (·.add name (.attribute a)) }) :
    Goes c due struct s s' := by
  obtain ⟨hgoes, hlacks⟩ := h.addAccessor hget h1
  have hnew := hlacks name hne.1 hnew
  rcases h2 with ⟨a, rfl⟩ | ⟨params, setter, t', h2, a, rfl⟩
  · exact hgoes.trans (hgoes.1.addComponent (by simp) hnew)
  · obtain ⟨hgoes', hlacks⟩ := hgoes.1.addAccessor hset h2
    exact hgoes.trans (hgoes'.trans (hgoes'.1.addComponent (by simp) (hlacks name hne.2 hnew)))

lemma Opened.declareAttribute (hp : PlainName name) (hnew : s.symbols.types.Lacks struct name)
    (hrun : Runs (Gen.declareAttribute struct q ty name) c s u s') : Goes c due struct s s' := by
  have plain (verb : String) (hv : PlainName verb) : PlainName (verb ++ name) := hv.append hp
  have hne (verb : String) (hv : verb.length ≠ 0) : name ≠ verb ++ name := fun h => by
    have := congrArg String.length h
    rw [String.length_append] at this
    omega
  simp [Gen.declareAttribute, runs_changeStruct, and_assoc] at hrun
  obtain ⟨_, _, _, ⟨t0, h0, getter, t, h1, h2⟩ | ⟨t0, h0, getter, t, h1, h2⟩⟩ := hrun
  · obtain rfl := (runs_atEmptyBrackets.1 h0).1
    refine h.addAttribute (plain "get_" (by simp [PlainName])) (plain "set_" (by simp [PlainName]))
      hnew ⟨hne _ (by decide), hne _ (by decide)⟩ h1 (h2.imp (fun h => ⟨_, h.2.2⟩) ?_)
    rintro ⟨_, setter, t', h3, _, hs'⟩
    exact ⟨_, setter, t', h3, _, hs'⟩
  · obtain rfl := (runs_atEmptyBrackets.1 h0).1
    have hgoes := h.goes (Passes.refl.skip (c.tokens.after (c.tokens.after t0.pos)))
    refine hgoes.trans (hgoes.1.addAttribute (plain "geti_" (by simp [PlainName]))
      (plain "seti_" (by simp [PlainName])) hnew ⟨hne _ (by decide), hne _ (by decide)⟩ h1
      (h2.imp (fun h => ⟨_, h.2.2⟩) ?_))
    rintro ⟨_, setter, t', h3, _, hs'⟩
    exact ⟨_, setter, t', h3, _, hs'⟩

omit h in
lemma runs_checkMemberQualifiers (h : Runs (checkMemberQualifiers q) c s u s') : s' = s := by
  simp only [checkMemberQualifiers] at h
  split at h
  · simp at h
  · simp at h
    exact h.2.2

lemma Opened.goes_name
    (hrun : Runs (checkNewComponent struct name) c { s with pos := c.tokens.after s.pos } u t) :
    Goes c due struct s t ∧ t.symbols.types.Lacks struct name := by
  obtain ⟨rfl, hnew⟩ := runs_checkNewComponent hrun
  exact ⟨h.goes (Passes.refl.skip _), hnew⟩

end

lemma Opened.declareMembers (hc : c.tokens.Lexed) (h : Opened c due struct s)
    (hrun : Runs (Gen.declareMembers struct) c s u s') : Opened c due struct s' := by
  simp only [Gen.declareMembers, runs_bind] at hrun
  obtain ⟨q, t1, h1, _, t2, h2, base, t3, h3, closed, t4, h4, hrun⟩ := hrun
  obtain rfl := runs_checkMemberQualifiers h2
  have ho := (h.passes (passes_qualifiers h1)).passes (passes_parseType hc.ends h3)
  obtain ⟨hf, hsized⟩ := shape_parseType (h.passes (passes_qualifiers h1)).named h3
  rw [← (passes_parseType hc.ends h3).symbols_eq] at hf
  have hend : Opened c due struct t4 := by
    refine runs_rounds (P := fun _ t => Opened c due struct t ∧ base.Found t.symbols.types)
      (Q := fun _ t => Opened c due struct t) ?again ?done h4 ⟨ho, hf⟩
    case again =>
      rintro _ _ t t' ⟨ho, hf⟩ hrun
      simp [and_assoc] at hrun
      obtain ⟨hk, t1, h1, _, hrun⟩ := hrun
      obtain ⟨hgoes, hnew⟩ := ho.goes_name h1
      obtain ⟨t2, hmember, rfl⟩ : ∃ t2, Goes c due struct t1 t2 ∧
          t' = { t2 with pos := c.tokens.after t2.pos } := by
        rcases hrun with ⟨_, t2, h2, _, ht'⟩ | ⟨_, t2, h2, _, ht'⟩
        · exact ⟨t2, hgoes.1.declareAttribute (hc.plain _ hk) hnew h2, ht'⟩
        · exact ⟨t2, hgoes.1.declareField hc.ends (hf.grow hgoes.2) hsized hnew h2, ht'⟩
      have hall := hgoes.trans hmember
      exact ⟨hall.1.passes (Passes.refl.skip _), hf.grow hall.2⟩
    case done =>
      rintro _ _ t t' ⟨ho, hf⟩ hrun
      simp [and_assoc] at hrun
      obtain ⟨hk, t1, h1, hrun⟩ := hrun
      obtain ⟨hgoes, hnew⟩ := ho.goes_name h1
      rcases hrun with ⟨_, _, ⟨_, h2⟩, _⟩ | ⟨_, ⟨_, h2, _⟩ | ⟨_, h2, _⟩⟩
      · exact (hgoes.1.declareMemberFunction hc (hc.plain _ hk) h2).1
      · exact (hgoes.1.declareAttribute (hc.plain _ hk) hnew h2).1
      · exact (hgoes.1.declareField hc.ends (hf.grow hgoes.2) hsized hnew h2).1
  rcases runs_ite.1 hrun with ⟨_, hrun⟩ | ⟨_, hrun⟩
  · obtain ⟨_, rfl⟩ := runs_expect.1 hrun
    exact hend.passes (Passes.refl.skip _)
  · exact (runs_pure.1 hrun).1 ▸ hend

lemma Coherent.openStruct (h : Coherent c due none s) (hp : PlainName name)
    (hrun : Runs (Gen.openStruct q name) c s struct s') :
    Coherent c due none s' ∧ ∃ d, s'.symbols.types.struct? struct = some d ∧ d.defined = false := by
  simp only [Gen.openStruct, runs_bind, runs_getSymbols, exists_eq_left, and_assoc] at hrun
  split at hrun
  · split at hrun
    · simp at hrun
    · next d hd =>
      simp at hrun
      obtain ⟨hblank, _, rfl, rfl⟩ := hrun
      exact ⟨h, d, hd, hblank⟩
  · simp at hrun
  · next hnone =>
    obtain ⟨rfl, rfl⟩ := hrun
    refine ⟨h.addType hp hnone ?_, ?_⟩
    · rintro b hb
      cases hb
      exact ⟨rfl, rfl, rfl⟩
    · exact ⟨_, TypeTable.struct?_add_self, rfl⟩

lemma Coherent.extendStruct (h : Coherent c due none s)
    (hd : s.symbols.types.struct? struct = some d) (hblank : d.defined = false) {managed : Bool}
    (hrun : Runs (Gen.extendStruct struct name managed) c s u s') : Opened c due struct s' := by
  simp [Gen.extendStruct, runs_changeStruct, and_assoc] at hrun
  obtain ⟨_, parent, p, hp, hdefined, _, _, rfl⟩ := hrun
  obtain ⟨id, _, hp⟩ := Option.bind_eq_some_iff.1 hp
  obtain ⟨_, hp, he⟩ := Option.map_eq_some_iff.1 hp
  cases he
  refine ⟨Coherent.passes (h.modifyStruct hd hblank (h.types.extend hd hblank hp hdefined)
    fun _ => rfl).1 (Passes.refl.skip _), ?_⟩
  exact ⟨{ d with parent := some parent, size := p.size }, by
    simp [Symbols.modifyStruct, TypeTable.struct?_modifyStruct, hd], hblank⟩

lemma Opened.structBody (hc : c.tokens.Lexed) (h : Opened c due struct s)
    (hrun : Runs (Gen.structBody struct name) c s u s') : Coherent c due none s' := by
  simp [Gen.structBody, and_assoc] at hrun
  obtain ⟨_, t, h1, _, rfl⟩ := hrun
  have ho : Opened c due struct t := by
    refine runs_repeatWhile (P := Opened c due struct) (Q := Opened c due struct) ?again ?done h1
      (h.passes (Passes.refl.skip _))
    case again =>
      intro t t' ho hrun
      simp [and_assoc] at hrun
      obtain ⟨_, _, _, h2⟩ := hrun
      exact ho.declareMembers hc h2
    case done =>
      intro t t' ho hrun
      simp at hrun
      exact hrun.2 ▸ ho.passes (Passes.refl.skip _)
  obtain ⟨d, hd, hblank⟩ := ho.blank
  exact Coherent.passes (ho.toCoherent.modifyStruct hd hblank (ho.types.close hd) fun _ => rfl).1
    (Passes.refl.skip _)

lemma Coherent.compileStruct (hc : c.tokens.Lexed) (h : Coherent c due none s)
    (hrun : Runs (Gen.compileStruct q) c s u s') : Coherent c due none s' := by
  simp only [Gen.compileStruct] at hrun
  split at hrun
  · simp at hrun
  · simp [and_assoc] at hrun
    obtain ⟨_, hk, struct, t, h1, hrun⟩ := hrun
    obtain ⟨h', d, hd, hblank⟩ := (h.passes (Passes.refl.skip _)).openStruct (hc.plain _ hk) h1
    rcases hrun with ⟨_, ⟨_, h2⟩ | ⟨_, t', h2, h3⟩⟩ | ⟨_, _, rfl⟩
    · have ho : Opened c due struct t :=
        ⟨{ h' with types := h'.types.opened }, d, hd, hblank⟩
      exact ho.structBody hc h2
    · have hnext := h'.passes (Passes.refl.skip (c.tokens.after t.pos))
      exact (hnext.extendStruct hd hblank h2).structBody hc h3
    · exact h'.passes (Passes.refl.skip _)

end AdventureScript.Gen
