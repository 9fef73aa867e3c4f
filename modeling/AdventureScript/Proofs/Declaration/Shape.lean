import AdventureScript.Proofs.Program.Coherent

/-!
What stands around declared names: qualifiers, types, brackets and parameters.
-/
namespace AdventureScript

variable {dims : List UInt32} {extended? : Option Extended} {list : ParamList}

def Ty.Found (t : Ty) (types : TypeTable) : Prop :=
  ∀ id, t.base = .struct id → ∃ s, types.struct? id = some s

lemma Ty.Found.grow {t : Ty} {types types' : TypeTable} (h : t.Found types)
    (hg : types.Grows types') : t.Found types' := by
  intro id hid
  obtain ⟨s, hs⟩ := h id hid
  obtain ⟨s', hs', _⟩ := hg.struct hs
  exact ⟨s', hs'⟩

lemma Ty.Found.of_base {t t' : Ty} {types : TypeTable} (h : t.Found types) (hbase : t'.base = t.base) :
    t'.Found types :=
  fun id hid => h id (hbase.symm.trans hid)

def Stream.Defaults (tokens : Stream) (params : List Param) : Prop :=
  ∀ p ∈ params, ∀ bytes, p.default? = some (.string bytes) → tokens.HasText bytes

lemma Stream.Defaults.concat {tokens : Stream} {params : List Param} {p : Param}
    (h : tokens.Defaults params)
    (hp : ∀ bytes, p.default? = some (.string bytes) → tokens.HasText bytes) :
    tokens.Defaults (params ++ [p]) := by
  intro p' hp'
  rcases List.mem_append.1 hp' with hp' | hp'
  · exact h p' hp'
  · exact List.mem_singleton.1 hp' ▸ hp

def Extended.Found (e : Extended) (types : TypeTable) : Prop :=
  ∃ d, types.struct? e.struct = some d

namespace Gen

variable {c : Context} {s s' : State} {u : Unit} {ty ty' : Ty} {name : String} {isConst : Bool}
  {name? : Option String} {number : Nat}

lemma passes_eat {mark : Symbol} {b : Bool} (h : Runs (eat mark) c s b s') : Passes s s' := by
  rcases runs_eat.1 h with ⟨_, rfl, _⟩ | ⟨_, rfl, _⟩
  · exact Passes.refl.skip _
  · exact .refl

lemma passes_eatWord {word : Keyword} {b : Bool} (h : Runs (eatWord word) c s b s') :
    Passes s s' := by
  rcases runs_eatWord.1 h with ⟨_, rfl, _⟩ | ⟨_, rfl, _⟩
  · exact Passes.refl.skip _
  · exact .refl

lemma passes_qualifiers {q : Qualifiers} (h : Runs qualifiers c s q s') :
    Passes s s' := by
  refine runs_rounds (P := fun _ t => Passes s t) (Q := fun _ t => Passes s t) ?again ?done h
    .refl
  case again =>
    intro q q' t t' hp h
    simp only [runs_bind, runs_peek, exists_eq_left, and_assoc] at h
    split at h
    · simp [and_assoc] at h
      obtain ⟨_, _, rfl, _⟩ := h
      exact hp.skip _
    · simp at h
  case done =>
    intro q q' t t' hp h
    simp only [runs_bind, runs_peek, exists_eq_left, and_assoc] at h
    split at h
    · simp at h
      obtain ⟨_, rfl, _⟩ := h
      exact hp
    · simp at h
      exact h.1 ▸ hp

/-! ## Types -/

lemma found_baseOf (hn : s.symbols.Named) {token : Token} {base : Base}
    (h : Runs (baseOf token isConst) c s base s') {id : TypeId} (hid : base = .struct id) :
    ∃ d, s.symbols.types.struct? id = some d := by
  subst hid
  simp only [baseOf] at h
  split at h
  case h_8 =>
    simp only [runs_bind, runs_getSymbols, exists_eq_left, and_assoc] at h
    split at h
    · next id' hfind =>
      simp only [runs_bind, runs_getTypes, exists_eq_left, and_assoc] at h
      obtain ⟨d, hd⟩ := (hn.found hfind).2
      rw [hd] at h
      cases d with
      | struct d =>
        obtain ⟨_, rfl⟩ := h
        exact ⟨d, TypeTable.struct?_eq_some.2 hd⟩
      | enum name => simp at h
    · simp at h
    · simp at h
  all_goals simp at h

lemma passes_parseType (hs : c.tokens.Sealed) (h : Runs (parseType isConst) c s ty s') :
    Passes s s' := by
  obtain ⟨m, rfl, _⟩ := runs_parseType hs h
  exact Passes.refl.skip _

lemma shape_parseType (hn : s.symbols.Named) (h : Runs (parseType isConst) c s ty s') :
    ty.Found s.symbols.types ∧ ty.Sized := by
  simp [parseType, atEmptyBrackets, declaredName?, and_assoc] at h
  obtain ⟨base, t, h1, struct, t', _, h⟩ := h
  obtain ⟨hbase, hshape⟩ : ty.base = base ∧ ∀ dims, ty.shape ≠ .static dims := by
    rcases h with ⟨_, ⟨_, _, h⟩ | ⟨_, _, rfl⟩⟩ | ⟨_, _, ⟨_, _, h⟩ | ⟨_, _, rfl⟩⟩
    · obtain ⟨_, rfl⟩ := runs_dynamicArrayOf h
      simp
    · simp
    · obtain ⟨_, rfl⟩ := runs_dynamicArrayOf h
      simp
    · simp
  exact ⟨fun id hid => found_baseOf (s := { s with pos := c.tokens.after s.pos }) hn h1
    (hbase.symm.trans hid), fun dims hdims => absurd hdims (hshape dims)⟩

lemma complete_checkVariableType {imported : Bool} (hf : ty.Found s.symbols.types)
    (h : Runs (checkVariableType ty name imported) c s u s') : ty.Complete s.symbols.types := by
  intro hp id hid
  obtain ⟨d, hd⟩ := hf id hid
  simp [checkVariableType, hid, hp, structOf?, hd, and_assoc] at h
  exact ⟨d, hd, h.2.1⟩

lemma runs_checkFieldType (h : Runs (checkFieldType ty name) c s u s') : s' = s := by
  simp [checkFieldType] at h
  obtain ⟨_, ⟨_, struct, t, h1, h⟩ | ⟨_, rfl⟩⟩ := h
  · obtain rfl := runs_structOf? h1
    split at h
    · simp at h
      exact h.2.2
    · exact (runs_pure.1 h).1
  · rfl

lemma complete_checkFieldType (hf : ty.Found s.symbols.types)
    (h : Runs (checkFieldType ty name) c s u s') : ty.Complete s.symbols.types := by
  intro hp id hid
  obtain ⟨d, hd⟩ := hf id hid
  simp [checkFieldType, hid, hp, structOf?, hd, and_assoc] at h
  exact ⟨d, hd, h.2.1⟩

/-! ## Parameters -/

lemma passes_parseDefault (hr : Ready False c 0 s) {d : Default}
    (h : Runs (parseDefault ty number) c s d s') :
    Passes s s' ∧ ∀ bytes, d = .string bytes → c.tokens.HasText bytes := by
  simp only [parseDefault, runs_bind, runs_peek, exists_eq_left, and_assoc] at h
  split at h
  · simp [and_assoc] at h
    obtain ⟨_, rfl, rfl⟩ := h
    exact ⟨Passes.refl.skip _, fun _ h => by cases h⟩
  · next hk =>
    simp [and_assoc] at h
    obtain ⟨_, rfl, rfl⟩ := h
    refine ⟨Passes.refl.skip _, fun _ h => ?_⟩
    cases h
    exact ⟨s.pos, hk⟩
  · simp only [runs_bind] at h
    obtain ⟨value?, t, h1, h⟩ := h
    simp [and_assoc] at h
    obtain ⟨rfl, hd⟩ := h
    obtain ⟨value, hvalue, hd⟩ := Option.bind_eq_some_iff.1 hd
    obtain ⟨pair, rfl, rfl⟩ := Option.map_eq_some_iff.1 hvalue
    refine ⟨(parses_constantExpression? hr h1).1, fun bytes he => ?_⟩
    subst he
    obtain ⟨value, _⟩ := pair
    cases value with
    | int n =>
      simp only [Default.ofConstant?] at hd
      repeat' split at hd
      all_goals cases hd
    | float x => simp [Default.ofConstant?] at hd

lemma runs_checkParamType (h : Runs (checkParamType ty number) c s u s') : s' = s := by
  simp [checkParamType] at h
  exact h.2.2.2

lemma passes_parseParam (hr : Ready False c 0 s) {p : Param}
    (h : Runs (parseParam number) c s p s') :
    Passes s s' ∧ ∀ bytes, p.default? = some (.string bytes) → c.tokens.HasText bytes := by
  simp only [parseParam, runs_bind] at h
  obtain ⟨isConst, t1, h1, base, t2, h2, h⟩ := h
  have hp2 := (passes_eatWord h1).trans (passes_parseType hr.stream h2)
  simp [and_assoc] at h
  obtain ⟨name, t3, hp3, ty, t4, h4, t5, h5, h⟩ : ∃ name t3, Passes s t3 ∧
      ∃ ty t4, Runs (arraySuffix base name) c t3 ty t4 ∧
      ∃ t5, Runs (checkParamType ty number) c t4 () t5 ∧
      ((s' = t5 ∧ p = ⟨name, ty, none⟩) ∨
        ∃ d, Runs (parseDefault ty number) c { t5 with pos := c.tokens.after t5.pos } d s' ∧
          p = ⟨name, ty, some d⟩) := by
    rcases h with ⟨_, ty, t4, h4, t5, h5, h⟩ | ⟨_, ty, t4, h4, t5, h5, h⟩
    · exact ⟨_, _, hp2.skip _, ty, t4, h4, t5, h5, h.imp And.right And.right⟩
    · exact ⟨_, _, hp2, ty, t4, h4, t5, h5, h.imp And.right And.right⟩
  obtain rfl := runs_checkParamType h5
  have hp4 := hp3.trans (parses_arraySuffix (hp3.ready hr) h4).2.1
  rcases h with ⟨rfl, rfl⟩ | ⟨d, hd, rfl⟩
  · exact ⟨hp4, fun _ h => by cases h⟩
  · have hp5 := hp4.skip (c.tokens.after t5.pos)
    obtain ⟨hp6, htext⟩ := passes_parseDefault (hp5.ready hr) hd
    exact ⟨hp5.trans hp6, fun bytes h => htext bytes (Option.some.inj h)⟩

lemma runs_structNamed {id : TypeId} (h : Runs (structNamed name) c s id s') :
    s' = s ∧ ∃ d, s.symbols.types.struct? id = some d := by
  simp [structNamed, and_assoc, Symbols.findStruct?, Option.filter_eq_some_iff,
    Option.isSome_iff_exists] at h
  exact ⟨h.1, h.2.2⟩

lemma passes_parseExtended (h : Runs parseExtended c s extended? s') :
    Passes s s' ∧ ∀ e ∈ extended?, e.Found s.symbols.types := by
  simp [parseExtended, and_assoc] at h
  rcases h with ⟨_, _, rfl, rfl⟩ | ⟨_, _, id, t, h, hrest⟩
  · exact ⟨.refl, fun _ h => by cases h⟩
  · obtain ⟨rfl, hd⟩ := runs_structNamed h
    have hp := @Passes.refl s |>.skip (c.tokens.after (c.tokens.after s.pos))
    rcases hrest with ⟨_, _, rfl, rfl⟩ | ⟨_, rfl, rfl⟩
    · exact ⟨hp.skip _, fun _ h => Option.some.inj h ▸ hd⟩
    · exact ⟨hp, fun _ h => Option.some.inj h ▸ hd⟩

lemma passes_parseParamsFrom (hr : Ready False c 0 s)
    (h : Runs (parseParamsFrom extended?) c s list s') :
    Passes s s' ∧ c.tokens.Defaults list.params ∧ list.extended? = extended? := by
  refine runs_rounds (P := fun params t => Passes s t ∧ c.tokens.Defaults params.toList)
    (Q := fun list t => Passes s t ∧ c.tokens.Defaults list.params ∧ list.extended? = extended?)
    ?again ?done h ⟨.refl, fun _ h => by cases h⟩
  case again =>
    rintro params params' t t' ⟨hp, hd⟩ h
    simp [and_assoc] at h
    obtain ⟨_, p, t1, h, _, rfl, rfl⟩ := h
    obtain ⟨hp', htext⟩ := passes_parseParam (hp.ready hr) h
    exact ⟨(hp.trans hp').skip _, Array.toList_push ▸ hd.concat htext⟩
  case done =>
    rintro params list t t' ⟨hp, hd⟩ h
    simp [and_assoc] at h
    rcases h with ⟨_, p, t1, h, _, _, rfl, rfl⟩ | ⟨_, _, rfl, rfl⟩
    · obtain ⟨hp', htext⟩ := passes_parseParam (hp.ready hr) h
      exact ⟨(hp.trans hp').skip _, hd.concat htext, rfl⟩
    · exact ⟨hp.skip _, hd, rfl⟩

lemma passes_parseParams (hr : Ready False c 0 s) {allowExtended : Bool}
    (h : Runs (parseParams allowExtended) c s list s') :
    Passes s s' ∧ c.tokens.Defaults list.params ∧
      ∀ e ∈ list.extended?, e.Found s.symbols.types := by
  simp only [parseParams, runs_seq, runs_expect] at h
  obtain ⟨_, ⟨_, rfl⟩, h⟩ := h
  have hp := @Passes.refl s |>.skip (c.tokens.after s.pos)
  have empty : c.tokens.Defaults [] := fun _ h => by cases h
  have rest {extended? : Option Extended} {t : State} (hp : Passes s t)
      (hfound : ∀ e ∈ extended?, e.Found s.symbols.types)
      (h : Runs (parseParamsFrom extended?) c t list s') :
      Passes s s' ∧ c.tokens.Defaults list.params ∧
        ∀ e ∈ list.extended?, e.Found s.symbols.types := by
    obtain ⟨hp', hd, he⟩ := passes_parseParamsFrom (hp.ready hr) h
    exact ⟨hp.trans hp', hd, he ▸ hfound⟩
  obtain ⟨extended?, t, h1, h⟩ := runs_ite_bind h
  obtain ⟨hp, hfound⟩ : Passes s t ∧ ∀ e ∈ extended?, e.Found s.symbols.types := by
    rcases runs_ite.1 h1 with ⟨_, h1⟩ | ⟨_, h1⟩
    · obtain ⟨hp', hfound⟩ := passes_parseExtended h1
      exact ⟨hp.trans hp', hfound⟩
    · obtain ⟨rfl, rfl⟩ := runs_pure.1 h1
      exact ⟨hp, by simp⟩
  cases extended? with
  | none =>
    simp [and_assoc] at h
    rcases h with ⟨_, h⟩ | ⟨_, rfl, rfl⟩
    · exact rest hp (fun _ h => by cases h) h
    · exact ⟨hp.skip _, empty, fun _ h => by cases h⟩
  | some e =>
    simp [and_assoc] at h
    rcases h with ⟨_, _, rfl, rfl⟩ | ⟨_, ⟨_, h⟩ | ⟨_, rfl, rfl⟩⟩
    · exact ⟨hp.skip _, empty, hfound⟩
    · exact rest (hp.skip _) hfound h
    · exact ⟨hp.skip _, empty, hfound⟩

end Gen
end AdventureScript
