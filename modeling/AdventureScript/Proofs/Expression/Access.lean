import AdventureScript.Proofs.Expression.Call

/-!
Operands that are brought into AX, and those that are selected from others.
-/
namespace AdventureScript.Gen
open Assembly

variable {q : Prop} {c : Context} {d e : Int} {s s' t : State} {A F : List Node} {u : Unit}
  {parts : Parts} {o : Operand} {place place' : Place} {number : Nat} {name : String}
  {symbols : Symbols} {ty : Ty} {object : Option Place} {owner id : TypeId} {factor : Int32}
  {component : Component}

/-! ## Places -/

lemma located_of_mar (h : place.anchor = .mar) : place.Located symbols ty := by
  simp [Place.Located, h]

lemma located_of_this (h : place.anchor = .this) : place.Located symbols ty := by
  simp [Place.Located, h]

lemma anchor_dereference (h : Runs (dereference parts o) c s place s') :
    place.anchor = .this ∨ place.anchor = .mar := by
  simp only [dereference] at h
  split at h <;> simp at h
  · obtain ⟨_, rfl⟩ := h
    exact .inl rfl
  · obtain ⟨_, _, _, _, _, rfl⟩ := h
    exact .inr rfl
  · obtain ⟨_, _, _, rfl⟩ := h
    exact .inr rfl
  · obtain ⟨_, _, _, _, _, _, rfl⟩ := h
    exact .inr rfl

section

variable (hr : Ready q c d s)
include hr

lemma ready_pos (m : Nat) : Ready q c d { s with pos := m } :=
  { hr with tidy := { hr.tidy with } }

lemma parses_unsaveMar (hF : Parses q c d s t F (d + 4))
    (hkeeps : c.tokens.Plain s.pos t.pos → Keeps s t)
    (h : Runs (unsaveMar s.script.checkpoint) c t u s') : Parses q c d s s' [] d := by
  obtain ⟨he, hpos, hjump⟩ := emits_unsave hr hF.extends hF.aside hF.callBytes
    (fun hq ht => (hF.offset hq ht).1) h
  exact {
    toEmits := he
    settled := .nil
    live := .nil
    unmarked := .nil
    nested := hpos ▸ hF.nested
    keeps := fun hplain _ m hm hj => by
      rw [hjump, hkeeps (hpos ▸ hplain) m hm hj]
      simp [hm] }

lemma parses_scaleAx (h : Runs (scaleAx factor) c s u s') : ∃ F, Parses q c d s s' F d := by
  simp [scaleAx] at h
  rcases h with ⟨_, rfl⟩ | ⟨_, h⟩
  · exact ⟨_, parses_nil hr⟩
  · exact ⟨_, parses_emitRegValues hr rfl rfl (fun _ => rfl) h⟩

lemma parses_addIndex {t1 t2 t3 : State} {dim : Int32}
    (hplace : place.Anchored s.symbols) (h1 : Runs (emit .checkBounds [Register.ax.toWord, dim]) c s u t1)
    (h2 : Runs (scaleAx factor) c t1 u t2) (h3 : Runs (loadAddress place) c t2 u t3)
    (h4 : Runs (emitRegs .addReg [.mar, .ax]) c t3 u s') : ∃ F, Parses q c d s s' F d := by
  have hF1 := parses_emitRegValues hr rfl rfl (fun _ => rfl) h1
  obtain ⟨G2, hG2⟩ := parses_scaleAx (hF1.ready hr) h2
  have hF2 := hF1.trans hG2
  obtain ⟨G3, hG3⟩ := parses_loadAddress (hF2.ready hr) (hF2.aside.symbols ▸ hplace) h3
  have hF3 := hF2.trans hG3
  exact ⟨_, hF3.trans (parses_emitRegs (hF3.ready hr) rfl rfl h4)⟩

omit hr in
lemma pos_addToMar {bytes : Int32} (h : Runs (addToMar bytes) c s u s') : s'.pos = s.pos := by
  simp [addToMar, runs_emit] at h
  rcases h with ⟨_, rfl⟩ | ⟨_, rfl⟩ <;> rfl

omit hr in
lemma pos_importToReg {reg : Register} {reference : Reference}
    (h : Runs (importToReg reg reference name) c s u s') : s'.pos = s.pos := by
  simp only [importToReg, runs_bind, runs_updateScript] at h
  obtain ⟨_, _, ⟨rfl, _⟩, _, t, h, h'⟩ := h
  have hpos := pos_litToReg h
  rw [runs_fixupLast.1 h']
  exact hpos

omit hr in
lemma pos_loadAddress (h : Runs (loadAddress place) c s u s') : s'.pos = s.pos := by
  rcases place with ⟨offset | offset | id | _ | _, component⟩
  · simp [loadAddress, runs_fixupLast] at h
    obtain ⟨t, h, rfl⟩ := h
    have hpos := pos_litToReg h
    exact hpos
  · simp [loadAddress, loadLocal, runs_emit, and_assoc] at h
    rw [h]
  · simp [loadAddress, and_assoc] at h
    obtain ⟨_, _, t, h, h'⟩ := h
    rw [pos_addToMar h', pos_importToReg h]
  · simp [loadAddress, runs_emitRegs, runs_emit] at h
    rw [pos_addToMar h]
  · exact pos_addToMar h

omit hr in
lemma pos_emitCall {id : FuncId} {given : List Argument}
    (h : Runs (emitCall parts id object given) c s o s') : s'.pos = s.pos := by
  simp [emitCall, runs_getCells, and_assoc] at h
  obtain ⟨_, _, _, _, _, _, _, _, rfl, _⟩ := h
  rfl

omit hr in
lemma pos_dereference (h : Runs (dereference parts o) c s place s') : s'.pos = s.pos := by
  simp only [dereference] at h
  split at h <;> simp [runs_emitRegs, runs_emit] at h
  · rw [h.1]
  · obtain ⟨t, h, rfl, _⟩ := h
    have hpos := pos_loadAddress h
    exact hpos
  · rw [h.1]
  · next ho =>
    obtain ⟨_, t, h, rfl, _⟩ := h
    simp [loadToAx, ho, getAttribute, runs_clobberAx] at h
    obtain ⟨_, t, h, rfl, _⟩ := h
    have hpos := pos_emitCall h
    exact hpos

/-! ## Members -/

omit hr in
@[simp] lemma runs_isInside {b : Bool} :
    Runs (isInside owner) c s b s' ↔
      s' = s ∧ b = ((s.function?.map s.symbols.function).bind (·.structOf)).any
          (s.symbols.types.isSameOrDerived · owner) ∧
        ∀ id ∈ s.function?, id.index < s.symbols.functions.size := by
  simp only [isInside, runs_bind, runs_getTypes, runs_currentStruct?, runs_pure, and_assoc,
    exists_eq_left]
  rw [and_comm, and_assoc]

def Offers (symbols : Symbols) (object : Option Place) (component : Component) : Prop :=
  ∀ place ∈ object, place.Anchored symbols ∧
    ∀ f, component = .field f → (place.plus f.offset).Located symbols f.ty

lemma selects_compileField {f : Field} (hobject : Offers s.symbols object (.field f))
    (h : Runs (compileField owner f object name) c s o s') : Selects q c d s s' o := by
  simp [compileField, and_assoc] at h
  obtain ⟨place, hplace, _, _, rfl, rfl⟩ := h
  exact (parses_nil hr).selects_place rfl ((hobject place hplace).2 f rfl)

omit hr in
lemma runs_bracketed (hs : c.tokens.Sealed) {stretch : Stretch}
    (h : Runs bracketed c s stretch s') :
    ∃ m, s' = { s with pos := m } ∧ c.tokens.Nested s.pos m := by
  simp [bracketed, and_assoc] at h
  obtain ⟨ho, hc, rfl, _⟩ := h
  exact ⟨_, rfl, .group hs ho rfl
    (Stream.nested_findAtDepthZero hs (by simp [hc])) hc rfl⟩

lemma selects_compileAttribute {attr : Attribute}
    (hobject : Offers s.symbols object (.attribute attr))
    (h : Runs (compileAttribute attr object name) c s o s') : Selects q c d s s' o := by
  have hl : ∀ place ∈ (if attr.isStatic = true then none else object),
      place.Anchored s.symbols := by
    intro place hplace
    split at hplace
    · cases hplace
    · exact (hobject place hplace).1
  simp [compileAttribute] at h
  obtain ⟨_, ⟨_, _, h, rfl⟩ | ⟨_, rfl, rfl⟩⟩ := h
  · obtain ⟨m, rfl, hm⟩ := runs_bracketed hr.stream h
    exact (parses_pos hr hm).selects_place rfl hl
  · exact (parses_nil hr).selects_place rfl hl

omit hr in
@[simp] lemma runs_findComponent {r : TypeId × Component} :
    Runs (findComponent id name) c s r s' ↔
      s' = s ∧ s.symbols.types.findComponent? id name = some r := by
  simp [findComponent, and_assoc]

omit hr in
lemma offers_objectPlace (ho : o.Located symbols)
    (hscalar : o.ty.isScalar = true) (hid : o.ty.structId? = some id)
    (hc : symbols.types.findComponent? id name = some (owner, component))
    (h : Runs (objectPlace parts o name) c s place s') : Offers symbols (some place) component := by
  rintro _ ⟨⟩
  simp only [objectPlace, runs_ite] at h
  rcases h with ⟨_, h⟩ | ⟨hpointer, h⟩
  · rcases anchor_dereference h with hthis | hmar
    · exact ⟨⟨.int, located_of_this hthis⟩, fun f _ => located_of_this hthis⟩
    · exact ⟨⟨.int, located_of_mar hmar⟩, fun f _ => located_of_mar hmar⟩
  · split at h <;> simp at h
    next hv =>
    obtain ⟨_, rfl⟩ := h
    simp only [Operand.Located, hv] at ho
    refine ⟨ho.anchored, fun f hf => ?_⟩
    subst hf
    exact ho.field hscalar (by simpa using hpointer) hid (TypeTable.hasField_of_findComponent? hc)

lemma selects_compileLocal {v : Variable}
    (h : Runs (compileLocal v) c s o s') : Selects q c d s s' o := by
  simp [compileLocal, and_assoc] at h
  rcases h with ⟨_, _, t, h1, ⟨_, h2⟩, rfl⟩ | ⟨_, rfl, rfl⟩
  · have hF := parses_loadLocal hr h1
    exact (hF.trans (parses_emitRegs (hF.ready hr) rfl rfl h2)).selects_place rfl
      trivial
  · exact (parses_nil hr).selects_place rfl trivial

lemma yields_constant {value : Constant} (ho : o.value = .const value) :
    Yields q c d s s o :=
  ⟨[], parses_nil hr, ⟨fun _ => rfl, by simp [ho], by simp [Operand.Located, ho]⟩, fun _ => .refl⟩

lemma yields_compileGlobal {id : GlobalId}
    (hname : s.symbols.find? name = some (.variable id))
    (h : Runs (compileGlobal id) c s o s') : Yields q c d s s' o := by
  simp only [compileGlobal, runs_bind, runs_globalAt] at h
  obtain ⟨v', s, ⟨rfl, hv'⟩, h⟩ := h
  split at h <;> obtain ⟨rfl, rfl⟩ := runs_pure.1 h
  · exact yields_constant hr rfl
  · refine ((parses_nil hr).selects_place rfl ?_).1
    obtain ⟨v, hv, rfl⟩ := hr.known.globals hname
    obtain rfl := Option.some.inj (hv.symm.trans hv')
    cases himport : v.isImport with
    | true =>
      exact ⟨v, hv, himport, hname⟩
    | false =>
      exact ⟨v, Array.mem_of_getElem? hv, himport, rfl, .whole⟩

lemma yields_compileThis (h : Runs compileThis c s o s')
    (hk : (c.tokens.get s.pos).kind = .keyword .kwThis) : Yields q c d s s' o := by
  simp [compileThis, and_assoc] at h
  obtain ⟨_, _, _, rfl, id, _, rfl⟩ := h
  exact ⟨[], parses_pos hr (.token hr.stream hk rfl rfl),
    ⟨by simp [Operand.constant?], by simp, by simp [Operand.Located]⟩, by simp [Operand.constant?]⟩

end

/-- The state in which an index is compiled: behind its bracket, and with MAR saved if the array is
found through it. -/
def indexStart (c : Context) (place : Place) (s : State) : State :=
  let t := { s with pos := c.tokens.after s.pos }
  if place.anchor = .mar then
    { t with script := t.script.write .pushReg [Register.mar.toWord], scope := t.scope.adjust cell }
  else t

lemma runs_indexStart (h : place.anchor = .mar) : Runs (pushReg .mar) c
    { s with pos := c.tokens.after s.pos } () (indexStart c place s) := by
  simp [pushReg, runs_emitRegs, runs_emit, runs_adjustStack, indexStart, h]

lemma indexStatic_cases {dim factor : UInt32}
    (h : Runs (indexStatic parts place dim factor number) c s place' s') :
    ∃ o t, Runs (indexOperand parts) c (indexStart c place s) o t ∧
      ((∃ i, o.constant? = some (.int i) ∧ 0 ≤ i ∧ i.toUInt32 < dim ∧
          place' = place.plus (i.toUInt32 * factor) ∧
          if place.anchor = .mar then Runs (unsaveMar s.script.checkpoint) c t () s' else s' = t) ∨
        (∀ i, o.constant? ≠ some (.int i)) ∧ place' = ⟨.mar, 0⟩ ∧ ∃ t2 t3 t4 t5 t6,
          Runs (indexToAx parts o) c t () t2 ∧
          (if place.anchor = .mar then Runs (popReg .mar) c t2 () t3 else t3 = t2) ∧
          Runs (emit .checkBounds [Register.ax.toWord, dim.toInt32]) c t3 () t4 ∧
          Runs (scaleAx factor.toInt32) c t4 () t5 ∧ Runs (loadAddress place) c t5 () t6 ∧
          Runs (emitRegs .addReg [.mar, .ax]) c t6 () s') := by
  simp [indexStatic] at h
  obtain ⟨hmar, saved, t1, h1, o, t2, h2, h⟩ | ⟨hmar, o, t2, h2, h⟩ := h
  · simp [saveMar, pushReg, runs_emitRegs, runs_emit, runs_adjustStack] at h1
    obtain ⟨rfl, rfl⟩ := h1
    refine ⟨o, t2, by simpa [indexStart, hmar] using h2, ?_⟩
    split at h
    · next i hi =>
      simp at h
      obtain ⟨hlo, hlt, ⟨_, h⟩, rfl⟩ := h
      exact .inl ⟨i, hi, hlo, hlt, rfl, by simpa [hmar] using h⟩
    · next hno =>
      simp at h
      obtain ⟨t3, h3, t4, h4, t5, h5, t6, h6, t7, h7, ⟨_, h8⟩, rfl⟩ := h
      exact .inr ⟨hno, rfl, t3, t4, t5, t6, t7, h3, by simpa [hmar] using h4, h5, h6, h7, h8⟩
  · refine ⟨o, t2, by simpa [indexStart, hmar] using h2, ?_⟩
    split at h
    · next i hi =>
      simp at h
      obtain ⟨hlo, hlt, rfl, rfl⟩ := h
      exact .inl ⟨i, hi, hlo, hlt, rfl, by simp [hmar]⟩
    · next hno =>
      simp at h
      obtain ⟨t3, h3, t5, h5, t6, h6, t7, h7, ⟨_, h8⟩, rfl⟩ := h
      exact .inr ⟨hno, rfl, t3, t3, t5, t6, t7, h3, by simp [hmar], h5, h6, h7, h8⟩

/-! ## Loading -/

variable (hp : Sound parts) (hr : Ready q c d s)
include hp hr

lemma parses_loadToAx (ho : o.Located s.symbols) (h : Runs (loadToAx parts o) c s ty s') :
    ∃ F, (o.value ≠ .ax → F ≠ []) ∧ Parses q c d s s' F d := by
  obtain ⟨t, F, hne, hF, h⟩ : ∃ t F, (o.value ≠ .ax → F ≠ []) ∧ Parses q c d s t F d ∧
      ∃ u, Runs clobberAx c t u s' := by
    simp only [loadToAx] at h
    split at h <;> simp at h
    · obtain ⟨t, h, h', _⟩ := h
      exact ⟨t, _, by simp, parses_litToReg hr h, h'⟩
    · next ho => exact ⟨s, _, by simp [ho], parses_nil hr, h.1⟩
    · obtain ⟨t, h, h', _⟩ := h
      exact ⟨t, _, by simp, parses_emitRegs hr rfl rfl h, h'⟩
    · next hv =>
      obtain ⟨t, h, h'⟩ := h
      simp only [Operand.Located, hv] at ho
      obtain ⟨F, hne, hF⟩ := parses_loadPlace hr ho.anchored h
      exact ⟨t, F, fun _ => hne, hF, h'⟩
    · next hv =>
      obtain ⟨t, h, h', _⟩ := h
      simp only [Operand.Located, hv] at ho
      obtain ⟨F, hne, hF⟩ := parses_getAttribute hp hr ho h
      exact ⟨t, F, fun _ => hne, hF, h'⟩
  obtain ⟨u, h⟩ := h
  exact ⟨_, by simpa using hne, hF.trans (parses_clobberAx (hF.ready hr) h)⟩

omit hp hr in
lemma Yields.loadToAx (hy : Yields q c d s t o) (hp : Sound parts) (hr : Ready q c d s)
    (h : Runs (loadToAx parts o) c t ty s') : Codes q c d s s' d := by
  obtain ⟨F, hF, ho⟩ := hy
  obtain ⟨G, hne, hG⟩ := parses_loadToAx hp (hF.ready hr) (hF.aside.symbols ▸ ho.located) h
  refine ⟨F ++ G, ?_, hF.trans hG⟩
  by_cases hax : o.value = .ax
  · simp [ho.inAx hax]
  · simp [hne hax]

lemma parses_partToAx {part : Part} (h : Runs (partToAx parts part) c s ty s') :
    Codes q c d s s' d := by
  simp only [partToAx, runs_bind] at h
  obtain ⟨o, t, h1, h2⟩ := h
  exact (hp.yields hr h1).loadToAx hp hr h2

lemma parses_dereference (ho : o.Located s.symbols)
    (h : Runs (dereference parts o) c s place s') : ∃ F, Parses q c d s s' F d := by
  simp only [dereference] at h
  split at h
  · obtain ⟨rfl, _⟩ := runs_pure.1 h
    exact ⟨_, parses_nil hr⟩
  · simp at h
  · next hv =>
    simp at h
    obtain ⟨t1, h1, t2, h2, ⟨_, h3⟩, _⟩ := h
    simp only [Operand.Located, hv] at ho
    obtain ⟨F, hF⟩ := parses_loadAddress hr ho.anchored h1
    have hG := hF.trans (parses_emitRegs (hF.ready hr) rfl rfl h2)
    exact ⟨_, hG.trans (parses_emitBare (hG.ready hr) rfl rfl h3)⟩
  · simp at h
    obtain ⟨t2, h2, ⟨_, h3⟩, _⟩ := h
    have hG := parses_emitRegs hr rfl rfl h2
    exact ⟨_, hG.trans (parses_emitBare (hG.ready hr) rfl rfl h3)⟩
  · simp at h
    obtain ⟨ty, t1, h1, t2, h2, ⟨_, h3⟩, _⟩ := h
    obtain ⟨F, _, hF⟩ := parses_loadToAx hp hr ho h1
    have hG := hF.trans (parses_emitRegs (hF.ready hr) rfl rfl h2)
    exact ⟨_, hG.trans (parses_emitBare (hG.ready hr) rfl rfl h3)⟩

section

variable (hk : (c.tokens.get s.pos).kind = .symbol .leftBracket)
include hk

lemma parses_indexOperand (hA : Parses q c d { s with pos := c.tokens.after s.pos } t A e)
    (hkeeps : Keeps s t) (h : Runs (indexOperand parts) c t o s') :
    ∃ F, Parses q c d s s' (A ++ F) e ∧ Tells s.symbols o F ∧
      (c.tokens.Plain s.pos s'.pos → F = [] → Keeps s s') := by
  simp [indexOperand, Parts.whole, and_assoc] at h
  obtain ⟨t', h, hc, rfl⟩ := h
  obtain ⟨F, hF, ho⟩ := hp.yields (hA.ready (ready_pos hr _)) h
  have hAF := (hA.trans hF).group hr.stream
    hk rfl rfl
    hc rfl rfl
  refine ⟨F, hAF, hA.aside.symbols ▸ ho.toTells, fun hplain hnil m hm hj => ?_⟩
  refine hF.keeps (hplain.mono ?_ Stream.le_after) hnil m ?_ (hkeeps m hm hj)
  · exact le_trans Stream.le_after hA.nested.1
  · exact le_trans hm hA.extends.size_le

omit hk in
lemma parses_indexToAx (ho : o.Located s.symbols)
    (h : Runs (indexToAx parts o) c s u s') : ∃ F, Parses q c d s s' F d := by
  simp [indexToAx] at h
  obtain ⟨ty, h, _⟩ := h
  obtain ⟨F, _, hF⟩ := parses_loadToAx hp hr ho h
  exact ⟨F, hF⟩

lemma parses_savedIndex (h1 : Runs (pushReg .mar) c { s with pos := c.tokens.after s.pos } u t)
    (h2 : Runs (indexOperand parts) c t o s') :
    ∃ A F, Parses q c d s s' (A ++ F) (d + 4) ∧ Tells s.symbols o F ∧
      (c.tokens.Plain s.pos s'.pos → F = [] → Keeps s s') := by
  have hA := parses_pushReg (ready_pos hr _) h1
  simp [pushReg, runs_emitRegs, runs_emit, runs_adjustStack] at h1
  exact ⟨_, parses_indexOperand hp hr hk hA (.of_eq (by simp [h1])) h2⟩

omit hk in
lemma parses_restoreMar (hF : Parses q c d s t F (d + 4)) (ho : o.Located s.symbols) {t' : State}
    (h1 : Runs (indexToAx parts o) c t u t') (h2 : Runs (popReg .mar) c t' u s') :
    ∃ G, Parses q c d s s' G d := by
  obtain ⟨G, hG⟩ := parses_indexToAx hp (hF.ready hr) (hF.aside.symbols ▸ ho) h1
  have hFG := hF.trans hG
  have hM := parses_popReg (hFG.ready hr) (fun ⟨hq, _⟩ => by have := (hr.offset hq).2; omega) h2
  exact ⟨_, (hFG.trans hM).cast fun _ _ => by omega⟩

lemma parses_startedIndex (h : Runs (indexOperand parts) c (indexStart c place s) o t) :
    ∃ A F, Parses q c d s t (A ++ F) (if place.anchor = .mar then d + 4 else d) ∧
      Tells s.symbols o F ∧ (place.anchor ≠ .mar → A = []) ∧
      (c.tokens.Plain s.pos t.pos → F = [] → Keeps s t) := by
  by_cases hmar : place.anchor = .mar
  · obtain ⟨A, F, hF, ho, hkeeps⟩ := parses_savedIndex hp hr hk (runs_indexStart hmar) h
    exact ⟨A, F, by rwa [if_pos hmar], ho, absurd hmar, hkeeps⟩
  · rw [indexStart, if_neg hmar] at h
    obtain ⟨F, hF, ho, hkeeps⟩ := parses_indexOperand hp hr hk (parses_nil (ready_pos hr _))
      (.of_eq rfl) h
    exact ⟨[], F, by rwa [if_neg hmar], ho, fun _ => rfl, hkeeps⟩

lemma parses_knownIndex (h1 : Runs (indexOperand parts) c (indexStart c place s) o t)
    (hi : o.constant?.isSome = true)
    (h2 : if place.anchor = .mar then Runs (unsaveMar s.script.checkpoint) c t () s' else s' = t) :
    Parses q c d s s' [] d := by
  obtain ⟨A, F, hF, ho, hA, hkeeps⟩ := parses_startedIndex hp hr hk h1
  obtain rfl := ho.constant hi
  by_cases hmar : place.anchor = .mar
  · rw [if_pos hmar] at hF h2
    exact parses_unsaveMar hr hF (fun hplain => hkeeps hplain rfl) h2
  · rw [if_neg hmar] at hF h2
    obtain rfl := h2
    simpa [hA hmar] using hF

lemma parses_computedIndex {t' : State}
    (h1 : Runs (indexOperand parts) c (indexStart c place s) o t)
    (h2 : Runs (indexToAx parts o) c t () t')
    (h3 : if place.anchor = .mar then Runs (popReg .mar) c t' () s' else s' = t') :
    ∃ F, Parses q c d s s' F d := by
  obtain ⟨A, F, hF, ho, _⟩ := parses_startedIndex hp hr hk h1
  by_cases hmar : place.anchor = .mar
  · rw [if_pos hmar] at hF h3
    exact parses_restoreMar hp hr hF ho.located h2 h3
  · rw [if_neg hmar] at hF h3
    obtain rfl := h3
    obtain ⟨G, hG⟩ := parses_indexToAx hp (hF.ready hr) (hF.aside.symbols ▸ ho.located) h2
    exact ⟨_, hF.trans hG⟩

lemma parses_indexStatic {dim factor : UInt32} (hplace : place.Anchored s.symbols)
    (h : Runs (indexStatic parts place dim factor number) c s place' s') :
    ∃ F, Parses q c d s s' F d ∧
      (place'.anchor = .mar ∨ ∃ i, i < dim ∧ place' = place.plus (i * factor)) := by
  obtain ⟨o, t, h1, ⟨i, hi, _, hlt, rfl, h2⟩ | ⟨_, rfl, t2, t3, t4, t5, t6, h2, h3, h4, h5, h6, h7⟩⟩ :=
    indexStatic_cases h
  · exact ⟨_, parses_knownIndex hp hr hk h1 (by simp [hi]) h2, .inr ⟨_, hlt, rfl⟩⟩
  · obtain ⟨G, hG⟩ := parses_computedIndex hp hr hk h1 h2 h3
    obtain ⟨H, hH⟩ := parses_addIndex (hG.ready hr) (hG.aside.symbols ▸ hplace) h4 h5 h6 h7
    exact ⟨_, hG.trans hH, .inl rfl⟩

lemma parses_indexDynamic (h : Runs (indexDynamic parts factor number) c s place s') :
    ∃ F, Parses q c d s s' F d ∧ place.anchor = .mar := by
  simp [indexDynamic, saveMar] at h
  obtain ⟨t1, h1, o, t2, h2, h⟩ := h
  obtain ⟨A, F, hF, ho, hkeeps⟩ := parses_savedIndex hp hr hk h1 h2
  obtain ⟨t, G, hG, t3, h3, ⟨_, h4⟩, rfl⟩ : ∃ t G, Parses q c d s t G d ∧ ∃ t3,
      Runs (emitRegs .dynamicBounds [.ax]) c t () t3 ∧
      (∃ u, Runs (emitRegs .addReg [.mar, .ax]) c t3 u s') ∧ place = ⟨.mar, 0⟩ := by
    split at h
    · next hi =>
      simp at h
      obtain ⟨_, t3, h3, t4, h4, h⟩ := h
      have hnil := ho.constant (by simp [hi])
      have hG := parses_unsaveMar hr hF (fun hplain => hkeeps hplain hnil) h3
      exact ⟨t4, _, hG.trans (parses_litToReg (hG.ready hr) h4), h⟩
    · simp at h
      obtain ⟨t3, h3, t4, h4, t5, h5, h⟩ := h
      obtain ⟨G, hG⟩ := parses_restoreMar hp hr hF ho.located h3 h4
      obtain ⟨H, hH⟩ := parses_scaleAx (hG.ready hr) h5
      exact ⟨t5, _, hG.trans hH, h⟩
  have hH := hG.trans (parses_emitRegs (hG.ready hr) rfl rfl h3)
  exact ⟨_, hH.trans (parses_emitRegs (hH.ready hr) rfl rfl h4), rfl⟩

lemma selects_compileIndex {o' : Operand}
    (ho : o.Located s.symbols) (h : Runs (compileIndex parts o number) c s o' s') :
    Selects q c d s s' o' := by
  simp only [compileIndex] at h
  split at h <;> simp [and_assoc] at h
  · next hshape hv =>
    obtain ⟨dim, hdim, place, h, rfl⟩ := h
    simp only [Operand.Located, hv] at ho
    obtain ⟨F, hF, hplace⟩ := parses_indexStatic hp hr hk ho.anchored h
    refine hF.selects_place rfl ?_
    rcases hplace with hmar | ⟨i, hi, rfl⟩
    · exact located_of_mar hmar
    · exact ho.element hshape (by simpa [hdim] using hi)
  · obtain ⟨place, t, h1, place', h2, rfl⟩ := h
    obtain ⟨F, hF⟩ := parses_dereference hp hr ho h1
    rw [← pos_dereference h1] at hk
    obtain ⟨G, hG, hmar⟩ := parses_indexDynamic hp (hF.ready hr) hk h2
    exact (hF.trans hG).selects_place rfl (located_of_mar hmar)

end

lemma selects_compileMemberCall {id : FuncId} (hobject : Offers s.symbols object (.function id))
    (h : Runs (compileMemberCall parts owner id object name) c s o s') : Selects q c d s s' o := by
  simp [compileMemberCall, and_assoc] at h
  obtain ⟨_, _, _, _, _, _, h⟩ := h
  refine selects_compileCall hp hr (fun place hplace => ?_) h
  split at hplace
  · exact (hobject place hplace).1
  · cases hplace

lemma selects_compileComponent (hobject : Offers s.symbols object component)
    (h : Runs (compileComponent parts owner component object name) c s o s') :
    Selects q c d s s' o := by
  rcases component with f | attr | id
  · exact selects_compileField hr hobject h
  · exact selects_compileMemberCall hp hr hobject h
  · exact selects_compileAttribute hr hobject h

lemma parses_objectPlace (ho : o.Located s.symbols)
    (h : Runs (objectPlace parts o name) c s place s') : ∃ F, Parses q c d s s' F d := by
  simp only [objectPlace, runs_ite] at h
  rcases h with ⟨_, h⟩ | ⟨_, h⟩
  · exact parses_dereference hp hr ho h
  · split at h <;> simp at h
    obtain ⟨rfl, _⟩ := h
    exact ⟨_, parses_nil hr⟩

lemma selects_compileMember {o' : Operand}
    (ho : o.Located s.symbols) (h : Runs (compileMember parts o) c s o' s') :
    Selects q c d s s' o' := by
  simp [compileMember, and_assoc] at h
  obtain ⟨hk, id, hid, hscalar, place, t, h1, owner, component, hc, o', h2, rfl⟩ := h
  have hA := parses_pos hr (.token hr.stream hk rfl rfl)
  obtain ⟨F, hF⟩ := parses_objectPlace hp (hA.ready hr) ho h1
  have hAF := hA.trans hF
  have hobject := offers_objectPlace (hAF.aside.symbols ▸ ho) hscalar hid hc h1
  obtain ⟨⟨G, hG, ho'⟩, hc⟩ := hAF.selects (selects_compileComponent hp (hAF.ready hr) hobject h2)
  exact ⟨⟨G, hG, ⟨ho'.constant, ho'.inAx, ho'.located⟩, ho'.passes⟩, hc⟩

lemma yields_compileChain {start : Operand}
    (hy : Yields q c d s t start) (h : Runs (compileChain parts start) c t o s') :
    Yields q c d s s' o := by
  refine runs_rounds (P := fun o t => Yields q c d s t o.1) (Q := fun o t => Yields q c d s t o)
    ?_ ?_ h hy
  · rintro ⟨o, n⟩ ⟨o', n'⟩ t t' ⟨F, hF, ho⟩ h
    simp [and_assoc] at h
    rcases h with ⟨_, hk, h, rfl⟩ | ⟨hk, h, rfl⟩
    · exact (hF.selects (selects_compileIndex hp (hF.ready hr) hk
        (hF.aside.symbols ▸ ho.located) h)).1
    · have hA := parses_pos (hF.ready hr) (.token hr.stream hk rfl rfl)
      exact (hF.selects (hA.selects (selects_compileMember hp (hA.ready (hF.ready hr))
        (hF.aside.symbols ▸ ho.located) h))).1
  · rintro ⟨o, n⟩ o' t t' hy h
    simp [and_assoc] at h
    obtain ⟨_, rfl, _, rfl⟩ := h
    exact hy

lemma yields_compileStatic
    (h : Runs (compileStatic parts id) c s o s') : Yields q c d s s' o := by
  simp [compileStatic, and_assoc] at h
  obtain ⟨hk, hk', owner, component, _, h⟩ := h
  have hA := parses_pos hr ((Stream.Nested.token hr.stream hk rfl rfl).trans
    (.token hr.stream hk' rfl rfl))
  exact (hA.selects (selects_compileComponent hp (hA.ready hr) (by rintro _ ⟨⟩) h)).1

lemma yields_compileMeaning
    (h : Runs (compileMeaning parts name) c s o s') : Yields q c d s s' o := by
  simp only [compileMeaning, runs_bind, runs_getSymbols] at h
  obtain ⟨_, _, ⟨rfl, rfl⟩, h⟩ := h
  split at h
  · next hname => exact yields_compileGlobal hr hname h
  · obtain ⟨rfl, rfl⟩ := runs_pure.1 h
    exact yields_constant hr rfl
  · simp [and_assoc] at h
    exact (selects_compileCall hp hr (by rintro _ ⟨⟩) h.2).1
  · exact yields_compileStatic hp hr h
  · simp at h

lemma yields_compileName (h : Runs (compileName parts) c s o s') : Yields q c d s s' o := by
  simp only [compileName, runs_bind, runs_expectIdentifier, runs_check, runs_get] at h
  obtain ⟨name, t, ⟨hk, rfl, rfl⟩, isCall, _, ⟨rfl, rfl⟩, _, _, ⟨rfl, rfl⟩, h⟩ := h
  refine yields_of_pos hr (.token hr.stream hk rfl rfl) fun hr => ?_
  split at h
  · exact (selects_compileLocal hr h).1
  · simp only [runs_bind, runs_getTypes, runs_currentStruct?] at h
    obtain ⟨_, _, ⟨rfl, rfl⟩, _, _, ⟨rfl, rfl, _⟩, h⟩ := h
    split at h
    · simp only [runs_bind, runs_hasThis] at h
      obtain ⟨_, _, ⟨rfl, _⟩, h⟩ := h
      refine (selects_compileComponent hp hr (fun place hplace => ?_) h).1
      split at hplace
      · obtain rfl : ⟨.this, 0⟩ = place := by simpa using hplace
        exact ⟨⟨.int, located_of_this rfl⟩, fun f _ => located_of_this rfl⟩
      · cases hplace
    · exact yields_compileMeaning hp hr h

lemma yields_compileAccess (h : Runs (compileAccess parts) c s o s') : Yields q c d s s' o := by
  simp [compileAccess, and_assoc] at h
  rcases h with ⟨hk, start, t, h1, h2⟩ | ⟨_, start, t, h1, h2⟩
  · exact yields_compileChain hp hr (yields_compileThis hr h1 hk) h2
  · exact yields_compileChain hp hr (yields_compileName hp hr h1) h2

end AdventureScript.Gen
