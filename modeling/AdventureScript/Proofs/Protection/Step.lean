import AdventureScript.Proofs.Protection.Chain

/-!
The links of access chains as they are compiled.
-/
namespace AdventureScript.Chain
open Gen

variable {α β : Type} {c : Context} {s t t' : State} {q number : Nat} {place place' : Place}
  {reg : Register} {dim : UInt32} {a : α} {x : Gen α} {f : α → Gen β} {b : Prop}
  {factor bytes : Int32} {r : β} {reference : Reference} {saved : Option Checkpoint}
  {i? : Option Int32}

/-! ## Steps that always run -/

abbrev Stands (c : Context) (t : State) (x : Gen α) (a : α) : Prop :=
  Completes c t t x a t.pos

namespace Stands

lemma pure : Stands c t (Pure.pure a) a :=
  ⟨t, runs_pure.2 ⟨rfl, rfl⟩, rfl, .refl⟩

lemma bind {b : β} (hx : Stands c t x a)
    (hf : ∀ t', Stays t t' → Stands c t' (f a) b) : Stands c t (x >>= f) b := by
  obtain ⟨t1, h1, hpos1, hst1⟩ := hx
  obtain ⟨t2, h2, hpos2, hst2⟩ := hf t1 hst1
  exact ⟨t2, runs_bind.2 ⟨a, t1, h1, h2⟩, hpos2.trans hpos1, hst1.trans hst2⟩

lemma completes (hx : Stands c t x a) (hst : Stays s t) (hpos : t.pos = q) :
    Completes c s t x a q := by
  obtain ⟨t1, h1, hpos1, hst1⟩ := hx
  exact ⟨t1, h1, hpos1.trans hpos, hst.trans hst1⟩

lemma runs {b : α} (hx : Stands c t x a) (h : Runs x c t b t') :
    b = a ∧ t'.pos = t.pos ∧ Stays t t' := by
  obtain ⟨t1, h1, hpos, hst⟩ := hx
  obtain ⟨rfl, rfl⟩ := h1.unique h
  exact ⟨rfl, hpos, hst⟩

end Stands

lemma Stands.then {b : β} (hx : Stands c t x a) (hf : ∀ {t}, Stands c t (f a) b) :
    Stands c t (x >>= f) b :=
  hx.bind fun _ _ => hf

lemma stands_modify {f : State → State} (hpos : (f t).pos = t.pos) (h : Stays t (f t)) :
    Stands c t (modify f) () :=
  ⟨f t, runs_modify.2 rfl, hpos, h⟩

lemma stands_emit {op : Opcode} {operands : List Int32} : Stands c t (emit op operands) () :=
  stands_modify rfl ⟨rfl, rfl, rfl⟩

lemma stands_adjustStack : Stands c t (adjustStack bytes) () :=
  stands_modify rfl ⟨rfl, rfl, rfl⟩

lemma stands_pushReg : Stands c t (pushReg reg) () :=
  stands_emit.then stands_adjustStack

lemma stands_popReg : Stands c t (popReg reg) () :=
  stands_emit.then stands_adjustStack

lemma stands_litToReg {w : Int32} : Stands c t (litToReg reg w) () := by
  have hwrite {t : State} : Stands c t (modifyScript (·.litToReg reg w)) () :=
    stands_modify rfl ⟨rfl, rfl, rfl⟩
  unfold litToReg
  split
  · exact Stands.bind (a := ()) (stands_modify rfl ⟨rfl, rfl, rfl⟩) fun _ _ => hwrite
  · exact hwrite

lemma stands_fixupLast : Stands c t (fixupLast reference) () :=
  stands_modify rfl ⟨rfl, rfl, rfl⟩

lemma stands_importToReg {name : String} : Stands c t (importToReg reg reference name) () :=
  Stands.bind ⟨_, runs_updateScript.2 ⟨rfl, rfl⟩, rfl, rfl, rfl, rfl⟩ fun _ _ =>
    stands_litToReg.then stands_fixupLast

lemma stands_loadLocal {offset : Int32} : Stands c t (loadLocal offset) () :=
  Stands.bind (a := ()) (stands_modify rfl ⟨rfl, rfl, rfl⟩) fun t' _ =>
    Stands.bind ⟨t', runs_get.2 ⟨rfl, rfl⟩, rfl, .refl⟩ fun _ _ => stands_emit

lemma stands_addToMar : Stands c t (addToMar bytes) () := by
  unfold addToMar
  split
  · exact stands_emit
  · exact .pure

def Rooted (symbols : Symbols) (place : Place) : Prop :=
  ∀ id, place.anchor = .imported id → (symbols.globals[id.index]?).isSome = true

lemma stands_loadAddress (h : Rooted t.symbols place) : Stands c t (loadAddress place) () := by
  obtain ⟨anchor, component⟩ := place
  cases anchor with
  | global offset => exact stands_litToReg.then stands_fixupLast
  | «local» offset => exact stands_loadLocal
  | imported id =>
    obtain ⟨v, hv⟩ := Option.isSome_iff_exists.1 (h id rfl)
    exact Stands.bind ⟨t, runs_globalAt.2 ⟨rfl, hv⟩, rfl, .refl⟩ fun _ _ =>
      stands_importToReg.then stands_addToMar
  | this => exact stands_emit.then <| stands_emit.then stands_addToMar
  | mar => exact stands_addToMar

lemma stands_scaleAx : Stands c t (scaleAx factor) () := by
  unfold scaleAx
  split
  · exact stands_emit
  · exact .pure

lemma stands_unsaveMar {saved : Checkpoint} : Stands c t (unsaveMar saved) () :=
  Stands.bind (a := ()) (stands_modify rfl ⟨rfl, rfl, rfl⟩) fun _ _ => stands_adjustStack

lemma Rooted.stays (h : Rooted s.symbols place) (hst : Stays s t) : Rooted t.symbols place :=
  hst.symbols ▸ h

/-! ## Indices -/

lemma completes_ite_bind [Decidable b] {y : Gen α}
    (h : Runs (if b then x else y) c t a t') (hf : Completes c s t' (f a) r q) :
    Completes c s t (if b then x >>= f else y >>= f) r q := by
  split at h
  · next hb => exact (if_pos hb).symm ▸ .bind h hf
  · next hb => exact (if_neg hb).symm ▸ .bind h hf

lemma stands_saveMar : Stands c t saveMar t.script.checkpoint :=
  Stands.bind ⟨t, runs_checkpoint.2 ⟨rfl, rfl⟩, rfl, .refl⟩ fun _ _ => stands_pushReg.then .pure

lemma exists_saved [Decidable b] :
    ∃ saved, Stands c t (if b then some <$> saveMar else pure none) saved := by
  by_cases hb : b
  · rw [if_pos hb, ← bind_pure_comp]
    exact ⟨some t.script.checkpoint, stands_saveMar.then .pure⟩
  · rw [if_neg hb]
    exact ⟨none, .pure⟩

lemma completes_indexOperand {o : Operand} (hst : Stays s t) (h : Leads c s expression t.pos o q)
    (hclose : (c.tokens.get q).kind = .symbol .rightBracket) :
    Completes c s t (indexOperand (partsOf c)) o (q + 1) := by
  obtain ⟨u, h, hu⟩ := h
  obtain ⟨t', h', rfl, hst'⟩ := portable_whole.completes hst ⟨u, runs_withParts.1 h, hu⟩
  refine .bind h' (.bind (a := ()) (runs_expect.2 ⟨hclose, rfl⟩) (Stands.pure.completes ?_ ?_))
  · exact hst'.trans stays_pos
  · exact Alignment.after_of_symbol hclose

lemma runs_indexOperand {o : Operand} (hst : Stays s t)
    (h : Runs (indexOperand (partsOf c)) c t o t') :
    ∃ q, Leads c s expression t.pos o q ∧ (c.tokens.get q).kind = .symbol .rightBracket ∧
      Stays s t' := by
  simp only [indexOperand, runs_bind, runs_expect, runs_pure] at h
  obtain ⟨o, t1, h, _, _, ⟨hclose, rfl⟩, rfl, rfl⟩ := h
  obtain ⟨u, hu, hpos⟩ := portable_whole.leads hst h
  exact ⟨t1.pos, ⟨u, runs_withParts.2 hu, hpos⟩, hclose,
    (portable_whole.stays hst h).trans stays_pos⟩

lemma stands_indexToAx {o : Operand} {ty : Ty} {u : State} (hst : Stays s t)
    (h : Runs (toAx o) c s ty u) (hty : ty.isInteger = true) :
    Stands c t (indexToAx (partsOf c) o) () := by
  obtain ⟨t', h', hpos, hst'⟩ := stationary_loadToAx.completes hst (runs_withParts.1 h)
  refine Stands.bind ⟨t', h', hpos, hst.symm.trans hst'⟩ fun _ _ => ?_
  simp only [hty, Bool.not_true, Bool.false_eq_true, if_false]
  exact .pure

lemma runs_indexToAx {o : Operand} {v : Unit} (hst : Stays s t)
    (h : Runs (indexToAx (partsOf c) o) c t v t') :
    ∃ ty u, Runs (toAx o) c s ty u ∧ ty.isInteger = true := by
  simp [indexToAx] at h
  obtain ⟨ty, h, hty⟩ := h
  obtain ⟨-, -, u, hu⟩ := stationary_loadToAx.run hst.symm h
  exact ⟨ty, u, runs_withParts.2 hu, hty⟩

lemma exists_indexAt {fits : Int32 → Prop} {o : Operand} (hst : Stays s t)
    (h : Runs (indexOperand (partsOf c)) c t o t')
    (hindex : (∃ i, o.constant? = some (.int i) ∧ 0 ≤ i ∧ fits i) ∨
      (∀ i, o.constant? ≠ some (.int i)) ∧ ∃ u, Runs (indexToAx (partsOf c) o) c t' () u) :
    ∃ i? q, IndexAt c s fits t.pos i? q := by
  obtain ⟨q, hleads, hclose, hst'⟩ := runs_indexOperand hst h
  rcases hindex with ⟨i, hi, hrange⟩ | ⟨hno, u, hu⟩
  · refine ⟨some i, q, hclose, o, hleads, ?_⟩
    simp only [hi]
    exact ⟨trivial, hrange⟩
  · refine ⟨none, q, hclose, o, hleads, ?_⟩
    split
    · next i hi => exact absurd hi (hno i)
    · exact ⟨rfl, runs_indexToAx hst' hu⟩

lemma stands_addIndex {factor : UInt32} (hst : Stays s t) (hplace : Rooted s.symbols place) :
    Stands c t (do
      if saved.isSome then popReg .mar
      emit .checkBounds [Register.ax.toWord, dim.toInt32]
      scaleAx factor.toInt32
      loadAddress place
      emitRegs .addReg [.mar, .ax]
      return (⟨.mar, 0⟩ : Place)) ⟨.mar, 0⟩ := by
  extract_lets rest
  have hend {t : State} (hst : Stays s t) : Stands c t (rest ()) ⟨.mar, 0⟩ :=
    stands_emit.bind fun _ h1 => stands_scaleAx.bind fun _ h2 =>
      (stands_loadAddress (hplace.stays ((hst.trans h1).trans h2))).then <| stands_emit.then .pure
  split
  · exact stands_popReg.bind fun _ h => hend (hst.trans h)
  · exact hend hst

lemma stands_unsave :
    Stands c t (do
      if let some checkpoint := saved then unsaveMar checkpoint
      return place) place := by
  cases saved with
  | none => exact .pure
  | some saved => exact stands_unsaveMar.then .pure

section

variable (hst : Stays s t) (hopen : (c.tokens.get t.pos).kind = .symbol .leftBracket)
include hst hopen

lemma completes_indexStatic {factor : UInt32}
    (hplace : Rooted s.symbols place) (h : IndexAt c s (fun i => i.toUInt32 < dim) (t.pos + 1) i? q) :
    Completes c s t (indexStatic (partsOf c) place dim factor number)
      (i?.elim ⟨.mar, 0⟩ fun i => place.plus (i.toUInt32 * factor)) (q + 1) := by
  obtain ⟨hclose, o, hleads, hindex⟩ := h
  rw [← Alignment.after_of_symbol hopen] at hleads
  refine .bind (runs_advance.2 ⟨rfl, rfl⟩) ?_
  obtain ⟨saved, t1, h1, hpos1, hst1⟩ :=
    @exists_saved c { t with pos := c.tokens.after t.pos } (place.anchor = .mar) _
  replace hst1 := (hst.trans stays_pos).trans hst1
  obtain ⟨t2, h2, hpos2, hst2⟩ := completes_indexOperand hst1 (by rw [hpos1]; exact hleads) hclose
  refine completes_ite_bind h1 (.bind h2 (Stands.completes ?_ hst2 hpos2))
  split
  · next i hi =>
    simp only [hi] at hindex
    obtain ⟨rfl, hlow, hhigh⟩ := hindex
    simp only [Int32.not_lt.2 hlow, UInt32.not_le.2 hhigh, if_false]
    exact stands_unsave
  · next hi =>
    split at hindex
    · next i hi' => exact absurd hi' (hi i)
    · obtain ⟨rfl, ty, u, hload, hty⟩ := hindex
      exact (stands_indexToAx hst2 hload hty).bind fun _ h => stands_addIndex (hst2.trans h) hplace

lemma runs_indexStatic {factor : UInt32} (hplace : Rooted s.symbols place)
    (h : Runs (indexStatic (partsOf c) place dim factor number) c t place' t') :
    ∃ i? q, IndexAt c s (fun i => i.toUInt32 < dim) (t.pos + 1) i? q ∧ t'.pos = q + 1 ∧
      place' = (i?.elim ⟨.mar, 0⟩ fun i => place.plus (i.toUInt32 * factor)) ∧ Stays s t' := by
  obtain ⟨o, u, hu, hcases⟩ := indexStatic_cases h
  obtain ⟨hst1, hpos1⟩ : Stays s (indexStart c place t) ∧ (indexStart c place t).pos = t.pos + 1 := by
    rw [← Alignment.after_of_symbol hopen, indexStart]
    split <;> exact ⟨hst.trans ⟨rfl, rfl, rfl⟩, rfl⟩
  obtain ⟨i?, q, hindex⟩ : ∃ i? q, IndexAt c s (fun i => i.toUInt32 < dim) (t.pos + 1) i? q := by
    rw [← hpos1]
    refine exists_indexAt hst1 hu ?_
    rcases hcases with ⟨i, hi, hlow, hhigh, _⟩ | ⟨hno, _, u', _, _, _, _, hu', _⟩
    · exact .inl ⟨i, hi, hlow, hhigh⟩
    · exact .inr ⟨hno, u', hu'⟩
  obtain ⟨t1, h1, hpos, hst'⟩ := completes_indexStatic hst hopen hplace hindex
  obtain ⟨rfl, rfl⟩ := h1.unique h
  exact ⟨i?, q, hindex, hpos, rfl, hst'⟩

omit hst hopen in
lemma stands_addDistance : Stands c t (do
    emitRegs .dynamicBounds [.ax]
    emitRegs .addReg [.mar, .ax]
    return (⟨.mar, 0⟩ : Place)) ⟨.mar, 0⟩ :=
  stands_emit.then <| stands_emit.then .pure

lemma completes_indexDynamic (h : IndexAt c s (fun _ => True) (t.pos + 1) i? q) :
    Completes c s t (indexDynamic (partsOf c) factor number) ⟨.mar, 0⟩ (q + 1) := by
  obtain ⟨hclose, o, hleads, hindex⟩ := h
  rw [← Alignment.after_of_symbol hopen] at hleads
  refine .bind (runs_advance.2 ⟨rfl, rfl⟩) ?_
  obtain ⟨t1, h1, hpos1, hst1⟩ := @stands_saveMar c { t with pos := c.tokens.after t.pos }
  replace hst1 := (hst.trans stays_pos).trans hst1
  obtain ⟨t2, h2, hpos2, hst2⟩ := completes_indexOperand hst1 (by rw [hpos1]; exact hleads) hclose
  refine .bind h1 (.bind h2 (Stands.completes ?_ hst2 hpos2))
  split
  · next i hi =>
    simp only [hi] at hindex
    obtain ⟨-, hlow, -⟩ := hindex
    simp only [Int32.not_lt.2 hlow, if_false]
    exact stands_unsaveMar.then <| stands_litToReg.then stands_addDistance
  · next hi =>
    split at hindex
    · next i hi' => exact absurd hi' (hi i)
    · obtain ⟨-, ty, u, hload, hty⟩ := hindex
      exact (stands_indexToAx hst2 hload hty).then <| stands_popReg.then <|
        stands_scaleAx.then stands_addDistance

lemma runs_indexDynamic (h : Runs (indexDynamic (partsOf c) factor number) c t place' t') :
    ∃ i? q, IndexAt c s (fun _ => True) (t.pos + 1) i? q ∧ t'.pos = q + 1 ∧
      place' = ⟨.mar, 0⟩ ∧ Stays s t' := by
  obtain ⟨i?, q, hindex⟩ : ∃ i? q, IndexAt c s (fun _ => True) (t.pos + 1) i? q := by
    simp only [indexDynamic, runs_bind, runs_advance] at h
    obtain ⟨_, _, ⟨rfl, -⟩, saved, t1, h1, o, u, hu, h⟩ := h
    obtain ⟨-, hpos1, hst1⟩ := stands_saveMar.runs h1
    rw [← hpos1.trans (Alignment.after_of_symbol hopen)]
    refine exists_indexAt ((hst.trans stays_pos).trans hst1) hu ?_
    split at h
    · next i hi => exact .inl ⟨i, hi, Int32.not_lt.1 (runs_unless h).1, trivial⟩
    · next hno =>
      obtain ⟨_, u', hu', _⟩ := runs_bind.1 h
      exact .inr ⟨hno, u', hu'⟩
  obtain ⟨t1, h1, hpos, hst'⟩ := completes_indexDynamic hst hopen hindex
  obtain ⟨rfl, rfl⟩ := h1.unique h
  exact ⟨i?, q, hindex, hpos, rfl, hst'⟩

end

def RootedValue (symbols : Symbols) (v : Value) : Prop :=
  ∀ place, v = .stored (.memory place) → Rooted symbols place

lemma stands_dereference {o : Operand} (hst : Stays s t) (hroot : RootedValue s.symbols o.value)
    (h : CanFollow c s ⟨o.value, o.ty, none⟩) :
    Stands c t (dereference (partsOf c) o) (pointee o.value) := by
  have hend {t : State} : Stands c t (do emit .checkNull []; return (⟨.mar, 0⟩ : Place)) ⟨.mar, 0⟩ :=
    stands_emit.then .pure
  obtain ⟨value, ty, fault⟩ := o
  match value, h, hroot with
  | .this, _, _ => exact .pure
  | .ax, _, _ => exact stands_emit.then hend
  | .stored (.memory place), _, hroot =>
    exact (stands_loadAddress ((hroot place rfl).stays hst)).then <| stands_emit.then hend
  | .stored (.attribute use), h, _ =>
    obtain ⟨ty', u, h⟩ := h
    obtain ⟨t1, h1, hpos1, hst1⟩ := stationary_loadToAx.completes hst (runs_withParts.1 h)
    exact Stands.bind ⟨t1, h1, hpos1, hst.symm.trans hst1⟩ fun _ _ => stands_emit.then hend

lemma canFollow_of_runs {o : Operand} (hst : Stays s t)
    (h : Runs (dereference (partsOf c) o) c t place t') :
    CanFollow c s ⟨o.value, o.ty, none⟩ := by
  obtain ⟨value, ty, fault⟩ := o
  match value, h with
  | .this, _ => trivial
  | .ax, _ => trivial
  | .const _, h => exact absurd h runs_fail
  | .stored (.memory place), _ => trivial
  | .stored (.attribute use), h =>
    obtain ⟨ty', t1, h1, _⟩ := runs_bind.1 h
    obtain ⟨_, _, u, hu⟩ := stationary_loadToAx.run hst.symm h1
    exact ⟨ty', u, runs_withParts.2 hu⟩

/-! ## Components -/

variable {owner : TypeId} {object : Option Place} {component : Component} {sel : Selection}
  {v : Value} {ty : Ty} {name : String} {o : Operand}

lemma isSome_fieldWriteFault {access : Access} {inside : Bool} :
    (fieldWriteFault access inside name).isSome =
      (access = .readOnly || access = .writeGuarded && !inside) := by
  cases access <;> cases inside <;> rfl

lemma writeFault_compileCall {id : FuncId} {parts : Parts}
    (h : Runs (compileCall parts id object) c t o t') : o.writeFault = none := by
  simp only [compileCall, emitCall, runs_bind, runs_pure] at h
  grind [Operand.inAx]

lemma runs_isInside_of_stays {b : Bool} (hst : Stays s t) : Runs (isInside owner) c t b t' ↔
    t' = t ∧ b = s.inside owner ∧ ∀ id ∈ s.function?, id.index < s.symbols.functions.size := by
  rw [runs_isInside, hst.symbols, hst.function?]
  rfl

lemma completes_compileAttribute {a : Attribute} {index : Option Stretch} (hst : Stays s t')
    (hobject : a.isStatic = true ∨ object.isSome = true)
    (h : Runs (if a.indexed then some <$> bracketed else pure none) c t index t') :
    Completes c s t (compileAttribute a object name)
      ⟨.stored (.attribute ⟨a, if a.isStatic then none else object, index⟩), a.ty,
        if a.setter.isNone then some (.writeToReadonly name) else none⟩ t'.pos := by
  have hcheck : ¬(!a.isStatic && object.isNone) = true := by
    rcases hobject with hstatic | hsome
    · simp [hstatic]
    · simp [Option.ne_none_iff_isSome.2 hsome]
  rw [compileAttribute, if_neg hcheck]
  exact completes_ite_bind h (Stands.pure.completes hst rfl)

lemma runs_bracketed_of (hopen : (c.tokens.get t.pos).kind = .symbol .leftBracket)
    (hq : c.tokens.findAtDepthZero (t.pos + 1) (· = .symbol .rightBracket) = q)
    (hclose : (c.tokens.get q).kind = .symbol .rightBracket) :
    Runs bracketed c t ⟨t.pos + 1, q⟩ { t with pos := q + 1 } := by
  subst hq
  simp [bracketed, Alignment.after_of_symbol hopen, Alignment.after_of_symbol hclose, hopen, hclose]

lemma Picks.completes (h : Picks c s owner object t.pos component sel v ty q) (name : String)
    (hst : Stays s t)
    (hfunction : ∀ id ∈ s.function?, id.index < s.symbols.functions.size)
    (hbarred : sel.barred s.inside = false) :
    ∃ fault, Completes c s t (compileComponent (partsOf c) owner component object name)
      ⟨v, ty, fault⟩ q ∧ fault.isSome = sel.frozen s.inside := by
  have hinside : Runs (isInside owner) c t (s.inside owner) t :=
    (runs_isInside_of_stays hst).2 ⟨rfl, rfl, hfunction⟩
  have hsetter {setter : Option FuncId} :
      (if setter.isNone then some (Fault.writeToReadonly name) else none).isSome =
        setter.isNone := by
    cases setter <;> rfl
  cases h with
  | @field f place hobject =>
    refine ⟨fieldWriteFault f.access (s.inside owner) name, ?_, isSome_fieldWriteFault⟩
    refine .bind (runs_orFail.2 ⟨rfl, hobject⟩) (.bind hinside ?_)
    rw [if_neg (by simpa [Selection.barred] using hbarred)]
    exact Stands.pure.completes hst rfl
  | @«attribute» a hobject hindexed =>
    refine ⟨_, completes_compileAttribute hst hobject ?_, hsetter⟩
    rw [if_neg (by simp [hindexed])]
    exact runs_pure.2 ⟨rfl, rfl⟩
  | @indexed a q hobject hindexed hopen hq hclose =>
    refine ⟨_, completes_compileAttribute (hst.trans stays_pos) hobject ?_, hsetter⟩
    rw [if_pos hindexed]
    exact runs_map.2 ⟨_, runs_bracketed_of hopen hq hclose, rfl⟩
  | @function id f o q hf hopen hobject hcall =>
    obtain ⟨u, hu, hpos⟩ := hcall
    rw [runs_withParts] at hu
    refine ⟨o.writeFault, ?_, by rw [writeFault_compileCall hu]; rfl⟩
    refine .bind (runs_check.2 ⟨rfl, rfl⟩) ?_
    rw [if_neg (by simp [hopen])]
    refine .bind (runs_functionAt.2 ⟨rfl, hst.symbols ▸ hf⟩) (.bind hinside ?_)
    rw [if_neg (by simpa [Selection.barred] using hbarred), if_neg fun hnone => ?_]
    · exact portable_compileCall.completes hst ⟨u, hu, hpos⟩
    · simp only [Bool.and_eq_true, Option.isNone_iff_eq_none] at hnone
      simpa [hnone.2] using hobject hnone.1

lemma exists_picks_attribute {a : Attribute} (hst : Stays s t)
    (hrun : Runs (compileAttribute a object name) c t o t') :
    Picks c s owner object t.pos (.attribute a) (.attribute a) o.value o.ty t'.pos ∧
      o.writeFault.isSome = a.setter.isNone := by
  obtain ⟨hcheck, h⟩ := runs_unless hrun
  obtain ⟨index, t1, hindex, h⟩ := runs_ite_bind h
  obtain ⟨rfl, rfl⟩ := runs_pure.1 h
  have hobject : a.isStatic = true ∨ object.isSome = true := by
    cases hstatic : a.isStatic <;> cases object <;> simp_all
  refine ⟨?_, by cases a.setter <;> rfl⟩
  cases hindexed : a.indexed with
  | false =>
    simp only [hindexed, Bool.false_eq_true, if_false, runs_pure] at hindex
    obtain ⟨rfl, rfl⟩ := hindex
    exact .attribute hobject hindexed
  | true =>
    simp only [hindexed, if_true, runs_map] at hindex
    obtain ⟨stretch, hbracketed, rfl⟩ := hindex
    simp [bracketed, and_assoc] at hbracketed
    obtain ⟨hopen, hclose, rfl, rfl⟩ := hbracketed
    rw [Alignment.after_of_symbol hclose, Alignment.after_of_symbol hopen]
    exact .indexed hobject hindexed hopen rfl (Alignment.after_of_symbol hopen ▸ hclose)

lemma exists_picks (hst : Stays s t)
    (hrun : Runs (compileComponent (partsOf c) owner component object name) c t o t') :
    ∃ sel, Picks c s owner object t.pos component sel o.value o.ty t'.pos ∧
      sel.barred s.inside = false ∧ o.writeFault.isSome = sel.frozen s.inside := by
  cases component with
  | field f =>
    simp only [compileComponent, compileField, runs_bind, runs_orFail] at hrun
    obtain ⟨place, _, ⟨rfl, hplace⟩, _, _, hinside, h⟩ := hrun
    obtain ⟨rfl, rfl, _⟩ := (runs_isInside_of_stays hst).1 hinside
    obtain ⟨hbarred, h⟩ := runs_unless h
    obtain ⟨rfl, rfl⟩ := runs_pure.1 h
    exact ⟨_, .field hplace, by simpa [Selection.barred] using hbarred, isSome_fieldWriteFault⟩
  | «attribute» a =>
    obtain ⟨hpicks, hfault⟩ := exists_picks_attribute hst hrun
    exact ⟨_, hpicks, rfl, hfault⟩
  | function id =>
    simp only [compileComponent, compileMemberCall, runs_bind, runs_check] at hrun
    obtain ⟨_, _, ⟨rfl, rfl⟩, hrun⟩ := hrun
    obtain ⟨hopen, h1⟩ := runs_unless hrun
    obtain ⟨f, _, hf, h2⟩ := runs_bind.1 h1
    obtain ⟨rfl, hf⟩ := runs_functionAt.1 hf
    obtain ⟨_, _, hinside, h3⟩ := runs_bind.1 h2
    obtain ⟨rfl, rfl, _⟩ := (runs_isInside_of_stays hst).1 hinside
    obtain ⟨hbarred, h⟩ := runs_unless h3
    obtain ⟨hobject, h⟩ := runs_unless h
    obtain ⟨u, hu, hpos⟩ := portable_compileCall.leads hst h
    refine ⟨_, .function (hst.symbols ▸ hf) (by simpa using hopen) (fun hneeds => ?_)
      ⟨u, runs_withParts.2 hu, hpos⟩, by simpa [Selection.barred] using hbarred, ?_⟩
    · cases object <;> simp_all
    · rw [writeFault_compileCall h]
      rfl

end AdventureScript.Chain
