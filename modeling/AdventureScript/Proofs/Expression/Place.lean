import AdventureScript.Proofs.Emission.Parse

/-!
Addresses, values read and written through them, and conversions.
-/
namespace AdventureScript

namespace Ty

variable {types : TypeTable}

lemma readOpcode_calm {ty : Ty} :
    (ty.readOpcode types).isCalm = true ∧ (ty.readOpcode types).operandCount = 1 := by
  unfold readOpcode
  split <;> (try split) <;> (try split) <;> exact ⟨rfl, rfl⟩

lemma writeOpcode_calm {ty : Ty} :
    (ty.writeOpcode types).isCalm = true ∧ (ty.writeOpcode types).operandCount = 1 := by
  unfold writeOpcode
  split <;> (try split) <;> (try split) <;> exact ⟨rfl, rfl⟩

end Ty

namespace BinaryOp

variable {op : BinaryOp} {opcode : Opcode}

lemma intOpcode_calm : op.intOpcode.isCalm = true ∧ op.intOpcode.operandCount = 2 := by
  cases op <;> exact ⟨rfl, rfl⟩

lemma floatOpcode?_calm (h : op.floatOpcode? = some opcode) :
    opcode.isCalm = true ∧ opcode.operandCount = 2 := by
  cases op <;> cases h <;> exact ⟨rfl, rfl⟩

lemma stringOpcode?_calm (h : op.stringOpcode? = some opcode) :
    opcode.isCalm = true ∧ opcode.operandCount = 2 := by
  cases op <;> cases h <;> exact ⟨rfl, rfl⟩

lemma select_calm {lhs rhs ty : Ty} (h : op.select lhs rhs types = .ok (opcode, ty)) :
    opcode.isCalm = true ∧ opcode.operandCount = 2 := by
  simp only [select] at h
  split at h
  · cases h
  split at h
  · split at h
    · next hs =>
      cases h
      exact stringOpcode?_calm hs
    · cases h
  split at h
  · split at h
    · cases h
      exact intOpcode_calm
    · cases h
  split at h
  · cases h
    exact intOpcode_calm
  split at h
  · split at h
    · next hf =>
      cases h
      exact floatOpcode?_calm hf
    · cases h
  split at h
  · split at h
    · cases h
    · split at h
      · cases h
        exact intOpcode_calm
      · cases h
  · cases h

end BinaryOp

namespace Place

/-- A place in the global data is a part of that type of a variable, and one that lies elsewhere is
in a variable whose name means it. -/
def Located (symbols : Symbols) (place : Place) (ty : Ty) : Prop :=
  match place.anchor with
  | .global offset => ∃ v ∈ symbols.globals, v.isImport = false ∧ v.offset = offset ∧
      v.ty.HasPart symbols.types place.component ty
  | .imported id => ∃ v, symbols.globals[id.index]? = some v ∧ v.isImport = true ∧
      symbols.find? v.name = some (.variable id)
  | _ => True

def Anchored (symbols : Symbols) (place : Place) : Prop :=
  ∃ ty, place.Located symbols ty

variable {symbols : Symbols} {place : Place} {ty : Ty}

lemma Located.anchored (h : place.Located symbols ty) : place.Anchored symbols :=
  ⟨ty, h⟩

lemma Located.field {id : TypeId} {f : Field} (h : place.Located symbols ty)
    (hs : ty.isScalar = true) (hp : ty.pointer = false) (hid : ty.structId? = some id)
    (hf : symbols.types.HasField id f) : (place.plus f.offset).Located symbols f.ty := by
  rcases place with ⟨offset | offset | _ | _ | _, component⟩
  · obtain ⟨v, hv, himport, hoffset, hpart⟩ := h
    exact ⟨v, hv, himport, hoffset, .field hpart hs hp hid hf⟩
  all_goals exact h

lemma Located.element {dims : List UInt32} {i : UInt32} (h : place.Located symbols ty)
    (hs : ty.shape = .static dims) (hi : i < dims.headD 1) :
    (place.plus (i * ty.afterIndex.size symbols.types)).Located symbols ty.afterIndex := by
  rcases place with ⟨offset | offset | _ | _ | _, component⟩
  · obtain ⟨v, hv, himport, hoffset, hpart⟩ := h
    exact ⟨v, hv, himport, hoffset, .element hpart hs hi⟩
  all_goals exact h

end Place

def Operand.Located (symbols : Symbols) (o : Operand) : Prop :=
  match o.value with
  | .stored (.memory place) => place.Located symbols o.ty
  | .stored (.attribute use) => ∀ place ∈ use.object, place.Anchored symbols
  | _ => True

namespace Gen
open Assembly

variable {q : Prop} {c : Context} {d : Int} {s s' : State} {F : List Node} {u : Unit} {ty : Ty}
  {place : Place}

/-! ## Addresses -/

section

variable (hr : Ready q c d s) {source target : Ty}
include hr

lemma parses_addToMar {bytes : Int32}
    (h : Runs (addToMar bytes) c s u s') : ∃ F, Parses q c d s s' F d := by
  simp only [addToMar, runs_ite] at h
  rcases h with ⟨_, h⟩ | ⟨_, h⟩
  · exact ⟨_, parses_emitAdd hr (by decide) h⟩
  · obtain ⟨rfl, _⟩ := runs_pure.1 h
    exact ⟨_, parses_nil hr⟩

lemma parses_loadAddress (hp : place.Anchored s.symbols)
    (h : Runs (loadAddress place) c s u s') : ∃ F, Parses q c d s s' F d := by
  obtain ⟨ty, hp⟩ := hp
  rcases place with ⟨offset | offset | id | _ | _, component⟩
  · simp only [loadAddress, runs_bind] at h
    obtain ⟨_, t, h, h'⟩ := h
    obtain ⟨v, hv, himport, rfl, hpart⟩ := hp
    have hmeans : Reference.data.Means c s.symbols s.script .mar
        (v.offset.toInt32 + component.toInt32) := ⟨rfl, v, hv, himport, _, _, hpart, rfl⟩
    exact ⟨_, (emits_fixed hr hmeans (fun _ => rfl) h h').parses rfl (by decide) (pos_fixed h h')⟩
  · exact ⟨_, parses_loadLocal hr h⟩
  · simp only [loadAddress, runs_bind, runs_globalAt] at h
    obtain ⟨v', s, ⟨rfl, hv'⟩, _, t, h, h'⟩ := h
    obtain ⟨v, hv, himport, hname⟩ := hp
    obtain rfl := Option.some.inj (hv.symm.trans hv')
    have hmeans : ∀ {script : Script} {slot : Nat}, script.imports[slot]? = some v.name →
        (Reference.variable id).Means c s.symbols script .mar (Int32.ofNat slot) :=
      fun hslot => ⟨rfl, v, hv, himport, _, rfl, hslot⟩
    obtain ⟨w, hF⟩ := parses_importToReg hr (.inr ⟨id, v, hname, hv, himport⟩)
      (by simp [Reference.needs?, hv]) hmeans (fun _ => rfl) h
    obtain ⟨G, hG⟩ := parses_addToMar (hF.ready hr) h'
    exact ⟨_, hF.trans hG⟩
  · simp only [loadAddress, runs_bind] at h
    obtain ⟨_, t1, h1, _, t2, h2, h3⟩ := h
    have hF := parses_emitRegs hr rfl rfl h1
    have hG := parses_emitBare (hF.ready hr) rfl rfl h2
    obtain ⟨H, hH⟩ := parses_addToMar ((hF.trans hG).ready hr) h3
    exact ⟨_, (hF.trans hG).trans hH⟩
  · exact parses_addToMar hr h

lemma parses_readAx (h : Runs (readAx ty) c s u s') : ∃ n, Parses q c d s s' [n] d := by
  simp only [readAx, runs_bind, runs_getTypes] at h
  obtain ⟨_, _, ⟨rfl, rfl⟩, h⟩ := h
  exact ⟨_, parses_emitRegs hr Ty.readOpcode_calm.1 (by simp [Ty.readOpcode_calm.2]) h⟩

lemma parses_writeAx (h : Runs (writeAx ty) c s u s') : ∃ n, Parses q c d s s' [n] d := by
  simp only [writeAx, runs_bind, runs_getTypes] at h
  obtain ⟨_, _, ⟨rfl, rfl⟩, h⟩ := h
  exact ⟨_, parses_emitRegs hr Ty.writeOpcode_calm.1 (by simp [Ty.writeOpcode_calm.2]) h⟩

lemma parses_copyString (h : Runs copyString c s u s') :
    Codes q c d s s' d := by
  simp only [copyString, runs_bind, runs_codeSize] at h
  obtain ⟨_, t1, h1, _, t2, h2, _, _, h3, _, t3, ⟨rfl, rfl⟩, _, t4, h4, _, t5, h5, _, t6, h6, _, t7,
    h7, j, t8, h8, _, t9, h9, _, t10, h10, _, t11, h11, _, t12, h12, _, t13, h13, _, t14, h14, _,
    t15, h15, _, t16, h16, h17⟩ := h
  -- What comes before the loop, the test in it, the rest of it and what comes behind it.
  obtain ⟨A, a⟩ : ∃ A, Parses q c d s t3 A d := by
    have a1 := parses_emitRegs hr rfl rfl h1
    have a2 := a1.trans (parses_emitRegs (a1.ready hr) rfl rfl h2)
    exact ⟨_, a2.trans (parses_litToReg (a2.ready hr) h3)⟩
  obtain ⟨n, B, rfl, b⟩ : ∃ n B, d = n.depth ∧ Parses (q ∧ Fits t3) c d t3 t7 (n :: B) d := by
    have b4 := parses_emitRegs (a.ready hr) rfl rfl h4
    have b5 := b4.trans (parses_emitRegs (b4.ready (a.ready hr)) rfl rfl h5)
    have b6 := b5.trans (parses_emitRegs (b5.ready (a.ready hr)) rfl rfl h6)
    exact ⟨_, _, rfl, b6.trans (parses_emitRegs (b6.ready (a.ready hr)) rfl rfl h7)⟩
  obtain ⟨rfl, hj⟩ := emits_jump ((a.trans b).ready hr) rfl h8
  have k := (a.trans b).toEmits.trans hj
  obtain ⟨C, c12⟩ : ∃ C, Parses _ c n.depth t8 t12 C n.depth := by
    have c9 := parses_emitAdd (k.ready hr) (by decide) h9
    have c10 := c9.trans (parses_emitAdd (c9.ready (k.ready hr)) (by decide) h10)
    have c11 := c10.trans (parses_emitSub (c10.ready (k.ready hr)) (by decide) h11)
    exact ⟨_, c11.trans (parses_emitRegs (c11.ready (k.ready hr)) rfl rfl h12)⟩
  have l := k.trans c12.toEmits
  simp only [List.append_assoc, List.cons_append] at l
  have l' := l.jumpTo rfl (a.size_eq ▸ .inr ⟨n, nodeAt_middle⟩)
    (fun _ _ => a.size_eq ▸ .inr ⟨n, nodeAt_middle, rfl⟩) h13
  obtain ⟨D, hD, d15⟩ : ∃ D, D ≠ [] ∧ Parses _ c n.depth t13 t15 D n.depth := by
    have d14 := parses_emitRegs (l'.ready hr) rfl rfl h14
    exact ⟨_, by simp, d14.trans (parses_emitRegs (d14.ready (l'.ready hr)) rfl rfl h15)⟩
  have m : Emits q c n.depth s t15 ((A ++ n :: B) ++ ⟨.jump .jz none, n.depth⟩ ::
      (C ++ ⟨.jump .jnz (some t3.script.size), n.depth⟩ :: D)) n.depth := by
    simpa using l'.trans d15.toEmits
  have m' := m.landMiddle (a.trans b).size_eq (fun _ _ => rfl) h16
  have nested : c.tokens.Nested s.pos t16.pos := by
    rw [pos_landHere h16]
    have h := (a.trans b).nested
    rw [← pos_jump h8] at h
    have h := h.trans c12.nested
    rw [← pos_jumpTo h13] at h
    exact h.trans d15.nested
  have f := m'.parses_of_ne_nil (by simp) nested
    ((a.trans b).settled.append (settled_jump.append
      (c12.settled.append (settled_jump.append d15.settled))))
    ((((d15.live.cons hD).append_left (by simp)).cons (by simp)).append_left (by simp))
    ((a.trans b).unmarked.append (Unmarked.jump.append
      (c12.unmarked.append (Unmarked.jump.append d15.unmarked))))
  exact ⟨_, by simp, f.trans (parses_clobberAx (f.ready hr) h17)⟩

omit hr in
@[simp] lemma runs_failConversion {α : Type} {a : α} :
    ¬Runs (failConversion source target) c s a s' := by
  simp [failConversion]

lemma parses_emitConversion (h : Runs (emitConversion source target) c s u s') :
    ∃ F, Parses q c d s s' F d := by
  simp only [emitConversion, runs_bind, runs_getTypes, runs_ite] at h
  obtain ⟨_, _, ⟨rfl, rfl⟩, ⟨_, h⟩ | ⟨_, h⟩⟩ := h
  · exact ⟨_, parses_emitRegs hr rfl rfl h⟩
  · obtain ⟨rfl, _⟩ := runs_pure.1 h
    exact ⟨_, parses_nil hr⟩

lemma parses_convertAx (h : Runs (convertAx source target) c s u s') :
    ∃ F, Parses q c d s s' F d := by
  simp [convertAx, and_assoc] at h
  exact parses_emitConversion hr h.2.2

lemma parses_convertAxForStore (h : Runs (convertAxForStore source target) c s u s') :
    ∃ F, Parses q c d s s' F d := by
  simp [convertAxForStore, and_assoc] at h
  exact parses_emitConversion hr h.2.2

end

lemma runs_checkCondition :
    Runs (checkCondition ty) c s u s' ↔ ty.isCondition = true ∧ s' = s := by
  simp [checkCondition]

lemma runs_selectOpcode {op : BinaryOp} {lhs rhs : Ty} {r : Opcode × Ty} :
    Runs (selectOpcode op lhs rhs) c s r s' ↔
      s' = s ∧ op.select lhs rhs s.symbols.types = .ok r := by
  simp only [selectOpcode, runs_bind, runs_getTypes]
  constructor
  · rintro ⟨_, _, ⟨rfl, rfl⟩, h⟩
    split at h
    · next hs =>
      obtain ⟨rfl, rfl⟩ := runs_pure.1 h
      exact ⟨rfl, hs⟩
    all_goals simp at h
  · rintro ⟨rfl, h⟩
    exact ⟨_, _, ⟨rfl, rfl⟩, by simp [h]⟩

lemma parses_loadPlace (hr : Ready q c d s) {ty' : Ty}
    (hp : place.Anchored s.symbols) (h : Runs (loadPlace place ty) c s ty' s') : Codes q c d s s' d := by
  simp [loadPlace, and_assoc] at h
  obtain ⟨_, ⟨_, _, t, h1, ⟨_, h2⟩, _⟩ | ⟨_, t, h1, ⟨_, ⟨_, h2⟩, _⟩ | ⟨_, ⟨_, h2⟩, _⟩⟩⟩ := h
  all_goals obtain ⟨F, hF⟩ := parses_loadAddress hr hp h1
  · exact ⟨_, by simp, hF.trans (parses_emitRegs (hF.ready hr) rfl rfl h2)⟩
  · exact ⟨_, by simp, hF.trans (parses_emitRegs (hF.ready hr) rfl rfl h2)⟩
  · obtain ⟨n, hn⟩ := parses_readAx (hF.ready hr) h2
    exact ⟨_, by simp, hF.trans hn⟩

end Gen
end AdventureScript
