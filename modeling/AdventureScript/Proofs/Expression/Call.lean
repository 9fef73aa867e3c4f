import AdventureScript.Proofs.Expression.Place

/-!
Calls: what is pushed for a call is popped behind it.
-/
namespace AdventureScript.Gen
open Assembly

variable {q : Prop} {c : Context} {d e k : Int} {s s' t : State} {F : List Node} {u : Unit}
  {parts : Parts} {n : Nat} {o : Operand} {ty : Ty} {cells : List Cell} {id : FuncId}
  {object : Option Place} {given : List Argument} {use : AttributeUse} {f : FuncDef}
  {external : Bool} {params : List Param}

/-- All but the next token and where jumps landed is as it was. -/
def Passes (s s' : State) : Prop :=
  ∃ pos jumpTarget, s' = { s with pos, jumpTarget }

lemma Passes.refl : Passes s s :=
  ⟨_, _, rfl⟩

lemma Passes.trans (h : Passes s t) (h' : Passes t s') : Passes s s' := by
  obtain ⟨_, _, rfl⟩ := h
  obtain ⟨_, _, rfl⟩ := h'
  exact ⟨_, _, rfl⟩

lemma Passes.skip (h : Passes s t) (n : Nat) : Passes s { t with pos := n } :=
  h.trans ⟨_, _, rfl⟩

lemma Passes.symbols_eq (h : Passes s s') : s'.symbols = s.symbols := by
  obtain ⟨_, _, rfl⟩ := h
  rfl

lemma Passes.script_eq (h : Passes s s') : s'.script = s.script := by
  obtain ⟨_, _, rfl⟩ := h
  rfl

lemma Passes.ready (h : Passes s s') (hr : Ready q c d s) : Ready q c d s' := by
  obtain ⟨pos, jumpTarget, rfl⟩ := h
  exact { hr with tidy := { hr.tidy with } }

structure Tells (symbols : Symbols) (o : Operand) (F : List Node) : Prop where
  constant : o.constant?.isSome = true → F = []
  inAx : o.value = .ax → F ≠ []
  located : o.Located symbols

/-- Constants cost nothing: compiling one leaves the state as it is. -/
structure Brings (s s' : State) (o : Operand) (F : List Node) : Prop extends Tells s.symbols o F where
  passes : o.constant?.isSome = true → Passes s s'

lemma Brings.skip (h : Brings s t o F) (n : Nat) : Brings s { t with pos := n } o F :=
  { h with passes := fun ho => (h.passes ho).skip n }

lemma Brings.after {m : Nat} (h : Brings { s with pos := m } s' o F) : Brings s s' o F :=
  { h with passes := fun ho => (Passes.refl.skip m).trans (h.passes ho) }

def Yields (q : Prop) (c : Context) (d : Int) (s s' : State) (o : Operand) : Prop :=
  ∃ F, Parses q c d s s' F d ∧ Brings s s' o F

lemma Yields.emits (h : Yields q c d s s' o) : ∃ F e, Emits q c d s s' F e := by
  obtain ⟨F, hF, _⟩ := h
  exact ⟨F, d, hF.toEmits⟩

structure Sound (parts : Parts) : Prop where
  yields : ∀ {q c d s s' part o}, Ready q c d s → Runs (parts part) c s o s' → Yields q c d s s' o

def Selects (q : Prop) (c : Context) (d : Int) (s s' : State) (o : Operand) : Prop :=
  Yields q c d s s' o ∧ o.constant? = none

lemma Parses.selects_ax (h : Parses q c d s s' F d) (hF : F ≠ []) (ho : o.value = .ax) :
    Selects q c d s s' o :=
  ⟨⟨F, h, ⟨by simp [Operand.constant?, ho], fun _ => hF, by simp [Operand.Located, ho]⟩,
    by simp [Operand.constant?, ho]⟩, by simp [Operand.constant?, ho]⟩

lemma Parses.selects_place (h : Parses q c d s s' F d) {target : Target}
    (ho : o.value = .stored target) (hl : o.Located s.symbols) : Selects q c d s s' o :=
  ⟨⟨F, h, ⟨by simp [Operand.constant?, ho], by simp [ho], hl⟩, by simp [Operand.constant?, ho]⟩,
    by simp [Operand.constant?, ho]⟩

lemma Parses.selects (h : Parses q c d s t F d) (hy : Selects (q ∧ Fits t) c d t s' o) :
    Selects q c d s s' o := by
  obtain ⟨⟨G, hG, htells⟩, ho⟩ := hy
  exact ⟨⟨F ++ G, h.trans hG, ⟨by simp [ho], fun hax => by simp [htells.inAx hax],
    h.aside.symbols ▸ htells.located⟩, by simp [ho]⟩, ho⟩

lemma yields_of_pos (hr : Ready q c d s) {m : Nat} (hm : c.tokens.Nested s.pos m)
    (hy : Ready (q ∧ Fits s) c d { s with pos := m } →
      Yields (q ∧ Fits s) c d { s with pos := m } s' o) : Yields q c d s s' o := by
  have hp := parses_pos hr hm
  obtain ⟨G, hG, htells⟩ := hy (hp.ready hr)
  exact ⟨[] ++ G, hp.trans hG, htells.after⟩

lemma ofNat_eq_zero_of_lt (h : n < 2 ^ 31) : Int32.ofNat n = 0 ↔ n = 0 := by
  rw [← Int32.toInt_inj, Int32.toInt_ofNat_of_lt h]
  simp

lemma ofNat_pos_of_lt (h : n < 2 ^ 31) : 0 < Int32.ofNat n ↔ 0 < n := by
  rw [Int32.lt_iff_toInt_lt, Int32.toInt_ofNat_of_lt h]
  simp

lemma ofNat_mul_cell : Int32.ofNat n * cell = Int32.ofInt (4 * n) := by
  rw [Int.mul_comm, Int32.ofInt_mul, Int32.ofInt_eq_ofNat]
  rfl

section

variable (hr : Ready q c d s)
include hr

lemma writes_release {bytes : Int32}
    (hk : q → bytes = Int32.ofInt k ∧ 0 ≤ k ∧ k < 2 ^ 31 ∧ k ≤ d)
    (h : Runs (release bytes) c s u s') : ∃ F, Writes q c d s s' F (d - k) := by
  have hbytes : q → bytes.toInt = k := fun hq => by
    obtain ⟨rfl, h0, h1, _⟩ := hk hq
    exact Int32.toInt_ofInt_of_le (by omega) h1
  simp only [release, runs_ite, runs_seq, runs_emit, runs_adjustStack] at h
  rcases h with ⟨hpos, t, rfl, rfl⟩ | ⟨hpos, h⟩
  · have he : Emits q c d s
        { s with
          script := s.script.write .sub [Register.sp.toWord, bytes]
          scope := s.scope.adjust (-bytes) }
        [⟨.plain .sub [Register.sp.toWord, bytes], d⟩] (d - bytes.toInt) := by
      refine emits_write hr (Instr.wellFormed_reg_values rfl rfl fun _ => rfl) (by decide)
        (by decide) (by decide) (by simp [Instr.effect, Int.sub_eq_add_neg]) rfl rfl rfl .refl
        (fun hq => ⟨?_, ?_⟩) rfl
        ⟨rfl, blocks_adjust, rfl, rfl, rfl, rfl, ⟨rfl, rfl⟩, ⟨rfl, rfl⟩⟩
      · simp [Scope.adjust, (hr.offset hq).1, Int32.ofInt_sub, Int32.sub_eq_add_neg]
      · have := hk hq
        have := hbytes hq
        omega
    exact ⟨_, he.cast fun hq _ => by rw [hbytes hq], settled_plain, live_concat (F := []) rfl,
      .plain (by decide)⟩
  · obtain ⟨rfl, _⟩ := runs_pure.1 h
    refine ⟨[], (parses_nil hr).toWrites.cast fun hq _ => ?_⟩
    have h0 := hk hq
    have h1 := hbytes hq
    rw [Int32.lt_iff_toInt_lt, h1] at hpos
    simp at hpos
    omega

lemma parses_loadDefault {value : Default}
    (ht : ∀ bytes, value = .string bytes → c.tokens.HasText bytes)
    (h : Runs (loadDefault value) c s ty s') : ∃ F, Parses q c d s s' F d := by
  cases value <;> simp [loadDefault] at h
  case string bytes =>
    obtain ⟨⟨_, h⟩, _⟩ := h
    obtain ⟨w, hw⟩ := parses_stringToAx hr (ht bytes rfl) h
    exact ⟨_, hw⟩
  all_goals
    obtain ⟨⟨_, h⟩, _⟩ := h
    exact ⟨_, parses_litToReg hr h⟩

lemma writes_setPos (n : Nat) : Writes q c d s { s with pos := n } [] d :=
  writes_still hr le_rfl

def Argument.Texted (c : Context) (a : Argument) : Prop :=
  ∀ bytes, a = .default (.string bytes) → c.tokens.HasText bytes

omit hr in
lemma writes_loadArgument (hp : Sound parts) (hr : Ready q c d s) {a : Argument}
    (ht : Argument.Texted c a) (h : Runs (loadArgument parts a) c s ty s') :
    ∃ F, Writes q c d s s' F d := by
  cases a with
  | tokens stretch =>
    simp [loadArgument] at h
    obtain ⟨o, h, _⟩ := h
    have h₀ := writes_setPos hr stretch.start
    obtain ⟨F, hF, _⟩ := hp.yields (h₀.ready hr) h
    exact ⟨_, h₀.trans hF.toWrites⟩
  | inAx ty =>
    obtain ⟨rfl, _⟩ := runs_pure.1 h
    exact ⟨_, (parses_nil hr).toWrites⟩
  | default value =>
    obtain ⟨F, hF⟩ := parses_loadDefault hr (fun bytes hv => ht bytes (by rw [hv])) h
    exact ⟨F, hF.toWrites⟩

def cellBytes (external : Bool) : Int :=
  if external then 0 else 4

omit hr in
lemma writes_pushCell (hp : Sound parts) (hr : Ready q c d s) {cell : Cell}
    (ht : Argument.Texted c cell.argument) (h : Runs (pushCell parts external cell) c s u s') :
    ∃ F, Writes q c d s s' F (d + cellBytes external) := by
  simp only [pushCell, runs_bind] at h
  obtain ⟨ty, t, h₁, h⟩ := h
  obtain ⟨F, hF⟩ := writes_loadArgument hp hr ht h₁
  obtain ⟨t', G, hG, h⟩ : ∃ t' G, Writes (q ∧ Fits t) c d t t' G d ∧
      Runs (if external = true then emitRegs .pushReal [.ax] else pushReg .ax) c t' u s' := by
    split at h
    · simp only [runs_seq] at h
      obtain ⟨t', h2, h⟩ := h
      obtain ⟨G, hG⟩ := parses_convertAx (hF.ready hr) h2
      exact ⟨t', G, hG.toWrites, h⟩
    · simp only [runs_ite, runs_seq, runs_fail, false_and, exists_false, and_false, false_or] at h
      simp at h
      exact ⟨t, [], (parses_nil (hF.ready hr)).toWrites, by simpa using h.2⟩
  have hFG := hF.trans hG
  cases external with
  | true =>
    have hH := parses_emitRegs (hFG.ready hr) rfl rfl (by simpa using h)
    exact ⟨_, (hFG.trans hH.toWrites).cast fun _ _ => by simp [cellBytes]⟩
  | false =>
    have hH := parses_pushReg (hFG.ready hr) (by simpa using h)
    exact ⟨_, (hFG.trans hH.toWrites).cast fun _ _ => by simp [cellBytes]⟩

omit hr in
lemma writes_pushCells (hp : Sound parts)
    (ht : ∀ cell ∈ cells, Argument.Texted c cell.argument) (hr : Ready q c d s)
    (h : Runs (forM cells (pushCell parts external)) c s u s') :
    ∃ F, Writes q c d s s' F (d + cells.length * cellBytes external) := by
  induction cells generalizing q d s with
  | nil =>
    obtain rfl := runs_forM_nil.1 h
    exact ⟨[], (parses_nil hr).toWrites.cast fun _ _ => by simp⟩
  | cons cell cells ih =>
    obtain ⟨t, h₁, h⟩ := runs_forM_cons.1 h
    obtain ⟨F, hF⟩ := writes_pushCell hp hr (ht cell List.mem_cons_self) h₁
    obtain ⟨G, hG⟩ := ih (fun cell hc => ht cell (List.mem_cons_of_mem _ hc)) (hF.ready hr) h
    refine ⟨F ++ G, (hF.trans hG).cast fun _ _ => ?_⟩
    simp only [List.length_cons, Int.natCast_add, Int.add_mul]
    omega

/-! ## The call -/

lemma writes_call {t1 t2 t3 : State} (hid : id.index < s.symbols.functions.size)
    (h₁ : Runs (litToReg .ax (Int32.ofNat ((s.symbols.function id).codeOffset.getD 0))) c s () t1)
    (h2 : Runs (fixupLast (.function id)) c t1 () t2)
    (h3 : t3 = if (s.symbols.function id).codeOffset.isNone then
      { t2 with calls := t2.calls.add (t2.script.size - 1) id } else t2)
    (h4 : Runs (emitRegs .call [.ax]) c t3 u s') : ∃ F, F ≠ [] ∧ Writes q c d s s' F d := by
  have hsize : t2.script.size = s.script.size + 3 := by
    obtain ⟨_, rfl⟩ := runs_litToReg h₁
    obtain rfl := runs_fixupLast.1 h2
    simp [Script.fixupLast, Script.addFixup, Script.litToReg, Script.size, Script.write]
  have hcalls : t2.calls = s.calls := by
    obtain ⟨_, rfl⟩ := runs_litToReg h₁
    obtain rfl := runs_fixupLast.1 h2
    rfl
  have hrefs : t2.references.entries.toList =
      s.references.entries.toList ++ [⟨s.script.size + 2, .function id⟩] := by
    obtain ⟨_, rfl⟩ := runs_litToReg h₁
    have hs : (s.script.litToReg .ax
        (Int32.ofNat ((s.symbols.function id).codeOffset.getD 0))).size - 1 =
        s.script.size + 2 := by
      simp [Script.litToReg]
    obtain rfl := runs_fixupLast.1 h2
    simp [Marks.add, hs]
  have hL : Emits q c d s t3 [⟨.plain .litToReg [Register.ax.toWord,
      Int32.ofNat ((s.symbols.function id).codeOffset.getD 0)], d⟩] d := by
    have hmeans : (Reference.function id).Means c s.symbols s.script .ax
        (Int32.ofNat ((s.symbols.function id).codeOffset.getD 0)) := ⟨rfl, hid, rfl⟩
    refine emits_fixedLiteral hr hmeans h₁ h2 ?_ ?_
    · rw [h3]
      split <;> rfl
    · rw [h3, Awaits]
      by_cases hnone : (s.symbols.function id).codeOffset.isNone = true
      · simp [hnone, Marks.add, hcalls, Mark.waiting?, hsize]
      · simp [hnone, hcalls, Mark.waiting?]
  have hsize3 : t3.script.size = t2.script.size := by
    rw [h3]
    split <;> rfl
  have hrefs3 : t3.references = t2.references := by
    rw [h3]
    split <;> rfl
  obtain rfl := runs_emit.1 (runs_emitRegs.1 h4)
  have hwf : (Instr.plain .call [Register.ax.toWord]).WellFormed :=
    Instr.wellFormed_regs [.ax] rfl rfl
  have hC : Emits q c d s { t3 with script := t3.script.write .call [Register.ax.toWord] } _ d :=
    hL.write hwf (by decide) (by simp [Instr.effect]) rfl rfl
      (fun _ => ⟨_, by rw [hrefs3, hrefs]; exact List.mem_append_right _ List.mem_cons_self,
        by simp, by simp only; omega, id, rfl⟩) .refl hL.offset rfl { Aside.refl with }
      (by decide) rfl
  exact ⟨_, by simp, hC, settled_plain.append settled_plain, live_concat rfl,
    (Unmarked.plain (by decide)).append (.plain (by decide))⟩

lemma writes_emitCallInstruction (hf : s.symbols.functions[id.index]? = some f)
    (hn : q → 4 * n < 2 ^ 31) (hd : q → n * cellBytes f.isExternal ≤ d)
    (h : Runs (emitCallInstruction id f (Int32.ofNat n)) c s u s') :
    ∃ F, F ≠ [] ∧ Writes q c d s s' F (d - n * cellBytes f.isExternal) := by
  cases he : f.isExternal with
  | true =>
    simp [emitCallInstruction, he] at h
    obtain ⟨t1, h₁, t2, h2, t3, h3, h⟩ := h
    have hF := parses_emitValue hr rfl rfl rfl h₁
    have hget : t1.symbols.functions[id.index]? = some f := by
      rw [hF.aside.symbols, hf]
    have hmeans : ∀ {script : Script} {slot : Nat}, script.imports[slot]? = some f.importName →
        (Reference.external id).Means c t1.symbols script .ax (Int32.ofNat slot) :=
      fun hslot => ⟨rfl, f, hget, _, rfl, hslot⟩
    obtain ⟨w, hG⟩ := parses_importToReg (hF.ready hr)
      (.inl ⟨f, Array.mem_of_getElem? hget, he, rfl⟩) (by simp [Reference.needs?, hget]) hmeans
      (fun _ => rfl) h2
    have hH := (hF.trans hG).trans (parses_emitRegs ((hF.trans hG).ready hr) rfl rfl h3)
    rcases h with ⟨_, h⟩ | ⟨_, rfl⟩
    · refine ⟨_, by simp, (hH.trans (parses_emitValue (hH.ready hr) rfl rfl rfl h)).toWrites.cast ?_⟩
      simp [cellBytes]
    · exact ⟨_, by simp, hH.toWrites.cast (by simp [cellBytes])⟩
  | false =>
    obtain rfl := Symbols.function_eq hf
    simp only [emitCallInstruction, he, Bool.false_eq_true, if_false, runs_seq] at h
    obtain ⟨t1, h₁, t2, h2, h⟩ := h
    obtain ⟨t3, ht3, t4, h3, h4⟩ : ∃ t3, (t3 = if (s.symbols.function id).codeOffset.isNone then
          { t2 with calls := t2.calls.add (t2.script.size - 1) id } else t2) ∧
        ∃ t4, Runs (emitRegs .call [.ax]) c t3 () t4 ∧
          Runs (release (Int32.ofNat n * cell)) c t4 u s' := by
      by_cases hnone : (s.symbols.function id).codeOffset.isNone = true <;>
        simpa [hnone] using h
    obtain ⟨F, hne, hF⟩ := writes_call hr (Array.getElem?_eq_some_iff.1 hf).1 h₁ h2 ht3 h3
    have hk : q ∧ Fits t4 → Int32.ofNat n * cell = Int32.ofInt (4 * n) ∧ 0 ≤ (4 * n : Int) ∧
        (4 * n : Int) < 2 ^ 31 ∧ (4 * n : Int) ≤ d := by
      rintro ⟨hq, _⟩
      have := hn hq
      have := hd hq
      simp only [he, cellBytes, Bool.false_eq_true, if_false] at this
      exact ⟨ofNat_mul_cell, by omega, by omega, by omega⟩
    obtain ⟨H, hH⟩ := writes_release (hF.ready hr) hk h4
    exact ⟨_, by simp [hne], (hF.trans hH).cast fun _ _ => by simp [cellBytes, Int.mul_comm]⟩

lemma writes_saveObject (hobject : ∀ place ∈ object, place.Anchored s.symbols)
    {saved : Option Checkpoint} (h : Runs (saveObject f object) c s saved s') :
    (f.needsObject = false ∧ saved = none ∧ s' = s) ∨
      ∃ t F, saved = some t.script.checkpoint ∧ Writes q c d s t F d ∧
        Runs (pushReg .mar) c t () s' := by
  simp [saveObject, and_assoc] at h
  rcases h with ⟨_, place, hplace, t, h₁, ⟨_, h2⟩, rfl⟩ | ⟨hf, rfl, rfl⟩
  · obtain ⟨F, hF⟩ := parses_loadAddress hr (hobject place hplace) h₁
    exact .inr ⟨t, F, rfl, hF.toWrites, h2⟩
  · exact .inl ⟨hf, rfl, rfl⟩

lemma writes_passObject {saved : Checkpoint} {count : Int32}
    (hcount : count ≠ 0) (h : Runs (passObject saved f count) c s u s') :
    ∃ F, Writes q c d s s' F d := by
  simp [passObject, hcount] at h
  obtain ⟨t1, h₁, t2, h2, h3⟩ := h
  have hF := parses_emitValue hr rfl rfl rfl h₁
  have hG := hF.trans (parses_emitRegs (hF.ready hr) rfl rfl h2)
  exact ⟨_, (hG.trans (parses_emitRegs (hG.ready hr) rfl rfl h3)).toWrites⟩

lemma writes_passObject_zero (hext : Extends s t)
    (aside : Aside s t) (hbytes : s.callBytes ≤ t.callBytes)
    (hoffset : q → Fits t → t.scope.offset = Int32.ofInt (d + 4))
    (h : Runs (passObject s.script.checkpoint f 0) c t u s') :
    ∃ F, Writes q c d s s' F d := by
  simp only [passObject, if_true, runs_seq] at h
  obtain ⟨t0, h₀, t1, h₁, h2⟩ := h
  have hF := (emits_unsave (u := ()) hr hext aside hbytes hoffset (runs_seq.2 ⟨t0, h₀, h₁⟩)).1
  have hF : Writes q c d s t1 [] d := ⟨hF, .nil, .nil, .nil⟩
  exact ⟨_, hF.trans (parses_emitRegs (hF.ready hr) rfl rfl h2).toWrites⟩

end

lemma writes_objectCall (hp : Sound parts) (hr : Ready q c d s) {t1 t2 t3 t4 : State}
    (hf : s.symbols.functions[id.index]? = some f)
    (ht : ∀ cell ∈ cells, Argument.Texted c cell.argument) (hn : 4 * cells.length ≤ s.callBytes)
    (h₁ : Runs (pushReg .mar) c s () t1)
    (h2 : Runs (forM cells.reverse (pushCell parts f.isExternal)) c t1 () t2)
    (h3 : Runs (passObject s.script.checkpoint f (Int32.ofNat cells.length)) c t2 () t3)
    (h4 : Runs (emitCallInstruction id f (Int32.ofNat cells.length)) c t3 () t4)
    (h5 : Runs (if 0 < Int32.ofNat cells.length then popReg .mar else pure ()) c t4 () s') :
    ∃ F, F ≠ [] ∧ Writes q c d s s' F d := by
  have hP := (parses_pushReg hr h₁).toWrites
  obtain ⟨C, hC⟩ := writes_pushCells hp (fun cell hc => ht cell (List.mem_reverse.1 hc))
    (hP.ready hr) h2
  have hPC := hP.trans hC
  rw [List.length_reverse] at hPC
  have hlen : ∀ {t : State}, s.callBytes ≤ t.callBytes → Fits t → 4 * cells.length < 2 ^ 31 :=
    fun hle ht => lt_of_le_of_lt (le_trans hn hle) ht
  by_cases hzero : Int32.ofNat cells.length = 0
  · have hnone : ∀ {t : State}, s.callBytes ≤ t.callBytes → Fits t → cells.length = 0 := by
      intro t hle ht
      have := hlen hle ht
      exact (ofNat_eq_zero_of_lt (by omega)).1 hzero
    rw [hzero] at h3 h5
    obtain ⟨O, hO⟩ := writes_passObject_zero hr hPC.extends hPC.aside hPC.callBytes
      (fun hq ht => by simpa [hnone hPC.callBytes ht] using (hPC.offset hq ht).1) h3
    obtain ⟨K, hne, hK⟩ := writes_emitCallInstruction (hO.ready hr) (hO.aside.symbols ▸ hf)
      (fun ⟨_, ht⟩ => hlen hO.callBytes ht)
      (fun ⟨hq, ht⟩ => by simpa [hnone hO.callBytes ht] using (hr.offset hq).2) h4
    obtain rfl : s' = t4 := by simpa using h5
    have hF := hO.trans hK
    exact ⟨_, by simp [hne], hF.cast fun _ ht => by simp [hnone hF.callBytes ht]⟩
  · obtain ⟨O, hO⟩ := writes_passObject (hPC.ready hr) hzero h3
    have hPCO := hPC.trans hO
    obtain ⟨K, hne, hK⟩ := writes_emitCallInstruction (hPCO.ready hr) (hPCO.aside.symbols ▸ hf)
      (fun ⟨_, ht⟩ => hlen hPCO.callBytes ht)
      (fun hq => by have := (hr.offset hq.1).2; omega) h4
    have hF := (hPCO.trans hK).cast (x := d + 4) fun _ _ => by omega
    rcases runs_ite.1 h5 with ⟨_, h5⟩ | ⟨hpos, h5⟩
    · have hM := parses_popReg (hF.ready hr) (fun hq => by have := (hr.offset hq.1).2; omega) h5
      exact ⟨_, by simp, (hF.trans hM.toWrites).cast fun _ _ => by omega⟩
    · obtain ⟨rfl, _⟩ := runs_pure.1 h5
      refine ⟨_, by simp, hF.cast fun _ ht => ?_⟩
      have hlt := hlen hF.callBytes ht
      have hlt : cells.length < 2 ^ 31 := by omega
      rw [ofNat_pos_of_lt hlt] at hpos
      rw [ofNat_eq_zero_of_lt hlt] at hzero
      omega

lemma writes_callWithCells (hp : Sound parts) (hr : Ready q c d s)
    (hf : s.symbols.functions[id.index]? = some f)
    (hobject : ∀ place ∈ object, place.Anchored s.symbols)
    (ht : ∀ cell ∈ cells, Argument.Texted c cell.argument) (hn : 4 * cells.length ≤ s.callBytes)
    (h : Runs (callWithCells parts id f object cells) c s u s') :
    ∃ F, F ≠ [] ∧ Writes q c d s s' F d := by
  simp only [callWithCells, runs_bind] at h
  obtain ⟨saved, t0, h₀, h⟩ := h
  rcases writes_saveObject hr hobject h₀ with ⟨_, rfl, rfl⟩ | ⟨t, A, rfl, hA, h₁⟩
  · simp only [runs_seq] at h
    obtain ⟨t1, h₁, h2⟩ := h
    obtain ⟨C, hC⟩ := writes_pushCells hp (fun cell hc => ht cell (List.mem_reverse.1 hc)) hr h₁
    rw [List.length_reverse] at hC
    have hlen : Fits t1 → 4 * cells.length < 2 ^ 31 :=
      fun ht => lt_of_le_of_lt (le_trans hn hC.callBytes) ht
    obtain ⟨K, hne, hK⟩ := writes_emitCallInstruction (hC.ready hr) (hC.aside.symbols ▸ hf)
      (fun hq => hlen hq.2)
      (fun hq => by have := (hr.offset hq.1).2; omega) h2
    exact ⟨_, by simp [hne], (hC.trans hK).cast fun _ _ => by omega⟩
  · simp only [runs_seq] at h
    obtain ⟨t1, h2, t2, h3, t3, h4, h5⟩ := h
    obtain ⟨F, hne, hF⟩ := writes_objectCall hp (hA.ready hr) (hA.aside.symbols ▸ hf) ht
      (le_trans hn hA.callBytes)
      h₁ h2 h3 h4 h5
    exact ⟨_, by simp [hne], hA.trans hF⟩

lemma writes_keepingThis (hr : Ready q c d s) {call : Gen Unit}
    (hcall : ∀ {q d t t'}, Ready q c d t → s.callBytes ≤ t.callBytes →
      t.symbols = s.symbols → Runs call c t () t' →
      ∃ F, F ≠ [] ∧ Writes q c d t t' F d)
    (h : Runs (keepingThis f call) c s u s') : ∃ F, F ≠ [] ∧ Writes q c d s s' F d := by
  simp only [keepingThis, runs_bind, runs_hasThis] at h
  obtain ⟨_, t, ⟨rfl, _⟩, h⟩ := h
  rcases runs_ite.1 h with ⟨_, h⟩ | ⟨_, h⟩
  · simp only [runs_seq] at h
    obtain ⟨t1, h₁, t2, h2, h3⟩ := h
    have hP := (parses_pushReg hr h₁).toWrites
    obtain ⟨F, hne, hF⟩ := hcall (hP.ready hr) hP.callBytes hP.aside.symbols h2
    have hPF := hP.trans hF
    have hM := parses_popReg (hPF.ready hr) (fun hq => by have := (hr.offset hq.1).2; omega) h3
    exact ⟨_, by simp, (hPF.trans hM.toWrites).cast fun _ _ => by omega⟩
  · exact hcall hr le_rfl rfl h

lemma runs_getCells :
    Runs (getCells f given) c s cells s' ↔ s' = s ∧ f.cells given = .ok cells := by
  cases hf : f.cells given <;> simp [getCells, hf, eq_comm]

lemma texted_defaultCells
    (hf : ∀ p ∈ f.params, ∀ bytes, p.default? = some (.string bytes) → c.tokens.HasText bytes)
    {k : Nat} (hparams : ∀ p ∈ params, p ∈ f.params)
    (h : defaultCells k params = .ok cells) : ∀ cell ∈ cells, Argument.Texted c cell.argument := by
  induction params generalizing k cells with
  | nil =>
    obtain rfl : [] = cells := by simpa [defaultCells] using h
    simp
  | cons p params ih =>
    simp only [defaultCells] at h
    split at h
    · next value hv =>
      obtain ⟨rest, hrest, rfl⟩ := map_eq_ok_iff.1 h
      intro cell hcell
      rcases List.mem_cons.1 hcell with rfl | hcell
      · intro bytes hb
        cases hb
        exact hf p (hparams p List.mem_cons_self) bytes hv
      · exact ih (fun p hp => hparams p (List.mem_cons_of_mem _ hp)) hrest cell hcell
    · cases h

lemma texted_matchCells
    (hf : ∀ p ∈ f.params, ∀ bytes, p.default? = some (.string bytes) → c.tokens.HasText bytes)
    {k : Nat} (hparams : ∀ p ∈ params, p ∈ f.params)
    (hgiven : ∀ a ∈ given, Argument.Texted c a) (h : matchCells k params given = .ok cells) :
    ∀ cell ∈ cells, Argument.Texted c cell.argument := by
  induction k, params, given using matchCells.induct generalizing cells with
  | case1 k p params a given ih =>
    obtain ⟨rest, hrest, rfl⟩ := map_eq_ok_iff.1 h
    intro cell hcell
    rcases List.mem_cons.1 hcell with rfl | hcell
    · exact hgiven a List.mem_cons_self
    · exact ih (fun p hp => hparams p (List.mem_cons_of_mem _ hp))
        (fun a ha => hgiven a (List.mem_cons_of_mem _ ha)) hrest cell hcell
  | case2 k params => exact texted_defaultCells hf hparams (by simpa [matchCells] using h)
  | case3 k given hne =>
    obtain rfl : given.map (⟨·, none⟩) = cells := by
      cases given <;> simpa [matchCells, defaultCells] using h
    intro cell hcell
    obtain ⟨a, ha, rfl⟩ := List.mem_map.1 hcell
    exact hgiven a ha

lemma texted_cells (hk : Known c s.symbols)
    (hf : s.symbols.functions[id.index]? = some f) (hgiven : ∀ a ∈ given, Argument.Texted c a)
    (h : f.cells given = .ok cells) : ∀ cell ∈ cells, Argument.Texted c cell.argument := by
  have hf : ∀ p ∈ f.params, ∀ bytes, p.default? = some (.string bytes) → c.tokens.HasText bytes :=
    fun p hp bytes hb => hk.texts (Array.mem_of_getElem? hf) hp hb
  simp only [FuncDef.cells] at h
  split at h
  · cases h
  · exact texted_matchCells hf (fun _ hp => hp) hgiven h

lemma parses_emitCall (hp : Sound parts) (hr : Ready q c d s)
    (hobject : ∀ place ∈ object, place.Anchored s.symbols)
    (hgiven : ∀ a ∈ given, Argument.Texted c a) (h : Runs (emitCall parts id object given) c s o s') :
    ∃ F, F ≠ [] ∧ Parses q c d s s' F d ∧ o.value = .ax := by
  simp [emitCall, runs_getCells, and_assoc] at h
  obtain ⟨f, hf, cells, hcells, t1, h₁, t2, h2, rfl, rfl⟩ := h
  have ht := texted_cells hr.known hf hgiven hcells
  have hA : Writes q c d s { s with callBytes := max s.callBytes (4 * cells.length) } [] d :=
    writes_still hr (Nat.le_max_left ..)
  obtain ⟨F, hne, hF⟩ := writes_keepingThis (hA.ready hr) (fun hr hle hsym h =>
    writes_callWithCells hp hr (by rw [hsym]; exact hf) (by rw [hsym]; exact hobject) ht
      (le_trans (Nat.le_max_right ..) hle) h) h₁
  have hB := (hA.trans hF).trans (parses_clobberAx ((hA.trans hF).ready hr) h2).toWrites
  have hG := hB.trans (writes_setPos (hB.ready hr) s.pos)
  exact ⟨_, by simp [hne],
    hG.toEmits.parses_of_ne_nil (by simp [hne]) .refl hG.settled hG.live hG.unmarked, rfl⟩

lemma runs_scanArguments (hs : c.tokens.Sealed) (h : Runs scanArguments c s given s') :
    (∃ m, s' = { s with pos := m } ∧ c.tokens.Nested s.pos m) ∧
      ∀ a ∈ given, ∃ stretch, a = .tokens stretch := by
  simp [scanArguments, and_assoc] at h
  obtain ⟨ho, ⟨_, args, h, rfl⟩ | ⟨hc, rfl, rfl⟩⟩ := h
  · refine runs_rounds
      (P := fun (args : Array Argument) t =>
        (∃ m, t = { s with pos := m } ∧ c.tokens.Nested (c.tokens.after s.pos) m) ∧
          ∀ a ∈ args.toList, ∃ stretch, a = .tokens stretch)
      (Q := fun (args : Array Argument) t =>
        (∃ m, t = { s with pos := m } ∧ c.tokens.Nested s.pos m) ∧
          ∀ a ∈ args.toList, ∃ stretch, a = .tokens stretch) ?_ ?_ h
      ⟨⟨_, rfl, .refl⟩, by simp⟩
    · rintro args _ _ _ ⟨⟨m, rfl, hm⟩, hargs⟩ h
      simp [and_assoc] at h
      obtain ⟨_, hk, rfl, rfl⟩ := h
      refine ⟨⟨_, rfl, (hm.trans (Stream.nested_findAtDepthZero hs (by simp [hk]))).trans
        (.token hs hk rfl rfl)⟩, ?_⟩
      simpa [or_imp, forall_and] using hargs
    · rintro args _ _ _ ⟨⟨m, rfl, hm⟩, hargs⟩ h
      simp [and_assoc] at h
      obtain ⟨_, _, hk, rfl, rfl⟩ := h
      refine ⟨⟨_, rfl, .group hs ho rfl
        (hm.trans (Stream.nested_findAtDepthZero hs (by simp [hk]))) hk rfl⟩, ?_⟩
      simpa [or_imp, forall_and] using hargs
  · exact ⟨⟨_, rfl, .group hs ho rfl .refl hc rfl⟩, by simp⟩

lemma Argument.texted_tokens {stretch : Stretch} : Argument.Texted c (.tokens stretch) := by
  intro bytes hb
  cases hb

lemma selects_compileCall (hp : Sound parts) (hr : Ready q c d s)
    (hobject : ∀ place ∈ object, place.Anchored s.symbols)
    (h : Runs (compileCall parts id object) c s o s') : Selects q c d s s' o := by
  simp only [compileCall, runs_bind] at h
  obtain ⟨given, t, h₁, h2⟩ := h
  obtain ⟨⟨m, rfl, hm⟩, hgiven⟩ := runs_scanArguments hr.stream h₁
  have hA := parses_pos hr hm
  obtain ⟨F, hne, hF, ho⟩ := parses_emitCall hp (hA.ready hr) hobject
    (fun a ha => by
      obtain ⟨stretch, rfl⟩ := hgiven a ha
      exact Argument.texted_tokens) h2
  exact (hA.trans hF).selects_ax (by simp [hne]) ho

lemma texted_indexArguments : ∀ a ∈ indexArguments use, Argument.Texted c a := by
  intro a ha
  obtain ⟨stretch, _, rfl⟩ := List.mem_map.1 ha
  exact Argument.texted_tokens

lemma parses_getAttribute (hp : Sound parts) (hr : Ready q c d s)
    (hobject : ∀ place ∈ use.object, place.Anchored s.symbols)
    (h : Runs (getAttribute parts use) c s u s') : Codes q c d s s' d := by
  simp [getAttribute] at h
  obtain ⟨o, h⟩ := h
  obtain ⟨F, hne, hF, _⟩ := parses_emitCall hp hr hobject texted_indexArguments h
  exact ⟨F, hne, hF⟩

lemma parses_setAttribute (hp : Sound parts) (hr : Ready q c d s)
    (hobject : ∀ place ∈ use.object, place.Anchored s.symbols)
    (h : Runs (setAttribute parts use ty) c s u s') : Codes q c d s s' d := by
  simp [setAttribute, and_assoc] at h
  obtain ⟨_, _, o, h⟩ := h
  obtain ⟨F, hne, hF, _⟩ := parses_emitCall hp hr hobject (fun a ha => by
    rcases List.mem_append.1 ha with ha | ha
    · exact texted_indexArguments a ha
    · obtain rfl := List.mem_singleton.1 ha
      intro bytes hb
      cases hb) h
  exact ⟨F, hne, hF⟩

end AdventureScript.Gen
