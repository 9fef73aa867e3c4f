import AdventureScript.Proofs.Statement.Block
import AdventureScript.Proofs.Symbols.Packing

/-!
Declarations of local variables. A variable makes the stack deeper by its size, which is counted
exactly as long as all variables of the function together fit into a word.
-/
namespace AdventureScript.Gen
open Assembly

variable {q : Prop} {c : Context} {d e k : Int} {s s' t : State} {F : List Node} {u : Unit}
  {ty base : Ty} {name : String} {Γ : Site} {bytes : Int32} {types : TypeTable} {scope : Scope}
  {v : Variable} {n : UInt32} {readOnly : Bool}

/-! ## Allocation -/

lemma toInt32_eq_ofInt : n.toInt32 = Int32.ofInt n.toNat := by
  rw [← Int32.toBitVec_inj]
  simp [Int32.toBitVec_ofInt]

lemma parses_allocate (hr : Ready q c d s) (hk : q → bytes = Int32.ofInt k ∧ 0 ≤ k ∧ k < 2 ^ 31)
    (h : Runs (allocate bytes) c s u s') : ∃ F, Parses q c d s s' F (d + k) := by
  have hbytes : q → bytes.toInt = k := fun hq => by
    obtain ⟨rfl, h0, h1⟩ := hk hq
    exact Int32.toInt_ofInt_of_le (by omega) h1
  simp only [allocate, runs_ite, runs_seq, runs_emit, runs_adjustStack] at h
  rcases h with ⟨_, t, rfl, rfl⟩ | ⟨hpos, h⟩
  · have he : Emits q c d s
        { s with
          script := s.script.write .add [Register.sp.toWord, bytes]
          scope := s.scope.adjust bytes }
        [⟨.plain .add [Register.sp.toWord, bytes], d⟩] (d + bytes.toInt) := by
      refine emits_write hr (Instr.wellFormed_reg_values rfl rfl fun _ => rfl) (by decide)
        (by decide) (by decide) (by simp [Instr.effect]) rfl rfl rfl .refl (fun hq => ⟨offset_adjust (hr.offset hq).1, ?_⟩) rfl
        ⟨rfl, blocks_adjust, rfl, rfl, rfl, rfl, ⟨rfl, rfl⟩, ⟨rfl, rfl⟩⟩
      have := hk hq
      have := hbytes hq
      have := (hr.offset hq).2
      omega
    exact ⟨_, (he.parses rfl (by decide) rfl).cast fun hq _ => by rw [hbytes hq]⟩
  · obtain ⟨rfl, _⟩ := runs_pure.1 h
    refine ⟨[], (parses_nil hr).cast fun hq _ => ?_⟩
    have h0 := hk hq
    have h1 := hbytes hq
    rw [Int32.lt_iff_toInt_lt, h1] at hpos
    simp at hpos
    omega

lemma parses_allocateSize (hr : Ready q c d s) (hn : q → n.toNat < 2 ^ 31)
    (h : Runs (allocate n.toInt32) c s u s') : ∃ F, Parses q c d s s' F (d + n.toNat) :=
  parses_allocate hr (fun hq => ⟨toInt32_eq_ofInt, by omega, by have := hn hq; omega⟩) h

lemma runs_fillsCell {b : Bool} :
    Runs (fillsCell ty) c s b s' ↔
      s' = s ∧ b = (decide (ty.size s.symbols.types = cellSize) && !ty.isHandle) := by
  simp [fillsCell, and_assoc]

lemma parses_pushVariable (hr : Ready q c d s)
    (hc : (decide (ty.size types = cellSize) && !ty.isHandle) = true)
    (h : Runs (pushReg .ax) c s u s') :
    Codes q c d s s' (d + (ty.size types).toNat) := by
  simp only [Bool.and_eq_true, decide_eq_true_eq] at hc
  refine ⟨_, by simp, (parses_pushReg hr h).cast fun _ _ => ?_⟩
  rw [hc.1]
  rfl

section

variable (hr : Ready q c d s) (ht : s.symbols.types = types)
  (hk : q → (ty.size types).toNat < 2 ^ 31)
include hr ht hk

lemma parses_allocateZero (h : Runs (allocateZero ty) c s u s') :
    Codes q c d s s' (d + (ty.size types).toNat) := by
  simp only [allocateZero, runs_bind, runs_getTypes, runs_fillsCell, exists_eq_left, and_assoc, ht,
    runs_ite] at h
  rcases h with ⟨hcell, _, t, h₁, h2⟩ | ⟨_, _, t, h₁, h⟩
  · have hF := parses_litToReg hr h₁
    obtain ⟨G, _, hG⟩ := parses_pushVariable (hF.ready hr) hcell h2
    exact ⟨_, by simp, hF.trans hG⟩
  · have hF := parses_emitValue hr rfl rfl rfl h₁
    rcases h with ⟨_, _, t', h2, h3⟩ | ⟨_, _, t', h2, h3⟩
    · have hG := hF.trans (parses_emitBare (hF.ready hr) rfl rfl h2)
      obtain ⟨H, hH⟩ := parses_allocateSize (hG.ready hr) (hk ∘ And.left) h3
      exact ⟨_, by simp, hG.trans hH⟩
    · have hG := hF.trans (parses_emitValue (hF.ready hr) rfl rfl rfl h2)
      obtain ⟨H, hH⟩ := parses_allocateSize (hG.ready hr) (hk ∘ And.left) h3
      exact ⟨_, by simp, hG.trans hH⟩

lemma parses_allocateAx (h : Runs (allocateAx ty) c s u s') :
    Codes q c d s s' (d + (ty.size types).toNat) := by
  simp only [allocateAx, runs_bind, runs_getTypes, runs_fillsCell, exists_eq_left, and_assoc, ht,
    runs_ite] at h
  rcases h with ⟨hcell, h₁⟩ | ⟨_, _, t, h₁, h⟩
  · exact parses_pushVariable hr hcell h₁
  · have hF := parses_emitValue hr rfl rfl rfl h₁
    rcases h with ⟨_, _, t', h2, h3⟩ | ⟨_, _, t', h2, h3⟩
    · have hG := hF.trans (parses_emitRegs (hF.ready hr) rfl rfl h2)
      rw [hG.aside.symbols, ht] at h3
      obtain ⟨H, hH⟩ := parses_allocateSize (hG.ready hr) (hk ∘ And.left) h3
      exact ⟨_, by simp, hG.trans hH⟩
    · obtain ⟨n, hn⟩ := parses_writeAx (hF.ready hr) h2
      have hG := hF.trans hn
      rw [hG.aside.symbols, ht] at h3
      obtain ⟨H, hH⟩ := parses_allocateSize (hG.ready hr) (hk ∘ And.left) h3
      exact ⟨_, by simp, hG.trans hH⟩

lemma parses_allocateInitialized (h : Runs (allocateInitialized ty name) c s u s') :
    Codes q c d s s' (d + (ty.size types).toNat) := by
  simp [allocateInitialized, and_assoc] at h
  obtain ⟨_, _, t, h₀, h⟩ := h
  obtain rfl := runs_atExpressionEnd h₀
  rcases h with ⟨_, t1, h₁, source, t2, h2, t3, h3, t4, h4, h5⟩ | ⟨_, source, t1, h₁, t2, h2, h3⟩
  · obtain ⟨A, hne, hA⟩ := parses_allocateZero hr ht hk h₁
    obtain ⟨B, _, hB⟩ := parses_expressionToAx (hA.ready hr) h2
    have hAB := hA.trans hB
    obtain ⟨C, hC⟩ := parses_convertAxForStore (hAB.ready hr) h3
    have hABC := hAB.trans hC
    have hD := hABC.trans (parses_loadLocal (hABC.ready hr) h4)
    obtain ⟨E, _, hE⟩ := parses_copyString (hD.ready hr) h5
    exact ⟨_, by simp, hD.trans hE⟩
  · obtain ⟨A, _, hA⟩ := parses_expressionToAx hr h₁
    obtain ⟨B, hB⟩ := parses_convertAxForStore (hA.ready hr) h2
    have hAB := hA.trans hB
    have ht' : t2.symbols.types = types := by rw [hAB.aside.symbols, ht]
    obtain ⟨C, hne, hC⟩ := parses_allocateAx (hAB.ready hr) ht' (hk ∘ And.left) h3
    exact ⟨_, by simp [hne], hAB.trans hC⟩

end

lemma runs_checkLocalName (h : Runs (checkLocalName name) c s u s') :
    ∃ diagnostics, s' = { s with diagnostics } := by
  simp [checkLocalName, and_assoc] at h
  obtain ⟨_, _, h⟩ := h
  split at h <;> simp [and_assoc] at h <;> exact ⟨_, h⟩

lemma parses_arraySize (hr : Ready q c d s) (h : Runs arraySize c s n s') :
    Parses q c d s s' [] d ∧ Passes s s' ∧ 0 < n := by
  simp only [arraySize, runs_bind] at h
  obtain ⟨value, t, h1, h⟩ := h
  obtain ⟨hpass, hF⟩ := parses_constantExpression? hr h1
  split at h
  · next _ k _ =>
    simp at h
    obtain ⟨hk, rfl, rfl⟩ := h
    refine ⟨hF rfl, hpass, UInt32.pos_iff_ne_zero.2 fun hzero => ?_⟩
    obtain rfl : k = 0 := by simpa using congrArg UInt32.toInt32 hzero
    exact absurd hk (by decide)
  · simp at h

lemma parses_arraySizes (hr : Ready q c d s) {dims : List UInt32}
    (h : Runs arraySizes c s dims s') :
    Parses q c d s s' [] d ∧ Passes s s' ∧ ∀ d ∈ dims, 0 < d := by
  simp only [arraySizes, runs_bind] at h
  obtain ⟨sizes, t, h1, h⟩ := h
  obtain ⟨rfl, rfl⟩ := runs_pure.1 h
  refine runs_rounds (P := fun sizes t => Parses q c d s t [] d ∧ Passes s t ∧ ∀ d ∈ sizes.toList, 0 < d)
    (Q := fun sizes t => Parses q c d s t [] d ∧ Passes s t ∧ ∀ d ∈ sizes.toList, 0 < d)
    ?_ ?_ h1 ⟨parses_nil hr, .refl, by simp⟩
  · rintro sizes _ t t' ⟨hP, hpass, hpos⟩ h
    simp [and_assoc] at h
    obtain ⟨hopen, n, t2, h, hclose, rfl, rfl⟩ := h
    obtain ⟨hF, hpass', hn⟩ := parses_arraySize (ready_pos (hP.ready hr) _) h
    refine ⟨hP.trans (hF.group hr.stream hopen rfl rfl hclose rfl rfl),
      ((hpass.skip _).trans hpass').skip _, fun d hd => ?_⟩
    rw [Array.toList_push] at hd
    rcases List.mem_append.1 hd with hd | hd
    · exact hpos d hd
    · exact List.mem_singleton.1 hd ▸ hn
  · rintro _ _ t t' hP h
    simp [and_assoc] at h
    obtain ⟨_, rfl, rfl⟩ := h
    exact hP

lemma parses_arraySuffix (hr : Ready q c d s) {name? : Option String}
    (h : Runs (arraySuffix base name?) c s ty s') :
    Parses q c d s s' [] d ∧ Passes s s' ∧ ty.base = base.base ∧ (base.Sized → ty.Sized) := by
  simp [arraySuffix, atEmptyBrackets, and_assoc] at h
  rcases h with ⟨_, rfl, rfl⟩ | ⟨hopen, _, ⟨_, hclose, h⟩ | ⟨_, dims, h, _, rfl⟩⟩
  · exact ⟨parses_nil hr, .refl, rfl, id⟩
  · obtain ⟨rfl, rfl⟩ := runs_dynamicArrayOf h
    exact ⟨parses_pos hr (.emptyBrackets hr.stream hopen hclose), Passes.refl.skip _, rfl,
      fun _ _ h => by cases h⟩
  · obtain ⟨hF, hpass, hpos⟩ := parses_arraySizes hr h
    exact ⟨hF, hpass, rfl, fun _ _ h => by cases h; exact hpos⟩

lemma runs_checkVariableType {imported : Bool}
    (h : Runs (checkVariableType ty name imported) c s u s') : s' = s := by
  simp [checkVariableType] at h
  obtain ⟨_, ⟨_, struct, t, h₁, h⟩ | ⟨_, rfl⟩⟩ := h
  · obtain rfl := runs_structOf? h₁
    split at h
    · simp at h
      exact h.2.2
    · exact (runs_pure.1 h).1
  · rfl

/-! ## Declarations -/

lemma starts_add : (scope.add v).starts = scope.starts := by
  unfold Scope.add Scope.starts
  split <;> simp_all

lemma offset_add : (scope.add v).offset = scope.offset := by
  unfold Scope.add
  split <;> rfl

lemma eq_add_of_declare {scope' : Scope} (h : scope.declare v = .ok scope') :
    scope' = scope.add v := by
  unfold Scope.declare at h
  split at h <;> cases h
  rfl

lemma runs_declare {fault : Fault}
    (h : Runs (match scope.declare v with
      | .ok scope => modifyScope fun _ => scope
      | .error _ => fail fault) c s u s') : s' = { s with scope := scope.add v } := by
  split at h
  · next hd => rw [runs_modifyScope.1 h, eq_add_of_declare hd]
  · exact absurd h runs_fail

lemma Parses.lays_local {n m : Nat} (ho : Open q c Γ d s)
    (h : Parses (q ∧ n < 2 ^ 31) c d s t F (d + n)) (hm : n = m)
    (hs' : s' = { t with localBytes := t.localBytes + m, scope := t.scope.add v }) :
    Lays q c Γ s.pos s'.pos noJump d s s' F (d + n) := by
  have hl := h.laid (ho.imp And.left) h.nested.1 id
  subst hs' hm
  have hcalm : Bounded c.tokens s.pos t.pos t.callBytes (t.localBytes + n) →
      Calm c s.pos t.pos t ∧ n < 2 ^ 31 := fun hc =>
    ⟨hc.mono le_rfl le_rfl le_rfl (Nat.le_add_right ..),
      by have := hc.locals; omega⟩
  have hlaid : Laid (q ∧ n < 2 ^ 31) c Γ s.pos t.pos noJump d s
      { t with localBytes := t.localBytes + n, scope := t.scope.add v } F (d + n) :=
    { hl with
      toWritten := (hl.toWritten.imp (And.imp_right fun hc => (hcalm hc).1)).same
      localBytes := le_trans hl.localBytes (Nat.le_add_right ..)
      paced := fun hq hc => hl.paced hq (hcalm hc).1
      held := hl.held.mono fun _ _ hj => hj.imp (And.imp_right fun hc => (hcalm hc).1)
      reach := fun hq hc => hl.reach hq (hcalm hc).1 }
  refine { hlaid.absorb fun hc => (hcalm hc).2 with starts := ?_, offset := fun hq hc => ?_ }
  · rw [starts_add, Scope.starts, h.aside.blocks, Scope.starts]
  · refine ⟨offset_add.trans (h.offset ⟨hq, (hcalm hc).2⟩ hc.fits).1, by omega, ?_⟩
    simp only [h.aside.localBytes]
    omega

lemma lays_declareLocal (ho : Open q c Γ d s) (h : Runs (declareLocal base readOnly) c s u s') :
    ∃ e, Finishes q c Γ d s s' e := by
  simp [declareLocal, and_assoc] at h
  obtain ⟨hid, t, h₁, ty, t1, h2, t2, h3, h⟩ := h
  obtain rfl := runs_checkVariableType h3
  obtain ⟨diagnostics, rfl⟩ := runs_checkLocalName h₁
  generalize hn : (ty.size s.symbols.types).toNat = n
  have hr := ho.toReady.imp (r := q ∧ n < 2 ^ 31) And.left
  have hA : Parses (q ∧ n < 2 ^ 31) c d s { s with pos := c.tokens.after s.pos, diagnostics } [] d :=
    parses_silent hr (fun _ => .of_eq rfl)
      (.token ho.stream hid rfl rfl)
  have hB := hA.trans (parses_arraySuffix (hA.ready hr) h2).1
  have ht : t2.symbols = s.symbols := hB.aside.symbols
  rcases h with ⟨_, t3, h, hd⟩ | ⟨heq, t3, h, hd⟩
  · obtain ⟨F, _, hF⟩ := parses_allocateZero (hB.ready hr) (by rw [ht]) (fun ⟨⟨_, hlt⟩, _⟩ => hn ▸ hlt) h
    have hall := hB.trans hF
    rw [hn] at hall
    exact ⟨_, _, hall.lays_local ho (by rw [hall.aside.symbols, hn]) (runs_declare hd)⟩
  · have hC := hB.trans (parses_pos (hB.ready hr) (.token ho.stream heq rfl rfl))
    obtain ⟨F, _, hF⟩ := parses_allocateInitialized (hC.ready hr) (by simp only [ht])
      (fun ⟨⟨_, hlt⟩, _⟩ => hn ▸ hlt) h
    have hall := hC.trans hF
    rw [hn] at hall
    exact ⟨_, _, hall.lays_local ho (by rw [hall.aside.symbols, hn]) (runs_declare hd)⟩

lemma runs_atDeclaration {b : Bool} (h : Runs atDeclaration c s b s') : s' = s := by
  simp only [atDeclaration, runs_bind, runs_peek, exists_eq_left, and_assoc] at h
  split at h
  · exact (runs_pure.1 h).1
  · exact (runs_pure.1 h).1
  · simp [and_assoc] at h
    exact h.1
  · exact (runs_pure.1 h).1

lemma lays_names (ho : Open q c Γ d s)
    (h : Runs (repeatWhile do declareLocal base readOnly; eat .comma) c s u s') :
    ∃ e, Finishes q c Γ d s s' e := by
  have hround : ∀ {t t' b}, (∃ e, Finishes q c Γ d s t e) →
      Runs (do declareLocal base readOnly; eat .comma) c t b t' →
      ∃ e, Finishes q c Γ d s t' e := by
    rintro t t' b ⟨e, F, hF⟩ h
    obtain ⟨t1, h₁, h2⟩ := runs_seq.1 h
    have ho1 := hF.ready ho
    obtain ⟨e', G, hG⟩ := lays_declareLocal ho1 h₁
    have hFG := hF.trans hG
    have ho2 := hFG.ready ho
    exact ⟨_, _, hFG.trans ((parses_eat ho2.toReady rfl rfl h2).lays_pos ho2)⟩
  exact runs_repeatWhile (P := fun t => ∃ e, Finishes q c Γ d s t e) hround hround h
    ⟨d, [], (parses_nil ho.toReady).lays_pos ho⟩

lemma lays_compileLocals (ho : Open q c Γ d s) (h : Runs compileLocals c s u s') :
    ∃ e, Finishes q c Γ d s s' e := by
  simp only [compileLocals, runs_bind] at h
  obtain ⟨readOnly, t1, h₁, isConst, t2, h2, base, t3, h3, _, t4, h4, h5⟩ := h
  have hA := parses_eatWord ho.toReady h₁
  have hB := hA.trans (parses_eatWord (hA.ready ho.toReady) h2)
  obtain ⟨m, rfl, hm⟩ := runs_parseType ho.stream h3
  have hC := (hB.trans (parses_pos (hB.ready ho.toReady) hm)).lays_pos ho
  obtain ⟨e, F, hF⟩ := lays_names (hC.ready ho) h4
  have hD := hC.trans hF
  have ho' := hD.ready ho
  exact ⟨_, _, hD.trans ((parses_expect ho'.toReady rfl rfl h5).lays_pos ho')⟩

end AdventureScript.Gen
