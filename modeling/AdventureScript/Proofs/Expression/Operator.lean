import AdventureScript.Proofs.Expression.Access

/-!
Operators: code for two operands, and jumps over what is not to be computed.
-/
namespace AdventureScript

variable {ty : Ty} {mark : Symbol} {isConst : Bool} {struct : Option StructDef} {value : Constant}
  {opcode : Opcode}

namespace Gen
open Assembly

variable {q : Prop} {c : Context} {d e : Int} {s s' t : State} {A F G : List Node} {u : Unit}
  {parts : Parts} {o lhs : Operand} {op : Opcode} {j : PendingJump}

lemma writes_jumpTarget (hr : Ready q c d s) (m : Option Nat) :
    Writes q c d s { s with jumpTarget := m } [] d :=
  writes_still hr le_rfl

lemma Parses.ready_jump (hA : Parses q c d s t A d) (hr : Ready q c d s) (hj : op.isJump = true)
    (h : Runs (jump op) c t j s') : Ready (q ∧ Fits s') c d s' :=
  (hA.toEmits.trans (emits_jump (hA.ready hr) hj h).2).ready hr

lemma Parses.jumpOver (hA : Parses q c d s t A d) (hr : Ready q c d s) (hj : op.isJump = true)
    {t1 t2 : State} (h1 : Runs (jump op) c t j t1)
    (hG : Parses (q ∧ Fits t1) c d t1 t2 G d) (hne : G ≠ []) (h2 : Runs (landHere j) c t2 u s') :
    Parses q c d s s' (A ++ ⟨.jump op (some t2.script.size), d⟩ :: G) d := by
  obtain ⟨rfl, hJ⟩ := emits_jump (hA.ready hr) hj h1
  have hF := (hA.toEmits.trans hJ).trans hG.toEmits
  rw [List.append_assoc, List.singleton_append] at hF
  refine (hF.landMiddle hA.size_eq (fun _ _ => rfl) h2).parses_of_ne_nil (by simp) ?_
    (hA.settled.append (settled_jump.append hG.settled))
    ((hG.live.cons hne).append_left (by simp))
    (hA.unmarked.append (Unmarked.jump.append hG.unmarked))
  rw [pos_landHere h2]
  exact hA.nested.trans (pos_jump h1 ▸ hG.nested)

lemma runs_baseOf {token : Token} {base : Base} (h : Runs (baseOf token isConst) c s base s') :
    s' = s ∧ token.kind.isOpener = false ∧ token.kind.isCloser = false := by
  simp only [baseOf] at h
  split at h
  iterate 6 next hk => exact ⟨(runs_pure.1 h).1, by rw [hk]; exact ⟨rfl, rfl⟩⟩
  · next hk =>
    simp [and_assoc] at h
    exact ⟨h.2.1, by rw [hk]; exact ⟨rfl, rfl⟩⟩
  · next hk =>
    refine ⟨?_, by rw [hk]; exact ⟨rfl, rfl⟩⟩
    simp only [runs_bind, runs_getSymbols] at h
    obtain ⟨_, _, ⟨rfl, rfl⟩, h⟩ := h
    split at h <;> simp [and_assoc] at h
    split at h <;> exact (runs_pure.1 h).1
  · simp at h

lemma runs_structOf? {base : Base} (h : Runs (structOf? base) c s struct s') : s' = s := by
  simp only [structOf?] at h
  split at h <;> simp [and_assoc] at h <;> exact h.1

lemma runs_dynamicArrayOf {ty' : Ty} {name? : Option String}
    (h : Runs (dynamicArrayOf ty name?) c s ty' s') : s' = s ∧ ty' = { ty with shape := .dynamic } := by
  simp [dynamicArrayOf] at h
  exact h.2.2

lemma runs_parseType (hs : c.tokens.Sealed) (h : Runs (parseType isConst) c s ty s') :
    ∃ m, s' = { s with pos := m } ∧ c.tokens.Nested s.pos m := by
  simp [parseType, atEmptyBrackets, declaredName?, and_assoc] at h
  obtain ⟨base, t, h1, struct, t', h2, h⟩ := h
  obtain ⟨rfl, ho, hc⟩ := runs_baseOf h1
  obtain rfl := runs_structOf? h2
  have hbase := Stream.Nested.token hs rfl ho hc
  rcases h with ⟨_, ⟨ho, hc, h⟩ | ⟨_, rfl, _⟩⟩ | ⟨hstar, _, ⟨ho, hc, h⟩ | ⟨_, rfl, _⟩⟩
  · obtain ⟨rfl, _⟩ := runs_dynamicArrayOf h
    exact ⟨_, rfl, hbase.trans (.emptyBrackets hs ho hc)⟩
  · exact ⟨_, rfl, hbase⟩
  · obtain ⟨rfl, _⟩ := runs_dynamicArrayOf h
    exact ⟨_, rfl, (hbase.trans (.token hs hstar rfl rfl)).trans (.emptyBrackets hs ho hc)⟩
  · exact ⟨_, rfl, hbase.trans (.token hs hstar rfl rfl)⟩

lemma selects_compileNewObject (hr : Ready q c d s) {element : Ty}
    (h : Runs (compileNewObject element struct) c s o s') : Selects q c d s s' o := by
  simp [compileNewObject, and_assoc] at h
  obtain ⟨_, _, _, _, t, h1, ⟨_, h2⟩, rfl⟩ := h
  have hF := parses_emitRegValues hr rfl rfl (fun _ => rfl) h1
  exact (hF.trans (parses_clobberAx (hF.ready hr) h2)).selects_ax (by simp) rfl

@[simp] lemma runs_failOperator {α : Type} {op : UnaryOp} {a : α} :
    ¬Runs (failOperator op ty) c s a s' := by
  simp [failOperator]

lemma Parses.yields_constant (h : Parses q c d s s' [] d) (hpass : Passes s s')
    (ho : o.value = .const value) : Yields q c d s s' o :=
  ⟨[], h, ⟨fun _ => rfl, by simp [ho], by simp [Operand.Located, ho]⟩, fun _ => hpass⟩

lemma runs_foldUnaryOperand {op : UnaryOp} (h : Runs (foldUnaryOperand op value ty) c s o s') :
    s' = s ∧ ∃ value, o.value = .const value := by
  simp [foldUnaryOperand] at h
  obtain ⟨_, h⟩ := h
  split at h
  · obtain ⟨rfl, rfl⟩ := runs_pure.1 h
    exact ⟨rfl, _, rfl⟩
  · simp at h

lemma parses_emitUnary (hr : Ready q c d s) {op : UnaryOp} (h : Runs (emitUnary op ty) c s o s') :
    ∃ F, F ≠ [] ∧ Parses q c d s s' F d ∧ o.value = .ax := by
  simp only [emitUnary] at h
  split at h <;> simp at h
  · obtain ⟨_, t1, h1, t2, h2, ⟨_, h3⟩, rfl⟩ := h
    have hF := parses_litToReg hr h1
    have hG := hF.trans (parses_emitRegs (hF.ready hr) (by split <;> rfl) (by split <;> rfl) h2)
    exact ⟨_, by simp, hG.trans (parses_emitRegs (hG.ready hr) rfl rfl h3), rfl⟩
  · obtain ⟨_, ⟨_, h⟩, rfl⟩ := h
    exact ⟨_, by simp, parses_emitRegs hr rfl rfl h, rfl⟩
  · obtain ⟨_, t1, h1, t2, h2, ⟨_, h3⟩, rfl⟩ := h
    have hF := parses_litToReg hr h1
    have hG := hF.trans (parses_emitRegs (hF.ready hr) rfl rfl h2)
    exact ⟨_, by simp, hG.trans (parses_emitRegs (hG.ready hr) rfl rfl h3), rfl⟩

lemma isJump_of_skipJump? {op : BinaryOp} (h : skipJump? op = some opcode) :
    opcode.isJump = true := by
  cases op <;> cases h <;> rfl

lemma runs_foldOperands {op : BinaryOp} {a b : Constant} {l r : Ty}
    (h : Runs (foldOperands op a b l r) c s o s') : s' = s ∧ ∃ value, o.value = .const value := by
  simp only [foldOperands] at h
  split at h
  · simp at h
  · split at h
    · obtain ⟨rfl, rfl⟩ := runs_pure.1 h
      exact ⟨rfl, _, rfl⟩
    · simp at h

lemma parses_tried (hr : Ready q c d s) {x : Gen Operand} {n : Nat}
    (h : Runs (dryRun x) c s (o, n) t) (hx : ∀ {t'}, Runs x c s o t' → Yields q c d s t' o)
    (ho : o.constant?.isSome = true) :
    Parses q c d s { t with pos := n } [] d ∧ Passes s { t with pos := n } := by
  obtain ⟨t', h', rfl, rfl⟩ := tried hr h fun h => (hx h).emits
  obtain ⟨F, hF, htells⟩ := hx h'
  refine ⟨parses_silent hr (fun hplain m hm hj => ?_) hF.nested, ⟨_, _, rfl⟩⟩
  simp [hF.keeps hplain (htells.constant ho) m hm hj, hm]

lemma Parses.of_jumpTarget (hr : Ready q c d s) {m : Option Nat}
    (h : Ready (q ∧ Fits s) c d { s with jumpTarget := m } →
      Parses (q ∧ Fits s) c d { s with jumpTarget := m } s' F e) (hne : F ≠ []) :
    Parses q c d s s' F e := by
  have hA := writes_jumpTarget hr m
  have hF := h (hA.ready hr)
  exact (hA.trans hF.toWrites).toEmits.parses_of_ne_nil hne hF.nested hF.settled hF.live
    hF.unmarked

/-! ## Operands -/

variable (hp : Sound parts) (hr : Ready q c d s)
include hp hr

lemma selects_compileNewArray
    (hk : (c.tokens.get s.pos).kind = .symbol .leftBracket) {element : Ty} {managed : Bool}
    (h : Runs (compileNewArray parts element managed) c { s with pos := c.tokens.after s.pos } o s') :
    Selects q c d s s' o := by
  simp [compileNewArray, and_assoc] at h
  obtain ⟨_, _, count, t, h1, _, hc, t2, h2, ⟨_, h3⟩, rfl⟩ := h
  obtain ⟨F, hne, hF⟩ := parses_partToAx hp (ready_pos hr _) h1
  have hG := hF.group hr.stream hk rfl rfl hc rfl rfl
  have hH := hG.trans (parses_emitRegValues (hG.ready hr) rfl rfl (fun _ => rfl) h2)
  exact (hH.trans (parses_clobberAx (hH.ready hr) h3)).selects_ax (by simp) rfl

lemma selects_compileNew
    (hk : (c.tokens.get s.pos).kind = .keyword .kwNew) (h : Runs (compileNew parts) c s o s') :
    Selects q c d s s' o := by
  simp [compileNew, and_assoc] at h
  obtain ⟨element, t, h1, struct, t', h2, h⟩ := h
  obtain ⟨m, rfl, hm⟩ := runs_parseType hr.stream h1
  obtain rfl := runs_structOf? h2
  have hA := parses_pos hr ((Stream.Nested.token hr.stream hk rfl rfl).trans hm)
  rcases h with ⟨_, h⟩ | ⟨ho, h⟩
  · exact hA.selects (selects_compileNewObject (hA.ready hr) h)
  · exact hA.selects (selects_compileNewArray hp (hA.ready hr) ho h)

lemma yields_compileOperand (h : Runs (compileOperand parts) c s o s') : Yields q c d s s' o := by
  simp only [compileOperand, runs_bind, runs_peek] at h
  obtain ⟨_, _, ⟨rfl, rfl⟩, h⟩ := h
  split at h
  · next hk =>
    simp [and_assoc] at h
    obtain ⟨rfl, value, _, rfl⟩ := h
    exact yields_of_pos hr (.token hr.stream hk rfl rfl)
      fun hr => yields_constant hr rfl
  · next hk =>
    simp at h
    obtain ⟨rfl, rfl⟩ := h
    exact yields_of_pos hr (.token hr.stream hk rfl rfl)
      fun hr => yields_constant hr rfl
  · next hk =>
    simp [and_assoc] at h
    obtain ⟨⟨_, h⟩, rfl⟩ := h
    refine yields_of_pos hr (.token hr.stream hk rfl rfl) fun hr => ?_
    obtain ⟨w, hF⟩ := parses_stringToAx hr ⟨_, hk⟩ h
    exact (hF.selects_ax (by simp) rfl).1
  · next hk =>
    simp at h
    obtain ⟨rfl, rfl⟩ := h
    exact yields_of_pos hr (.token hr.stream hk rfl rfl)
      fun hr => yields_constant hr rfl
  · next hk =>
    simp [Parts.whole, and_assoc] at h
    obtain ⟨o1, t, h1, hc, h2⟩ := h
    obtain ⟨F, hF, ho⟩ := hp.yields (ready_pos hr _) h1
    exact yields_compileChain hp hr
      ⟨F, hF.group hr.stream hk rfl rfl hc rfl rfl, ho.after.skip _⟩ h2
  · next hk => exact (selects_compileNew hp hr hk h).1
  · exact yields_compileAccess hp hr h
  · exact yields_compileAccess hp hr h
  · simp at h

lemma yields_compileUnary {op : UnaryOp}
    (h : Runs (compileUnary parts op) c s o s') : Yields q c d s s' o := by
  simp [compileUnary, atExpressionEnd, and_assoc] at h
  rcases h with ⟨_, hk, rfl, rfl⟩ | ⟨_, _, _, _, o1, t, h1, h2⟩
  · exact yields_of_pos hr (.token hr.stream hk rfl rfl)
      fun hr => yields_constant hr rfl
  · have hy := hp.yields hr h1
    split at h2
    · next ho =>
      obtain ⟨rfl, value, hvalue⟩ := runs_foldUnaryOperand h2
      obtain ⟨F, hF, htells⟩ := hy
      obtain rfl := htells.constant (by simp [ho])
      exact hF.yields_constant (htells.passes (by simp [ho])) hvalue
    · obtain ⟨ty, t', h2, h3⟩ := runs_bind.1 h2
      obtain ⟨F, _, hF⟩ := hy.loadToAx hp hr h2
      obtain ⟨G, hne, hG, ho⟩ := parses_emitUnary (hF.ready hr) h3
      exact ((hF.trans hG).selects_ax (by simp [hne]) ho).1

lemma yields_compilePrefixed
    (h : Runs (compilePrefixed parts) c s o s') : Yields q c d s s' o := by
  simp only [compilePrefixed, runs_bind, runs_peek] at h
  obtain ⟨_, _, ⟨rfl, rfl⟩, h⟩ := h
  split at h
  · simp at h
  · simp at h
  · next hk =>
    split at h
    · next hop =>
      simp [and_assoc] at h
      have hmark := UnaryOp.bracket_of_ofSymbol? hop
      exact yields_of_pos hr (.token hr.stream hk hmark.1 hmark.2)
        fun hr => yields_compileUnary hp hr h
    · exact yields_compileOperand hp hr h
  · exact yields_compileOperand hp hr h

lemma parses_applyOperator {t1 t2 t3 t4 : State} {part : Part}
    {op : BinaryOp} {l r : Ty} (h1 : Runs (pushReg .ax) c s () t1)
    (h2 : Runs (partToAx parts part) c t1 r t2) (h3 : Runs (popReg .bx) c t2 () t3)
    (hop : op.select l r t3.symbols.types = .ok (opcode, ty))
    (h4 : Runs (emitRegs opcode [.bx, .ax]) c t3 () t4)
    (h5 : Runs (emitRegs .regToReg [.bx, .ax]) c t4 u s') :
    Codes q c d s s' d := by
  have hF1 := parses_pushReg hr h1
  obtain ⟨G, _, hG⟩ := parses_partToAx hp (hF1.ready hr) h2
  have hF2 := hF1.trans hG
  have hF3 := (hF2.trans (parses_popReg (hF2.ready hr)
    (fun ⟨hq, _⟩ => by have := (hr.offset hq).2; omega) h3)).cast (x := d) fun _ _ => by omega
  have hcalm := BinaryOp.select_calm hop
  have hF4 := hF3.trans (parses_emitRegs (hF3.ready hr) hcalm.1 (by simp [hcalm.2]) h4)
  exact ⟨_, by simp, hF4.trans (parses_emitRegs (hF4.ready hr) rfl rfl h5)⟩

lemma parses_emitBinary {op : BinaryOp} {part : Part}
    (hlhs : lhs.Located s.symbols) (h : Runs (emitBinary parts op lhs part) c s o s') :
    ∃ F, F ≠ [] ∧ Parses q c d s s' F d ∧ o.value = .ax := by
  simp only [emitBinary, runs_bind] at h
  obtain ⟨ty, t, h1, skip, t1, h2, _, t2, h3, ty', t3, h4, _, t4, h5, ⟨opcode, ty''⟩, t5, h6, _, t6, h7, _,
    t7, h8, h⟩ := h
  obtain ⟨rfl, hop⟩ := runs_selectOpcode.1 h6
  obtain ⟨A, _, hA⟩ := parses_loadToAx hp hr hlhs h1
  cases hskip : skipJump? op with
  | none =>
    simp [hskip] at h2
    obtain ⟨rfl, rfl⟩ := h2
    obtain ⟨G, hne, hG⟩ := parses_applyOperator hp (hA.ready hr) h3 h4 h5 hop h7 h8
    obtain ⟨rfl, rfl⟩ := h
    exact ⟨_, by simp [hne], hA.trans hG, rfl⟩
  | some opcode' =>
    simp [hskip] at h2
    obtain ⟨j, h2, rfl⟩ := h2
    have hj := isJump_of_skipJump? hskip
    obtain ⟨G, hne, hG⟩ := parses_applyOperator hp (hA.ready_jump hr hj h2) h3 h4 h5 hop h7 h8
    simp at h
    obtain ⟨⟨_, h⟩, rfl⟩ := h
    exact ⟨_, by simp, hA.jumpOver hr hj h2 hG hne h, rfl⟩

lemma yields_compileRightSide {op : BinaryOp}
    (hy : Yields q c d s t lhs) (h : Runs (compileRightSide parts op lhs) c t o s') :
    Yields q c d s s' o := by
  obtain ⟨A, hA, hlhs⟩ := hy
  simp [compileRightSide, atExpressionEnd, and_assoc] at h
  obtain ⟨_, _, _, h⟩ := h
  split at h
  · obtain ⟨G, hne, hG, ho⟩ := parses_emitBinary hp (hA.ready hr)
      (hA.aside.symbols ▸ hlhs.located) h
    exact ((hA.trans hG).selects_ax (by simp [hne]) ho).1
  · next hleft =>
    obtain rfl := hlhs.constant (by simp [hleft])
    obtain ⟨⟨rhs, n⟩, t', h1, h⟩ := runs_bind.1 h
    split at h
    · next hrhs =>
      obtain ⟨rfl, value, hvalue⟩ := runs_foldOperands h
      obtain ⟨hB, hpass⟩ := parses_tried (hA.ready hr) h1 (hp.yields (hA.ready hr)) (by simp [hrhs])
      exact (hA.trans hB).yields_constant ((hlhs.passes (by simp [hleft])).trans hpass) hvalue
    · obtain ⟨_, _, _, rfl⟩ := tried (hA.ready hr) h1 fun h => (hp.yields (hA.ready hr) h).emits
      obtain ⟨G, hne, hG, ho⟩ := parses_emitBinary hp
        ((writes_jumpTarget (hA.ready hr) _).ready (hA.ready hr))
        (hA.aside.symbols ▸ hlhs.located) h
      have hB := hA.trans (.of_jumpTarget (hA.ready hr) (fun _ => hG) hne)
      exact (hB.selects_ax (by simp [hne]) ho).1

end Gen
end AdventureScript
