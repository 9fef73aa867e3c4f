import AdventureScript.Proofs.Expression.Operator

/-!
Whole expressions. The arm that a constant condition does not choose leaves no code behind, but it
may hide that a jump landed before it.
-/
namespace AdventureScript.Gen
open Assembly

variable {q : Prop} {c : Context} {d e : Int} {s s' t : State} {A F : List Node} {u : Unit}
  {parts : Parts} {o condition : Operand} {ty : Ty}

/-! ## The conditional operator -/

def Chooses (q : Prop) (c : Context) (d : Int) (s s' : State) (o : Operand) : Prop :=
  ∃ F, Writes q c d s s' F d ∧ c.tokens.Nested s.pos s'.pos ∧ Brings s s' o F

lemma Yields.chooses (h : Yields q c d s s' o) : Chooses q c d s s' o := by
  obtain ⟨F, hF, ho⟩ := h
  exact ⟨F, hF.toWrites, hF.nested, ho⟩

lemma chooses_of_pos (hr : Ready q c d s) {m : Nat} (hm : c.tokens.Nested s.pos m)
    (hy : Ready (q ∧ Fits s) c d { s with pos := m } →
      Chooses (q ∧ Fits s) c d { s with pos := m } s' o) : Chooses q c d s s' o := by
  have hp := parses_pos hr hm
  obtain ⟨G, hG, hn, htells⟩ := hy (hp.ready hr)
  exact ⟨[] ++ G, hp.toWrites.trans hG, hm.trans hn, htells.after⟩

lemma runs_atExpressionEnd {b : Bool} (h : Runs atExpressionEnd c s b s') : s' = s := by
  simp [atExpressionEnd, and_assoc] at h
  exact h.1

lemma runs_checkThirdArm (h : Runs checkThirdArm c s u s') : s' = s := by
  simp [checkThirdArm] at h
  exact runs_atExpressionEnd h

section

variable (hp : Sound parts) (hr : Ready q c d s) {priority : Nat} {lhs : Operand}
include hp hr

lemma writes_skipArm (h : Runs (skipArm parts) c s u s') :
    Writes q c d s s' [] d ∧ c.tokens.Nested s.pos s'.pos ∧ Passes s s' := by
  simp only [skipArm, runs_bind] at h
  obtain ⟨⟨o, n⟩, t, h1, h2⟩ := h
  obtain ⟨t', h', rfl, rfl⟩ := tried hr h1 fun h => (hp.yields hr h).emits
  obtain rfl := runs_setPos.1 h2
  obtain ⟨F, hF, _⟩ := hp.yields hr h'
  have hA := writes_jumpTarget hr (t'.jumpTarget.filter (· ≤ s.script.size))
  exact ⟨hA.trans (writes_setPos (hA.ready hr) _), hF.nested, ⟨_, _, rfl⟩⟩

lemma emits_armTypes {tys : Ty × Ty}
    (h : Runs (armTypes parts) c s tys s') : ∃ F e, Emits q c d s s' F e := by
  simp only [armTypes, runs_bind] at h
  obtain ⟨o, t, h1, _, t1, h2, _, t2, h3, o', t3, h4, h5⟩ := h
  obtain ⟨rfl, _⟩ := runs_pure.1 h5
  obtain ⟨_, rfl⟩ := runs_expect.1 h2
  obtain rfl := runs_checkThirdArm h3
  obtain ⟨F, hF, _⟩ := hp.yields hr h1
  have hA := hF.toWrites.trans (writes_setPos (hF.ready hr) (c.tokens.after t.pos))
  obtain ⟨G, hG, _⟩ := hp.yields (hA.ready hr) h4
  exact ⟨_, _, (hA.trans hG.toWrites).toEmits⟩

lemma parses_armToAx (h : Runs (armToAx parts ty) c s u s') :
    Codes q c d s s' d := by
  simp only [armToAx, runs_bind] at h
  obtain ⟨ty', t, h1, h2⟩ := h
  obtain ⟨F, hne, hF⟩ := parses_partToAx hp hr h1
  obtain ⟨G, hG⟩ := parses_convertAx (hF.ready hr) h2
  exact ⟨_, by simp [hne], hF.trans hG⟩

lemma chooses_compileChosen {value : Constant}
    (h : Runs (compileChosen parts value) c s o s') : Chooses q c d s s' o := by
  simp only [compileChosen, runs_ite, runs_bind] at h
  rcases h with ⟨_, o1, t, h1, _, t1, h2, _, t2, h3, h4⟩ | ⟨_, _, t, h1, _, t1, h2, _, t2, h3, h4⟩
  · obtain ⟨rfl, rfl⟩ := runs_pure.1 h4
    obtain ⟨hk, rfl⟩ := runs_expect.1 h2
    obtain ⟨F, hF, ho⟩ := hp.yields hr h1
    have hA := hF.trans (parses_pos (hF.ready hr) (.token hr.stream hk rfl rfl))
    obtain ⟨hB, hn, hpass⟩ := writes_skipArm hp (hA.ready hr) h3
    exact ⟨_, hA.toWrites.trans hB, hA.nested.trans hn, by simpa using ho.toTells,
      fun h => ((ho.passes h).skip _).trans hpass⟩
  · obtain ⟨hk, rfl⟩ := runs_expect.1 h2
    obtain rfl := runs_checkThirdArm h3
    obtain ⟨hB, hn, hpass⟩ := writes_skipArm hp hr h1
    have hC := hB.trans (writes_setPos (hB.ready hr) (c.tokens.after t.pos))
    obtain ⟨F, hF, ho⟩ := hp.yields (hC.ready hr) h4
    exact ⟨_, hC.trans hF.toWrites, (hn.trans (.token hr.stream hk rfl rfl)).trans hF.nested,
      by simpa [hB.aside.symbols] using ho.toTells, fun h => hpass.trans (ho.after.passes h)⟩

lemma parses_arms (hA : Parses q c d s t A d) {j j' : PendingJump} {t1 t2 t3 t4 t5 : State}
    (h1 : Runs (jump .jz) c t j t1) (h2 : Runs (armToAx parts ty) c t1 u t2)
    (h3 : Runs (jump .jmp) c t2 j' t3) (h4 : Runs (landHere j) c t3 u t4)
    (hk : (c.tokens.get t4.pos).kind = .symbol .colon)
    (h5 : Runs (armToAx parts ty) c { t4 with pos := c.tokens.after t4.pos } u t5)
    (h6 : Runs (landHere j') c t5 u s') : Codes q c d s s' d := by
  obtain ⟨rfl, hJ⟩ := emits_jump (hA.ready hr) rfl h1
  have hB := hA.toEmits.trans hJ
  obtain ⟨G, _, hG⟩ := parses_armToAx hp (hB.ready hr) h2
  have hC := hB.trans hG.toEmits
  obtain ⟨rfl, hJ'⟩ := emits_jump (hC.ready hr) rfl h3
  have hD := hC.trans hJ'
  simp only [List.append_assoc, List.cons_append] at hD
  have hE := hD.landMiddle hA.size_eq (fun _ _ => rfl) h4
  have hE' := hE.trans (writes_setPos (hE.ready hr) (c.tokens.after t4.pos)).toEmits
  obtain ⟨H, hne, hH⟩ := parses_armToAx hp (hE'.ready hr) h5
  have hK : Emits q c d s t5 ((A ++ ⟨.jump .jz (some t3.script.size), d⟩ :: G) ++
      ⟨.jump .jmp none, d⟩ :: H) d := by
    simpa using hE'.trans hH.toEmits
  have hsize : t2.script.size =
      s.script.size + width (A ++ ⟨.jump .jz (some t3.script.size), d⟩ :: G) := by
    simpa [Node.size, Instr.size] using hC.size_eq
  have hL := hK.landMiddle hsize (fun _ _ => rfl) h6
  refine ⟨_, by simp, hL.parses_of_ne_nil (by simp) ?_
    ((hA.settled.append (settled_jump.append hG.settled)).append
      (settled_jump.append hH.settled))
    ((hH.live.cons hne).append_left (by simp))
    ((hA.unmarked.append (Unmarked.jump.append hG.unmarked)).append
      (Unmarked.jump.append hH.unmarked))⟩
  rw [pos_landHere h6]
  refine hA.nested.trans (pos_jump h1 ▸ hG.nested.trans ?_)
  rw [← pos_jump h3, ← pos_landHere h4]
  exact (Stream.Nested.token hr.stream hk rfl rfl).trans hH.nested

lemma parses_compileArms
    (hcondition : condition.Located s.symbols) (h : Runs (compileArms parts condition) c s o s') :
    ∃ F, F ≠ [] ∧ Parses q c d s s' F d ∧ o.value = .ax := by
  simp only [compileArms, runs_bind] at h
  obtain ⟨⟨⟨second, third⟩, n⟩, t, h1, h⟩ := h
  obtain ⟨trial, _, _, rfl⟩ := tried hr h1 (emits_armTypes hp hr)
  simp only [runs_getTypes] at h
  obtain ⟨_, _, ⟨rfl, rfl⟩, h⟩ := h
  split at h
  · simp [and_assoc] at h
    obtain ⟨ty, t, h2, t1, h3, j, t2, h4, t3, h5, j', t4, h6, t5, h7, hk, t6, h8, ⟨_, h9⟩, rfl⟩ := h
    obtain ⟨_, rfl⟩ := runs_checkCondition.1 h3
    have hr' := (writes_jumpTarget hr (trial.jumpTarget.filter (· ≤ s.script.size))).ready hr
    obtain ⟨A, _, hA⟩ := parses_loadToAx hp hr' hcondition h2
    obtain ⟨F, hne, hF⟩ := parses_arms hp hr' hA h4 h5 h6 h7 hk h8 h9
    exact ⟨F, hne, .of_jumpTarget hr (fun _ => hF) hne, rfl⟩
  · simp at h

lemma chooses_compileShort
    (hcondition : condition.Located s.symbols) (h : Runs (compileShort parts condition) c s o s') :
    Chooses q c d s s' o ∧ (condition.constant? = none → o.constant? = none) := by
  simp only [compileShort, runs_bind] at h
  obtain ⟨_, t, h1, h⟩ := h
  obtain rfl := runs_checkThirdArm h1
  split at h
  · next hvalue =>
    refine ⟨?_, by simp [hvalue]⟩
    rcases runs_ite.1 h with ⟨_, h⟩ | ⟨_, h⟩
    · obtain ⟨_, t', h2, h⟩ := runs_bind.1 h
      obtain ⟨rfl, rfl⟩ := runs_pure.1 h
      obtain ⟨hB, hn, hpass⟩ := writes_skipArm hp hr h2
      refine ⟨[], hB, hn, ⟨fun _ => rfl, fun hax => ?_, hcondition⟩, fun _ => hpass⟩
      simp [Operand.constant?, hax] at hvalue
    · exact (hp.yields hr h).chooses
  · simp only [runs_bind] at h
    obtain ⟨ty, t1, h1, _, t2, h2, j, t3, h3, _, t4, h4, _, t5, h5, h⟩ := h
    obtain ⟨rfl, rfl⟩ := runs_pure.1 h
    obtain ⟨_, rfl⟩ := runs_checkCondition.1 h2
    obtain ⟨A, _, hA⟩ := parses_loadToAx hp hr hcondition h1
    obtain ⟨G, hne, hG⟩ := parses_armToAx hp (hA.ready_jump hr rfl h3) h4
    exact ⟨((hA.jumpOver hr rfl h3 hG hne h5).selects_ax (by simp) rfl).1.chooses, fun _ => rfl⟩

lemma yields_compileTernary
    (hy : Yields q c d s t condition) (hk : (c.tokens.get t.pos).kind = .symbol .question)
    (h : Runs (compileTernary parts condition) c t o s') : Yields q c d s s' o := by
  obtain ⟨A, hA, hcondition⟩ := hy
  have hlocated : condition.Located t.symbols := hA.aside.symbols ▸ hcondition.located
  have hnext : c.tokens.after t.pos = t.pos + 1 := Stream.after_of_ne (by simp [hk])
  have hB := hA.trans (parses_pos (hA.ready hr) (.token hr.stream hk rfl rfl))
  obtain ⟨⟨F, hF, hn, ho⟩, hconstant⟩ :
      Chooses (q ∧ Fits t) c d { t with pos := c.tokens.after t.pos } s' o ∧
        (condition.constant? = none → o.constant? = none) := by
    have hr' := hB.ready hr
    simp [compileTernary, and_assoc] at h
    rcases h with ⟨_, t', h1, h⟩ | ⟨hk', h⟩
    · obtain rfl := runs_atExpressionEnd h1
      split at h
      · next hvalue => exact ⟨chooses_compileChosen hp hr' h, by simp [hvalue]⟩
      · obtain ⟨F, hne, hF, ho⟩ := parses_compileArms hp hr' hlocated h
        have hy := hF.selects_ax hne ho
        exact ⟨hy.1.chooses, fun _ => hy.2⟩
    · have hcolon := Stream.Nested.token hr.stream hk' rfl rfl
      exact ⟨chooses_of_pos hr' hcolon fun hr => (chooses_compileShort hp hr hlocated h).1,
        (chooses_compileShort hp (ready_pos hr' (c.tokens.after (c.tokens.after t.pos))) hlocated h).2⟩
  have hleft (hsome : o.constant?.isSome = true) : condition.constant?.isSome = true := by
    cases hc : condition.constant? with
    | none => simp [hconstant hc] at hsome
    | some value => rfl
  refine ⟨A ++ [] ++ F, {
    toWrites := hB.toWrites.trans hF
    nested := hB.nested.trans hn
    keeps := fun hplain _ => ?_ }, ⟨fun hsome => ?_, ?_, hA.aside.symbols ▸ ho.located⟩, fun hsome => ?_⟩
  · exact absurd hk (hplain t.pos (by have := hn.1; simp only at this; omega) hA.nested.1).1
  · simp [hcondition.constant (hleft hsome), ho.constant hsome]
  · intro hax
    simp [ho.inAx hax]
  · exact (hcondition.passes (hleft hsome)).trans (ho.after.passes hsome)

/-! ## Parts -/

/-- Whether a token of the kind carries on an expression with operators of up to the priority. -/
def continues (priority : Nat) : Token.Kind → Bool
  | .symbol .question => ternaryPriority ≤ priority
  | .symbol mark => (BinaryOp.ofSymbol? mark).any (·.priority ≤ priority)
  | _ => false

omit hp hr in
lemma runs_compileOperator_again :
    Runs (compileOperator parts priority lhs) c s (.again o) s' ↔
      ((c.tokens.get s.pos).kind = .symbol .question ∧ ternaryPriority ≤ priority ∧
          Runs (compileTernary parts lhs) c s o s') ∨
        ∃ mark op, (c.tokens.get s.pos).kind = .symbol mark ∧
          BinaryOp.ofSymbol? mark = some op ∧ op.priority ≤ priority ∧
          Runs (compileRightSide parts op lhs) c { s with pos := c.tokens.after s.pos } o s' := by
  simp only [compileOperator, runs_bind, runs_peek]
  constructor
  · rintro ⟨_, _, ⟨rfl, rfl⟩, h⟩
    split at h
    · next hk =>
      simp at h
      exact .inl ⟨hk, h⟩
    · next mark _ hk =>
      split at h
      · simp at h
      · next op hop =>
        simp [and_assoc] at h
        obtain ⟨hsymbol, hle⟩ := Option.filter_eq_some_iff.1 hop
        exact .inr ⟨mark, op, hk, hsymbol, by simpa using hle, h⟩
    · simp at h
  · rintro (⟨hk, hle, h⟩ | ⟨mark, op, hk, hmark, hle, h⟩)
    · refine ⟨_, s, ⟨rfl, rfl⟩, ?_⟩
      simp [hk, hle, h]
    · refine ⟨_, s, ⟨rfl, rfl⟩, ?_⟩
      have hfilter : (BinaryOp.ofSymbol? mark).filter (·.priority ≤ priority) = some op := by
        simp [hmark, hle]
      rw [hk]
      split
      · next hquestion =>
        cases hquestion
        cases hmark
      · next hmark' =>
        cases hmark'
        simp [hfilter, h]
      · next hother => exact absurd rfl (hother mark)

omit hp hr in
lemma runs_compileOperator_done :
    Runs (compileOperator parts priority lhs) c s (.done o) s' ↔
      s' = s ∧ o = lhs ∧ continues priority (c.tokens.get s.pos).kind = false := by
  simp only [compileOperator, runs_bind, runs_peek, exists_eq_left, and_assoc]
  split
  · next hk =>
    simp only [continues, hk, runs_ite, runs_pure, runs_bind]
    simp [and_rotate]
  · next mark hmark hk =>
    have hcontinues : continues priority (.symbol mark) =
        ((BinaryOp.ofSymbol? mark).filter (·.priority ≤ priority)).isSome := by
      unfold continues
      split
      · next heq => exact absurd (Token.Kind.symbol.inj heq) hmark
      · next heq =>
        cases heq
        cases BinaryOp.ofSymbol? mark with
        | none => rfl
        | some op => by_cases hle : op.priority ≤ priority <;> simp [hle]
      · next hother => exact absurd rfl (hother mark)
    rw [hk, hcontinues]
    split
    · next hop => simp [hop]
    · next hop => simp [hop]
  · next hquestion hother =>
    have hcontinues : continues priority (c.tokens.get s.pos).kind = false := by
      unfold continues
      split
      · next heq => exact absurd heq hquestion
      · next heq => exact absurd heq (hother _)
      · rfl
    simp [hcontinues]

lemma yields_compileOperator (hy : Yields q c d s t lhs)
    (h : Runs (compileOperator parts priority lhs) c t (.again o) s') : Yields q c d s s' o := by
  rcases runs_compileOperator_again.1 h with ⟨hk, _, h⟩ | ⟨mark, op, hk, hmark, _, h⟩
  · exact yields_compileTernary hp hr hy hk h
  · have hbracket := BinaryOp.bracket_of_ofSymbol? hmark
    obtain ⟨A, hA, hlhs⟩ := hy
    have hB := hA.trans (parses_pos (hA.ready hr) (.token hr.stream hk hbracket.1 hbracket.2))
    exact yields_compileRightSide hp hr ⟨_, hB, by simpa using hlhs.skip _⟩ h

lemma yields_compileOperators (h : Runs (compileOperators parts priority) c s o s') :
    Yields q c d s s' o := by
  simp only [compileOperators, runs_bind] at h
  obtain ⟨first, t, h1, result, t', h2, h3⟩ := h
  obtain ⟨rfl, rfl⟩ : s' = t' ∧ o = result := by
    simp [and_assoc] at h3
    exact h3.2
  refine runs_rounds (P := fun o t => Yields q c d s t o) (Q := fun o t => Yields q c d s t o)
    (fun hy h => yields_compileOperator hp hr hy h) (fun hy h => ?_) h2
    (yields_compilePrefixed hp hr h1)
  obtain ⟨rfl, rfl, _⟩ := runs_compileOperator_done.1 h
  exact hy

lemma yields_compileArgument {stop : Nat}
    (h : Runs (compileArgument parts stop) c s o s') : Yields q c d s s' o := by
  simp [compileArgument, and_assoc] at h
  obtain ⟨o, t, h1, _, ty, h2, rfl⟩ := h
  obtain ⟨F, hne, hF⟩ := (yields_compileOperators hp hr h1).loadToAx hp hr h2
  exact (hF.selects_ax hne rfl).1

end

@[simp] lemma runs_tokensLeft {n : Nat} :
    Runs tokensLeft c s n s' ↔ s' = s ∧ n = c.tokens.size - s.pos := by
  simp [tokensLeft, and_assoc]

lemma runs_below {n : Nat} {part : Part} : Runs (below n parts part) c s o s' ↔
    c.tokens.size - s.pos < n ∧ Runs (parts part) c s o s' := by
  simp [below, and_assoc]

lemma runs_compilePart {depth : Nat} {part : Part} :
    Runs (compilePart (depth + 1) part) c s o s' ↔
      Runs (compileWith (below (c.tokens.size - s.pos) (compilePart depth)) part) c s o s' := by
  simp [compilePart, and_assoc]

lemma Sound.below (h : Sound parts) (n : Nat) : Sound (below n parts) :=
  ⟨fun hr hrun => h.yields hr (runs_below.1 hrun).2⟩

lemma sound_compilePart : (depth : Nat) → Sound (compilePart depth)
  | 0 => ⟨fun _ h => by simp [compilePart] at h⟩
  | depth + 1 => by
    constructor
    intro q c d s s' part o hr h
    rw [runs_compilePart] at h
    have ih := (sound_compilePart depth).below (c.tokens.size - s.pos)
    cases part with
    | prefixed => exact yields_compilePrefixed ih hr h
    | upTo priority => exact yields_compileOperators ih hr h
    | argument stop => exact yields_compileArgument ih hr h

lemma yields_expression (hr : Ready q c d s) (h : Runs expression c s o s') :
    Yields q c d s s' o := by
  simp [expression, withParts, Parts.whole, and_assoc] at h
  exact (sound_compilePart _).yields hr h

lemma Yields.toAx (hy : Yields q c d s t o) (hr : Ready q c d s) (h : Runs (toAx o) c t ty s') :
    Codes q c d s s' d := by
  simp [Gen.toAx, withParts, and_assoc] at h
  exact hy.loadToAx (sound_compilePart _) hr h

lemma parses_expressionToAx (hr : Ready q c d s) (h : Runs expressionToAx c s ty s') :
    Codes q c d s s' d := by
  simp only [expressionToAx, runs_bind] at h
  obtain ⟨o, t, h1, h2⟩ := h
  exact (yields_expression hr h1).toAx hr h2

lemma parses_constantExpression? (hr : Ready q c d s) {value? : Option (Constant × Ty)}
    (h : Runs constantExpression? c s value? s') :
    Passes s s' ∧ (value?.isSome = true → Parses q c d s s' [] d) := by
  simp only [constantExpression?, runs_bind] at h
  obtain ⟨⟨o, n⟩, t, h1, h⟩ := h
  split at h
  · next hvalue =>
    simp [runs_map] at h
    obtain ⟨rfl, _⟩ := h
    obtain ⟨hF, hpass⟩ := parses_tried hr h1 (yields_expression hr) (by simp [hvalue])
    exact ⟨hpass, fun _ => hF⟩
  · obtain ⟨_, _, _, rfl⟩ := tried hr h1 fun h => (yields_expression hr h).emits
    obtain ⟨rfl, rfl⟩ := runs_pure.1 h
    exact ⟨⟨_, _, rfl⟩, by simp⟩

end AdventureScript.Gen
