import AdventureScript.Proofs.Parallel.Expression

/-!
Operands, and the operators in front of them and between them, compile alike wherever their tokens
stand.
-/
namespace AdventureScript.Gen

variable {k : Pair} {A : Alignment k} {i : A.Index} {n : Nat} {P M : Nat → Nat → Prop}
  {parts parts' : Parts} {ty element : Ty} {o o' lhs lhs' : Operand} {op : BinaryOp}
  {value : Constant}

open AdventureScript.Gen.Alignment

lemma agree_compileNewArray (hr : A.Respects parts parts') {managed : Bool} :
    Agree k (A.Inner P) (With (Moved A.Span) P) (compileNewArray parts element managed)
      (compileNewArray parts' element managed) :=
  .unless <| agree_inner fun _ _ hclose => (agree_partToAx hr.loads hr.upTo).then <|
    .ite (agree_textOf.then .fail_bind) <|
      (agree_expect_closer hclose rfl).skip <| agree_getTypes.then <|
        agree_write.skip <| agree_clobberAx.skip <| .ret moved_inAx

lemma agree_compileNewObject {struct : Option StructDef} :
    Agree k P (With (Moved A.Span) P) (compileNewObject element struct)
      (compileNewObject element struct) :=
  agree_orFail.then <| .unless <| agree_write.skip <| agree_clobberAx.skip <| .ret moved_inAx

lemma agree_compileNew (hr : A.Respects parts parts') :
    Agree k (fun p p' => A.From i n p p' ∧ (k.c.tokens.get p).kind = .keyword .kwNew)
      (With (Moved A.Span) (A.From i n)) (compileNew parts) (compileNew parts') := by
  refine (agree_advance (M := A.From i n) fun hp =>
    hp.1.next hp.2 rfl rfl).skip <| agree_parseType.then @fun ty =>
      agree_structOf?.then @fun struct => ?_
  exact agree_eatKind (M := A.Inner (A.From i n)) sees_from
    (fun hp hk => hp.opens hk rfl) (agree_compileNewArray hr)
    (agree_compileNewObject.before And.left)

lemma agree_atExpressionEnd (h : Copied k P) :
    Agree k P (Same P) atExpressionEnd atExpressionEnd :=
  (agree_peek h).with fun _ _ ht => .ret (by rw [ht.kind])

section

variable {start suffix stop : Nat → Nat → Prop}

variable (ho : Operands A start suffix stop) (hr : A.Respects parts parts')
include ho hr

lemma agree_compileOperand :
    Agree k start (With (Moved A.Span) stop) (compileOperand parts) (compileOperand parts') := by
  refine agree_peek_bind ho.copied fun t t' ht => ?_
  rw [ht.kind]
  split
  case h_1 hk =>
    exact (agree_advance (M := stop) fun hp => ho.literal hp.1 (.inl (by rw [hp.2, hk]; rfl))).skip
      <| agree_orFail.then <| .ret moved_constant
  case h_2 hk =>
    exact (agree_advance (M := stop) fun hp => ho.literal hp.1 (.inl (by rw [hp.2, hk]; rfl))).skip
      <| .ret moved_constant
  case h_3 hk =>
    exact (agree_advance (M := stop) fun hp => ho.literal hp.1 (.inl (by rw [hp.2, hk]; rfl))).skip
      <| agree_stringToAx.skip <| .ret moved_inAx
  case h_4 hk =>
    exact (agree_advance (M := stop) fun hp => ho.literal hp.1 (.inr (by rw [hp.2, hk]))).skip
      <| .ret moved_constant
  case h_5 hk =>
    refine (agree_advance (M := A.Inner suffix) fun hp => ho.opens hp.1 (by rw [hp.2, hk])).skip
      <| agree_inner fun j m hclose => hr.upTo.with fun _ _ hmoved =>
        (agree_expect_closer hclose rfl).skip <| agree_compileChain ho.suffixed ho.stop hr hmoved
  case h_6 hk =>
    refine ⟨fun hst hrun => ?_⟩
    obtain ⟨i, n, hi, hstop⟩ := ho.fresh hst.pos.1 (by rw [hst.pos.2, hk])
    exact ((agree_compileNew hr).behind fun h => ⟨h.1, hstop h.2⟩).run
      (hst.mono fun hp => ⟨hi, by rw [hp.2, hk]⟩) hrun
  case h_7 | h_8 => exact (agree_compileAccess ho hr).before And.left
  case h_9 => exact .fail

omit ho hr in
lemma Agree.unlessOperator {q : Prop} [Decidable q] {op : UnaryOp} {f g : α → Gen β}
    (h : Agree k P W x x') : Agree k P W (if q then failOperator op ty >>= f else x)
      (if q then failOperator op ty >>= g else x') := by
  refine .ite ?_ h
  simp only [failOperator, bind_assoc]
  exact agree_textOf.then .fail_bind

omit ho hr in
lemma agree_foldUnaryOperand {op : UnaryOp} :
    Agree k P (With (Moved A.Span) P) (foldUnaryOperand op value ty)
      (foldUnaryOperand op value ty) := by
  refine .unlessOperator ?_
  split
  · exact .ret moved_constant
  · exact .fail

omit ho hr in
lemma agree_emitUnary {op : UnaryOp} :
    Agree k P (With (Moved A.Span) P) (emitUnary op ty) (emitUnary op ty) := by
  cases op with
  | neg | bitNot =>
    exact .unlessOperator <| agree_literal.skip <| agree_write.skip <|
      agree_write.skip <| .ret moved_inAx
  | not => exact .unlessOperator <| agree_write.skip <| .ret moved_inAx

lemma agree_compileUnary
    {op : UnaryOp} : Agree k (Behind start) (With (Moved A.Span) stop) (compileUnary parts op)
      (compileUnary parts' op) := by
  have hcopy : Copied k (Behind start) := fun hp => ho.copied hp.1
  refine agree_seeKind (Copied.sees hcopy) fun b => .ite_iff .rfl (fun hb => ?_) fun _ =>
    Agree.before (P := Behind start) ?_ And.left
  · refine (agree_advance (M := stop) fun hp => ho.literal hp.1.1 (.inl ?_)).skip <|
      .ret moved_constant
    rw [hp.2.1 (Bool.and_eq_true_iff.1 hb).2]
    rfl
  · refine (agree_atExpressionEnd hcopy).then <| .unless <| (hr.prefixed ho).with fun o o' h => ?_
    rw [h.constant?, h.ty]
    split
    · exact agree_foldUnaryOperand
    · exact (agree_loadToAx hr.loads h).then agree_emitUnary

lemma agree_compilePrefixed :
    Agree k start (With (Moved A.Span) stop) (compilePrefixed parts) (compilePrefixed parts') := by
  refine agree_peek_bind ho.copied fun t t' ht => ?_
  rw [ht.kind]
  have hoperand := (agree_compileOperand ho hr).before
    (Q := fun p p' => start p p' ∧ k.c.tokens.get p = t) And.left
  split
  · exact .fail
  · exact .fail
  · next mark _ _ hk =>
    split
    · next op hop =>
      refine (agree_advance (M := Behind start) fun {p p'} hp => ?_).skip <|
        agree_compileUnary ho hr
      have hmark : (k.c.tokens.get p).kind = .symbol mark := by rw [hp.2, hk]
      refine ⟨ho.sign hp.1 hmark (by rw [hop]; rfl), p, p', hp.1, ?_, ?_⟩
      · rw [after_of_symbol hmark]
        exact Nat.lt_succ_self p
      · rw [after_of_symbol ((ho.copied hp.1).kind.trans hmark)]
        exact Nat.lt_succ_self p'
    · exact hoperand
  · exact hoperand

end

/-! ## Operators between operands -/

/-- Applies an operator to an operand and to the one on its right side, given how operands are
brought into AX. -/
def joined (load : Operand → Gen Ty) (op : BinaryOp) (lhs : Operand) (right : Gen Operand) :
    Gen Operand := do
  let lhsType ← load lhs
  let skip ← (skipJump? op).mapM jump
  pushReg .ax
  let rhsType ← right >>= load
  popReg .bx
  let (opcode, ty) ← selectOpcode op lhsType rhsType
  emitRegs opcode [.bx, .ax]
  emitRegs .regToReg [.bx, .ax]
  if let some j := skip then landHere j
  return .inAx ty

/-- The right side of an operator, which is only tried at first if the left one is a constant. -/
def rightSide (load : Operand → Gen Ty) (op : BinaryOp) (lhs : Operand) (right : Gen Operand) :
    Gen Operand := do
  match lhs.constant? with
  | none => joined load op lhs right
  | some a =>
    let (rhs, stop) ← dryRun right
    match rhs.constant? with
    | some b =>
      setPos stop
      foldOperands op a b lhs.ty rhs.ty
    | none => joined load op lhs right

lemma compileRightSide_eq : compileRightSide parts op lhs = (do
    if ← atExpressionEnd then fail (.missingRightSide op.spelling)
    let options ← getOptions
    rightSide (loadToAx parts) op lhs
      (parts (.upTo (if options.leftToRight then op.priority - 1 else op.priority)))) :=
  rfl

/-- Operands that can stand for each other where they are brought into AX. -/
structure Exchange (k : Pair) (R : Operand → Operand → Prop) (load load' : Operand → Gen Ty) :
    Prop where
  load : ∀ {P o o'}, R o o' → Agree k P (Same P) (load o) (load' o')
  constant? : ∀ {o o'}, R o o' → o'.constant? = o.constant?
  ty : ∀ {o o'}, R o o' → o'.ty = o.ty
  inAx : ∀ ty, R (.inAx ty) (.inAx ty)
  constant : ∀ value ty, R (.constant value ty) (.constant value ty)

lemma exchange_moved {S : Stretch → Stretch → Prop} (hp : LoadsAlike k S parts parts') :
    Exchange k (Moved S) (loadToAx parts) (loadToAx parts') where
  load h := agree_loadToAx hp h
  constant? h := h.constant?
  ty h := h.ty
  inAx _ := moved_inAx
  constant _ _ := moved_constant

section

variable {R : Operand → Operand → Prop} {load load' : Operand → Gen Ty} {right right' : Gen Operand}

lemma agree_foldOperands (hx : Exchange k R load load') {a b : Constant} {lhs rhs : Ty} :
    Agree k P (With R P) (foldOperands op a b lhs rhs) (foldOperands op a b lhs rhs) := by
  unfold foldOperands
  split
  · exact agree_failConversion
  · split
    · exact .ret (hx.constant _ _)
    · exact .fail

lemma agree_skip : Agree k P (With (Option.Rel (TiedAt k (·.operand))) P)
    ((skipJump? op).mapM jump) ((skipJump? op).mapM jump) := by
  cases skipJump? op with
  | none => exact .ret .none
  | some opcode => exact agree_jump.map fun h => ⟨.some h.1, h.2⟩

lemma agree_joined (hx : Exchange k R load load') (hlhs : R lhs lhs')
    (hright : Agree k P (With R M) right right') :
    Agree k P (With R M) (joined load op lhs right) (joined load' op lhs' right') := by
  refine (hx.load hlhs).then <| agree_skip.with fun skip skip' hskip =>
    agree_pushReg.skip <| (hright.with fun _ _ h => hx.load h).then <|
      agree_popReg.skip <| agree_selectOpcode.then <| agree_write.skip <|
        agree_write.skip @fun _ _ => ?_
  cases hskip with
  | none => exact .ret (hx.inAx _)
  | some h => exact (agree_landHere h).skip <| .ret (hx.inAx _)

lemma agree_rightSide (hx : Exchange k R load load') (hlhs : R lhs lhs')
    (hright : Agree k P (With R M) right right') :
    Agree k P (With R M) (rightSide load op lhs right) (rightSide load' op lhs' right') := by
  unfold rightSide
  rw [hx.constant? hlhs, hx.ty hlhs]
  cases lhs.constant? with
  | none => exact agree_joined hx hlhs hright
  | some a =>
    refine hright.dryRun.with fun (rhs, stop) (rhs', stop') h => ?_
    dsimp only
    rw [hx.constant? h.1, hx.ty h.1]
    cases rhs.constant? with
    | none => exact agree_joined hx hlhs hright
    | some b => exact (agree_setPos h.2).skip <| agree_foldOperands hx

/-! ## The conditional operator -/

def skipped (x : Gen Operand) : Gen Unit := do
  let (_, stop) ← dryRun x
  setPos stop

def chosen (condition : Constant) (second third : Gen Operand) : Gen Operand := do
  if condition.isTrue then
    let chosen ← second
    expect .colon
    skipped third
    return chosen
  else
    skipped second
    expect .colon
    checkThirdArm
    third

def broughtTo (load : Operand → Gen Ty) (ty : Ty) (x : Gen Operand) : Gen Unit := do
  convertAx (← x >>= load) ty

def bothArms (load : Operand → Gen Ty) (condition : Operand) (second third : Gen Operand) :
    Gen Operand := do
  let ((second', third'), _) ← dryRun do
    let second ← second
    expect .colon
    checkThirdArm
    let third ← third
    return (second.ty, third.ty)
  let ty ← match second'.common? third' (← getTypes) with
    | some ty => pure ty
    | none => failConversion third' second'
  checkCondition (← load condition)
  let toThird ← jump .jz
  broughtTo load ty second
  let toEnd ← jump .jmp
  landHere toThird
  expect .colon
  broughtTo load ty third
  landHere toEnd
  return .inAx ty

def arms (load : Operand → Gen Ty) (condition : Operand) (second third : Gen Operand) :
    Gen Operand :=
  match condition.constant? with
  | some value => chosen value second third
  | none => bothArms load condition second third

lemma compileTernary_eq : compileTernary parts o = (do
    let _ ← advance
    if ← eat .colon then
      compileShort parts o
    else
      if ← atExpressionEnd then fail .emptySecondArm
      arms (loadToAx parts) o (parts arm) (parts arm)) :=
  rfl

lemma agree_checkThirdArm (h : Copied k P) :
    Agree k P (Any P) checkThirdArm checkThirdArm :=
  (agree_atExpressionEnd h).then <| .ite .fail <| .ret trivial

lemma agree_skipped (h : Agree k P (With R M) right right') :
    Agree k P (Any M) (skipped right) (skipped right') :=
  h.dryRun.with fun _ _ h => agree_setPos h.2

lemma agree_broughtTo (hx : Exchange k R load load') (h : Agree k P (With R M) right right') :
    Agree k P (Any M) (broughtTo load ty right) (broughtTo load' ty right') :=
  (h.with fun _ _ h => hx.load h).then agree_convertAx

section

variable {second second' third third' : Gen Operand} {Colon Third Stop : Nat → Nat → Prop}
  (hx : Exchange k R load load') (hlhs : R lhs lhs')
  (hsecond : Agree k P (With R Colon) second second')
  (hcolon : Agree k Colon (Any Third) (expect .colon) (expect .colon))
  (hcheck : Agree k Third (Any Third) checkThirdArm checkThirdArm)
  (hthird : Agree k Third (With R Stop) third third')
include hsecond hcolon hcheck hthird

lemma agree_chosen :
    Agree k P (With R Stop) (chosen value second third) (chosen value second' third') := by
  refine .ite ?_ ?_
  · exact hsecond.with fun _ _ h => hcolon.skip <| (agree_skipped hthird).skip <| .ret h
  · exact (agree_skipped hsecond).skip <| hcolon.skip <| hcheck.skip hthird

include hx hlhs

lemma agree_bothArms :
    Agree k P (With R Stop) (bothArms load lhs second third)
      (bothArms load' lhs' second' third') := by
  refine Agree.with (Agree.dryRun (V := fun a b => b = a) (M := Stop) ?_)
    fun (types, stop) (types', stop') h => ?_
  · exact hsecond.with fun _ _ h => hcolon.skip <| hcheck.skip <| hthird.with
      fun _ _ h' => .ret (by rw [hx.ty h, hx.ty h'])
  obtain ⟨rfl, _⟩ : types' = types ∧ Stop stop stop' := h
  refine agree_getTypes.then @fun table => ?_
  split
  · refine Agree.then (M := P) (.ret rfl) @fun ty => ?_
    exact (hx.load hlhs).then <| agree_checkCondition.skip <|
      agree_jump.with fun _ _ hj => (agree_broughtTo hx hsecond).skip <|
        agree_jump.with fun _ _ hj' => (agree_landHere hj).skip <| hcolon.skip <|
          (agree_broughtTo hx hthird).skip <| (agree_landHere hj').skip <| .ret (hx.inAx _)
  · exact .failConversion_bind

lemma agree_arms :
    Agree k P (With R Stop) (arms load lhs second third) (arms load' lhs' second' third') := by
  unfold arms
  rw [hx.constant? hlhs]
  cases lhs.constant? with
  | some value => exact agree_chosen hsecond hcolon hcheck hthird
  | none => exact agree_bothArms hx hlhs hsecond hcolon hcheck hthird

end

end

end AdventureScript.Gen
