import AdventureScript.Proofs.Safety.Access

/-!
Whole expressions fail by a fault of the program only.
-/
namespace AdventureScript.Gen.Safety

variable {α β : Type} {m : Mode} {base : State} {n p start priority : Nat} {parts : Parts}
  {ty element : Ty} {o lhs : Operand} {part : Part} {I J : State → Prop} {op : UnaryOp}
  {Q : α → Nat → Prop} {isConst : Bool} {T : β → Nat → Prop} {mark : Symbol}

lemma calmly_baseOf {t : Token} :
    Calmly m base n p (baseOf t isConst) fun _ q =>
      (t.kind.isOpener = false ∧ t.kind.isCloser = false) ∧ q = p := by
  unfold baseOf
  split <;> rename_i hk
  case h_7 => exact .getOptions (.unless nofun <| .ret ⟨by simp [hk]; decide, rfl⟩)
  case h_8 =>
    refine .getSymbols ?_
    split
    · refine .getTypes ?_
      split <;> exact .ret ⟨by simp [hk]; decide, rfl⟩
    · exact .fail nofun
    · exact .fail nofun
  all_goals first | exact .fail nofun | exact .ret ⟨by simp [hk]; decide, rfl⟩

lemma calmly_structOf? {b : Base} : Quiet m base n p (structOf? b) := by
  unfold structOf?
  split
  · exact .getTypes (.ret rfl)
  · exact .ret rfl

lemma Sure.atEmptyBrackets {f : Bool → Gen β}
    (h : ∀ b : Bool, (b = true → (m.c.tokens.get p).kind = .symbol .leftBracket ∧
      (m.c.tokens.get (p + 1)).kind = .symbol .rightBracket) → Sure m I J p (f b) T) :
    Sure m I J p (atEmptyBrackets >>= f) T := by
  unfold Gen.atEmptyBrackets
  simp only [bind_assoc]
  refine .seeKind fun b hb => .peekAt (h _ fun hboth => ?_)
  obtain ⟨hopen, hclose⟩ := Bool.and_eq_true_iff.1 hboth
  exact ⟨hb.1 hopen, of_decide_eq_true hclose⟩

lemma sure_declaredName? {ahead : Nat} : Sure m I I p (declaredName? ahead) fun _ q => q = p :=
  .peekAt (.ret rfl)

lemma sure_dynamicArrayOf {name? : Option String} :
    Sure m I I p (dynamicArrayOf ty name?) fun ty q => ty.isStaticArray = false ∧ q = p :=
  .unless nofun <| .ite (sure_textOf.then <| .fail_bind nofun) <| .ret ⟨rfl, rfl⟩

lemma calmly_parseType (hs : m.c.tokens.Sealed) :
    Calmly m base n p (parseType isConst) fun ty q =>
      m.c.tokens.Nested p q ∧ ty.isStaticArray = false := by
  refine .advance (calmly_baseOf.with fun b hplain => calmly_structOf?.then @fun struct => ?_)
  have hbase := Stream.Nested.token hs rfl hplain.1 hplain.2
  refine Sure.bind (sure_eat (Q := fun _ => m.c.tokens.Nested p)
    (fun hstar => hbase.trans (.token hs hstar rfl rfl)) fun _ => hbase) fun starred q hq => ?_
  refine .ite (.atEmptyBrackets fun _ _ => sure_declaredName?.then <|
    sure_textOf.then <| .fail_bind nofun) ?_
  refine .atEmptyBrackets fun b hb => .dite (fun hempty => ?_) fun _ => .ret ⟨hq, rfl⟩
  exact .advance (.advance (sure_declaredName?.then <| sure_dynamicArrayOf.mono fun h =>
    ⟨h.2 ▸ hq.trans (.emptyBrackets hs (hb hempty).1 (hb hempty).2), h.1⟩))

lemma calmly_compileNewObject (hty : element.isStaticArray = false) {struct : Option StructDef} :
    Calmly m base n p (compileNewObject element struct) fun o q =>
      (m.strict → o.Fits base.symbols start) ∧ q = p :=
  (sure_orFail (by nofun)).with fun _ _ => .unless nofun <| calmly_emit.then <|
    calmly_clobberAx.then <| .ret ⟨fun _ => Operand.fits_inAx hty, rfl⟩

/-! ## Checks and folding -/

lemma calmly_failOperator : Calmly m base n p (failOperator op ty) Q :=
  sure_textOf.then <| .fail nofun

lemma Sure.unlessOperator {q : Prop} [Decidable q] {x : Gen α}
    (h : ¬q → Calmly m base n p x Q) {g : β → Gen α} :
    Calmly m base n p (if q then failOperator op ty >>= g else x) Q :=
  .dite (fun _ => calmly_failOperator (Q := fun _ _ => False) |>.bind fun _ _ => False.elim) h

lemma not_static_arithmeticType : (arithmeticType ty).isStaticArray = false := by
  unfold arithmeticType
  split <;> rfl

lemma calmly_foldUnaryOperand {value : Constant} :
    Calmly m base n p (foldUnaryOperand op value ty) fun o q =>
      (m.strict → o.Fits base.symbols start) ∧ q = p := by
  refine .unlessOperator fun _ => ?_
  split
  · refine .ret ⟨fun _ => Operand.fits_constant ?_, rfl⟩
    split
    · rfl
    · exact not_static_arithmeticType
  · exact .fail nofun

lemma calmly_emitUnary :
    Calmly m base n p (emitUnary op ty) fun o q =>
      (m.strict → o.Fits base.symbols start) ∧ q = p := by
  cases op with
  | neg =>
    exact .unlessOperator fun _ => calmly_litToReg.then <| calmly_emitRegs.then <|
      calmly_emitRegs.then <| .ret ⟨fun _ => Operand.fits_inAx not_static_arithmeticType, rfl⟩
  | not =>
    exact .unlessOperator fun _ => calmly_emitRegs.then <|
      .ret ⟨fun _ => Operand.fits_inAx rfl, rfl⟩
  | bitNot =>
    exact .unlessOperator fun _ => calmly_litToReg.then <| calmly_emitRegs.then <|
      calmly_emitRegs.then <| .ret ⟨fun _ => Operand.fits_inAx rfl, rfl⟩

lemma Gives.stay {q r : Nat} {o' : Operand} (h : Gives m base start p o q)
    (h' : (m.strict → o'.Fits base.symbols start) ∧ r = q) : Gives m base start p o' r :=
  ⟨h'.2 ▸ h.1, h'.1⟩

lemma calmly_foldOperands {op : BinaryOp} {a b : Constant} {rhs : Ty} :
    Calmly m base n p (foldOperands op a b ty rhs) fun o q =>
      (m.strict → o.Fits base.symbols start) ∧ q = p := by
  unfold foldOperands
  split
  · exact calmly_failConversion
  · next hty =>
    split
    · refine .ret ⟨fun _ => Operand.fits_constant ?_, rfl⟩
      unfold BinaryOp.foldedType? at hty
      simp only at hty
      split at hty
      · cases hty
      · split at hty <;> cases hty <;> rfl
    · exact .fail nofun

lemma sure_checkThirdArm : Sure m I I p checkThirdArm fun _ q => q = p :=
  .atExpressionEnd fun _ => .ite (.fail nofun) <| .ret rfl

lemma calmly_skipArm (hr : Reliable m base start parts) (hlt : m.strict → start < p) :
    Calmly m base n p (skipArm parts) fun _ q => m.c.tokens.Nested p q := by
  exact (calmly_dryRun fun _ _ => hr hlt).with fun (_, stop) h => sure_setPos.mono fun hq =>
    hq ▸ h.1

lemma nested_colon (hs : m.c.tokens.Sealed) {q : Nat} (h : m.c.tokens.Nested p q)
    (hk : (m.c.tokens.get q).kind = .symbol .colon) :
    m.c.tokens.Nested p (m.c.tokens.after q) :=
  h.trans (.token hs hk rfl rfl)

section

variable (hf : Fit m base) (hr : Reliable m base start parts)
include hf hr

section

variable (hlt : m.strict → start < p)
include hlt

lemma calmly_compileNewArray {managed : Bool} :
    Calmly m base n p (compileNewArray parts element managed) fun o q =>
      ∃ r, m.c.tokens.Nested p r ∧ (m.c.tokens.get r).kind = .symbol .rightBracket ∧
        q = m.c.tokens.after r ∧ (m.strict → o.Fits base.symbols start) := by
  refine .unless nofun <| (calmly_partToAx hf hr hlt).bind fun count r h => ?_
  refine .ite (sure_textOf.then <| .fail_bind nofun) ?_
  exact .expect fun hclose => .getTypes (calmly_emit.then <| calmly_clobberAx.then <|
    .ret ⟨r, h.1, hclose, rfl, fun _ => Operand.fits_inAx rfl⟩)

omit hlt in
lemma calmly_compileNew
    (hle : m.strict → start ≤ p) (hk : (m.c.tokens.get p).kind = .keyword .kwNew) :
    Calmly m base n p (compileNew parts) (Gives m base start p) := by
  refine .advance ((calmly_parseType hf.closed).bind fun element q h => calmly_structOf?.then
    @fun struct => ?_)
  have hnew : m.c.tokens.Nested p (m.c.tokens.after p) :=
    .token hf.closed hk rfl rfl
  have hq := hnew.trans h.1
  refine .eat (fun ho => ?_) fun _ => (calmly_compileNewObject h.2).mono fun h' => ⟨h'.2 ▸ hq, h'.1⟩
  have hlt : q < m.c.tokens.after q := lt_after (by simp [ho])
  refine (calmly_compileNewArray hf hr fun hs => ?_).mono fun {o r} h' => ?_
  · exact lt_of_le_of_lt (le_trans (hle hs) hq.1) hlt
  · obtain ⟨r, hr, hclose, rfl, ho'⟩ := h'
    exact ⟨hq.trans (.group hf.closed ho rfl hr hclose rfl), ho'⟩

omit hlt in
lemma calmly_compileOperand (hle : m.strict → start ≤ p) :
    Calmly m base n p (compileOperand parts) (Gives m base start p) := by
  refine .peek ?_
  split <;> rename_i hk
  case h_1 n =>
    exact .advance ((sure_orFail (by nofun)).with fun _ _ => .ret ⟨.token hf.closed hk rfl rfl,
      fun _ => Operand.fits_constant rfl⟩)
  case h_2 x =>
    exact .advance (.ret ⟨.token hf.closed hk rfl rfl, fun _ => Operand.fits_constant rfl⟩)
  case h_3 bytes =>
    exact .advance (calmly_stringToAx.then <| .ret ⟨.token hf.closed hk rfl rfl, fun _ =>
      Operand.fits_inAx rfl⟩)
  case h_4 =>
    exact .advance (.ret ⟨.token hf.closed hk rfl rfl, fun _ => Operand.fits_constant rfl⟩)
  case h_5 =>
    have hlt : p < m.c.tokens.after p := lt_after (by simp [hk])
    refine .advance ((hr fun hs => lt_of_le_of_lt (hle hs) hlt).bind fun o q ho =>
      .expect fun hclose => ?_)
    have hgroup := Stream.Nested.group hf.closed hk rfl ho.1 hclose rfl
    exact (calmly_compileChain hf hr (fun hs => le_trans (hle hs) hgroup.1) ho.2).mono
      fun h => ⟨hgroup.trans h.1, h.2⟩
  case h_6 => exact calmly_compileNew hf hr hle hk
  case h_7 => exact calmly_compileAccess hf hr hle
  case h_8 => exact calmly_compileAccess hf hr hle
  case h_9 => exact .fail nofun

lemma calmly_compileUnary : Calmly m base n p (compileUnary parts op) (Gives m base start p) := by
  refine .seeKind fun b hb => .dite (fun h => ?_) fun _ => ?_
  · have hk := hb.1 (Bool.and_eq_true_iff.1 h).2
    exact .advance (.ret ⟨.token hf.closed hk rfl rfl, fun _ => Operand.fits_constant rfl⟩)
  · refine .atExpressionEnd fun _ => .unless nofun <| (hr hlt).bind fun o q ho => ?_
    split
    · exact calmly_foldUnaryOperand.mono ho.stay
    · exact (calmly_loadToAx hf hr ho.2).with fun _ _ => calmly_emitUnary.mono ho.stay

omit hlt in
lemma calmly_compilePrefixed (hle : m.strict → start ≤ p) :
    Calmly m base n p (compilePrefixed parts) (Gives m base start p) := by
  refine .peek ?_
  split
  · exact .fail nofun
  · exact .fail nofun
  · next mark _ _ hk =>
    split
    · next op hop =>
      obtain ⟨ho, hc⟩ := UnaryOp.bracket_of_ofSymbol? hop
      have hmark := Stream.Nested.token hf.closed hk ho hc
      have hlt : p < m.c.tokens.after p := lt_after (by simp [hk])
      exact .advance ((calmly_compileUnary hf hr fun hs => lt_of_le_of_lt (hle hs) hlt).mono
        fun h => ⟨hmark.trans h.1, h.2⟩)
    · exact calmly_compileOperand hf hr hle
  · exact calmly_compileOperand hf hr hle

omit hf hr hlt in
lemma Sure.jumpIf {opcode? : Option Opcode} {f : Option PendingJump → Gen β}
    (h : ∀ skip n', (∀ j ∈ skip, j.operand < n') → Calmly m base n' p (f skip) T) :
    Calmly m base n p (opcode?.mapM Gen.jump >>= f) T := by
  cases opcode? with
  | none => exact h none n (by simp)
  | some opcode =>
    simp only [Option.mapM_some, bind_map_left]
    exact .jump fun j n' hj _ => h (some j) n' (by simpa using hj)

lemma calmly_emitBinary (ho : m.strict → lhs.Fits base.symbols start) {op : BinaryOp} :
    Calmly m base n p (emitBinary parts op lhs part) (Gives m base start p) := by
  refine (calmly_loadToAx hf hr ho).with fun lhsType _ => .jumpIf fun skip n' hskip => ?_
  refine calmly_pushReg.then <| (calmly_partToAx hf hr hlt).bind fun rhsType q hq =>
    calmly_popReg.then <| calmly_selectOpcode.with fun (opcode, ty) hty =>
      calmly_emitRegs.then <| calmly_emitRegs.then @fun _ => ?_
  have hend : Gives m base start p (.inAx ty) q := ⟨hq.1, fun _ => Operand.fits_inAx hty⟩
  cases skip with
  | none => exact .ret hend
  | some j => exact (calmly_landHere (hskip j rfl)).then <| .ret hend

lemma calmly_compileRightSide (ho : m.strict → lhs.Fits base.symbols start) {op : BinaryOp} :
    Calmly m base n p (compileRightSide parts op lhs) (Gives m base start p) := by
  refine .atExpressionEnd fun _ => .unless nofun <| .getOptions ?_
  cases lhs.constant? with
  | none => exact calmly_emitBinary hf hr hlt ho
  | some a =>
    refine (calmly_dryRun fun _ _ => hr hlt).with fun (rhs, stop) h => ?_
    have hright : Gives m base start p rhs stop := h
    dsimp only
    split
    · exact .setPos (calmly_foldOperands.mono hright.stay)
    · exact calmly_emitBinary hf hr hlt ho

/-! ## The conditional operator -/

lemma calmly_armToAx : Calmly m base n p (armToAx parts ty) fun _ q =>
      m.c.tokens.Nested p q ∧ (m.strict → ty.isStaticArray = false) :=
  (calmly_partToAx hf hr hlt).bind fun _ _ h => calmly_convertAx.mono fun h' =>
    ⟨h'.2 ▸ h.1, fun hs => Ty.not_static_of_convertsTo h'.1 (h.2 hs)⟩

lemma calmly_armTypes : Calmly m base n p (armTypes parts) fun _ _ => True := by
  refine (hr hlt).bind fun _ q h => .expect fun hk => sure_checkThirdArm.then @fun _ => ?_
  have hcolon := nested_colon hf.closed h.1 hk
  exact (hr fun hs => lt_of_lt_of_le (hlt hs) hcolon.1).bind fun _ _ _ => .ret trivial

lemma calmly_compileChosen {condition : Constant} :
    Calmly m base n p (compileChosen parts condition) (Gives m base start p) := by
  have hnext {q : Nat} (h : m.c.tokens.Nested p q) (hs : m.strict) : start < q :=
    lt_of_lt_of_le (hlt hs) h.1
  refine .ite ?_ ?_
  · refine (hr hlt).bind fun chosen q h => .expect fun hk => ?_
    have hcolon := nested_colon hf.closed h.1 hk
    exact (calmly_skipArm hr (hnext hcolon)).bind fun _ _ h' => .ret ⟨hcolon.trans h', h.2⟩
  · refine (calmly_skipArm hr hlt).bind fun _ q h => .expect fun hk => Sure.then sure_checkThirdArm
      @fun _ => ?_
    have hcolon := nested_colon hf.closed h hk
    exact (hr (hnext hcolon)).mono fun h' => ⟨hcolon.trans h'.1, h'.2⟩

lemma calmly_compileArms (ho : m.strict → o.Fits base.symbols start) :
    Calmly m base n p (compileArms parts o) (Gives m base start p) := by
  refine (calmly_dryRun fun _ _ => calmly_armTypes hf hr hlt).with fun ((second, third), _) _ =>
    .getTypes ?_
  split
  · rw [pure_bind]
    refine (calmly_loadToAx hf hr ho).with fun _ _ => calmly_checkCondition.then <|
      .jump fun toThird n1 h1 _ => (calmly_armToAx hf hr hlt).bind fun _ q h => ?_
    refine .jump fun toEnd n2 h2 hn => (calmly_landHere (lt_of_lt_of_le h1 hn)).then <|
      .expect fun hk => ?_
    have hcolon := nested_colon hf.closed h.1 hk
    exact (calmly_armToAx hf hr fun hs => lt_of_lt_of_le (hlt hs) hcolon.1).bind fun _ _ h' =>
      (calmly_landHere h2).then <| .ret ⟨hcolon.trans h'.1, fun hs => Operand.fits_inAx (h.2 hs)⟩
  · exact Sure.bind (Q := fun _ _ => False) calmly_failConversion fun _ _ => False.elim

lemma calmly_compileShort (ho : m.strict → o.Fits base.symbols start) :
    Calmly m base n p (compileShort parts o) (Gives m base start p) := by
  refine sure_checkThirdArm.then @fun _ => ?_
  split
  · exact .ite ((calmly_skipArm hr hlt).bind fun _ _ h => .ret ⟨h, ho⟩) <| hr hlt
  · refine (calmly_loadToAx hf hr ho).with fun ty hty => calmly_checkCondition.then <|
      .jump fun toEnd n' hj _ => (calmly_armToAx hf hr hlt).bind fun _ q h =>
        (calmly_landHere hj).then <| .ret ⟨h.1, fun hs => Operand.fits_inAx (hty hs)⟩

end

lemma calmly_compileTernary
    (hle : m.strict → start ≤ p) (hk : (m.c.tokens.get p).kind = .symbol .question)
    (ho : m.strict → o.Fits base.symbols start) :
    Calmly m base n p (compileTernary parts o) fun o q => Gives m base start p o q ∧ p < q := by
  have hmark := Stream.Nested.token hf.closed hk rfl rfl
  have hlt : p < m.c.tokens.after p := lt_after (by simp [hk])
  have hlt' (hs : m.strict) : start < m.c.tokens.after p := lt_of_le_of_lt (hle hs) hlt
  have hend {q r : Nat} {o : Operand} (hq : m.c.tokens.Nested (m.c.tokens.after p) q)
      (h : Gives m base start q o r) : Gives m base start p o r ∧ p < r :=
    ⟨⟨hmark.trans (hq.trans h.1), h.2⟩, lt_of_lt_of_le hlt (le_trans hq.1 h.1.1)⟩
  refine .advance (.eat (fun hcolon => ?_) fun _ => ?_)
  · have hshort := nested_colon hf.closed .refl hcolon
    exact (calmly_compileShort hf hr (fun hs => lt_of_lt_of_le (hlt' hs) hshort.1) ho).mono
      (hend hshort)
  · refine .atExpressionEnd fun _ => .unless nofun ?_
    split
    · exact (calmly_compileChosen hf hr hlt').mono (hend .refl)
    · exact (calmly_compileArms hf hr hlt' ho).mono (hend .refl)

/-! ## Parts -/

lemma calmly_compileOperator
    (hle : m.strict → start ≤ p) (ho : m.strict → lhs.Fits base.symbols start) :
    Calmly m base n p (compileOperator parts priority lhs) (Turns m p (Gives m base start p)
      (Gives m base start p)) := by
  refine .peek ?_
  have hstay : Gives m base start p lhs p := ⟨.refl, ho⟩
  split
  · next hk =>
    refine .ite (.ret hstay) <| (calmly_compileTernary hf hr hle hk ho).bind
      fun _ _ h => .ret ⟨?_, h.1⟩
    exact left_of_le hf.closed (le_refl p) (by simp [hk]) h.2
  · next mark _ hk =>
    split
    · exact .ret hstay
    · next op hop =>
      obtain ⟨hopen, hclose⟩ := BinaryOp.bracket_of_ofSymbol? (Option.filter_eq_some_iff.1 hop).1
      have hmark := Stream.Nested.token hf.closed hk hopen hclose
      have hlt : p < m.c.tokens.after p := lt_after (by simp [hk])
      refine .advance ((calmly_compileRightSide hf hr (fun hs => lt_of_le_of_lt (hle hs) hlt)
        ho).bind fun _ _ h => .ret ⟨?_, hmark.trans h.1, h.2⟩)
      exact left_of_le hf.closed (le_refl p) (by simp [hk]) (lt_of_lt_of_le hlt h.1.1)
  · exact .ret hstay

lemma calmly_compileOperators (hle : m.strict → start ≤ p) :
    Calmly m base n p (compileOperators parts priority) (Gives m base start p) := by
  refine (calmly_compilePrefixed hf hr hle).bind fun first q h => ?_
  refine Sure.bind (Q := Gives m base start p) (sure_rounds (P := Gives m base start p)
    (fun o r ho => ?_) h) fun o r ho => .peek (.unless nofun <| .ret ho)
  refine (calmly_compileOperator hf hr (fun hs => le_trans (hle hs) ho.1.1) ho.2).mono
    fun {round r'} hround => ?_
  cases round with
  | again o' => exact ⟨hround.1, ho.1.trans hround.2.1, hround.2.2⟩
  | done o' => exact ⟨ho.1.trans hround.1, hround.2⟩

lemma calmly_compileArgument (hle : m.strict → start ≤ p) {stop : Nat} :
    Calmly m base n p (compileArgument parts stop) (Gives m base start p) := by
  refine (calmly_compileOperators hf hr hle).bind fun o q h => .getPos (.ite ?_ ?_)
  · exact .peek (.fail_bind nofun)
  · exact (calmly_loadToAx hf hr h.2).with fun _ hty => .ret ⟨h.1, fun hs =>
      Operand.fits_inAx (hty hs)⟩

lemma calmly_compileWith (hle : m.strict → start ≤ p) :
    Calmly m base n p (compileWith parts part) (Gives m base start p) := by
  cases part with
  | prefixed => exact calmly_compilePrefixed hf hr hle
  | upTo priority => exact calmly_compileOperators hf hr hle
  | argument stop => exact calmly_compileArgument hf hr hle

end

lemma calmly_compileWith_end (hk : (m.c.tokens.get p).kind = .endOfInput) {Q : Operand → Nat → Prop} :
    Calmly m base n p (compileWith parts part) Q := by
  have hnone : Calmly m base n p (compilePrefixed parts) fun _ _ => False := by
    refine .peek ?_
    rw [hk]
    refine .peek ?_
    rw [hk]
    exact .fail nofun
  have hnone' {priority : Nat} : Calmly m base n p (compileOperators parts priority)
      fun _ _ => False :=
    hnone.bind fun _ _ => False.elim
  cases part with
  | prefixed => exact hnone.mono False.elim
  | upTo priority => exact hnone'.mono False.elim
  | argument stop => exact hnone'.bind fun _ _ => False.elim

lemma Sure.tokensLeft {f : Nat → Gen β}
    (h : Sure m I J p (f (m.c.tokens.size - p)) T) : Sure m I J p (tokensLeft >>= f) T := by
  unfold Gen.tokensLeft
  simp only [bind_assoc, pure_bind]
  exact .tokenCount (.getPos h)

lemma reliable_below {limit : Nat} (hlimit : m.strict → ∀ q, start < q →
      m.c.tokens.size - q < limit)
    (h : ∀ {part n p}, (m.strict → start < p) →
      Calmly m base n p (parts part) (Gives m base start p)) :
    Reliable m base start (below limit parts) := by
  refine fun {part n p} hp => .tokensLeft (.dite (fun _ => h hp) fun hlt => ?_)
  exact ⟨fun _ _ _ hs => absurd (hlimit hs p (hp hs)) hlt⟩

lemma calmly_compilePart (hf : Fit m base) {depth : Nat}
    (hdepth : m.strict → m.c.tokens.size - p < depth) :
    Calmly m base n p (compilePart depth part) (Gives m base p p) := by
  induction depth generalizing n p part with
  | zero => exact ⟨fun _ _ _ hs => absurd (hdepth hs) (Nat.not_lt_zero _)⟩
  | succ depth ih =>
    refine .tokensLeft ?_
    by_cases hk : (m.c.tokens.get p).kind = .endOfInput
    · exact calmly_compileWith_end hk
    · have hlt := hf.closed.lt_size hk
      have hsize : m.c.tokens.size = m.c.tokens.body.size + 1 := rfl
      refine calmly_compileWith hf (reliable_below (fun _ q hq => by omega) fun {part n q} hq => ?_)
        fun _ => le_refl p
      refine (ih fun hs => ?_).mono fun h => ⟨h.1, fun hs => (h.2 hs).later (le_of_lt (hq hs))⟩
      have := hdepth hs
      have := hq hs
      omega

lemma reliable_compilePart (hf : Fit m base) :
    Reliable m base 0 (compilePart (m.c.tokens.size + 1)) :=
  fun _ => (calmly_compilePart hf fun _ => by omega).mono fun h =>
    ⟨h.1, fun hs => (h.2 hs).later (Nat.zero_le _)⟩

lemma Sure.withParts {f : Parts → Gen α}
    (h : Sure m I J p (f (compilePart (m.c.tokens.size + 1))) Q) : Sure m I J p (withParts f) Q :=
  .tokenCount h

lemma calmly_expression (hf : Fit m base) :
    Calmly m base n p expression (Gives m base 0 p) :=
  .withParts ((calmly_compilePart hf fun _ => by omega).mono fun h =>
    ⟨h.1, fun hs => (h.2 hs).later (Nat.zero_le _)⟩)

lemma calmly_toAx (hf : Fit m base) (ho : m.strict → o.Fits base.symbols 0) :
    Calmly m base n p (toAx o) (Loaded m p) :=
  .withParts (calmly_loadToAx hf (reliable_compilePart hf) ho)

lemma calmly_expressionToAx (hf : Fit m base) :
    Calmly m base n p expressionToAx fun ty q =>
      m.c.tokens.Nested p q ∧ (m.strict → ty.isStaticArray = false) :=
  (calmly_expression hf).bind fun _ _ ho => (calmly_toAx hf ho.2).mono fun h => ⟨h.2 ▸ ho.1, h.1⟩

lemma calmly_constantExpression? (hf : Fit m base) :
    Calmly m base n p constantExpression? fun r q => r.isSome = true → m.c.tokens.Nested p q := by
  refine (calmly_dryRun fun _ _ => calmly_expression hf).with fun (o, stop) h => ?_
  have hstop : m.c.tokens.Nested p stop := h.1
  dsimp only
  split
  · exact .setPos (.ret fun _ => hstop)
  · exact .ret nofun

end AdventureScript.Gen.Safety
