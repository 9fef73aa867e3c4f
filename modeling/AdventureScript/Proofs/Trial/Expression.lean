import AdventureScript.Proofs.Trial.Basic

/-!
Expressions and the targets of assignments only write code, whether they are accepted or not.
-/
namespace AdventureScript.Gen

variable {k : Prop} {b : State} {parts : Parts} {place : Place} {ty source target : Ty}
  {o : Operand} {id : FuncId} {f : FuncDef} {name : String} {op : BinaryOp} {part : Part} {α : Type}
  {object : Option Place} {given : List Argument} {owner : TypeId} {isConst : Bool}
  {count factor : Int32} {g : Option Checkpoint → Gen α} {priority : Nat}

lemma adds_addToMar {bytes : Int32} : Adds k b (addToMar bytes) :=
  .ite (adds_emit fun _ => rfl) adds_pure

lemma adds_loadAddress : Adds k b (loadAddress place) := by
  unfold loadAddress
  cases place.anchor with
  | global offset => exact .literal fun _ _ hs => ends_fixupLast hs
  | «local» offset => exact adds_loadLocal
  | imported id =>
    exact adds_globalAt.then <| adds_importToReg.then adds_addToMar
  | this =>
    exact .write (fun _ => rfl) <| .write (fun _ => rfl) adds_addToMar
  | mar => exact adds_addToMar

lemma adds_readAx : Adds False b (readAx ty) :=
  adds_getTypes.then <| adds_emitRegs False.elim

lemma adds_failConversion : Adds k b (failConversion source target : Gen α) :=
  adds_textOf.then <| adds_textOf.then adds_fail

lemma adds_emitConversion : Adds False b (emitConversion source target) := by
  refine adds_getTypes.then <| .ite (adds_emitRegs False.elim) adds_pure

lemma adds_convertAx : Adds False b (convertAx source target) :=
  .unless <| adds_getTypes.then <| .ite (adds_failConversion.then adds_emitConversion)
      adds_emitConversion

lemma adds_checkCondition : Adds k b (checkCondition ty) :=
  .ite (adds_textOf.then adds_fail) adds_pure

lemma adds_selectOpcode {lhs rhs : Ty} : Adds k b (selectOpcode op lhs rhs) := by
  refine adds_getTypes.bind fun types => ?_
  cases op.select lhs rhs types with
  | ok result => exact adds_pure
  | error e =>
    cases e with
    | void => exact adds_fail
    | onStrings => exact adds_fail
    | onFloats => exact adds_fail
    | onPointers => exact adds_fail
    | mismatch => exact adds_failConversion

lemma adds_structOf? {base : Base} : Adds k b (structOf? base) := by
  cases base with
  | struct id => exact adds_getTypes.value
  | _ => exact adds_pure

lemma adds_baseOf {t : Token} : Adds k b (baseOf t isConst) := by
  unfold baseOf
  split
  case h_7 => exact adds_getOptions.then <| .unless adds_pure
  case h_8 =>
    refine adds_getSymbols.bind fun _ => ?_
    split
    · refine adds_getTypes.bind fun _ => ?_
      split
      · exact adds_pure
      · exact adds_pure
    · exact adds_fail
    · exact adds_fail
  case h_9 => exact adds_fail
  all_goals exact adds_pure

lemma adds_atEmptyBrackets : Adds k b atEmptyBrackets :=
  adds_checkKind.then adds_peekAt.value

lemma adds_declaredName? {ahead : Nat} : Adds k b (declaredName? ahead) :=
  adds_peekAt.value

lemma adds_dynamicArrayOf {name? : Option String} : Adds k b (dynamicArrayOf ty name?) :=
  .unless <| .ite (adds_textOf.then adds_fail.value)
    adds_pure

lemma adds_parseType : Adds k b (parseType isConst) := by
  refine adds_advance.bind fun t => adds_baseOf.bind fun base => adds_structOf?.bind fun struct =>
    ?_
  refine adds_eatKind.bind fun starred => ?_
  refine .ite ?_ <| adds_atEmptyBrackets.then <| .ite ?_ adds_pure
  · refine adds_atEmptyBrackets.then <| adds_declaredName?.then ?_
    exact adds_textOf.then .fail_bind
  · exact adds_advance.then <| adds_advance.then <| adds_declaredName?.then adds_dynamicArrayOf

/-! ## Calls -/

lemma adds_scanArguments : Adds k b scanArguments := by
  refine adds_expect.then <| adds_eatKind.then <| .ite adds_pure ?_
  refine Adds.then (adds_rounds fun given => ?_) adds_pure
  refine adds_getPos.then <| adds_findAtDepthZero.then <| .unless ?_
  refine adds_setPos.then <| adds_eatKind.then <| .ite adds_pure ?_
  exact adds_expect.value

lemma adds_loadDefault {value : Default} : Adds k b (loadDefault value) := by
  cases value with
  | int value => exact adds_litToReg.value
  | float value => exact adds_litToReg.value
  | null => exact adds_litToReg.value
  | string bytes => exact adds_stringToAx.value

lemma adds_emitCallInstruction : Adds False b (emitCallInstruction id f count) := by
  refine .ite ?_ ?_
  · refine .write (fun _ => rfl) <| adds_importToReg.then <|
      .write False.elim ?_
    exact .ite (adds_emit fun _ => rfl) adds_pure
  · refine .literal fun c s hs => ?_
    have hcall : Adds False b (emitRegs .call [.ax] >>= fun _ => release (count * cell)) :=
      .write False.elim adds_release
    -- The word of the literal gets its fixup, and then it may wait for the function.
    refine ends_bind_of_runs (a := ()) (runs_fixupLast.2 rfl) (by exact fun h => h) ?_
    by_cases hnone : f.codeOffset.isNone = true
    · rw [if_pos hnone]
      exact ends_bind_of_runs (a := ()) (runs_modify.2 rfl) (by exact fun h =>
        h) (hcall c _ hs.fixup.noteCall.toSince)
    · rw [if_neg hnone]
      exact hcall c _ hs.fixup.toSince

lemma Adds.saveObject
    (hsome : ∀ b, Adds k b (g (some b.script.checkpoint))) (hnone : Adds k b (g none)) :
    Adds k b (saveObject f object >>= g) := by
  unfold Gen.saveObject
  by_cases hobject : f.needsObject = true
  · rw [if_pos hobject]
    simp only [bind_assoc, pure_bind]
    refine adds_orFail.then <| adds_loadAddress.then <| .checkpoint fun b => ?_
    exact adds_pushReg.then <| hsome b
  · rw [if_neg hobject]
    exact hnone

lemma adds_passObject : Adds k b (passObject b.script.checkpoint f count) := by
  refine .ite ?_ ?_
  · exact adds_restore.then <| adds_adjustStack.then <| adds_emitRegs fun _ => rfl
  · exact .write (fun _ => rfl) <| .write (fun _ => rfl) <|
      adds_emitRegs fun _ => rfl

lemma adds_keepingThis {call : Gen Unit} (h : Adds k b call) : Adds k b (keepingThis f call) := by
  refine adds_hasThis.then <| .ite ?_ h
  exact adds_pushReg.then <| h.then <| adds_popReg fun _ => rfl

lemma adds_getCells : Adds k b (getCells f given) := by
  unfold getCells
  cases f.cells given with
  | ok cells => exact adds_pure
  | error fault => exact adds_fail

lemma loads_emitCall : Loads (emitCall parts id object given) := by
  refine .then <| .then <| .then <| .then <| .then ?_
  intro _ c s a t h
  obtain ⟨_, _, rfl, _, _, rfl, rfl, _⟩ := h
  rfl

lemma adds_loadPlace : Adds False b (loadPlace place ty) := by
  refine .unless <| .ite ?_ ?_
  · refine adds_getTypes.then <| .unless <| adds_loadAddress.then ?_
    exact Adds.value (adds_emitRegs False.elim)
  · refine adds_loadAddress.then <| .ite ?_ ?_
    · exact Adds.value (adds_emitRegs False.elim)
    · exact adds_readAx.value

lemma loads_clobberAx {a : α} : Loads (clobberAx >>= fun _ => pure a) := by
  intro c s _ t h
  obtain ⟨_, _, rfl, rfl, _⟩ := h
  rfl

lemma loads_loadToAx : Loads (loadToAx parts o) := by
  unfold loadToAx
  split
  · exact .then loads_clobberAx
  · exact loads_clobberAx
  · exact .then loads_clobberAx
  · exact .then loads_clobberAx
  · exact .then loads_clobberAx

lemma loads_partToAx : Loads (partToAx parts part) :=
  .then loads_loadToAx

lemma Adds.saveMar {g : Checkpoint → Gen α} (hg : ∀ b, Adds k b (g b.script.checkpoint)) :
    Adds k b (saveMar >>= g) := by
  unfold Gen.saveMar
  simp only [bind_assoc, pure_bind]
  exact .checkpoint fun b => adds_pushReg.then <| hg b

lemma adds_unsaveMar : Adds k b (unsaveMar b.script.checkpoint) :=
  adds_restore.then adds_adjustStack

lemma loads_indexToAx : Loads (indexToAx parts o) := by
  intro c s a t h
  obtain ⟨_, t', h, hrest⟩ := runs_bind.1 h
  obtain ⟨_, rfl⟩ : _ ∧ t = t' := by simpa using hrest
  exact loads_loadToAx _ _ _ _ h

lemma adds_scaleAx : Adds False b (scaleAx factor) :=
  .ite (adds_emit False.elim) adds_pure

lemma Adds.saveMarIf {q : Prop} [Decidable q]
    (hg : ∀ b saved, (∀ k ∈ saved, k = b.script.checkpoint) → Adds k b (g saved)) :
    Adds k b (if q then some <$> Gen.saveMar >>= g else pure none >>= g) := by
  refine .ite ?_ <| hg b none (by simp)
  rw [map_eq_pure_bind, bind_assoc]
  exact .saveMar fun b => hg b (some b.script.checkpoint) (by simp)

lemma adds_isInside : Adds k b (isInside owner) :=
  adds_getTypes.then adds_currentStruct?.value

lemma adds_compileField {field : Field} : Adds k b (compileField owner field object name) :=
  adds_orFail.then <| adds_isInside.then <| .unless adds_pure

lemma adds_bracketed : Adds k b bracketed :=
  adds_expect.then <| adds_getPos.then <| adds_findAtDepthZero.then <|
    adds_setPos.then adds_expect.value

lemma adds_compileAttribute {attr : Attribute} : Adds k b (compileAttribute attr object name) :=
  .unless <| .ite adds_bracketed.map.value adds_pure

lemma adds_findComponent : Adds k b (findComponent owner name) :=
  adds_getTypes.then adds_orFail

lemma adds_compileLocal {v : Variable} : Adds k b (compileLocal v) :=
  .ite (adds_loadLocal.then <| Adds.value (adds_emitRegs fun _ => rfl))
    adds_pure

lemma adds_compileGlobal {id : GlobalId} : Adds k b (compileGlobal id) := by
  refine adds_globalAt.bind fun _ => ?_
  split
  · exact adds_pure
  · exact adds_pure

lemma adds_compileThis : Adds k b compileThis := by
  refine adds_advance.then <| adds_hasThis.then <| .unless ?_
  exact adds_currentStruct?.then adds_orFail.value

lemma adds_compileNewObject {struct : Option StructDef} : Adds k b (compileNewObject ty struct) :=
  adds_orFail.then <| .unless <| .noted
    (.write False.elim adds_clobberAx.value)
    (.then loads_clobberAx)

lemma adds_failOperator {op : UnaryOp} : Adds k b (failOperator op ty : Gen α) :=
  adds_textOf.then adds_fail

lemma Adds.unlessOperator {q : Prop} [Decidable q] {op : UnaryOp} {g : β → Gen α}
    (hx : Adds k b x) : Adds k b (if q then failOperator op ty >>= g else x) := by
  refine .ite ?_ hx
  rw [failOperator, bind_assoc]
  exact adds_textOf.then .fail_bind

lemma adds_foldUnaryOperand {op : UnaryOp} {value : Constant} :
    Adds k b (foldUnaryOperand op value ty) := by
  refine .unlessOperator ?_
  cases foldUnary op value with
  | ok folded => exact adds_pure
  | error e => exact adds_fail

lemma adds_emitUnary {op : UnaryOp} : Adds False b (emitUnary op ty) := by
  cases op with
  | neg =>
    exact .unlessOperator <| adds_litToReg.then <| .write False.elim
      <| Adds.value (adds_emitRegs False.elim)
  | not => exact .unlessOperator <| Adds.value (adds_emitRegs False.elim)
  | bitNot =>
    exact .unlessOperator <| adds_litToReg.then <| .write (fun _ => rfl)
      <| Adds.value (adds_emitRegs False.elim)

lemma adds_foldOperands {v w : Constant} {lhs rhs : Ty} :
    Adds k b (foldOperands op v w lhs rhs) := by
  unfold foldOperands
  split
  · exact adds_failConversion
  · split
    · exact adds_pure
    · exact adds_fail

lemma Adds.jumpIf {opcode? : Option Opcode} {g : Option PendingJump → Gen α}
    (hg : ∀ skip, (∀ j ∈ skip, b.script.size ≤ j.operand) → Adds False b (g skip)) :
    Adds False b (opcode?.mapM Gen.jump >>= g) := by
  cases opcode? with
  | none => exact hg none (by simp)
  | some opcode =>
    exact .jump fun j hj => hg (some j) (by simpa using hj)

lemma adds_checkThirdArm : Adds k b checkThirdArm :=
  adds_atExpressionEnd.then <| .ite adds_fail adds_pure

lemma adds_tokensLeft : Adds k b tokensLeft :=
  adds_tokenCount.then adds_getPos.value

def AddsParts (parts : Parts) : Prop :=
  ∀ k b part, Adds k b (parts part)

section

variable (hp : AddsParts parts) {number : Nat}
include hp

lemma adds_loadArgument {a : Argument} : Adds k b (loadArgument parts a) := by
  cases a with
  | tokens stretch => exact adds_setPos.then <| (hp _ b _).value
  | inAx ty => exact adds_pure
  | default value => exact adds_loadDefault

lemma adds_pushCell {external : Bool} {cell : Cell} :
    Adds False b (pushCell parts external cell) := by
  have hpush : Adds False b (if external then emitRegs .pushReal [.ax] else pushReg .ax) :=
    .ite (adds_emitRegs fun _ => rfl) adds_pushReg
  refine (adds_loadArgument hp).bind fun ty => ?_
  cases cell.ty? with
  | some target => exact adds_convertAx.then hpush
  | none => exact .unless hpush

lemma adds_callWithCells {cells : List Cell} :
    Adds False b (callWithCells parts id f object cells) := by
  refine .saveObject (fun b => ?_) ?_
  · refine (adds_forM fun _ => adds_pushCell hp).then <| adds_passObject.then ?_
    refine adds_emitCallInstruction.then ?_
    exact .ite (adds_popReg fun _ => rfl) adds_pure
  · exact (adds_forM fun _ => adds_pushCell hp).then adds_emitCallInstruction

lemma adds_emitCall : Adds k b (emitCall parts id object given) := by
  refine Adds.noted ?_ loads_emitCall
  refine adds_getPos.then <| adds_functionAt.then <| adds_getCells.then ?_
  refine (adds_modify (by exact fun _ h => h) fun _ hs => hs.rest).then ?_
  refine (adds_keepingThis (adds_callWithCells hp)).then ?_
  exact adds_clobberAx.then adds_setPos.value

lemma adds_compileCall : Adds k b (compileCall parts id object) :=
  adds_scanArguments.then <| adds_emitCall hp

lemma adds_getAttribute {use : AttributeUse} : Adds k b (getAttribute parts use) :=
  (adds_emitCall hp).value

lemma adds_loadToAx : Adds k b (loadToAx parts o) := by
  have hend : ∀ ty : Ty, Adds False b (clobberAx >>= fun _ => pure ty) :=
    fun _ => adds_clobberAx.value
  refine Adds.noted ?_ loads_loadToAx
  unfold loadToAx
  cases o.value with
  | const value => exact adds_litToReg.then <| hend _
  | ax => exact hend _
  | this => exact .write False.elim <| hend _
  | stored target =>
    cases target with
    | memory place => exact adds_loadPlace.bind hend
    | «attribute» use => exact (adds_getAttribute hp).then <| hend _

lemma adds_partToAx : Adds k b (partToAx parts part) :=
  (hp _ b part).then <| adds_loadToAx hp

lemma adds_dereference : Adds k b (dereference parts o) := by
  have hend : Adds k b (emit .checkNull [] >>= fun _ => pure (⟨.mar, 0⟩ : Place)) :=
    Adds.value (adds_emit fun _ => rfl)
  unfold dereference
  cases o.value with
  | const value => exact adds_fail
  | ax => exact .write (fun _ => rfl) hend
  | this => exact adds_pure
  | stored target =>
    cases target with
    | memory place => exact adds_loadAddress.then <| .write (fun _ => rfl) hend
    | «attribute» use =>
      exact (adds_loadToAx hp).then <| .write (fun _ => rfl) hend

lemma adds_indexOperand : Adds k b (indexOperand parts) :=
  (hp _ b _).then adds_expect.value

lemma adds_indexToAx : Adds k b (indexToAx parts o) :=
  (adds_loadToAx hp).then <| .ite (adds_textOf.then adds_fail) adds_pure

lemma adds_indexStatic {dim factor : UInt32} :
    Adds k b (indexStatic parts place dim factor number) := by
  refine adds_advance.then <| .saveMarIf fun b saved hsaved => ?_
  refine (adds_indexOperand hp).bind fun index => ?_
  split
  · refine .unless <| .unless ?_
    cases saved with
    | none => exact adds_pure
    | some k =>
      obtain rfl := hsaved k rfl
      exact adds_unsaveMar.value
  · refine (adds_indexToAx hp).after loads_indexToAx fun _ => ?_
    extract_lets rest
    have hrest : Adds False b (rest ()) :=
      .write (fun _ => rfl) <| adds_scaleAx.then <|
        adds_loadAddress.then <| Adds.value (adds_emitRegs fun _ => rfl)
    exact .ite (Adds.then (adds_popReg fun _ => rfl) hrest) hrest

lemma adds_indexDynamic : Adds k b (indexDynamic parts factor number) := by
  refine adds_advance.then <| .saveMar fun b => (adds_indexOperand hp).bind fun index => ?_
  extract_lets rest
  have hrest {k : Prop} : Adds k b (rest ()) :=
    .write (fun _ => rfl) <| Adds.value (adds_emitRegs fun _ => rfl)
  split
  · exact .unless <| adds_unsaveMar.then <| adds_litToReg.then hrest
  · exact (adds_indexToAx hp).after loads_indexToAx fun _ =>
      Adds.then (adds_popReg fun _ => rfl) <| adds_scaleAx.then hrest

lemma adds_compileIndex : Adds k b (compileIndex parts o number) := by
  unfold compileIndex
  split
  · refine adds_orFail.then <| adds_getTypes.then ?_
    exact (adds_indexStatic hp).value
  · exact adds_fail
  · refine adds_getTypes.then <| (adds_dereference hp).then ?_
    exact (adds_indexDynamic hp).value
  · exact adds_textOf.then adds_fail

/-! ## Selections -/

lemma adds_compileMemberCall : Adds k b (compileMemberCall parts owner id object name) := by
  refine adds_checkKind.then <| .unless <| adds_functionAt.bind fun f => ?_
  refine adds_isInside.then <| .unless <| .unless ?_
  exact adds_compileCall hp

lemma adds_compileComponent {component : Component} :
    Adds k b (compileComponent parts owner component object name) := by
  cases component with
  | field field => exact adds_compileField
  | «attribute» attr => exact adds_compileAttribute
  | function id => exact adds_compileMemberCall hp

lemma adds_objectPlace : Adds k b (objectPlace parts o name) := by
  refine .ite (adds_dereference hp) ?_
  split
  · exact adds_pure
  · exact adds_fail

lemma adds_compileMember : Adds k b (compileMember parts o) := by
  refine adds_expectIdentifier.then <| adds_textOf.then <| adds_orFail.then ?_
  refine (adds_objectPlace hp).then <| adds_findComponent.then ?_
  exact (adds_compileComponent hp).value

lemma adds_compileChain : Adds k b (compileChain parts o) := by
  refine adds_rounds fun (o, indices) => adds_eatKind.then <| .ite ?_ ?_
  · exact (adds_compileMember hp).value
  · refine adds_checkKind.then <| .ite ?_ adds_pure
    exact (adds_compileIndex hp).value

lemma adds_compileStatic : Adds k b (compileStatic parts owner) := by
  refine adds_eatKind.then <| .ite (adds_getTypes.then .fail_bind) ?_
  exact adds_expectIdentifier.then <| adds_findComponent.then <| adds_compileComponent hp

lemma adds_compileMeaning : Adds k b (compileMeaning parts name) := by
  refine adds_getSymbols.bind fun _ => ?_
  split
  · exact adds_compileGlobal
  · exact adds_pure
  · exact adds_checkKind.then <| .unless (adds_compileCall hp)
  · exact adds_compileStatic hp
  · exact adds_fail

lemma adds_compileName : Adds k b (compileName parts) := by
  refine adds_expectIdentifier.then <| adds_checkKind.then <| adds_get.bind fun _ => ?_
  split
  · exact adds_compileLocal
  · refine adds_getTypes.then <| adds_currentStruct?.bind fun _ => ?_
    split
    · exact adds_hasThis.then <| adds_compileComponent hp
    · exact adds_compileMeaning hp

lemma adds_compileAccess : Adds k b (compileAccess parts) := by
  refine adds_checkKind.then <| .ite ?_ ?_
  · exact adds_compileThis.then <| adds_compileChain hp
  · exact (adds_compileName hp).then <| adds_compileChain hp

lemma adds_compileNewArray {managed : Bool} :
    Adds k b (compileNewArray parts ty managed) := by
  refine .unless <| (adds_partToAx hp).after loads_partToAx fun _ =>
    .ite (adds_textOf.then .fail_bind) ?_
  exact adds_expect.then <| adds_getTypes.then <| .write False.elim
    adds_clobberAx.value

lemma adds_compileNew : Adds k b (compileNew parts) := by
  refine adds_advance.then <| adds_parseType.then <| adds_structOf?.then ?_
  refine adds_eatKind.then <| .ite ?_ adds_compileNewObject
  exact adds_compileNewArray hp

lemma adds_compileOperand : Adds k b (compileOperand parts) := by
  refine adds_peek.bind fun t => ?_
  split
  · exact adds_advance.then adds_orFail.value
  · exact adds_advance.value
  · exact adds_advance.then adds_stringToAx.value
  · exact adds_advance.value
  · refine adds_advance.then <| (hp _ b _).then ?_
    exact adds_expect.then <| adds_compileChain hp
  · exact adds_compileNew hp
  · exact adds_compileAccess hp
  · exact adds_compileAccess hp
  · exact adds_fail

lemma adds_compileUnary {op : UnaryOp} : Adds k b (compileUnary parts op) := by
  refine adds_checkKind.then <| .ite adds_advance.value ?_
  refine adds_atExpressionEnd.then <| .unless <| (hp _ b _).bind fun o => ?_
  cases o.constant? with
  | some value => exact adds_foldUnaryOperand
  | none => exact (adds_loadToAx hp).after loads_loadToAx fun _ => adds_emitUnary

lemma adds_compilePrefixed : Adds k b (compilePrefixed parts) := by
  refine adds_peek.bind fun t => ?_
  split
  · exact adds_fail
  · exact adds_fail
  · split
    · exact adds_advance.then <| adds_compileUnary hp
    · exact adds_compileOperand hp
  · exact adds_compileOperand hp

lemma adds_emitBinary : Adds k b (emitBinary parts op o part) := by
  refine (adds_loadToAx hp).after loads_loadToAx fun _ => .jumpIf fun skip hskip => ?_
  refine adds_pushReg.then ?_
  refine (adds_partToAx hp).then <| Adds.then (adds_popReg fun _ => rfl) <|
    adds_selectOpcode.then ?_
  refine .write False.elim <| .write False.elim ?_
  cases skip with
  | none => exact adds_pure
  | some j => exact (adds_landHere (hskip j rfl)).value

lemma adds_compileRightSide : Adds k b (compileRightSide parts op o) := by
  refine adds_atExpressionEnd.then <| .unless <| adds_getOptions.bind fun _ => ?_
  cases o.constant? with
  | none => exact adds_emitBinary hp
  | some v =>
    refine Adds.bind (.dryRun fun b => hp _ b _) fun (rhs, stop) => ?_
    dsimp only
    cases rhs.constant? with
    | some w => exact adds_setPos.then adds_foldOperands
    | none => exact adds_emitBinary hp

lemma adds_skipArm : Adds k b (skipArm parts) :=
  Adds.then (.dryRun fun b => hp _ b _) adds_setPos

lemma adds_armToAx : Adds k b (armToAx parts ty) :=
  (adds_partToAx hp).after loads_partToAx fun _ => adds_convertAx

lemma adds_armTypes : Adds k b (armTypes parts) :=
  (hp _ b _).then <| adds_expect.then <| adds_checkThirdArm.then <| (hp _ b _).value

lemma adds_compileChosen {condition : Constant} :
    Adds k b (compileChosen parts condition) := by
  refine .ite ?_ ?_
  · exact (hp _ b _).then <| adds_expect.then <| (adds_skipArm hp).value
  · exact (adds_skipArm hp).then <| adds_expect.then <| adds_checkThirdArm.then <| hp _ b _

lemma adds_compileArms : Adds k b (compileArms parts o) := by
  refine Adds.bind (.dryRun fun b => adds_armTypes hp) fun ((second, third), _) => ?_
  refine adds_getTypes.bind fun types => ?_
  extract_lets rest
  have hrest (ty : Ty) : Adds k b (rest ty) := by
    refine (adds_loadToAx hp).after loads_loadToAx fun _ => adds_checkCondition.then ?_
    refine .jump fun toThird hthird => (adds_armToAx hp).then ?_
    refine .jump fun toEnd hend => (adds_landHere hthird).then <| adds_expect.then ?_
    exact (adds_armToAx hp).then <| (adds_landHere hend).value
  cases second.common? third types with
  | some ty => exact hrest ty
  | none => exact adds_failConversion.bind hrest

lemma adds_compileShort : Adds k b (compileShort parts o) := by
  refine adds_checkThirdArm.bind fun _ => ?_
  cases o.constant? with
  | some value =>
    refine .ite ((adds_skipArm hp).value) <| hp _ b _
  | none =>
    refine (adds_loadToAx hp).after loads_loadToAx fun _ => adds_checkCondition.then ?_
    refine .jump fun toEnd hend => (adds_armToAx hp).then ?_
    exact (adds_landHere hend).value

lemma adds_compileTernary : Adds k b (compileTernary parts o) := by
  refine adds_advance.then <| adds_eatKind.then <| .ite ?_ ?_
  · exact adds_compileShort hp
  · refine adds_atExpressionEnd.then <| .unless ?_
    cases o.constant? with
    | some value => exact adds_compileChosen hp
    | none => exact adds_compileArms hp

lemma adds_compileOperator : Adds k b (compileOperator parts priority o) := by
  refine adds_peek.bind fun t => ?_
  split
  · exact .ite adds_pure <| (adds_compileTernary hp).value
  · split
    · exact adds_pure
    · exact adds_advance.then <| (adds_compileRightSide hp).value
  · exact adds_pure

lemma adds_compileOperators : Adds k b (compileOperators parts priority) := by
  refine (adds_compilePrefixed hp).then ?_
  refine Adds.then (adds_rounds fun _ => adds_compileOperator hp) ?_
  exact adds_peek.then <| .unless adds_pure

lemma adds_compileArgument {stop : Nat} :
    Adds k b (compileArgument parts stop) := by
  refine (adds_compileOperators hp).bind fun o => adds_getPos.then <| .ite ?_
    <| (adds_loadToAx hp).value
  exact adds_peek.then .fail_bind

lemma addsParts_below {limit : Nat} : AddsParts (below limit parts) :=
  fun _ b _ => adds_tokensLeft.then <| .ite (hp _ b _) adds_fail

lemma addsParts_compileWith : AddsParts (compileWith parts) := by
  intro k b part
  cases part with
  | prefixed => exact adds_compilePrefixed hp
  | upTo priority => exact adds_compileOperators hp
  | argument stop => exact adds_compileArgument hp

end

lemma addsParts_compilePart (depth : Nat) : AddsParts (compilePart depth) := by
  induction depth with
  | zero => exact fun _ _ _ => adds_fail
  | succ depth ih =>
    exact fun k b part => adds_tokensLeft.then <|
      addsParts_compileWith (addsParts_below ih) k b part

lemma adds_withParts {step : Parts → Gen α} (h : ∀ parts, AddsParts parts → Adds k b (step parts)) :
    Adds k b (withParts step) :=
  adds_tokenCount.then <| h _ (addsParts_compilePart _)

lemma adds_expression : Adds k b expression :=
  adds_withParts fun _ hp => hp _ b _

lemma adds_compileTarget {stop : Nat} : Adds k b (compileTarget stop) := by
  refine adds_peek.then <| .unless ?_
  refine (adds_withParts fun _ hp => adds_compileAccess hp).bind fun o =>
    adds_getPos.then <| .ite (adds_peek.then .fail_bind) ?_
  cases o.value with
  | stored target =>
    cases o.writeFault with
    | none => exact .unless <| .unless adds_pure
    | some fault => exact .fail_bind
  | const value => exact adds_fail
  | ax => exact adds_fail
  | this => exact adds_fail

/-- Whether it goes through or fails, the step leaves all as it was, the place where a jump was last
made to land apart. -/
def Untouched {α : Type} (x : Gen α) (c : Context) (s : State) : Prop :=
  match x c s with
  | .ok (_, t) => t = { s with jumpTarget := t.jumpTarget }
  | .error failure => failure.state = { s with jumpTarget := failure.state.jumpTarget }

variable {c : Context} {s : State}

lemma untouched_dryRun {x : Gen α} (hs : s.Within) (hx : ∀ b, Adds False b x) :
    Untouched (dryRun x) c s := by
  have hends := hx s c s (.refl hs)
  simp only [Ends, Untouched, dryRun] at hends ⊢
  cases hrun : x c s with
  | error failure =>
    rw [hrun] at hends
    simp only [hends.untried]
  | ok r =>
    rw [hrun] at hends
    simp only [hends.1.untried]

lemma runs_constantExpression?_none {t : State} (hs : s.Within)
    (h : Runs expression c s o t) (ho : o.constant? = none) :
    ∃ jumpTarget, Runs constantExpression? c s none { s with jumpTarget } := by
  have hends : Ends False s expression c s := adds_expression c s (.refl hs)
  rw [Ends, h] at hends
  refine ⟨t.jumpTarget.filter (· ≤ s.script.size), ?_⟩
  rw [← hends.1.untried]
  simp only [constantExpression?, runs_bind]
  exact ⟨(o, t.pos), _, runs_dryRun.2 ⟨t, h, rfl, rfl⟩, by simp [ho]⟩

end AdventureScript.Gen
