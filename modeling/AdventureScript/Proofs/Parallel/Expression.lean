import AdventureScript.Proofs.Expression.Operator
import AdventureScript.Proofs.Parallel.Alignment

/-!
Parts of expressions compile alike wherever their tokens stand.
-/
namespace AdventureScript.Gen

variable {k : Pair} {A : Alignment k} {S : Stretch → Stretch → Prop} {i : A.Index} {n : Nat}
  {P M : Nat → Nat → Prop} {parts parts' : Parts} {ty source target : Ty} {o o' : Operand}
  {place : Place} {name : String} {id : FuncId} {owner struct : TypeId} {number : Nat}
  {cells : List Cell} {given given' : List Argument} {object : Option Place} {isConst : Bool}
  {f : FuncDef} {params : List Param} {count factor : Int32} {attr : Attribute}

open AdventureScript.Gen.Alignment

lemma agree_failConversion {α β : Type} {W : α → β → Nat → Nat → Prop} :
    Agree k P W (failConversion source target) (failConversion source target) :=
  agree_textOf.then <| agree_textOf.then .fail

lemma Agree.failConversion_bind {α β γ δ : Type} {W : γ → δ → Nat → Nat → Prop}
    {f : α → Gen γ} {g : β → Gen δ} : Agree k P W (failConversion source target >>= f)
      (failConversion source target >>= g) :=
  .bind (U := fun _ _ _ _ => False) agree_failConversion fun _ _ => ⟨fun hst _ => hst.pos.elim⟩

lemma agree_emitConversion :
    Agree k P (Any P) (emitConversion source target) (emitConversion source target) :=
  agree_getTypes.then <| .ite agree_write <| .ret trivial

lemma agree_convertAx : Agree k P (Any P) (convertAx source target) (convertAx source target) :=
  .unless <| agree_getTypes.then <| .ite
    .failConversion_bind agree_emitConversion

lemma agree_checkCondition : Agree k P (Any P) (checkCondition ty) (checkCondition ty) :=
  .ite (agree_textOf.then .fail) <| .ret trivial

lemma agree_selectOpcode {op : BinaryOp} {lhs rhs : Ty} :
    Agree k P (Same P) (selectOpcode op lhs rhs) (selectOpcode op lhs rhs) := by
  refine agree_getTypes.then @fun types => ?_
  split
  · exact .ret rfl
  all_goals first | exact .fail | exact agree_failConversion

lemma agree_addToMar {bytes : Int32} : Agree k P (Any P) (addToMar bytes) (addToMar bytes) :=
  .ite agree_write <| .ret trivial

lemma agree_loadAddress : Agree k P (Any P) (loadAddress place) (loadAddress place) := by
  obtain ⟨anchor, component⟩ := place
  cases anchor with
  | global offset => exact agree_literal.skip agree_fixupLast
  | «local» offset => exact agree_loadLocal
  | imported id =>
    exact agree_globalAt.then <| agree_importToReg.skip agree_addToMar
  | this => exact agree_write.skip <| agree_write.skip agree_addToMar
  | mar => exact agree_addToMar

lemma agree_readAx : Agree k P (Any P) (readAx ty) (readAx ty) :=
  agree_getTypes.then agree_write

def CellMoved (S : Stretch → Stretch → Prop) (a b : Cell) : Prop :=
  ArgumentMoved S a.argument b.argument ∧ b.ty? = a.ty?

lemma forall₂_defaultCells
    (h : defaultCells number params = .ok cells) : List.Forall₂ (CellMoved S) cells cells := by
  induction params generalizing number cells with
  | nil =>
    cases h
    exact .nil
  | cons p params ih =>
    simp only [defaultCells] at h
    split at h
    · next value _ =>
      obtain ⟨rest, hrest, rfl⟩ := map_eq_ok_iff.1 h
      exact .cons ⟨.default value, rfl⟩ (ih hrest)
    · cases h

lemma forall₂_matchCells (hgiven : List.Forall₂ (ArgumentMoved S) given given')
    (h : matchCells number params given = .ok cells) :
    ∃ cells', matchCells number params given' = .ok cells' ∧
      List.Forall₂ (CellMoved S) cells cells' := by
  induction hgiven generalizing number params cells with
  | nil =>
    refine ⟨cells, h, ?_⟩
    cases params <;> exact forall₂_defaultCells h
  | @cons a a' given given' ha hgiven ih =>
    cases params with
    | nil =>
      cases h
      refine ⟨_, rfl, .cons ⟨ha, rfl⟩ ?_⟩
      clear ih
      induction hgiven with
      | nil => exact .nil
      | cons ha _ ih => exact .cons ⟨ha, rfl⟩ ih
    | cons p params =>
      obtain ⟨rest, hrest, rfl⟩ := map_eq_ok_iff.1 h
      obtain ⟨rest', hrest', hcells⟩ := ih hrest
      exact ⟨_, map_eq_ok_iff.2 ⟨rest', hrest', rfl⟩, .cons ⟨ha, rfl⟩ hcells⟩

lemma agree_getCells (hgiven : List.Forall₂ (ArgumentMoved S) given given') :
    Agree k P (With (List.Forall₂ (CellMoved S)) P) (getCells f given) (getCells f given') := by
  have hlength := hgiven.length_eq
  unfold getCells
  cases hcells : f.cells given with
  | error fault => exact .fail
  | ok cells =>
    obtain ⟨cells', hcells', hrel⟩ : ∃ cells', f.cells given' = .ok cells' ∧
        List.Forall₂ (CellMoved S) cells cells' := by
      simp only [FuncDef.cells, ← hlength] at hcells ⊢
      split at hcells
      · cases hcells
      · next hif =>
        rw [if_neg hif]
        exact forall₂_matchCells hgiven hcells
    rw [hcells']
    exact .ret hrel

lemma agree_loadDefault {value : Default} :
    Agree k P (Same P) (loadDefault value) (loadDefault value) := by
  cases value with
  | string bytes => exact agree_stringToAx.skip <| .ret rfl
  | _ => exact agree_literal.skip <| .ret rfl

lemma agree_emitCallInstruction :
    Agree k P (Any P) (emitCallInstruction id f count) (emitCallInstruction id f count) := by
  have hnote : Agree k P (Any P)
      (modify fun s : State => { s with calls := s.calls.add (s.script.size - 1) id })
      (modify fun s : State => { s with calls := s.calls.add (s.script.size - 1) id }) :=
    have h : Blind 0 fun s : State => { s with calls := s.calls.add (s.script.size - 1) id } := {}
    agree_change h h fun _ => rfl
  have hcall : Agree k P (Any P) (do emitRegs .call [.ax]; release (count * cell))
      (do emitRegs .call [.ax]; release (count * cell)) :=
    agree_write.skip agree_release
  refine .ite ?_ ?_
  · exact agree_write.skip <| agree_importToReg.skip <| agree_write.skip <|
      .ite agree_write <| .ret trivial
  · exact agree_literal.skip <| agree_fixupLast.skip <| .ite (hnote.skip hcall) hcall

lemma agree_saveObject :
    Agree k P (With (Option.Rel (TiedAt k (·.codeSize))) P) (saveObject f object) (saveObject f object) :=
  .ite (agree_orFail.then <| agree_loadAddress.skip <|
    agree_checkpoint.with fun _ _ h => agree_pushReg.skip <| .ret (.some h))
    <| .ret .none

lemma agree_passObject {saved saved' : Checkpoint}
    (h : TiedAt k (·.codeSize) saved saved') :
    Agree k P (Any P) (passObject saved f count) (passObject saved' f count) := by
  refine .ite ?_ ?_
  · exact (agree_restore h).skip <| agree_adjustStack.skip agree_write
  · exact agree_write.skip <| agree_write.skip agree_write

lemma agree_keepingThis {call call' : Gen Unit} (h : Agree k P (Any anywhere) call call') :
    Agree k P (Any anywhere) (keepingThis f call) (keepingThis f call') :=
  agree_hasThis.then <| .ite (agree_pushReg.skip <| h.skip
    agree_popReg) h

lemma agree_loadPlace : Agree k P (Same P) (loadPlace place ty) (loadPlace place ty) := by
  refine .unless <| .ite ?_ ?_
  · exact agree_getTypes.then <| .unless <| agree_loadAddress.skip <| agree_write.skip <| .ret rfl
  · exact agree_loadAddress.skip <| .ite (agree_write.skip <| .ret rfl) <|
        agree_readAx.skip <| .ret rfl

lemma agree_saveMar : Agree k P (With (TiedAt k (·.codeSize)) P) saveMar saveMar :=
  agree_checkpoint.with fun _ _ h => agree_pushReg.skip <| .ret h

lemma agree_unsaveMar {saved saved' : Checkpoint}
    (h : TiedAt k (·.codeSize) saved saved') :
    Agree k P (Any P) (unsaveMar saved) (unsaveMar saved') :=
  (agree_restore h).skip agree_adjustStack

section

variable (hp : LoadsAlike k S parts parts')
include hp

lemma agree_loadArgument {a a' : Argument}
    (ha : ArgumentMoved S a a') :
    Agree k P (Same anywhere) (loadArgument parts a) (loadArgument parts' a') := by
  cases ha with
  | tokens h => exact hp h
  | inAx ty => exact .pure fun _ => ⟨rfl, trivial⟩
  | default value => exact agree_loadDefault.behind fun h => ⟨h.1, trivial⟩

lemma agree_pushCell {external : Bool} {a b : Cell}
    (h : CellMoved S a b) :
    Agree k P (Any anywhere) (pushCell parts external a) (pushCell parts' external b) := by
  have hpush : Agree k anywhere (Any anywhere)
      (if external then emitRegs .pushReal [.ax] else pushReg .ax)
      (if external then emitRegs .pushReal [.ax] else pushReg .ax) :=
    .ite agree_write agree_pushReg
  refine (agree_loadArgument hp h.1).then @fun ty => ?_
  rw [h.2]
  cases a.ty? with
  | none => exact .unless hpush
  | some target => exact agree_convertAx.skip hpush

lemma agree_callWithCells {cells' : List Cell} (h : List.Forall₂ (CellMoved S) cells cells') :
    Agree k P (Any anywhere) (callWithCells parts id f object cells)
      (callWithCells parts' id f object cells') := by
  have hcells : Agree k anywhere (Any anywhere) (cells.reverse.forM (pushCell parts f.isExternal))
      (cells'.reverse.forM (pushCell parts' f.isExternal)) :=
    .forM (List.rel_reverse h) fun _ _ h => agree_pushCell hp h
  unfold callWithCells
  rw [← h.length_eq]
  refine agree_saveObject.with fun saved saved' hsaved => ?_
  cases hsaved with
  | none =>
    exact (hcells.before fun _ => trivial).skip agree_emitCallInstruction
  | some h =>
    exact (hcells.before fun _ => trivial).skip <| (agree_passObject h).skip <|
      agree_emitCallInstruction.skip <| .ite agree_popReg <| .ret trivial

lemma agree_emitCall (hgiven : List.Forall₂ (ArgumentMoved S) given given') :
    Agree k P (With (Moved S) P) (emitCall parts id object given)
      (emitCall parts' id object given') := by
  refine agree_getPos.bind fun m m' => .pull fun hm => agree_functionAt.then <|
    (agree_getCells hgiven).with fun cells cells' hcells => ?_
  have hcount (l : Nat) :
      Blind 0 fun s : State => { s with callBytes := max s.callBytes (4 * l) } := {}
  rw [← hcells.length_eq]
  exact (agree_change (hcount _) (hcount _) fun _ => rfl).skip <|
    (agree_keepingThis (agree_callWithCells hp hcells)).skip <|
      agree_clobberAx.skip <| (agree_setPos hm).skip <| .ret moved_inAx

lemma agree_getAttribute {index index' : Option Stretch} (hindex : Option.Rel S index index') :
    Agree k P (Any P) (getAttribute parts ⟨attr, object, index⟩)
      (getAttribute parts' ⟨attr, object, index'⟩) := by
  have hgiven : List.Forall₂ (ArgumentMoved S) (indexArguments ⟨attr, object, index⟩)
      (indexArguments ⟨attr, object, index'⟩) := by
    cases hindex with
    | none => exact .nil
    | some h => exact .cons (.tokens h) .nil
  exact (agree_emitCall hp hgiven).with fun _ _ _ => .ret trivial

lemma agree_loadToAx (ho : Moved S o o') :
    Agree k P (Same P) (loadToAx parts o) (loadToAx parts' o') := by
  have hend (ty : Ty) : Agree k P (Same P) (do clobberAx; return ty) (do clobberAx; return ty) :=
    agree_clobberAx.skip <| .ret rfl
  obtain ⟨value', rfl, hvalue⟩ := ho.exists_eq
  obtain ⟨value, ty, fault⟩ := o
  cases hvalue with
  | const value => exact agree_literal.skip <| hend _
  | ax => exact hend _
  | this => exact agree_write.skip <| hend _
  | memory place => exact agree_loadPlace.then (hend _)
  | «attribute» hindex => exact (agree_getAttribute hp hindex).skip <| hend _

lemma agree_partToAx {part part' : Part}
    (h : Agree k P (With (Moved S) M) (parts part) (parts' part')) :
    Agree k P (Same M) (partToAx parts part) (partToAx parts' part') :=
  h.with fun _ _ ho => agree_loadToAx hp ho

/-! ## Indices -/

lemma agree_dereference (ho : Moved S o o') :
    Agree k P (Same P) (dereference parts o) (dereference parts' o') := by
  have hend : Agree k P (Same P) (do emit .checkNull []; return (⟨.mar, 0⟩ : Place))
      (do emit .checkNull []; return (⟨.mar, 0⟩ : Place)) :=
    agree_write.skip <| .ret rfl
  obtain ⟨value', rfl, hvalue⟩ := ho.exists_eq
  obtain ⟨value, ty, fault⟩ := o
  cases hvalue with
  | const value => exact .fail
  | ax => exact agree_write.skip hend
  | this => exact .ret rfl
  | memory place => exact agree_loadAddress.skip <| agree_write.skip hend
  | «attribute» hindex =>
    exact (agree_loadToAx hp ho).then <| agree_write.skip hend

lemma agree_indexToAx (ho : Moved S o o') :
    Agree k P (Any P) (indexToAx parts o) (indexToAx parts' o') :=
  (agree_loadToAx hp ho).then <| .ite (agree_textOf.then .fail) <| .ret trivial

end

lemma agree_indexOperand (hr : A.Respects parts parts') :
    Agree k (A.Inner P) (With (Moved A.Span) P) (indexOperand parts) (indexOperand parts') :=
  agree_inner fun _ _ hclose => hr.upTo.with fun _ _ ho =>
    (agree_expect_closer hclose rfl).skip <| .ret ho

lemma agree_scaleAx : Agree k P (Any P) (scaleAx factor) (scaleAx factor) :=
  .ite agree_write <| .ret trivial

lemma agree_indexStatic (hr : A.Respects parts parts') {dim factor : UInt32} :
    Agree k (A.Opens P) (Same P) (indexStatic parts place dim factor number)
      (indexStatic parts' place dim factor number) := by
  refine (agree_advance (M := A.Inner P) id).skip <|
    Agree.ite_bind (U := With (Option.Rel (TiedAt k (·.codeSize))) (A.Inner P))
      (agree_saveMar.map fun h => ⟨.some h.1, h.2⟩) (.ret .none)
      fun saved saved' => .pull fun hsaved => ?_
  refine (agree_indexOperand hr).with fun index index' hindex => ?_
  rw [hindex.constant?]
  split
  · cases hsaved with
    | none => exact .unless <| .unless <| .ret rfl
    | some h =>
      exact .unless <| .unless <| (agree_unsaveMar h).skip <| .ret rfl
  · refine (agree_indexToAx hr.loads hindex).skip @fun _ _ => ?_
    extract_lets rest
    have hrest : Agree k P (Same P) (rest ()) (rest ()) :=
      agree_write.skip <| agree_scaleAx.skip <| agree_loadAddress.skip <|
        agree_write.skip <| .ret rfl
    cases hsaved with
    | none => exact hrest
    | some h => exact agree_popReg.skip hrest

lemma agree_indexDynamic (hr : A.Respects parts parts') :
    Agree k (A.Opens P) (Same P) (indexDynamic parts factor number)
      (indexDynamic parts' factor number) := by
  refine (agree_advance (M := A.Inner P) id).skip <| agree_saveMar.with fun _ _ h =>
    (agree_indexOperand hr).with fun index index' hindex => ?_
  extract_lets rest
  have hend : Agree k P (Same P) (rest ()) (rest ()) :=
    agree_write.skip <| agree_write.skip <| .ret rfl
  rw [hindex.constant?]
  split
  · exact .unless <| (agree_unsaveMar h).skip <| agree_literal.skip hend
  · exact (agree_indexToAx hr.loads hindex).skip <| agree_popReg.skip <| agree_scaleAx.skip hend

lemma agree_compileIndex (hr : A.Respects parts parts') (ho : Moved A.Span o o') :
    Agree k (A.Opens P) (With (Moved A.Span) P) (compileIndex parts o number)
      (compileIndex parts' o' number) := by
  obtain ⟨value', rfl, hvalue⟩ := ho.exists_eq
  obtain ⟨value, ty, fault⟩ := o
  unfold compileIndex
  cases hshape : ty.shape with
  | scalar => exact agree_textOf.then .fail
  | dynamic =>
    exact agree_getTypes.then <| (agree_dereference hr.loads ho).then <|
      (agree_indexDynamic hr).then <| .ret moved_memory
  | static dims =>
    cases hvalue with
    | memory place =>
      exact agree_orFail.then <| agree_getTypes.then <|
        (agree_indexStatic hr).then <| .ret moved_memory
    | _ => exact .fail

lemma agree_isInside : Agree k P (Same P) (isInside owner) (isInside owner) :=
  agree_getTypes.then <| agree_currentStruct?.then <| .ret rfl

lemma agree_compileField {f : Field} :
    Agree k P (With (Moved A.Span) P) (compileField owner f object name)
      (compileField owner f object name) :=
  agree_orFail.then <| agree_isInside.then <| .unless <| .ret moved_memory

lemma agree_findAtDepthZero {m m' : Nat} {stop : Token.Kind → Bool} (h : A.From i n m m') :
    Agree k P (With (fun q q' => A.From i n q q' ∧ m' ≤ q') P) (findAtDepthZero m stop)
      (findAtDepthZero m' stop) :=
  agree_of_look runs_findAtDepthZero runs_findAtDepthZero fun hst =>
    ⟨⟨⟨A.find h.1, le_trans h.2 Stream.le_findAtDepthZero⟩, Stream.le_findAtDepthZero⟩, hst.pos⟩

lemma agree_bracketed (hs : Suffixed A P) : Agree k P (With A.Span P) bracketed bracketed := by
  refine (agree_expect (M := A.Inner P) (hs.sees (by simp)) fun hp hk =>
    hs.opens hp (.inl hk)).skip <| agree_inner fun j m hclose => ?_
  refine agree_getPos.bind fun q q' => .pull fun hq => (agree_findAtDepthZero hq).with
    fun e e' he => (agree_setPos he.1).skip <| (agree_expect_closer hclose rfl).skip <| .ret ?_
  exact ⟨⟨j, hq.1⟩, A.shift_of_within he.1.1⟩

lemma agree_compileAttribute (hs : Suffixed A P) :
    Agree k P (With (Moved A.Span) P) (compileAttribute attr object name)
      (compileAttribute attr object name) := by
  refine .unless <| Agree.ite_bind (U := With (Option.Rel A.Span) P)
    ((agree_bracketed hs).map fun h => ⟨.some h.1, h.2⟩) (.ret .none)
    fun index index' => .pull fun hindex => .ret ?_
  exact ⟨.attribute hindex, rfl, rfl⟩

/-! ## Arguments of calls -/

lemma agree_scanArguments (hs : Suffixed A P) :
    Agree k P (With (List.Forall₂ (ArgumentMoved A.Span)) P) scanArguments scanArguments := by
  refine (agree_expect (M := A.Inner P) (hs.sees (by simp)) fun hp hk =>
    hs.opens hp (.inr hk)).skip <| agree_inner fun j m hclose => ?_
  refine agree_eatKind (M := P) sees_from (fun hp hk => hclose hp (by rw [hk]; rfl)) (.ret .nil) ?_
  refine Agree.with
    (V := fun a b : Array Argument => List.Forall₂ (ArgumentMoved A.Span) a.toList b.toList)
    (M := P) (Agree.before (P := A.From j m) ?_ And.left) fun _ _ h => .ret h
  refine Agree.rounds
    (V := fun a b : Array Argument => List.Forall₂ (ArgumentMoved A.Span) a.toList b.toList)
    suffixed_from.limit (fun l given given' hgiven => ?_) .nil
  refine agree_getPos.bind fun q q' => .pull fun hq => (agree_findAtDepthZero hq.1).with
    fun e e' he => .ite_iff (eq_iff (A.shift_of_within hq.1.1) (A.shift_of_within he.1.1))
      (fun _ => .fail_bind) fun _ => ?_
  have hpush : List.Forall₂ (ArgumentMoved A.Span) (given.push (.tokens ⟨q, e⟩)).toList
      (given'.push (.tokens ⟨q', e'⟩)).toList := by
    simpa using List.rel_append hgiven
      (.cons (.tokens ⟨⟨j, hq.1.1⟩, A.shift_of_within he.1.1⟩) .nil)
  have hle : l ≤ e' := le_trans hq.2 he.2
  refine (agree_setPos (M := fun p p' => A.From j m p p' ∧ l ≤ p') ⟨he.1, hle⟩).skip ?_
  refine agree_eatKind (M := fun p p' => A.From j m p p' ∧ l < p') (fun hp => sees_from hp.1)
    (fun {p p'} hp hk => ⟨hp.1.next hk rfl rfl, ?_⟩)
    (.pure fun hp => .again hpush hp) ?_
  · have hk' := (sees_from hp.1).2 hk
    rw [after_of_symbol hk']
    omega
  · refine (agree_expect_closer hclose rfl).before (fun hp => hp.1.1) |>.skip <|
      .pure fun hp => .done ⟨hpush, hp⟩

section

variable (hs : Suffixed A P) (hp : LoadsAlike k A.Span parts parts')
include hs hp

lemma agree_compileCall : Agree k P (With (Moved A.Span) P) (compileCall parts id object)
      (compileCall parts' id object) :=
  (agree_scanArguments hs).with fun _ _ hgiven => agree_emitCall hp hgiven

lemma agree_compileMemberCall : Agree k P (With (Moved A.Span) P)
      (compileMemberCall parts owner id object name)
      (compileMemberCall parts' owner id object name) := by
  refine agree_checkKind (hs.sees (by simp)) (Agree.before (P := P) ?_ And.left) .fail_bind
  exact agree_functionAt.then <| agree_isInside.then <| .unless <|
    .unless <| agree_compileCall hs hp

lemma agree_compileComponent {c : Component} : Agree k P (With (Moved A.Span) P)
      (compileComponent parts owner c object name)
      (compileComponent parts' owner c object name) := by
  cases c with
  | field f => exact agree_compileField
  | «attribute» attr => exact agree_compileAttribute hs
  | function id => exact agree_compileMemberCall hs hp

omit hs hp in
lemma agree_findComponent :
    Agree k P (Same P) (findComponent struct name) (findComponent struct name) :=
  agree_getTypes.then agree_orFail

omit hs hp in
lemma agree_objectPlace (hp : LoadsAlike k A.Span parts parts') (ho : Moved A.Span o o') :
    Agree k P (Same P) (objectPlace parts o name) (objectPlace parts' o' name) := by
  unfold objectPlace
  rw [ho.ty]
  refine .ite (agree_dereference hp ho) ?_
  obtain ⟨value', rfl, hvalue⟩ := ho.exists_eq
  obtain ⟨value, ty, fault⟩ := o
  cases hvalue with
  | memory place => exact .ret rfl
  | _ => exact .fail

lemma agree_compileMember (ho : Moved A.Span o o') :
    Agree k (Named k P) (With (Moved A.Span) P) (compileMember parts o) (compileMember parts' o') := by
  unfold compileMember
  rw [ho.ty, ho.writeFault]
  refine (agree_expectIdentifier (P := Named k P) (M := P) (fun hq => hq.1)
    fun hq hk => hq.2 hk).then <| agree_textOf.then
    <| agree_orFail.then <| (agree_objectPlace hp ho).then <|
      agree_findComponent.then <| (agree_compileComponent hs hp).with
        fun selected selected' h => .ret ⟨h.value, h.ty, ?_⟩
  simp only [h.writeFault]

omit hs hp in
lemma agree_compileChain {stop : Nat → Nat → Prop} (hs : Suffixed A P)
    (hstop : ∀ {p p'}, P p p' → (k.c.tokens.get p).kind ≠ .symbol .dot →
      (k.c.tokens.get p).kind ≠ .symbol .leftBracket → stop p p')
    (hr : A.Respects parts parts') (ho : Moved A.Span o o') :
    Agree k P (With (Moved A.Span) stop) (compileChain parts o) (compileChain parts' o') := by
  refine Agree.rounds (V := fun a b : Operand × Nat => Moved A.Span a.1 b.1 ∧ b.2 = a.2) hs.limit
    (fun m a b hab => ?_) ⟨ho, rfl⟩
  obtain ⟨a, indices⟩ := a
  obtain ⟨b, _⟩ := b
  obtain ⟨ho, rfl⟩ := hab
  have hm := hs.above (m + 1)
  refine agree_eatKind (M := Named k fun p p' => P p p' ∧ m < p') (fun hp => hs.sees (by simp) hp.1)
    (fun {p p'} hp hk => ⟨(hs.dot hp.1 hk).1, fun hk' => ⟨(hs.dot hp.1 hk).2 hk', ?_⟩⟩) ?_ ?_
  · have hk' := (hs.sees (by simp) hp.1).2 hk
    refine lt_of_lt_of_le ?_ Stream.le_after
    rw [after_of_symbol hk']
    omega
  · exact (agree_compileMember hm hr.loads ho).with fun _ _ ho => .pure fun hp => .again ⟨ho, rfl⟩ hp
  · refine agree_checkKind (fun hp => hs.sees (by simp) hp.1.1) ?_ ?_
    · refine Agree.before (P := A.Opens fun p p' => P p p' ∧ m < p')
        ((agree_compileIndex hr ho).with fun _ _ ho => .pure fun hp => .again ⟨ho, rfl⟩ hp) ?_
      rintro p p' ⟨⟨hp, _⟩, hk⟩
      exact (hs.opens hp.1 (.inl hk)).mono fun hlt hq => ⟨hq, lt_of_le_of_lt hp.2 hlt⟩
    · exact .pure fun hp => .done ⟨ho, hstop hp.1.1.1 hp.1.2 hp.2⟩

omit hs hp in
lemma agree_compileLocal {v : Variable} :
    Agree k P (With (Moved A.Span) P) (compileLocal v) (compileLocal v) :=
  .ite (agree_loadLocal.skip <| agree_write.skip <| .ret moved_memory) <| .ret moved_memory

omit hs hp in
lemma agree_compileGlobal {id : GlobalId} :
    Agree k P (With (Moved A.Span) P) (compileGlobal id) (compileGlobal id) := by
  refine agree_globalAt.then @fun _ => ?_
  split
  · exact .ret moved_constant
  · exact .ret moved_memory

lemma agree_compileStatic :
    Agree k P (With (Moved A.Span) P) (compileStatic parts struct) (compileStatic parts' struct) := by
  refine agree_eatKind (M := Named k P) (hs.sees (by simp)) hs.dot ?_ ?_
  · exact (agree_expectIdentifier (P := Named k P) (M := P) (fun hq => hq.1) fun hq hk => hq.2 hk).then
      <| agree_findComponent.then <| agree_compileComponent hs hp
  · exact agree_getTypes.then .fail_bind

lemma agree_compileMeaning :
    Agree k P (With (Moved A.Span) P) (compileMeaning parts name) (compileMeaning parts' name) := by
  refine agree_getSymbols.then @fun symbols => ?_
  split
  · exact agree_compileGlobal
  · exact .ret moved_constant
  · exact agree_checkKind (hs.sees (by simp)) ((agree_compileCall hs hp).before And.left) .fail_bind
  · exact agree_compileStatic hs hp
  · exact .fail

lemma agree_compileName :
    Agree k (Named k P) (With (Moved A.Span) P) (compileName parts) (compileName parts') := by
  refine (agree_expectIdentifier (P := Named k P) (M := P) (fun hq => hq.1) fun hq hk => hq.2 hk).then
    @fun name => agree_seeKind (hs.sees (by simp)) fun isCall => Agree.before (P := P) ?_ And.left
  refine agree_look fun s t hst => ?_
  rw [show t.scope.get? name = s.scope.get? name by rw [Scope.get?, hst.blocks, Scope.get?]]
  split
  · exact agree_compileLocal
  · refine agree_getTypes.then @fun types => agree_currentStruct?.then @fun struct => ?_
    split
    · exact agree_hasThis.then <| agree_compileComponent hs hp
    · exact agree_compileMeaning hs hp

end

lemma agree_compileThis :
    Agree k (fun p p' => P (k.c.tokens.after p) (k.c'.tokens.after p')) (With (Moved A.Span) P)
      compileThis compileThis :=
  (agree_advance (M := P) id).skip <| agree_hasThis.then <| .unless <|
    agree_currentStruct?.then <| agree_orFail.then <| .ret ⟨.this, rfl, rfl⟩

section

variable {start suffix stop : Nat → Nat → Prop}

lemma agree_compileAccess (ho : Operands A start suffix stop) (hr : A.Respects parts parts') :
    Agree k start (With (Moved A.Span) stop) (compileAccess parts) (compileAccess parts') := by
  have hchain {o o' : Operand} (h : Moved A.Span o o') := agree_compileChain ho.suffixed ho.stop hr h
  refine agree_checkKind (Copied.sees ho.copied) ?_ ?_
  · exact (agree_compileThis.before fun hp => ho.name hp.1 (.inr hp.2)).with fun _ _ => hchain
  · exact ((agree_compileName ho.suffixed hr.loads).before fun hp =>
      ⟨ho.copied hp.1, fun hk => ho.name hp.1 (.inl hk)⟩).with fun _ _ => hchain

end

/-! ## New objects -/

lemma agree_never {α β : Type} {W : α → β → Nat → Nat → Prop} {x : Gen α} {y : Gen β}
    (h : ∀ s a s', ¬Runs x k.c s a s') : Agree k P W x y :=
  ⟨fun _ hrun => absurd hrun (h _ _ _)⟩

lemma agree_baseOf {t t' : Token} (ht : Twin t t') (h : k.c'.options = k.c.options) :
    Agree k P (Same P) (baseOf t isConst) (baseOf t' isConst) := by
  unfold baseOf
  rw [ht.kind, ht.lexeme]
  split
  case h_7 => exact (agree_getOptions h).then <| .unless <| .ret rfl
  case h_8 =>
    refine agree_getSymbols.then @fun symbols => ?_
    split
    · refine agree_getTypes.then @fun types => ?_
      split <;> exact .ret rfl
    · exact .fail
    · exact .fail
  all_goals first | exact .ret rfl | exact .fail

lemma agree_structOf? {base : Base} :
    Agree k P (Same P) (structOf? base) (structOf? base) := by
  unfold structOf?
  split
  · exact agree_getTypes.then <| .ret rfl
  · exact .ret rfl

lemma agree_atEmptyBrackets {γ δ : Type} {W : γ → δ → Nat → Nat → Prop} {f : Bool → Gen γ}
    {g : Bool → Gen δ}
    (hyes : Agree k (fun p p' => A.From i n (k.c.tokens.after (k.c.tokens.after p))
      (k.c'.tokens.after (k.c'.tokens.after p'))) W (f true) (g true))
    (hno : Agree k (A.From i n) W (f false) (g false)) :
    Agree k (A.From i n) W (atEmptyBrackets >>= f) (atEmptyBrackets >>= g) := by
  have hlook : Agree k (A.From i n) (fun b b' p p' => b' = b ∧ A.From i n p p' ∧ (b = true →
      A.From i n (k.c.tokens.after (k.c.tokens.after p)) (k.c'.tokens.after (k.c'.tokens.after p'))))
      atEmptyBrackets atEmptyBrackets := by
    refine agree_of_look runs_atEmptyBrackets runs_atEmptyBrackets fun {s t} hst => ?_
    have hget := (A.copied hst.pos.1).kind
    by_cases hk : (k.c.tokens.get s.pos).kind = .symbol .leftBracket
    · obtain ⟨j, m, hclose, hj⟩ := hst.pos.opens hk rfl
      have hnext : k.c.tokens.after s.pos = s.pos + 1 := after_of_symbol hk
      have hnext' : k.c'.tokens.after t.pos = t.pos + 1 := after_of_symbol (hget.trans hk)
      rw [hnext, hnext'] at hj
      refine ⟨by simp [hget, (A.copied hj.1).kind], hst.pos, fun hb => ?_⟩
      rw [hnext, hnext']
      have hk' : (k.c.tokens.get (s.pos + 1)).kind = .symbol .rightBracket := by simpa [hk] using hb
      exact hclose hj (by rw [hk']; rfl)
    · exact ⟨by simp [hget, hk], hst.pos, by simp [hk]⟩
  refine hlook.bind fun a b => .pull ?_
  rintro rfl
  cases b with
  | true => exact hyes.before fun hp => hp.2 rfl
  | false => exact hno.before And.left

lemma agree_declaredName? {m m' : Nat} :
    Agree k P (Any P) (declaredName? m) (declaredName? m') :=
  (agree_of_look runs_peekAt runs_peekAt fun hst => ⟨trivial, hst.pos⟩).skip <| .ret trivial

lemma agree_dynamicArrayOf {name? name?' : Option String} :
    Agree k P (Same P) (dynamicArrayOf ty name?) (dynamicArrayOf ty name?') :=
  .ite .fail_bind <| .ite (agree_textOf.then .fail_bind) <| .ret rfl

lemma agree_parseType :
    Agree k (A.From i n) (Same (A.From i n)) (parseType isConst) (parseType isConst) := by
  have hadvance : Agree k (A.From i n) (fun t t' p p' => Twin t t' ∧ (t.kind.isOpener = false →
      t.kind.isCloser = false → A.From i n p p')) advance advance := by
    refine ⟨fun {s t a s'} hst hrun => ?_⟩
    obtain ⟨rfl, rfl⟩ := runs_advance.1 hrun
    exact ⟨_, _, runs_advance.2 ⟨rfl, rfl⟩, hst.moved ⟨A.copied hst.pos.1, hst.pos.next rfl⟩⟩
  refine hadvance.bind fun t t' => .pull fun ht => ?_
  by_cases hplain : t.kind.isOpener = false ∧ t.kind.isCloser = false
  · refine Agree.before (P := A.From i n) ?_ fun hp => hp hplain.1 hplain.2
    have hstar : Agree k (A.From i n) (Same (A.From i n)) (eat .star >>= pure) (eat .star >>= pure) :=
      agree_eatKind (M := A.From i n) sees_from
        (fun hp hk => hp.next hk rfl rfl) (.ret rfl)
        (Agree.before (.ret rfl) And.left)
    rw [bind_pure] at hstar
    refine (agree_baseOf ht A.options).then @fun base => agree_structOf?.then @fun struct =>
      hstar.then @fun starred => ?_
    refine .ite (agree_never fun s a s' => ?_) <| agree_atEmptyBrackets ?_ (.ret rfl)
    · simp
    · exact (agree_advance (M := fun p p' => A.From i n (k.c.tokens.after p) (k.c'.tokens.after p'))
        id).skip <| (agree_advance (M := A.From i n) id).skip <|
          agree_declaredName?.skip agree_dynamicArrayOf
  · refine agree_never fun s a s' hrun => hplain ?_
    obtain ⟨base, s1, hbase, _⟩ := runs_bind.1 hrun
    exact (runs_baseOf hbase).2

end AdventureScript.Gen
