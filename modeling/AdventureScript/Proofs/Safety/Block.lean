import AdventureScript.Proofs.Safety.Operator

/-!
Blocks and the variables declared in them.
-/
namespace AdventureScript

variable {scope : Scope}

lemma Scope.Proper.cons {offset start : Int32} (h : scope.Proper) :
    Scope.Proper ⟨⟨start, []⟩ :: scope.blocks, offset⟩ :=
  List.forall_mem_cons.2 ⟨nofun, h⟩

lemma Scope.Proper.leave (h : scope.Proper) : scope.leave.2.Proper := by
  unfold Scope.leave
  split
  · next b outer hb => exact fun b' hb' => h b' (by rw [hb]; exact List.mem_cons_of_mem _ hb')
  · exact h

lemma Scope.Proper.add {v : Variable} (h : scope.Proper) (hv : v.ty.Proper) :
    (scope.add v).Proper := by
  unfold Scope.add
  split
  · next b outer hb =>
    have hmem : b ∈ scope.blocks := by simp [hb]
    refine List.forall_mem_cons.2 ⟨List.forall_mem_cons.2 ⟨hv, h b hmem⟩, fun b' hb' => h b' ?_⟩
    rw [hb]
    exact List.mem_cons_of_mem _ hb'
  · exact h

namespace Gen.Safety

variable {α : Type} {m : Mode} {base s s' : State} {n p : Nat} {strict : Prop} {x : Gen α}
  {Q : α → Nat → Prop} {ty : Ty} {name : String}

/-! ## What stays -/

structure Still (strict : Prop) (base : State) (n : Nat) (s : State) : Prop where
  symbols : s.symbols = base.symbols
  nesting : s.nesting = base.nesting
  function? : s.function? = base.function?
  size_le : n ≤ s.script.size
  calls : strict → s.CallsWithin
  scope : strict → s.scope.Proper

instance : Placeless (Still strict base n) where
  setPos h := { h with calls := fun hs => (h.calls hs).grow rfl rfl le_rfl }

instance : Growing (Still strict base) where
  size_le h := h.size_le
  mono h hn := { h with size_le := hn }
  write h hle := { h with
    size_le := le_trans h.size_le hle
    calls := fun hs => (h.calls hs).grow rfl rfl hle }

lemma Ground.of_eq (h : Ground m base) (hsymbols : s.symbols = base.symbols)
    (hfunction : s.function? = base.function?) : Ground m s where
  closed := h.closed
  words := h.words
  symbols hs := hsymbols ▸ h.symbols hs
  function? hs := hsymbols ▸ hfunction ▸ h.function? hs

lemma Still.fit (h : Still m.strict base n s) (hg : Ground m base) : Fit m s where
  toGround := hg.of_eq h.symbols h.function?
  scope := h.scope

lemma Still.calm (h : Still strict base n s) : Calm strict s n s :=
  ⟨rfl, rfl, rfl, rfl, h.size_le, h.calls⟩

lemma Calm.still (h : Calm strict s n s') (hs : Still strict base n s) :
    Still strict base n s' where
  symbols := h.symbols.trans hs.symbols
  nesting := h.nesting.trans hs.nesting
  function? := h.function?.trans hs.function?
  size_le := h.size_le
  calls := h.calls
  scope hstrict := by
    rw [Scope.Proper, h.blocks]
    exact hs.scope hstrict

lemma still_of_calm (hg : Ground m base)
    (h : ∀ s, s.symbols = base.symbols → Fit m s → Still m.strict base n s →
      Sure m (Calm m.strict s n) (Still m.strict base n) p x Q) :
    Sure m (Still m.strict base n) (Still m.strict base n) p x Q :=
  ⟨fun s hs hp => (h s hs.symbols (hs.fit hg) hs).run s hs.calm hp⟩

lemma still_of_calmly (hg : Ground m base)
    (h : ∀ s, s.symbols = base.symbols → Fit m s → Calmly m s n p x Q) :
    Sure m (Still m.strict base n) (Still m.strict base n) p x Q :=
  still_of_calm hg fun s hsymbols hf hs => ⟨fun s1 hs1 hp =>
    ((h s hsymbols hf).run s1 hs1 hp).mono fun h' => ⟨h'.1.still hs, h'.2⟩⟩

lemma calmly_releaseHandles {depth : Nat} : Quiet m base n p (releaseHandles depth) := by
  refine .getTypes (.get fun s _ => ?_)
  exact Sure.then (sure_forM (P := (· = p)) (fun _ _ q hq => calmly_loadLocal.then <|
    calmly_emit.mono fun h => h.trans hq) rfl) <| .ret rfl

lemma calmly_leaveTo {depth : Nat} : Quiet m base n p (leaveTo depth) :=
  calmly_releaseHandles.then <| .get fun _ _ => calmly_releaseOnExit

lemma still_modifyScope {f : Scope → Scope} (hf : ∀ {scope : Scope}, scope.Proper → (f scope).Proper) :
    Sure m (Still m.strict base n) (Still m.strict base n) p (modifyScope f) fun _ q => q = p :=
  ⟨fun _ hs hp => ⟨{ hs with
    calls := fun h => (hs.calls h).grow rfl rfl le_rfl
    scope := fun h => hf (hs.scope h) }, hp⟩⟩

lemma still_enterBlock :
    Sure m (Still m.strict base n) (Still m.strict base n) p enterBlock fun _ q => q = p :=
  still_modifyScope fun h => h.cons

lemma still_exitBlock (hg : Ground m base) :
    Sure m (Still m.strict base n) (Still m.strict base n) p exitBlock fun _ q => q = p := by
  have hleave : Sure m (Still m.strict base n) (Still m.strict base n) p
      (modifyScope fun s => s.leave.2) fun _ q => q = p :=
    still_modifyScope Scope.Proper.leave
  have hcalm {α : Type} {x : Gen α} (h : ∀ s, Quiet m s n p x) :=
    still_of_calmly hg fun s _ _ => h s
  refine .get fun s _ => (hcalm fun _ => calmly_isReachable).then ?_
  refine .ite ?_ ?_
  · exact (hcalm fun _ => calmly_releaseHandles).then <| (hcalm fun _ => calmly_release).then hleave
  · exact (hcalm fun _ => calmly_adjustStack).then hleave

lemma calmly_arraySize (hf : Fit m base) :
    Calmly m base n p arraySize fun _ q => m.c.tokens.Nested p q := by
  refine (calmly_constantExpression? hf).bind fun r q h => ?_
  split
  · refine .unless nofun ?_
    exact .ret (h rfl)
  · exact .fail nofun

lemma calmly_arraySizes (hf : Fit m base)
    (hk : (m.c.tokens.get p).kind = .symbol .leftBracket) :
    Calmly m base n p arraySizes fun dims q => m.c.tokens.Nested p q ∧ dims ≠ [] := by
  refine Sure.bind (Q := fun dims q => m.c.tokens.Nested p q ∧ dims.toList ≠ [])
    (sure_rounds (P := fun (dims : Array UInt32) q =>
      m.c.tokens.Nested p q ∧ (dims.toList = [] → q = p)) (fun dims q hq => ?_)
      ⟨.refl, fun _ => rfl⟩) fun _ _ h => .ret h
  refine .eat (fun ho => ?_) fun hno => .ret ⟨hq.1, fun hempty => hno (hq.2 hempty ▸ hk)⟩
  refine (calmly_arraySize hf).bind fun size r hr => .expect fun hclose => .ret ⟨?_, ?_, by simp⟩
  · refine left_of_le hf.closed (le_refl q) (by simp [ho]) ?_
    exact lt_of_lt_of_le (lt_after (by simp [ho])) (le_trans hr.1 Stream.le_after)
  · exact hq.1.trans (.group hf.closed ho rfl hr hclose rfl)

lemma calmly_arraySuffix (hf : Fit m base) (hty : ty.isStaticArray = false)
    {name? : Option String} :
    Calmly m base n p (arraySuffix ty name?) fun ty q => m.c.tokens.Nested p q ∧ ty.Proper := by
  refine .check (fun hk => ?_) fun _ => .ret ⟨.refl, .of_not_static hty⟩
  refine .unless nofun <| .atEmptyBrackets fun b hb => .dite (fun hempty => ?_) fun _ => ?_
  · exact .advance (.advance (sure_dynamicArrayOf.mono fun h =>
      ⟨h.2 ▸ .emptyBrackets hf.closed (hb hempty).1 (hb hempty).2, .of_not_static h.1⟩))
  · exact (calmly_arraySizes hf hk).bind fun dims q h => .unless nofun <|
      .ret ⟨h.1, fun hshape => h.2 (by simpa using hshape)⟩

lemma calmly_checkVariableType {imported : Bool} :
    Quiet m base n p (checkVariableType ty name imported) := by
  refine .unless nofun ?_
  refine .ite (calmly_structOf?.then @fun struct => ?_) <| .ret rfl
  split
  · refine .unless nofun ?_
    exact .ite (.fail nofun) <| .ret rfl
  · exact .ret rfl

/-! ## Local variables -/

lemma calmly_checkLocalName : Calmly m base n p (checkLocalName name) fun _ q =>
    base.scope.getHere? name = none ∧ q = p := by
  refine .get fun s hs => ?_
  have hhere : s.scope.getHere? name = base.scope.getHere? name := by
    rw [Scope.getHere?, hs.blocks, Scope.getHere?]
  refine .require nofun fun hnone => .unless nofun <| .getSymbols ?_
  have hend : base.scope.getHere? name = none ∧ p = p := ⟨by simpa [hhere] using hnone, rfl⟩
  split
  · exact calmly_warn.mono fun h => ⟨hend.1, h⟩
  · exact .getTypes (calmly_warn.mono fun h => ⟨hend.1, h⟩)
  · exact .fail nofun
  · exact .ret hend

lemma calmly_fillsCell : Quiet m base n p (fillsCell ty) :=
  .getTypes (.ret rfl)

lemma calmly_allocateZero : Quiet m base n p (allocateZero ty) := by
  refine .getTypes (calmly_fillsCell.then <| .ite ?_ ?_)
  · exact calmly_litToReg.then calmly_pushReg
  · exact calmly_emit.then <| .ite (calmly_emit.then calmly_allocate)
      <| calmly_emit.then calmly_allocate

lemma calmly_allocateAx : Quiet m base n p (allocateAx ty) := by
  refine calmly_fillsCell.then <| .ite calmly_pushReg ?_
  exact calmly_emit.then <| .ite (calmly_emitRegs.then <| .getTypes calmly_allocate)
    <| calmly_writeAx.then <| .getTypes calmly_allocate

lemma calmly_allocateInitialized (hf : Fit m base) :
    Calmly m base n p (allocateInitialized ty name) fun _ q => m.c.tokens.Nested p q := by
  refine .unless nofun <| .atExpressionEnd fun _ => .ite (.peek (.fail_bind nofun)) <| .ite ?_ ?_
  · exact .get fun _ _ => calmly_allocateZero.then <| (calmly_expressionToAx hf).bind
      fun _ _ h => calmly_convertAxForStore.then <| calmly_loadLocal.then <|
        calmly_copyString.mono fun hq => hq ▸ h.1
  · exact (calmly_expressionToAx hf).bind fun _ _ h => calmly_convertAxForStore.then <|
      calmly_allocateAx.mono fun hq => hq ▸ h.1

lemma still_declareLocal (hg : Ground m base) (hty : ty.isStaticArray = false) {readOnly : Bool} :
    Sure m (Still m.strict base n) (Still m.strict base n) p (declareLocal ty readOnly) fun _ q =>
      m.c.tokens.Nested p q ∧ p < q := by
  refine still_of_calm hg fun s hsymbols hf hs => .expectIdentifier fun hk => ?_
  refine calmly_checkLocalName.with fun _ hfree => (calmly_arraySuffix hf hty).bind fun ty q h => ?_
  refine calmly_checkVariableType.then <| .get fun s1 _ => ?_
  have hname := (nested_identifier hf.closed hk).trans h.1
  have hlt : p < q := lt_of_lt_of_le (lt_after (by simp [hk])) h.1.1
  refine Sure.eat_bind (Q := fun _ => m.c.tokens.Nested q) (fun hequal => ?_)
    (fun _ => calmly_allocateZero.mono fun hr => hr ▸ .refl) fun _ r hr => ?_
  · exact (calmly_allocateInitialized hf).mono fun h' =>
      (Stream.Nested.token hf.closed hequal rfl rfl).trans h'
  refine .getTypes (Sure.then (calmly_modify fun _ => ⟨rfl, rfl, rfl, rfl, rfl, le_rfl, rfl⟩)
    <| .get fun s2 hs2 => ?_)
  have hhere : s2.scope.getHere? (m.c.tokens.get p).lexeme = none := by
    rw [← hfree, Scope.getHere?, hs2.blocks, Scope.getHere?]
  simp only [Scope.declare, hhere]
  refine ⟨fun s3 hs3 hp => ?_⟩
  have hstill := hs3.still hs
  refine ⟨{ hstill with
    calls := fun h => (hstill.calls h).grow rfl rfl le_rfl
    scope := fun h' => ((hs2.still hs).scope h').add h.2 }, hp ▸ hname.trans hr, ?_⟩
  exact hp ▸ lt_of_lt_of_le hlt hr.1

lemma sure_eatWord {I : State → Prop} [Placeless I] (hs : m.c.tokens.Sealed) {word : Keyword} :
    Sure m I I p (eatWord word) fun _ q => m.c.tokens.Nested p q := by
  have h : Sure m I I p (eatWord word >>= pure) fun _ q => m.c.tokens.Nested p q :=
    .eatWord (fun hk => .ret (Stream.nested_keyword hs hk)) fun _ => .ret .refl
  simpa using h

lemma still_compileLocals (hg : Ground m base) :
    Sure m (Still m.strict base n) (Still m.strict base n) p compileLocals fun _ q =>
      m.c.tokens.Nested p q ∧ p < q := by
  refine (sure_eatWord hg.closed).bind fun readOnly q1 h1 => (sure_eatWord hg.closed).bind
    fun isConst q2 h2 => ?_
  refine (still_of_calmly hg fun _ _ hf => calmly_parseType hf.closed).bind fun ty q3 h3 => ?_
  refine Sure.bind (sure_repeatWhile (P := m.c.tokens.Nested p) (Q := m.c.tokens.Nested p)
    (fun q hq => ?_) (h1.trans (h2.trans h3.1))) fun _ q hq => ?_
  · refine (still_declareLocal hg h3.2).bind fun _ r hr => sure_eat (fun hk => ?_) fun _ => ?_
    · exact ⟨left_of_le hg.closed hr.1.1 (by simp [hk]) (lt_after (by simp [hk])),
        hq.trans (hr.1.trans (.token hg.closed hk rfl rfl))⟩
    · exact hq.trans hr.1
  · refine sure_expect.mono fun h => ?_
    have hlt : q < m.c.tokens.after q := lt_after (by simp [h.1])
    rw [h.2]
    exact ⟨hq.trans (.token hg.closed h.1 rfl rfl), lt_of_le_of_lt hq.1 hlt⟩

end Gen.Safety
end AdventureScript
