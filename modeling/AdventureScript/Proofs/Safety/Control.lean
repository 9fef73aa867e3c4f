import AdventureScript.Proofs.Safety.Construct

/-!
Branches, loops and exits, given the statements within them.
-/
namespace AdventureScript.Gen.Safety

variable {β : Type} {m : Mode} {base s : State} {n depth p start : Nat} {T : β → Nat → Prop}
  {ty : Ty} {statement : Gen Unit} {I : State → Prop} {clause : Stretch}
  {f : Option PendingJump → Gen β}

structure Inside (m : Mode) (base : State) : Prop extends Ground m base where
  running : m.strict → base.function?.isSome = true

def Passes (m : Mode) (p q : Nat) : Prop :=
  m.c.tokens.Nested p q ∧ p < q

lemma Passes.trans {q r : Nat} (h : Passes m p q) (h' : m.c.tokens.Nested q r) : Passes m p r :=
  ⟨h.1.trans h', lt_of_lt_of_le h.2 h'.1⟩

lemma passes_keyword (hs : m.c.tokens.Sealed) {word : Keyword}
    (hk : (m.c.tokens.get p).kind = .keyword word) : Passes m p (m.c.tokens.after p) :=
  ⟨Stream.nested_keyword hs hk, lt_after (by simp [hk])⟩

lemma passes_semicolon {q r : Nat} (hs : m.c.tokens.Sealed) (h : m.c.tokens.Nested p q)
    (hk : (m.c.tokens.get q).kind = .symbol .semicolon) (hr : r = m.c.tokens.after q) :
    Passes m p r := by
  subst hr
  exact ⟨(Stream.Ends.intro h hk).nested hs rfl rfl, (Stream.Ends.intro h hk).lt⟩

def Steady (m : Mode) (base : State) (start : Nat) (statement : Gen Unit) : Prop :=
  ∀ {depth n p}, (m.strict → start < p) → Settles m base depth n p statement fun _ => Passes m p

lemma calmly_compileCondition (hf : Fit m base) :
    Calmly m base n p compileCondition fun _ => Passes m p := by
  refine .expect fun ho => (calmly_expressionToAx hf).bind fun _ _ h =>
    Sure.then calmly_checkCondition <| sure_expect.mono fun hc => ?_
  have hend := Stream.Ends.intro h.1 hc.1
  exact hc.2 ▸ ⟨hend.group hf.closed ho rfl rfl, lt_of_le_of_lt Stream.le_after hend.lt⟩

lemma Sure.withinLoop {x : Gen Unit} {Q : Unit → Nat → Prop} {continueTo : Option Nat}
    {f : Frame → Gen β} (h : Settles m base (depth + 1) n p x Q)
    (hf : ∀ frame n' q, Q () q → n ≤ n' → (m.strict → frame.JumpsBelow n') →
      Settles m base depth n' q (f frame) T) :
    Settles m base depth n p (withinLoop continueTo x >>= f) T := by
  unfold Gen.withinLoop
  simp only [bind_assoc, pure_bind]
  exact .get fun _ _ => .within ⟨by simp, by simp [Frame.continues]⟩ h fun _ frame n' q hq hn hframe =>
    hf frame n' q hq hn hframe

lemma calmly_startLoop : Quiet m base n p startLoop :=
  .codeSize fun _ _ => calmly_markJumpTarget.then <| .ret rfl

lemma calmly_conditionBack (hf : Fit m base) {back : Nat} :
    Calmly m base n p (conditionBack back) fun _ q => m.c.tokens.Nested p q := by
  refine (calmly_expression hf).bind fun o q ho => ?_
  split
  · exact .ite (calmly_jumpTo.mono fun hq => hq ▸ ho.1) <| .ret ho.1
  · exact (calmly_toAx hf ho.2).with fun _ _ => calmly_checkCondition.then <|
      calmly_jumpTo.mono fun hq => hq ▸ ho.1

lemma calmly_goTo {pos : Nat} : Calmly m base n p (goTo pos) fun _ q => q = pos :=
  .setPos (calmly_forgetLine.then <| .tokenAt calmly_markLine)

lemma sure_atDeclaration : Sure m I I p atDeclaration fun _ q => q = p := by
  refine .peek ?_
  split
  · exact .ret rfl
  · exact .ret rfl
  · exact .peekAt (.look (fun {_} => runs_getSymbols.2 ⟨rfl, rfl⟩) fun _ hs hp => ⟨hs, hp⟩)
  · exact .ret rfl

lemma sure_loopClauses [Placeless I] (hs : m.c.tokens.Sealed) :
    Sure m I I p loopClauses fun r q => (m.c.tokens.Nested p r.2.start ∧
      r.2.stop = m.c.tokens.findAtDepthZero r.2.start (· = .symbol .rightParen)) ∧ q = p := by
  refine .getPos (.findAtDepthZero (.tokenAt (.dite (fun _ => .setPos (.fail_bind nofun))
    fun hk => .findAtDepthZero (.ret ⟨⟨?_, rfl⟩, rfl⟩))))
  have hend := Stream.ends_findAtDepthZero hs (of_not_not hk)
  rw [Stream.after_of_ne (by simp [of_not_not hk])] at hend
  exact hend.nested hs rfl rfl

lemma calmly_loopStep (hf : Fit m base) :
    Calmly m base n p (loopStep clause) fun _ _ => True := by
  refine .ite (.jump fun j n' hj _ => calmly_startLoop.then @fun back => ?_) <|
    calmly_startLoop.mono fun _ => trivial
  exact calmly_goTo.bind fun _ _ _ => (calmly_compileSimple hf).bind fun _ _ _ =>
    (calmly_landHere hj).then <| .ret trivial

section

variable (hg : Ground m base)
include hg

section

variable (hst : Steady m base start statement) (hlt : m.strict → start < p)
include hst hlt

lemma settles_compileControlled :
    Settles m base depth n p (compileControlled statement) fun _ => Passes m p :=
  (settles_of_still hg fun _ _ _ _ _ => still_enterBlock).then <| (hst hlt).bind fun _ _ h =>
    (settles_of_still hg fun _ _ _ _ hg' => still_exitBlock hg').mono fun hq => hq ▸ h

lemma settles_compileElse {toElse : PendingJump} (hj : toElse.operand < n) :
    Settles m base depth n p (compileElse statement toElse) fun _ => Passes m p :=
  .skipNext hg fun toEnd n' htoEnd hn => (settles_landHere hg (lt_of_lt_of_le hj hn)).then <|
      (settles_compileControlled hg hst hlt).bind fun _ _ h =>
        (settles_landOptional hg htoEnd).mono fun hq => hq ▸ h

omit hst hlt in
lemma settles_compileIf (hst : Steady m base p statement)
    (hk : (m.c.tokens.get p).kind = .keyword .kwIf) :
    Settles m base depth n p (compileIf statement) fun _ => Passes m p := by
  have hif := passes_keyword hg.closed hk
  refine .advance ((settles_of_calmly hg fun _ _ _ _ hf => calmly_compileCondition hf).bind
    fun _ q1 h1 => .jump fun toElse n' hj _ => ?_)
  have hcond := hif.trans h1.1
  refine (settles_compileControlled hg hst fun _ => hcond.2).bind fun _ q2 h2 => ?_
  have hthen := hcond.trans h2.1
  refine .eatWord (fun helse => ?_) fun _ => (settles_landHere hg hj).mono fun hq => hq ▸ hthen
  have helse' := hthen.trans (Stream.nested_keyword hg.closed helse)
  exact (settles_compileElse hg hst (fun _ => helse'.2) hj).mono fun h => helse'.trans h.1

omit hst hlt in
lemma Sure.loopCondition
    (h : ∀ j? n' q, m.c.tokens.Nested p q → (∀ j ∈ j?, j.operand < n') → n ≤ n' →
      Settles m base depth n' q (f j?) T) :
    Settles m base depth n p (loopCondition >>= f) T := by
  unfold Gen.loopCondition
  simp only [bind_assoc]
  refine Sure.bind (Q := fun o q => m.c.tokens.Nested p q ∧ (m.strict → o.Fits base.symbols 0))
    (settles_of_calmly hg fun s _ _ hs hf => (calmly_expression hf).mono fun h =>
      ⟨h.1, fun hstrict => hs ▸ h.2 hstrict⟩) fun o q ho => ?_
  split
  · exact h none n q ho.1 (by simp) (le_refl n)
  · simp only [bind_assoc, bind_map_left]
    refine (settles_of_calmly hg fun s _ _ hs hf => calmly_toAx hf fun hstrict =>
      hs ▸ ho.2 hstrict).with fun _ _ => ?_
    refine (settles_of_quiet hg calmly_checkCondition).then ?_
    exact .jump fun j n' hj hn => h (some j) n' q ho.1 (by simpa using hj) hn

lemma settles_loopBody {back : Nat} {toEnd : Option PendingJump}
    (hj : ∀ j ∈ toEnd, j.operand < n) :
    Settles m base depth n p (loopBody statement back toEnd) fun _ => Passes m p :=
  .withinLoop (settles_compileControlled hg hst hlt) fun _ _ _ h hn hframe =>
    (settles_of_quiet hg calmly_jumpTo).then <|
      (settles_landOptional hg fun j hmem => lt_of_lt_of_le (hj j hmem) hn).then <|
        (settles_landAllHere hg fun hs => (hframe hs).1).mono fun hq => hq ▸ h

end

lemma settles_compileWhile (hst : Steady m base p statement)
    (hk : (m.c.tokens.get p).kind = .keyword .kwWhile) :
    Settles m base depth n p (compileWhile statement) fun _ => Passes m p := by
  have hword := passes_keyword hg.closed hk
  refine .advance ((settles_of_quiet hg calmly_startLoop).then @fun back =>
    .expect fun ho => .loopCondition hg fun toEnd n' q h hj _ => .expect fun hc => ?_)
  have hcond := hword.trans ((Stream.Ends.intro h hc).group hg.closed ho rfl rfl)
  exact (settles_loopBody hg hst (fun _ => hcond.2) hj).mono fun h' => hcond.trans h'.1

lemma settles_compileDo (hst : Steady m base p statement)
    (hk : (m.c.tokens.get p).kind = .keyword .kwDo) :
    Settles m base depth n p (compileDo statement) fun _ => Passes m p := by
  have hword := passes_keyword hg.closed hk
  refine .advance ((settles_of_quiet hg calmly_startLoop).then @fun back => ?_)
  refine .withinLoop (settles_compileControlled hg hst fun _ =>
    hword.2) fun frame n' q h _ hframe =>
    (settles_landAllHere hg fun hs => (hframe hs).2).then <| .expectWord fun hwhile =>
      .expect fun ho => (settles_of_calmly hg fun _ _ _ _ hf => calmly_conditionBack hf).bind
        fun _ r hr => .expect fun hc => .expect fun hsemicolon =>
          (settles_landAllHere hg fun hs => (hframe hs).1).mono fun hq => ?_
  have hcond := (Stream.Ends.intro hr hc).group hg.closed ho rfl rfl
  exact passes_semicolon hg.closed (hword.1.trans (h.1.trans
    ((Stream.nested_keyword hg.closed hwhile).trans hcond))) hsemicolon hq

lemma settles_compilePlain : Settles m base depth n p (do
      if ← atDeclaration then compileLocals
      else compileSimple .semicolon) fun _ => Passes m p :=
  sure_atDeclaration.then <| .ite
    (settles_of_still hg fun _ _ _ _ hg' => still_compileLocals hg') <|
      settles_of_calmly hg fun _ _ _ _ hf => (calmly_compileSimple hf).mono fun h =>
        ⟨h.nested hf.closed rfl rfl, h.lt⟩

lemma settles_loopStart : Settles m base depth n p loopStart fun _ => Passes m p :=
  .eat (fun hk => .ret (passes_semicolon hg.closed .refl hk rfl)) fun _ => settles_compilePlain hg

lemma Sure.clauseCondition
    (h : ∀ j? n' q, (∀ j ∈ j?, j.operand < n') → n ≤ n' → Settles m base depth n' q (f j?) T) :
    Settles m base depth n p (clauseCondition clause >>= f) T := by
  unfold Gen.clauseCondition
  simp only [bind_assoc]
  refine .setPos ?_
  split
  · simp only [bind_assoc]
    exact (settles_of_quiet hg calmly_goTo).bind fun _ _ _ =>
      .loopCondition hg fun j? n' q _ hj hn => h j? n' q hj hn
  · exact h none n _ (by simp) (le_refl n)

/-- The clauses are compiled out of order, but the statement follows behind the last one. -/
lemma settles_compileRounds (hst : Steady m base start statement)
    (hle : m.strict → start ≤ p) :
    Settles m base depth n p (compileRounds statement) fun _ q =>
      ∃ r, m.c.tokens.Ends .rightParen p r ∧ m.c.tokens.Nested r q := by
  refine (sure_loopClauses hg.closed).with fun (condition, step) ⟨hsemicolon, hclose⟩ => ?_
  refine (settles_of_calmly hg fun _ _ _ _ hf => calmly_loopStep hf).bind fun back _ _ =>
    .clauseCondition hg fun toEnd n' _ hj _ => .expect fun _ => .setPos (.expect fun hc => ?_)
  have hparen := Stream.ends_findAtDepthZero (p := step.start) hg.closed (hclose ▸ hc)
  rw [← hclose] at hparen
  have hend := hparen.behind hsemicolon
  exact (settles_loopBody hg hst (fun hs => lt_of_le_of_lt (hle hs) hend.lt) hj).mono fun h =>
    ⟨_, hend, h.1⟩

lemma settles_compileFor (hst : Steady m base p statement)
    (hk : (m.c.tokens.get p).kind = .keyword .kwFor) :
    Settles m base depth n p (compileFor statement) fun _ => Passes m p := by
  have hword := passes_keyword hg.closed hk
  refine .advance (.expect fun ho => ?_)
  refine (settles_of_still hg fun _ _ _ _ _ => still_enterBlock).then <|
    (settles_loopStart hg).bind fun _ q h => ?_
  have hle (_ : m.strict) : p ≤ q :=
    le_trans hword.1.1 (le_trans Stream.le_after h.1.1)
  refine (settles_compileRounds hg hst hle).bind fun _ _ ⟨r, hend, hr⟩ =>
    (settles_of_still hg fun _ _ _ _ hg' => still_exitBlock hg').mono fun hq => hq ▸ ?_
  exact (hword.trans ((hend.behind h.1).group hg.closed ho rfl rfl)).trans hr

end

/-! ## Exits -/

lemma calmly_saveResult : Quiet m base n p (saveResult ty) :=
  calmly_pushReg.then <| .ite (calmly_emit.then calmly_emitRegs) <| .ret rfl

lemma calmly_takeResult : Quiet m base n p (takeResult ty) :=
  .ite (calmly_emit.then <| calmly_emitRegs.then <| calmly_emit.then calmly_popReg) calmly_popReg

lemma calmly_releaseKeepingAx : Quiet m base n p (releaseKeepingAx ty) :=
  .checkpoint fun _ hk => calmly_saveResult.then <| calmly_releaseHandles.then <|
    .ite calmly_takeResult <| (calmly_restore hk).then calmly_adjustStack

lemma calmly_compileReturned (hf : Fit m base) :
    Calmly m base n p (compileReturned ty) fun _ => Passes m p := by
  refine .eat (fun hk => ?_) fun _ => ?_
  · have hend : Passes m p (m.c.tokens.after p) := passes_semicolon hf.closed .refl hk rfl
    rw [if_pos rfl]
    refine .ite (sure_textOf.then <| .fail_bind nofun) ?_
    exact calmly_releaseHandles.then <| .ret hend
  · refine .unless nofun ?_
    refine (calmly_expressionToAx hf).bind fun _ _ h => calmly_convertAxForStore.then <|
      .expect fun hk => calmly_releaseKeepingAx.mono fun hq => ?_
    exact passes_semicolon hf.closed h.1 hk hq

lemma settles_compileReturn (hi : Inside m base)
    (hk : (m.c.tokens.get p).kind = .keyword .kwReturn) :
    Settles m base depth n p compileReturn fun _ => Passes m p := by
  have hword := passes_keyword hi.closed hk
  refine ⟨fun s hs hp => ?_⟩
  have hrunning (h : m.strict) : s.function?.isSome = true := hs.function? ▸ hi.running h
  have hf : Fit m s := hs.still.fit (hi.of_eq hs.symbols hs.function?)
  have hcalm : Calmly m s s.script.size p compileReturn fun _ => Passes m p := by
    refine .advance ((calmly_currentFunction? hf).with fun f? hf? => ?_)
    refine (sure_orFail_of_isSome fun h => ?_).with fun f _ => ?_
    · rw [hf?, Option.isSome_map]
      exact hrunning h
    · exact (calmly_compileReturned hf).bind fun _ _ h => .get fun _ _ =>
        calmly_releaseOnExit.then <| calmly_emit.mono fun hq => hq ▸ hword.trans h.1
  exact (hcalm.run s hs.still.calm hp).mono fun h =>
    ⟨(h.1.still hs.still).settled hs hs.size_le hs.jumps, h.2⟩

lemma settles_compileBreak (hg : Ground m base)
    (hk : (m.c.tokens.get p).kind = .keyword .kwBreak) :
    Settles m base depth n p compileBreak fun _ => Passes m p := by
  have hword := passes_keyword hg.closed hk
  refine .advance (.expect fun hsemicolon => .get fun _ _ => (sure_orFail (by nofun)).with
    fun frame _ => (settles_of_quiet hg calmly_leaveTo).then <|
      .jump fun j n' hj _ => ?_)
  refine (settles_modifyNesting (f := fun nesting => nesting.modifyHead (·.addBreak j))
    Nesting.length_modifyHead fun _ _ size hsize hjumps f hf => ?_).mono fun hq =>
      passes_semicolon hg.closed hword.1 hsemicolon hq
  rcases Nesting.mem_modifyHead hf with hf | ⟨g, hg', rfl⟩
  · exact hjumps f hf
  · exact (hjumps g hg').addBreak (lt_of_lt_of_le hj hsize)

lemma settles_compileContinue (hg : Ground m base)
    (hk : (m.c.tokens.get p).kind = .keyword .kwContinue) :
    Settles m base depth n p compileContinue fun _ => Passes m p := by
  have hword := passes_keyword hg.closed hk
  refine .advance (.expect fun hsemicolon => .get fun _ _ => (sure_orFail (by nofun)).with
    fun frame _ => (settles_of_quiet hg calmly_leaveTo).then @fun _ => ?_)
  have hend {q : Nat} (hq : q = _) := passes_semicolon (r := q) hg.closed hword.1 hsemicolon hq
  split
  · exact (settles_of_quiet hg calmly_jumpTo).mono hend
  · refine .jump fun j n' hj _ => (settles_modifyNesting
      (f := fun nesting => nesting.modifyLoop (·.addContinue j))
      Nesting.length_modifyLoop fun _ _ size hsize hjumps f hf => ?_).mono hend
    rcases Nesting.mem_modifyLoop hf with hf | ⟨g, hg', rfl⟩
    · exact hjumps f hf
    · exact (hjumps g hg').addContinue (lt_of_lt_of_le hj hsize)

lemma settles_markSwitch {marked : Bool} :
    Settles m base depth n p (modify fun s => { s with nesting := s.nesting.markSwitch marked })
      fun _ q => q = p := by
  refine settles_modifyNesting (f := fun nesting => nesting.markSwitch marked)
    Nesting.length_modifyHead fun _ _ size _ hjumps f hf => ?_
  rcases Nesting.mem_modifyHead hf with hf | ⟨g, hg, rfl⟩
  · exact hjumps f hf
  · have hg' := hjumps g hg
    rcases g with ⟨⟨target, js⟩ | marked', depth, breaks⟩
    · exact hg'
    · exact hg'

lemma settles_compileFallthrough (hg : Ground m base)
    (hk : (m.c.tokens.get p).kind = .keyword .kwFallthrough) :
    Settles m base depth n p compileFallthrough fun _ => Passes m p := by
  have hword := passes_keyword hg.closed hk
  refine .advance (.expect fun hsemicolon => .get fun _ _ => .unless nofun ?_)
  exact settles_markSwitch.mono fun hq => passes_semicolon hg.closed hword.1 hsemicolon hq

end AdventureScript.Gen.Safety
