import AdventureScript.Proofs.Safety.Control

/-!
Switches. The code of a case value is cut out as far as it was written for it, so that it can be cut
out at all, and the calls in it find their words again where it is put back.
-/
namespace AdventureScript

variable {I : State → Prop} {value : CaseValue}

def CaseValue.Fits (symbols : Symbols) : CaseValue → Prop
  | .const _ => True
  | .code chunk marks => ∀ k ∈ marks.calls,
      k.position < chunk.code.size ∧ k.value.index < symbols.functions.size

def Clauses.Fits (symbols : Symbols) (clauses : Clauses) : Prop :=
  ∀ c ∈ clauses.cases, c.value.Fits symbols

namespace Gen.Safety

variable {α β : Type} {m : Mode} {base : State} {n depth p start : Nat} {ty : Ty}
  {statement : Gen Unit} {clauses : Clauses} {offset : Int32}

lemma calmly_cutCode {line : Nat} :
    Calmly m base n p (cutCode n line) fun value q =>
      (m.strict → value.Fits base.symbols) ∧ q = p := by
  refine ⟨fun s hs hp => ?_⟩
  have hsize := hs.size_le
  have hyank : ¬s.script.size < n := by omega
  simp only [cutCode, meets_bind, meets_get, Script.yank, if_neg hyank, meets_set, meets_pure]
  refine ⟨{ hs with
    size_le := by simpa [Script.size] using Nat.le_min.2 ⟨le_refl n, hsize⟩
    calls := fun h => (hs.calls h).restore rfl rfl (by simp [Script.size]) }, fun h k hk => ?_, hp⟩
  obtain ⟨k', hk', hle, rfl⟩ : ∃ k' ∈ s.calls.entries, n ≤ k'.position ∧
      { k' with position := k'.position - n } = k := by
    simpa [Marks.yank, and_assoc] using hk
  obtain ⟨hlt, hid⟩ := hs.calls h k' hk'
  refine ⟨?_, hs.symbols ▸ hid⟩
  simp only [Script.size] at hlt
  simp only [Array.drop_eq_extract, Array.size_extract]
  omega

lemma calmly_putCode {chunk : Chunk} {marks : ChunkMarks}
    (h : m.strict → (CaseValue.code chunk marks).Fits base.symbols) :
    Quiet m base n p (putCode chunk marks) := by
  refine ⟨fun s hs hp => ?_⟩
  simp only [putCode, meets_bind]
  rw [meets_of_runs (runs_updateScript.2 ⟨rfl, rfl⟩), meets_modify]
  have hsize : (s.script.writeChunk chunk).2.size = s.script.size + chunk.code.size := by
    simp [Script.writeChunk, Script.size]
  refine ⟨{ hs with
    size_le := le_trans hs.size_le (by simp only [hsize]; omega)
    calls := fun hstrict k hk => ?_ }, hp⟩
  simp only [hsize]
  rcases Array.mem_append.1 hk with hk | hk
  · obtain ⟨hlt, hid⟩ := hs.calls hstrict k hk
    exact ⟨by omega, hid⟩
  · obtain ⟨k', hk', rfl⟩ := Array.mem_map.1 hk
    obtain ⟨hlt, hid⟩ := h hstrict k' hk'
    refine ⟨?_, hs.symbols ▸ hid⟩
    simp only [Script.writeChunk]
    omega

lemma calmly_warnFallThrough {label : Token} : Quiet m base n p (warnFallThrough label clauses) :=
  .get fun _ _ => .ite calmly_warnAt <| .ret rfl

lemma settles_startClause (hg : Ground m base) :
    Settles m base depth n p startClause fun _ q => q = p :=
  (settles_of_quiet hg calmly_markJumpTarget).then <|
    settles_markSwitch.then sure_codeSize

lemma calmly_caseValue (hf : Fit m base) {line : Nat} :
    Calmly m base n p (caseValue n line ty) fun value q =>
      m.c.tokens.Nested p q ∧ (m.strict → value.Fits base.symbols) := by
  refine (calmly_expression hf).bind fun o q ho => ?_
  split
  · refine .getTypes (.ite (sure_textOf.then <| .fail_bind nofun) ?_)
    exact .ret ⟨ho.1, fun _ => trivial⟩
  · exact (calmly_toAx hf ho.2).with fun _ _ => calmly_convertAx.with fun _ _ =>
      calmly_cutCode.mono fun h => ⟨h.2 ▸ ho.1, h.1⟩

lemma calmly_atStackOffset {x : Gen α} {Q : α → Nat → Prop} (h : Calmly m base n p x Q) :
    Calmly m base n p (atStackOffset offset x) Q :=
  .get fun _ _ => Sure.then (calmly_modify fun _ => ⟨rfl, rfl, rfl, rfl, rfl, le_rfl, rfl⟩) <|
    h.bind fun _ q hq => Sure.then
      (calmly_modify fun _ => ⟨rfl, rfl, rfl, rfl, rfl, le_rfl, rfl⟩) <| .ret hq

lemma sure_checkCase : Sure m I I p (checkCase value clauses) fun _ q => q = p := by
  unfold checkCase
  split
  · exact .ite (.fail nofun) <| .ret rfl
  · exact .ret rfl

def Labelled (m : Mode) (base : State) (p : Nat) (clauses : Clauses) (q : Nat) : Prop :=
  Passes m p q ∧ (m.strict → clauses.Fits base.symbols) ∧ clauses.isEmpty = false

lemma passes_colon {q : Nat} (hs : m.c.tokens.Sealed) (h : m.c.tokens.Nested p q)
    (hk : (m.c.tokens.get q).kind = .symbol .colon) : Passes m p (m.c.tokens.after q) :=
  ⟨(Stream.Ends.intro h hk).nested hs rfl rfl, (Stream.Ends.intro h hk).lt⟩

lemma settles_compileCase (hg : Ground m base) (hk : (m.c.tokens.get p).kind = .keyword .kwCase)
    (hclauses : m.strict → clauses.Fits base.symbols) :
    Settles m base depth n p (compileCase ty offset clauses) (Labelled m base p) := by
  have hword := passes_keyword hg.closed hk
  refine .advance ((settles_of_quiet hg calmly_warnFallThrough).then ?_)
  refine .check (fun _ => .fail_bind nofun) fun _ => ?_
  refine Sure.bind (Q := fun value q => m.c.tokens.Nested (m.c.tokens.after p) q ∧
    (m.strict → value.Fits base.symbols)) (settles_of_calmly hg fun _ _ _ hs hf =>
      calmly_atStackOffset (.codeSize fun _ _ => (calmly_caseValue hf).mono fun h =>
        ⟨h.1, hs ▸ h.2⟩)) fun value q h => ?_
  refine sure_checkCase.then <| .expect fun hcolon => (settles_startClause hg).bind
    fun body r hr => .ret ⟨hr ▸ passes_colon hg.closed (hword.1.trans h.1) hcolon, fun hs c hc =>
      ?_, ?_⟩
  · rcases Array.mem_push.1 hc with hc | rfl
    · exact hclauses hs c hc
    · exact h.2 hs
  · simp [Clauses.isEmpty]

lemma settles_compileDefault (hg : Ground m base)
    (hk : (m.c.tokens.get p).kind = .keyword .kwDefault)
    (hclauses : m.strict → clauses.Fits base.symbols) :
    Settles m base depth n p (compileDefault clauses) (Labelled m base p) := by
  have hword := passes_keyword hg.closed hk
  refine .advance ((settles_of_quiet hg calmly_warnFallThrough).then ?_)
  refine .unless nofun <| .expect fun hcolon => (settles_startClause hg).bind
    fun body r hr => .ret ⟨hr ▸ passes_colon hg.closed hword.1 hcolon, hclauses, ?_⟩
  simp [Clauses.isEmpty]

lemma settles_compileClauseStatement (hst : Steady m base start statement)
    (hlt : m.strict → start < p) :
    Settles m base depth n p (compileClauseStatement statement clauses) fun _ q =>
      Passes m p q ∧ clauses.isEmpty = false := by
  refine .dite (fun _ => .peek (.fail_bind nofun)) fun hne => sure_atDeclaration.then ?_
  refine .unless nofun <| (hst hlt).mono fun h => ⟨h, by simpa using hne⟩

def Closed (m : Mode) (base : State) (p : Nat) (clauses : Clauses) (q : Nat) : Prop :=
  m.c.tokens.Nested p q ∧ (m.strict → clauses.Fits base.symbols) ∧ (clauses.isEmpty = true → q = p)

lemma settles_compileClauses (hg : Ground m base) (hst : Steady m base start statement)
    (hlt : m.strict → start < p) :
    Settles m base depth n p (compileClauses statement ty offset) fun clauses q =>
      Closed m base p clauses q ∧ (m.c.tokens.get q).kind = .symbol .rightBrace := by
  refine sure_rounds (P := Closed m base p) (fun clauses q hq => .peek ?_)
    ⟨.refl, fun _ => by simp [Clauses.Fits], fun _ => rfl⟩
  have hnext {clauses' : Clauses} {r : Nat} (hne : (m.c.tokens.get q).kind ≠ .endOfInput)
      (h : Labelled m base q clauses' r) : Turns m q (Closed m base p)
        (fun clauses q => Closed m base p clauses q ∧
          (m.c.tokens.get q).kind = .symbol .rightBrace) (.again clauses') r :=
    ⟨left_of_le hg.closed (le_refl q) hne h.1.2, hq.1.trans h.1.1, h.2.1, by simp [h.2.2]⟩
  split <;> rename_i hk
  · exact (settles_compileCase hg hk hq.2.1).bind fun _ _ h => .ret (hnext (by simp [hk]) h)
  · exact (settles_compileDefault hg hk hq.2.1).bind fun _ _ h => .ret (hnext (by simp [hk]) h)
  · exact .ret ⟨hq, hk⟩
  · exact .fail nofun
  · refine (settles_compileClauseStatement hst fun hs => lt_of_lt_of_le (hlt hs) hq.1.1).bind
      fun _ _ h => .ret (hnext hk ⟨h.1, hq.2.1, h.2⟩)

lemma sure_compileClauses_of_brace (hk : (m.c.tokens.get p).kind = .symbol .rightBrace) :
    Sure m I I p (compileClauses statement ty offset) fun clauses q => clauses = {} ∧ q = p := by
  refine sure_rounds (P := fun clauses q => clauses = {} ∧ q = p) (fun clauses q hq => .peek ?_)
    ⟨rfl, rfl⟩
  rw [hq.2, hk]
  exact .ret ⟨hq.1, rfl⟩

lemma calmly_caseToAx (h : m.strict → value.Fits base.symbols) :
    Quiet m base n p (caseToAx value) := by
  cases value with
  | const value =>
    unfold caseToAx
    exact calmly_litToReg
  | code chunk marks =>
    exact calmly_pushReg.then <| (calmly_putCode h).then calmly_popReg

lemma calmly_compileComparisons (h : m.strict → clauses.Fits base.symbols) :
    Quiet m base n p (compileComparisons ty clauses) := by
  refine .getTypes (Sure.then (sure_forM_array (P := (· = p)) (fun c hc q hq => ?_) rfl) ?_)
  · exact calmly_forgetLine.then <| calmly_markLine.then <|
      (calmly_caseToAx fun hs => h hs c hc).then <| calmly_emitRegs.then <|
        calmly_jumpTo.mono fun hr => hr.trans hq
  · split
    · exact calmly_jumpTo
    · exact .ret rfl

/-! ## Switches -/

lemma calmly_switchValue (hf : Fit m base) :
    Calmly m base n p switchValue fun _ q => m.c.tokens.Nested p q := by
  refine .expect fun ho => (calmly_expressionToAx hf).bind fun _ _ h => .getTypes (.ite
    (sure_textOf.then <| .fail_bind nofun) <| .expect fun hc => .ret ?_)
  exact (Stream.Ends.intro h.1 hc).group hf.closed ho rfl rfl

lemma settles_switchEnd (hg : Ground m base) (hclauses : m.strict → clauses.Fits base.symbols)
    {frame : Frame} (hframe : m.strict → frame.JumpsBelow n) {toCompare : PendingJump}
    (hj : toCompare.operand < n) :
    Settles m base depth n p (switchEnd ty clauses frame toCompare) fun _ q => q = p := by
  refine .skipNext hg fun toEnd n' htoEnd hn => ?_
  refine (settles_landHere hg (lt_of_lt_of_le hj hn)).then ?_
  refine (settles_of_calmly hg fun _ _ _ hs _ => calmly_compileComparisons fun hstrict =>
    hs ▸ hclauses hstrict).then <| settles_landAllHere hg fun hs j hmem => ?_
  rcases Array.mem_append.1 hmem with hmem | hmem
  · exact lt_of_lt_of_le ((hframe hs).1 j hmem) hn
  · exact htoEnd j (by simpa using hmem)

lemma still_within {construct : Construct} {k : Nat} {x : Gen α} {Q : α → Nat → Prop}
    (h : Sure m (Still m.strict { base with nesting := ⟨construct, k, #[]⟩ :: base.nesting } n)
      (Still m.strict { base with nesting := ⟨construct, k, #[]⟩ :: base.nesting } n) p x Q) :
    Sure m (Still m.strict base n) (Still m.strict base n) p (within construct k x) fun r =>
      Q r.1 := by
  refine ⟨fun s hs hp => ?_⟩
  simp only [within, meets_bind, meets_modify]
  have hin : Still m.strict { base with nesting := ⟨construct, k, #[]⟩ :: base.nesting } n
      { s with nesting := ⟨construct, k, #[]⟩ :: s.nesting } :=
    { hs with
      nesting := by rw [hs.nesting]
      calls := fun h => (hs.calls h).grow rfl rfl le_rfl }
  refine (h.run _ hin hp).mono fun {a t} h => ?_
  obtain ⟨ht, hq⟩ := h
  simp only [meets_get, ht.nesting, meets_bind, meets_modify, meets_pure]
  exact ⟨{ ht with
    nesting := rfl
    calls := fun h => (ht.calls h).grow rfl rfl le_rfl }, hq⟩

lemma still_switchBody_of_brace (hg : Ground m base)
    (hk : (m.c.tokens.get p).kind = .symbol .rightBrace) :
    Sure m (Still m.strict base n) (Still m.strict base n) p (switchBody statement ty depth)
      fun r q => r.1 = {} ∧ q = m.c.tokens.after p := by
  refine still_enterBlock.then <| .get fun s _ => ?_
  refine still_within (Q := fun (clauses : Clauses) q => clauses = {} ∧ q = m.c.tokens.after p) ?_
  refine (sure_compileClauses_of_brace hk).bind fun clauses q hq => .advance ?_
  refine (still_exitBlock ?_).then <| .ret ⟨hq.1, hq.2 ▸ rfl⟩
  exact hg.of_eq rfl rfl

lemma Sure.switchBody (hg : Ground m base) (hst : Steady m base start statement)
    (hlt : m.strict → start < p) (hk : (m.c.tokens.get p).kind ≠ .symbol .rightBrace) {k : Nat}
    {f : Clauses × Frame → Gen β} {T : β → Nat → Prop}
    (hf : ∀ clauses frame n' q, m.c.tokens.Ends .rightBrace p q → n ≤ n' →
      (m.strict → clauses.Fits base.symbols) → clauses.isEmpty = false →
      (m.strict → frame.JumpsBelow n') → Settles m base depth n' q (f (clauses, frame)) T) :
    Settles m base depth n p (switchBody statement ty k >>= f) T := by
  unfold Gen.switchBody
  simp only [bind_assoc]
  refine (settles_of_still hg fun _ _ _ _ _ => still_enterBlock).then <| .get fun _ _ => ?_
  refine .within (Q := fun clauses q => m.c.tokens.Ends .rightBrace p q ∧
    (m.strict → clauses.Fits base.symbols) ∧ clauses.isEmpty = false)
    ⟨by simp, by simp [Frame.continues]⟩ ?_ fun clauses frame n' q h hn hframe =>
      hf clauses frame n' q h.1 hn h.2.1 h.2.2 hframe
  refine (settles_compileClauses hg hst hlt).bind fun clauses q h => .advance
    ((settles_of_still hg fun _ _ _ _ hg' => still_exitBlock hg').then <|
      .ret ⟨.intro h.1.1 h.2, h.1.2.1, ?_⟩)
  exact Bool.eq_false_iff.2 fun hempty => hk (h.1.2.2 hempty ▸ h.2)

lemma Sure.switchHead (hg : Ground m base) (hk : (m.c.tokens.get p).kind = .keyword .kwSwitch)
    {J : State → Prop} {f : Ty × PendingJump → Gen β} {T : β → Nat → Prop}
    (h : ∀ ty toCompare n' q, m.c.tokens.Nested p q → p < q →
      (m.c.tokens.get q).kind = .symbol .leftBrace → toCompare.operand < n' → n ≤ n' →
      Sure m (Still m.strict base n') J (m.c.tokens.after q) (f (ty, toCompare)) T) :
    Sure m (Still m.strict base n) J p (switchHead >>= f) T := by
  have hword := passes_keyword hg.closed hk
  unfold Gen.switchHead
  simp only [bind_assoc, pure_bind]
  refine .advance ((still_of_calmly hg fun _ _ hf => calmly_switchValue hf).bind fun ty q hq => ?_)
  refine (still_of_calmly hg fun _ _ _ => calmly_emitRegs).then ?_
  refine .jumped fun toCompare n' hj hn => .expect fun hbrace => ?_
  exact h ty toCompare n' q (hword.1.trans hq) (lt_of_lt_of_le hword.2 hq.1) hbrace hj hn

lemma settles_compileSwitch (hg : Ground m base) (hst : Steady m base p statement)
    (hk : (m.c.tokens.get p).kind = .keyword .kwSwitch) :
    Settles m base depth n p (compileSwitch statement) fun _ => Passes m p := by
  refine ⟨fun s hs hp => Sure.run (I := Still m.strict s s.script.size) ?_ s hs.still hp⟩
  have hg' := hg.of_eq hs.symbols hs.function?
  have hsettled {k : Nat} {t : State} (hk : s.script.size ≤ k) (h : Still m.strict s k t) :
      Settled m.strict base depth k t :=
    Growing.mono (h.settled hs (le_trans hs.size_le hk) fun hstrict f hf =>
      (hs.jumps hstrict f hf).mono hk) h.size_le
  refine .checkpoint fun before hbefore => .get fun _ _ => ?_
  refine .switchHead hg' hk fun ty toCompare n' q hq hlt ho hj hn => ?_
  have hpasses {r r' : Nat} (h : m.c.tokens.Ends .rightBrace (m.c.tokens.after q) r) (hr : r' = r) :
      Passes m p r' :=
    hr ▸ Passes.trans ⟨hq, hlt⟩ (h.group hg.closed ho rfl rfl)
  by_cases hbrace : (m.c.tokens.get (m.c.tokens.after q)).kind = .symbol .rightBrace
  · -- Nothing is left of a switch without clauses, so that the code gets as short as it was.
    refine ((still_switchBody_of_brace hg' hbrace).bind fun (clauses, frame) q' hr => ?_).weaken
      (fun h => Growing.mono h (le_trans hn h.size_le)) fun h =>
        Growing.mono (hsettled le_rfl h) (le_trans hs.size_le h.size_le)
    have hempty : clauses.isEmpty = true := by rw [show clauses = {} from hr.1]; rfl
    dsimp only
    rw [if_pos hempty]
    exact (still_of_calmly hg' fun _ _ _ => calmly_restore hbefore).mono fun h =>
      hpasses (.intro .refl hbrace) (h.trans hr.2)
  · refine Sure.weaken (Sure.switchBody hg hst ?_ hbrace fun clauses frame n'' r hr hn'' hfits hne hframe => ?_)
      (hsettled hn) fun h => Growing.mono h (le_trans hs.size_le (le_trans hn h.size_le))
    · exact fun _ => lt_of_lt_of_le hlt Stream.le_after
    · dsimp only
      rw [if_neg (by simp [hne])]
      exact (settles_switchEnd hg hfits hframe (lt_of_lt_of_le hj hn'')).mono (hpasses hr)

end Gen.Safety
end AdventureScript
