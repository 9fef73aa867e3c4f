import AdventureScript.Proofs.Statement.Assignment
import AdventureScript.Proofs.Statement.Local

/-!
Branches and loops. The jumps over a part land behind it, those out of a loop behind the loop, and
those back at its start.
-/
namespace AdventureScript.Gen
open Assembly

variable {q : Prop} {c : Context} {d e : Int} {s s' t : State} {F G : List Node} {u : Unit}
  {Γ : Site} {lo hi start : Nat} {statement : Gen Unit} {j : PendingJump} {j? : Option PendingJump}
  {f : Frame} {target? : Option Nat} {P : Nat → Prop} {clause : Stretch}

/-- The step finishes, and only a declaration takes room on the stack. -/
abbrev Levels (q : Prop) (c : Context) (Γ : Site) (d : Int) (s s' : State) : Prop :=
  ∃ F e, Lays q c Γ s.pos s'.pos noJump d s s' F e ∧ (Runs atDeclaration c s false s → e = d)

structure Lawful (statement : Gen Unit) : Prop where
  lays : ∀ {q c Γ d s s' u}, Open q c Γ d s → Runs statement c s u s' →
    Levels q c Γ d s s'

/-! ## Branches -/

lemma lays_controlled (hst : Lawful statement) (ho : Open q c Γ d s)
    (h : Runs (compileControlled statement) c s u s') :
    Finishes q c Γ d s s' d := by
  simp only [compileControlled, enterBlock, runs_seq, runs_modifyScope] at h
  obtain ⟨_, rfl, t, h1, h2⟩ := h
  obtain ⟨F, e, hF, _⟩ := hst.lays ho.enter h1
  obtain ⟨G, hG, hpos⟩ := hF.block ho h2
  exact ⟨G, hpos ▸ hG⟩

lemma parses_compileCondition (hr : Ready q c d s) (h : Runs compileCondition c s u s') :
    Codes q c d s s' d := by
  simp [compileCondition, and_assoc, runs_checkCondition] at h
  obtain ⟨hopen, ty, t, h, _, hclose, rfl⟩ := h
  obtain ⟨F, hne, hF⟩ := parses_expressionToAx (ready_pos hr _) h
  exact ⟨F, hne, hF.group hr.stream hopen rfl rfl hclose rfl rfl⟩

lemma lays_branch {w : Keyword} (ho : Open q c Γ d s) (hk : (c.tokens.get s.pos).kind = .keyword w)
    (h1 : Runs compileCondition c { s with pos := c.tokens.after s.pos } u t)
    (h2 : Runs (jump .jz) c t j s') :
    ∃ F, Lays q c Γ s.pos s'.pos (fun p => j = ⟨p + 1⟩) d s s' F d ∧
      JumpAt True s.script.size F d j := by
  have hA := parses_pos ho.toReady (Stream.nested_keyword ho.stream hk)
  obtain ⟨B, _, hB⟩ := parses_compileCondition (hA.ready ho.toReady) h1
  have hC := (hA.trans hB).lays_pos ho
  obtain ⟨hj, hD⟩ := lays_jump (hC.ready ho) rfl (le_refl t.pos) h2
  rw [hC.size_eq] at hj
  exact ⟨_, pos_jump h2 ▸ hC.trans hD, hj.append_right⟩

lemma lays_skipNext (ho : Open q c Γ d s) (hle : lo ≤ hi) (h : Runs skipNext c s j? s') :
    ∃ F, Lays q c Γ lo hi (fun p => j? = some ⟨p + 1⟩) d s s' F d ∧
      (∀ j, j? = some j → JumpAt True s.script.size F d j) ∧ s'.pos = s.pos := by
  simp only [skipNext, runs_bind, runs_isReachable, exists_eq_left, and_assoc, runs_ite, runs_map,
    runs_pure] at h
  rcases h with ⟨_, j, h, rfl⟩ | ⟨_, rfl, rfl⟩
  · obtain ⟨hj, hF⟩ := lays_jump ho rfl hle h
    refine ⟨_, hF.pending fun p hp => congrArg some hp, ?_, pos_jump h⟩
    rintro _ ⟨⟩
    exact hj
  · refine ⟨[], (lays_setPos ho hle s'.pos).pending fun _ => False.elim, ?_, rfl⟩
    rintro _ ⟨⟩

lemma Lays.landOptional (h : Lays q c Γ lo hi P d s t F e)
    (hj : ∀ j, j? = some j → JumpAt (q ∧ Calm c lo hi t) s.script.size F e j)
    (ht : Runs (landOptional j?) c t u s') :
    ∃ G, Lays q c Γ lo hi (fun p => P p ∧ j? ≠ some ⟨p + 1⟩) d s s' G e ∧ s'.pos = t.pos ∧
      Becomes (q ∧ Calm c lo hi t) (q ∧ Calm c lo hi s') s.script.size F e G e := by
  cases j? with
  | none =>
    obtain ⟨rfl, _⟩ := runs_pure.1 ht
    exact ⟨F, h.pending fun p hp => ⟨hp, by simp⟩, rfl, .refl⟩
  | some j =>
    obtain ⟨G, hG, hnew⟩ := h.land (hj j rfl) ht
    exact ⟨G, hG.pending fun p ⟨hp, hne⟩ => ⟨hp, by simpa using hne⟩, pos_landHere ht, hnew⟩

variable (hst : Lawful statement) (ho : Open q c Γ d s)
include hst ho

lemma Lays.compileElse
    (h : Lays q c Γ lo t.pos (fun p => j = ⟨p + 1⟩) d s t F d) (hj : JumpAt True s.script.size F d j)
    (ht : Runs (compileElse statement j) c t u s') :
    ∃ G, Lays q c Γ lo s'.pos noJump d s s' G d := by
  simp only [Gen.compileElse, runs_bind] at ht
  obtain ⟨j?, t1, h1, _, t2, h2, _, t3, h3, h4⟩ := ht
  obtain ⟨A, hA, hj?, hpos⟩ := lays_skipNext (h.ready ho) (le_refl t.pos) h1
  have hFA := h.comp hA le_rfl le_rfl h.le le_rfl
  obtain ⟨B, hB, hnew⟩ := hFA.land (hj.imp fun _ => trivial).append_left h2
  have hpos2 : t2.pos = t.pos := (pos_landHere h2).trans hpos
  obtain ⟨C, hC⟩ := lays_controlled hst (hB.ready ho) h3
  rw [hpos2] at hC
  obtain ⟨D, hD, hpos4, _⟩ := (hB.followed hC).landOptional (fun k hk =>
    (hC.becomes hB.le hB.size_eq).jump
      (hnew.jump (h.jump_right hA ((hj? k hk).imp fun _ => trivial)))) h4
  refine ⟨D, hpos4 ▸ hD.pending ?_⟩
  rintro p ⟨⟨hp | hp, hne⟩, hne'⟩
  · exact hne hp
  · exact hne' hp

lemma lays_compileIf {w : Keyword}
    (hk : (c.tokens.get s.pos).kind = .keyword w) (h : Runs (compileIf statement) c s u s') :
    Finishes q c Γ d s s' d := by
  simp only [compileIf, runs_bind, runs_advance, exists_eq_left, and_assoc] at h
  obtain ⟨_, t1, h1, j, t2, h2, _, t3, h3, b, t4, h4, h⟩ := h
  obtain ⟨A, hA, hj⟩ := lays_branch ho hk h1 h2
  obtain ⟨B, hB⟩ := lays_controlled hst (hA.ready ho) h3
  have hAB := hA.followed hB
  have hC := hAB.followed ((parses_eatWord (hAB.ready ho).toReady h4).lays_pos (hAB.ready ho))
  rw [runs_ite] at h
  rcases h with ⟨_, h⟩ | ⟨_, h⟩
  · exact hC.compileElse hst ho hj.append_left.append_left h
  · obtain ⟨G, hG, _⟩ := hC.land (hj.imp fun _ => trivial).append_left.append_left h
    exact ⟨G, pos_landHere h ▸ hG.pending fun _ h => h.2 h.1⟩

/-! ## Loops -/

omit hst ho in
lemma lays_startLoop (ho : Open q c Γ d s) (hle : lo ≤ hi) (h : Runs startLoop c s start s') :
    Lays q c Γ lo hi noJump d s s' [] d ∧ start = s.script.size ∧ s'.pos = s.pos := by
  simp only [startLoop, runs_bind, runs_codeSize, exists_eq_left, and_assoc, runs_pure] at h
  obtain ⟨_, t, h, rfl, rfl⟩ := h
  exact ⟨lays_markJumpTarget ho hle h, rfl, by rw [runs_markJumpTarget.1 h]⟩

omit hst ho in
lemma runs_within {α : Type} {construct : Construct} {depth : Nat} {step : Gen α} {r : α × Frame} :
    Runs (within construct depth step) c s r s' ↔ ∃ t,
      Runs step c { s with nesting := { construct, depth } :: s.nesting } r.1 t ∧
        ∃ outer, t.nesting = r.2 :: outer ∧ s' = { t with nesting := outer } := by
  simp only [within, runs_bind, runs_modify, runs_get, exists_eq_left, and_assoc]
  constructor
  · rintro ⟨_, a, t, h, h'⟩
    split at h'
    · next frame outer hnesting =>
      simp at h'
      obtain ⟨rfl, rfl⟩ := h'
      exact ⟨t, h, outer, hnesting, rfl⟩
    · exact absurd h' runs_fail
  · rintro ⟨t, h, outer, hnesting, rfl⟩
    refine ⟨(), r.1, t, h, ?_⟩
    simp [hnesting]

lemma lays_withinLoop (htarget : ∀ t, target? = some t → Γ.out t d)
    (h : Runs (withinLoop target? (compileControlled statement)) c s f s') :
    ∃ F, Lays q c Γ s.pos s'.pos (fun p => Waits [f] ⟨p + 1⟩) d s s' F d ∧
      (∀ j, Waits [f] j → JumpAt (q ∧ Calm c s.pos s'.pos s') s.script.size F d j) ∧
      (target?.isSome = true → f.continues = #[]) := by
  simp [withinLoop, runs_within, compileControlled, enterBlock, and_assoc, runs_modifyScope] at h
  obtain ⟨_, t', ⟨t, h1, h2⟩, outer, houter, rfl⟩ := h
  obtain ⟨F, e, hF, _⟩ :=
    hst.lays (ho.inner (f := ⟨.loop target? #[], s.scope.depth, #[]⟩) rfl htarget) h1
  obtain ⟨f', nesting, G, hnesting, hpos, hG, hjumps, hdirect, _⟩ :=
    hF.construct (f := ⟨.loop target? #[], s.scope.depth, #[]⟩) ho rfl htarget rfl rfl h2
  obtain ⟨rfl, rfl⟩ := List.cons.inj (houter.symm.trans hnesting)
  rw [← hpos] at hG hjumps
  exact ⟨F ++ G, hG, hjumps, hdirect ∘ .inr⟩

omit hst ho in
lemma Lays.loopEnd {t1 : State} {u' : Unit} (h : Lays q c Γ lo hi P d s t F d)
    (hP : ∀ p, P p → j? = some ⟨p + 1⟩ ∨ Waits [f] ⟨p + 1⟩) (hf : f.continues = #[])
    (hj? : ∀ j, j? = some j → JumpAt (q ∧ Calm c lo hi t) s.script.size F d j)
    (hjumps : ∀ j, Waits [f] j → JumpAt (q ∧ Calm c lo hi t) s.script.size F d j)
    (h1 : Runs (Gen.landOptional j?) c t u t1) (h2 : Runs (landAllHere f.breaks) c t1 u' s') :
    ∃ G, Lays q c Γ lo hi noJump d s s' G d ∧ s'.pos = t.pos ∧
      Becomes (q ∧ Calm c lo hi t) (q ∧ Calm c lo hi s') s.script.size F d G d := by
  obtain ⟨A, hA, hpos, hnew⟩ := h.landOptional hj? h1
  have hbreaks : ∀ j ∈ f.breaks.toList, JumpAt (q ∧ Calm c lo hi t1) s.script.size A d j :=
    fun j hj => hnew.jump (hjumps j ⟨f, List.mem_singleton_self f, .inl hj⟩)
  obtain ⟨G, hG, hnew'⟩ := hA.landAll hbreaks (runs_landAllHere.1 h2)
  refine ⟨G, hG.pending ?_, ?_, hnew.trans hnew'⟩
  · rintro p ⟨⟨hp, hne⟩, hmem⟩
    rcases hP p hp with hp | ⟨f', hf', hp | hp⟩
    · exact hne hp
    · obtain rfl := List.mem_singleton.1 hf'
      exact hmem hp
    · obtain rfl := List.mem_singleton.1 hf'
      simp [hf] at hp
  · rw [pos_landAllHere h2, hpos]

omit hst ho in
lemma lays_loopCondition (ho : Open q c Γ d s) (h : Runs loopCondition c s j? s') :
    ∃ F, Lays q c Γ s.pos s'.pos (fun p => j? = some ⟨p + 1⟩) d s s' F d ∧
      (∀ j, j? = some j → JumpAt True s.script.size F d j) ∧ c.tokens.Nested s.pos s'.pos := by
  simp [loopCondition, and_assoc, runs_checkCondition] at h
  obtain ⟨o, t, h1, ⟨_, rfl, rfl⟩ | ⟨_, ty, t1, h2, _, j, h3, rfl⟩⟩ := h
  · obtain ⟨F, hF, _⟩ := yields_expression ho.toReady h1
    refine ⟨F, (hF.lays_pos ho).pending fun _ => False.elim, ?_, hF.nested⟩
    rintro _ ⟨⟩
  · obtain ⟨F, _, hF⟩ := (yields_expression ho.toReady h1).toAx ho.toReady h2
    have hF' := hF.lays_pos ho
    obtain ⟨hj, hG⟩ := lays_jump (hF'.ready ho) rfl (le_refl t1.pos) h3
    rw [hF.size_eq] at hj
    have hpos := pos_jump h3
    refine ⟨_, (hpos ▸ hF'.trans hG).pending fun p hp => congrArg some hp, ?_, hpos ▸ hF.nested⟩
    rintro _ ⟨⟩
    exact hj.append_right

omit hst ho in
lemma Lays.loopBody (hst : Lawful statement) (hs : Stands q c Γ d s)
    (h : Lays q c Γ lo t.pos (fun p => j? = some ⟨p + 1⟩) d s t F d)
    (hj? : ∀ j, j? = some j → JumpAt True s.script.size F d j) (hout : Γ.out start d)
    (ht : Runs (loopBody statement start j?) c t u s') :
    ∃ G, Lays q c Γ lo s'.pos noJump d s s' G d ∧
      Becomes (q ∧ Calm c lo t.pos t) (q ∧ Calm c lo s'.pos s') s.script.size F d G d := by
  simp only [Gen.loopBody, runs_bind] at ht
  obtain ⟨f, t1, h1, _, t2, h2, _, t3, h3, h4⟩ := ht
  obtain ⟨A, hA, hjumps, hf⟩ := lays_withinLoop hst (h.opens hs)
    (fun t ht => by cases ht; exact hout) h1
  have hFA := h.comp hA le_rfl hA.le h.le le_rfl
  have hB := lays_jumpTo (hFA.opens hs) rfl (le_refl t1.pos) hout h2
  have hnew := hB.becomes hFA.le hFA.size_eq
  obtain ⟨G, hG, hpos, hnew'⟩ := (hFA.followed hB).loopEnd (fun _ => id) (hf rfl)
    (fun j hj => ((hj? j hj).imp fun _ => trivial).append_left.append_left)
    (fun j hj => hnew.jump (h.jump_right hA (hjumps j hj))) h3 h4
  have hpos : s'.pos = t1.pos := hpos.trans (pos_jumpTo h2)
  rw [hpos]
  exact ⟨G, hG, ((hA.becomes h.le h.size_eq).trans hnew).trans hnew'⟩

lemma lays_compileWhile (h : Runs (compileWhile statement) c s u s') :
    Finishes q c Γ d s s' d := by
  simp only [compileWhile, runs_bind, runs_advance, runs_expect, exists_eq_left, and_assoc] at h
  obtain ⟨start, t1, h1, _, _, _, rfl, j?, t2, h2, _, _, _, rfl, h3⟩ := h
  have ho' := ho.back
  have hA := lays_skip ho'
  obtain ⟨hB, rfl, hpos⟩ := lays_startLoop (hA.ready ho') (le_refl (c.tokens.after s.pos)) h1
  have hpos : t1.pos = c.tokens.after s.pos := hpos
  have hAB : Lays _ _ _ _ t1.pos _ _ _ _ _ _ := hpos ▸ hA.trans hB
  have hC := hAB.trans (lays_skip (hAB.ready ho'))
  obtain ⟨D, hD, hj?, _⟩ := lays_loopCondition (hC.ready ho') h2
  have hCD := hC.trans hD
  have hE := hCD.followed (lays_skip (hCD.ready ho'))
  rw [hC.size_eq] at hj?
  obtain ⟨G, hG, _⟩ := hE.loopBody hst ho'.toStands (fun j hj => (hj? j hj).append_right.append_left)
    (.inr ⟨rfl, rfl⟩) h3
  exact ⟨G, hG.back ho⟩

omit hst ho in
lemma lays_conditionBack (ho : Open q c Γ d s) (hout : Γ.out start d)
    (h : Runs (conditionBack start) c s u s') :
    Finishes q c Γ d s s' d := by
  simp only [conditionBack, runs_bind] at h
  obtain ⟨o, t, h1, h⟩ := h
  have hy := yields_expression ho.toReady h1
  split at h
  · obtain ⟨F, hF, _⟩ := hy
    have hF := hF.lays_pos ho
    rw [runs_ite, runs_pure] at h
    rcases h with ⟨_, h⟩ | ⟨_, rfl, _⟩
    · exact ⟨_, pos_jumpTo h ▸ hF.trans (lays_jumpTo (hF.ready ho) rfl (le_refl t.pos) hout h)⟩
    · exact ⟨_, hF⟩
  · simp only [runs_bind, runs_checkCondition] at h
    obtain ⟨ty, t1, h2, _, _, ⟨_, rfl⟩, h3⟩ := h
    obtain ⟨F, _, hF⟩ := hy.toAx ho.toReady h2
    have hF := hF.lays_pos ho
    exact ⟨_, pos_jumpTo h3 ▸ hF.trans (lays_jumpTo (hF.ready ho) rfl le_rfl hout h3)⟩

lemma lays_compileDo (h : Runs (compileDo statement) c s u s') :
    Finishes q c Γ d s s' d := by
  simp only [compileDo, runs_bind, runs_advance, runs_expect, runs_expectWord, exists_eq_left,
    and_assoc] at h
  obtain ⟨start, t1, h1, f, t2, h2, _, t3, h3, _, _, _, rfl, _, _, _, rfl, _, t4, h4, _, _, _, rfl, _,
    _, _, rfl, h5⟩ := h
  have ho' := ho.back
  have hA := lays_skip ho'
  obtain ⟨hB, rfl, hpos⟩ := lays_startLoop (hA.ready ho') (le_refl (c.tokens.after s.pos)) h1
  have hpos : t1.pos = c.tokens.after s.pos := hpos
  have hAB : Lays _ _ _ _ t1.pos _ _ _ _ _ _ := hpos ▸ hA.trans hB
  obtain ⟨C, hC, hjumps, _⟩ := lays_withinLoop hst (hAB.ready ho') (fun _ ht => by cases ht) h2
  have hABC := hAB.trans hC
  have hjumps' : ∀ j, Waits [f] j → JumpAt (q ∧ Calm c s.pos t2.pos t2) s.script.size _ d j :=
    fun j hj => hAB.jump_right hC (hjumps j hj)
  obtain ⟨D, hD, hnew⟩ := hABC.landAll
    (fun j hj => hjumps' j ⟨f, List.mem_singleton_self f, .inr hj⟩) (runs_landAllHere.1 h3)
  have hpos3 : t3.pos = t2.pos := pos_landAllHere h3
  rw [← hpos3] at hD hnew hjumps'
  -- From here on no jump leaves the loop, up to those that land behind it.
  have ho3 := hD.ready ho'
  have hE := lays_skip ho3
  have hF := hE.trans (lays_skip (hE.ready ho3))
  obtain ⟨G, hG⟩ := lays_conditionBack (hF.ready ho3) (.inr ⟨rfl, rfl⟩) h4
  have hH := hF.trans hG
  have hI := hH.trans (lays_skip (hH.ready ho3))
  have hJ := hI.trans (lays_skip (hI.ready ho3))
  obtain ⟨K, hK, _⟩ := (hD.followed hJ).landAll
    (fun j hj => (hJ.becomes hD.le hD.size_eq).jump
      (hnew.jump (hjumps' j ⟨f, List.mem_singleton_self f, .inl hj⟩)))
    (runs_landAllHere.1 h5)
  refine ⟨K, ?_⟩
  rw [pos_landAllHere h5]
  refine (hK.pending ?_).back ho
  rintro p ⟨⟨⟨f', hf', hp | hp⟩, hne⟩, hne'⟩
  · obtain rfl := List.mem_singleton.1 hf'
    exact hne' hp
  · obtain rfl := List.mem_singleton.1 hf'
    exact hne hp

/-! ## Loops with a head -/

omit hst ho in
lemma lays_goTo (ho : Open q c Γ d s) (hle : lo ≤ hi) {pos : Nat} (h : Runs (goTo pos) c s u s') :
    ∃ F, Lays q c Γ lo hi noJump d s s' F d ∧ s'.pos = pos := by
  simp only [goTo, forgetLine, runs_bind, runs_setPos, runs_modify, runs_tokenAt, exists_eq_left,
    and_assoc] at h
  obtain ⟨_, _, h⟩ := h
  have hA : Lays q c Γ lo lo noJump d s { s with pos, lastLine := 0 } [] d :=
    lays_silent ho (le_refl lo) (.refl ho.framed.length_eq) id
  obtain ⟨F, hF, hpos⟩ := lays_markLine (hA.ready ho) hle h
  exact ⟨F, hA.trans hF, hpos⟩

omit hst ho in
lemma lays_loopStart (ho : Open q c Γ d s) (h : Runs loopStart c s u s') :
    ∃ e, Finishes q c Γ d s s' e := by
  simp only [loopStart, runs_bind] at h
  obtain ⟨b, t, h1, h⟩ := h
  have hA := (parses_eat ho.toReady rfl rfl h1).lays_pos ho
  simp only [runs_ite, runs_bind] at h
  rcases h with ⟨_, b', t', h2, h⟩ | ⟨_, h⟩
  · obtain rfl := runs_atDeclaration h2
    rcases h with ⟨_, h⟩ | ⟨_, h⟩
    · obtain ⟨e, F, hF⟩ := lays_compileLocals (hA.ready ho) h
      exact ⟨e, _, hA.trans hF⟩
    · obtain ⟨F, hF⟩ := parses_compileSimple_semicolon (hA.ready ho).toReady h
      exact ⟨d, _, hA.trans (hF.lays_pos (hA.ready ho))⟩
  · obtain ⟨rfl, _⟩ := runs_pure.1 h
    exact ⟨d, _, hA⟩

omit hst ho in
lemma bound_rightParen : Stream.Bound (· = .symbol .rightParen) 0 :=
  .inr fun kind hk => by
    rw [of_decide_eq_true hk]
    rfl

omit hst ho in
lemma lays_loopStep (ho : Open q c Γ d s)
    (hstop : clause.stop = c.tokens.findAtDepthZero clause.start (· = .symbol .rightParen))
    (h : Runs (loopStep clause) c s start s') :
    ∃ F, Lays q c (Γ.also (backTo start d)) clause.start clause.stop noJump d s s' F d ∧
      Boundary s.script.size F start ∧
      (q → Calm c clause.start clause.stop s' → Arrives s.script.size F d start d) := by
  have hle : clause.start ≤ clause.stop := hstop ▸ Stream.le_findAtDepthZero
  simp only [loopStep, runs_ite, runs_bind] at h
  rcases h with ⟨_, j, t1, h1, start, t2, h2, _, t3, h3, _, t4, h4, _, t5, h5, h⟩ | ⟨_, h⟩
  · obtain ⟨rfl, rfl⟩ := runs_pure.1 h
    obtain ⟨hj, hA⟩ := lays_jump ho rfl (le_refl clause.start) h1
    have ho1 := (hA.ready ho).back
    obtain ⟨hB, rfl, _⟩ := lays_startLoop ho1 (le_refl clause.start) h2
    obtain ⟨C, hC, hpos⟩ := lays_goTo (hB.ready ho1) (le_refl clause.start) h3
    have hBC := hB.trans hC
    obtain ⟨m, D, hD, hk, _⟩ := parses_compileSimple (hBC.ready ho1).toReady h4
    have hm : m = clause.stop := by
      have hnested := hD.nested.2 (· = .symbol .rightParen) 0 bound_rightParen
      rw [hstop, Stream.findAtDepthZero, ← hpos, hnested, Stream.findFrom_of_stop (by simp [hk])]
    have hD := hpos ▸ hm ▸ hD.lays_pos (hBC.ready ho1)
    have hBD := hBC.trans hD
    have hE := hBD.trans (lays_setPos (hBD.ready ho1) (le_refl clause.stop) t4.pos)
    have hnew := hE.becomes (F := [⟨.jump .jmp none, d⟩]) le_rfl hA.size_eq
    have hAE := (hA.also (backTo t1.script.size d) fun h => le_of_eq h.1).followed hE
    obtain ⟨G, hG, hnew'⟩ := hAE.land (hnew.jump (hj.imp fun _ => trivial)) h5
    have hnew := hnew.trans hnew'
    refine ⟨G, hG.pending fun _ h => h.2 h.1, ?_, fun hq hc => ?_⟩
    · exact hnew.boundary (hA.size_eq ▸ boundary_end)
    · exact hnew.arrives ⟨hq, hc⟩ (hA.size_eq ▸ arrives_end)
  · obtain ⟨hF, rfl, _⟩ := lays_startLoop ho.back hle h
    exact ⟨[], hF, .start, fun _ _ => .inl ⟨rfl, rfl⟩⟩

omit hst ho in
lemma lays_clauseCondition (ho : Open q c Γ d s) (h : Runs (clauseCondition clause) c s j? s') :
    ∃ F, Lays q c Γ clause.start s'.pos (fun p => j? = some ⟨p + 1⟩) d s s' F d ∧
      (∀ j, j? = some j → JumpAt True s.script.size F d j) ∧
      c.tokens.Nested clause.start s'.pos := by
  simp only [clauseCondition, runs_bind, runs_setPos, exists_eq_left, runs_ite, runs_pure] at h
  obtain ⟨_, ⟨_, _, t, h1, h2⟩ | ⟨_, rfl, rfl⟩⟩ := h
  · have hA := lays_setPos ho (le_refl clause.start) clause.start
    obtain ⟨B, hB, hpos⟩ := lays_goTo (hA.ready ho) (le_refl clause.start) h1
    have hAB := hA.trans hB
    obtain ⟨D, hD, hj?, hnested⟩ := lays_loopCondition (hAB.ready ho) h2
    rw [hpos] at hD hnested
    refine ⟨_, hAB.trans hD, fun j hj => ?_, hnested⟩
    exact (hAB.size_eq ▸ hj? j hj).append_right
  · refine ⟨[], (lays_setPos ho le_rfl _).pending fun _ => False.elim, ?_, .refl⟩
    rintro _ ⟨⟩

omit hst ho in
lemma runs_loopClauses {clauses : Stretch × Stretch} (hsealed : c.tokens.Sealed)
    (h : Runs loopClauses c s clauses s') :
    s' = s ∧ clauses.1.start = s.pos ∧ s.pos ≤ clauses.2.start ∧
      clauses.2.stop = c.tokens.findAtDepthZero clauses.2.start (· = .symbol .rightParen) ∧
      clauses.2.stop = c.tokens.findAtDepthZero s.pos (· = .symbol .rightParen) := by
  simp [loopClauses, and_assoc] at h
  obtain ⟨hk, rfl, rfl⟩ := h
  have hend : (c.tokens.get (c.tokens.findAtDepthZero s'.pos
      fun x => decide (x = .symbol .semicolon))).kind ≠ .endOfInput := by simp [hk]
  have hnested := (Stream.nested_findAtDepthZero hsealed hend).trans (.token hsealed hk rfl rfl)
  rw [Stream.after_of_ne hend] at hnested
  exact ⟨rfl, rfl, hnested.1, rfl, (hnested.2 _ 0 bound_rightParen).symm⟩

lemma lays_compileRounds (h : Runs (compileRounds statement) c s u s') :
    Finishes q c Γ d s s' d := by
  simp only [compileRounds, runs_bind, runs_expect, runs_setPos, exists_eq_left, and_assoc] at h
  obtain ⟨⟨condition, step⟩, _, h1, start, t1, h2, j?, t2, h3, _, _, _, rfl, _, _, _, _, rfl, h4⟩ := h
  obtain ⟨rfl, hstart, hle, hstop, hclose⟩ := runs_loopClauses ho.stream h1
  obtain ⟨A, hA, hboundary, harrives⟩ := lays_loopStep ho hstop h2
  have hs : Stands q c (Γ.also (backTo start d)) d _ := ho.toStands.also
  obtain ⟨B, hB, hj?, hnested⟩ := lays_clauseCondition (hA.opens hs) h3
  rw [hstart] at hB hnested
  have hpos : t2.pos ≤ step.stop := by
    rw [hclose, Stream.findAtDepthZero, hnested.2 _ 0 bound_rightParen]
    exact Stream.le_findFrom
  -- The step stands behind the condition, but its code comes first.
  have hAB := (hA.comp hB hle le_rfl le_rfl hpos).pending fun _ => Or.rec False.elim id
  have hnew := hB.becomes_comp hA.size_eq hle le_rfl le_rfl hpos
  have hC := lays_setPos (hAB.opens hs) (le_refl step.stop) step.stop
  have hC := hC.trans (lays_skip (hC.ready (hAB.opens hs)))
  have hnew' := hC.becomes hAB.le hAB.size_eq
  obtain ⟨G, hG, hnew''⟩ := (hAB.followed hC).loopBody hst hs
    (fun j hj => (hA.size_eq ▸ hj? j hj).append_right.append_left) (.inr ⟨rfl, rfl⟩) h4
  have hnew := (hnew.trans hnew').trans hnew''
  refine ⟨G, hG.within ho ?_ ?_⟩
  · rintro t x ⟨rfl, rfl⟩
    exact hnew.boundary hboundary
  · rintro hq hc t x ⟨rfl, rfl⟩
    obtain ⟨_, hc'⟩ := hnew.imp ⟨hq, hc⟩
    exact hnew.arrives ⟨hq, hc⟩ (harrives hq hc')

lemma lays_compileFor (h : Runs (compileFor statement) c s u s') :
    Finishes q c Γ d s s' d := by
  simp only [compileFor, enterBlock, runs_bind, runs_advance, runs_expect, runs_modifyScope,
    exists_eq_left, and_assoc] at h
  obtain ⟨_, _, _, rfl, _, _, t1, h1, _, t2, h2, h3⟩ := h
  have hA := lays_skip ho
  have hB := hA.trans (lays_skip (hA.ready ho))
  have ho' := hB.ready ho
  obtain ⟨x, C, hC⟩ := lays_loopStart ho'.enter h1
  obtain ⟨D, hD⟩ := lays_compileRounds hst (hC.ready ho'.enter) h2
  obtain ⟨E, hE, hpos⟩ := (hC.trans hD).block ho' h3
  exact ⟨_, hpos ▸ hB.trans hE⟩

end AdventureScript.Gen
