import AdventureScript.Proofs.Statement.Switch

/-!
Statements, by induction on how deep they may be nested.
-/
namespace AdventureScript.Gen
open Assembly

variable {q : Prop} {c : Context} {d e : Int} {s s' t : State} {F G : List Node} {u : Unit}
  {Γ : Site} {statement : Gen Unit} {fault : Fault}

section

variable (hst : Lawful statement) (ho : Open q c Γ d s)
include hst ho

lemma lays_compileUntilBrace (h : Runs (compileUntilBrace statement fault) c s u s') :
    ∃ e, Finishes q c Γ d s s' e := by
  simp only [compileUntilBrace, runs_bind, runs_advance, runs_pure, exists_eq_left, and_assoc] at h
  obtain ⟨_, t, h1, rfl, _⟩ := h
  obtain ⟨e, F, hF⟩ : ∃ e, Finishes q c Γ d s t e := by
    refine runs_repeatWhile (P := fun t => ∃ e, Finishes q c Γ d s t e)
      (Q := fun t => ∃ e, Finishes q c Γ d s t e) ?again ?done h1
      ⟨d, [], lays_setPos ho le_rfl s.pos⟩
    case again =>
      rintro t t' ⟨e, F, hF⟩ h
      simp [and_assoc] at h
      obtain ⟨_, _, _, h⟩ := h
      obtain ⟨G, e', hG, _⟩ := hst.lays (hF.ready ho) h
      exact ⟨e', F ++ G, hF.trans hG⟩
    case done =>
      rintro t t' ⟨e, F, hF⟩ h
      simp [and_assoc] at h
      obtain ⟨_, rfl⟩ := h
      exact ⟨e, F, hF⟩
  exact ⟨e, F ++ [], hF.trans (lays_skip (hF.ready ho))⟩

lemma lays_compileBlock (h : Runs (compileBlock statement) c s u s') :
    Finishes q c Γ d s s' d := by
  simp only [compileBlock, enterBlock, runs_seq, runs_expect, runs_modifyScope] at h
  obtain ⟨_, ⟨_, rfl⟩, _, rfl, t, h1, h2⟩ := h
  have hA := lays_skip ho
  have ho' := hA.ready ho
  obtain ⟨e, F, hF⟩ := lays_compileUntilBrace hst ho'.enter h1
  obtain ⟨G, hG, hpos⟩ := hF.block ho' h2
  exact ⟨_, hpos ▸ hA.trans hG⟩

/-! ## Statements -/

omit hst ho in
lemma runs_atDeclaration_congr {b : Bool} (h : Runs atDeclaration c s b s)
    (hpos : t.pos = s.pos) (hsymbols : t.symbols = s.symbols) : Runs atDeclaration c t b t := by
  simp only [atDeclaration, runs_bind, runs_peek, exists_eq_left, and_assoc] at h ⊢
  rw [hpos]
  split at h <;> simp_all [and_assoc]

omit hst ho in
lemma runs_atDeclaration_unique {b b' : Bool} (h : Runs atDeclaration c s b s)
    (h' : Runs atDeclaration c s b' s) : b = b' := by
  have := h.symm.trans h'
  simpa using this

lemma lays_compileMarked (h : Runs (compileMarked statement (c.tokens.get s.pos).kind) c s u s') :
    Levels q c Γ d s s' := by
  have level : Finishes q c Γ d s s' d →
      Levels q c Γ d s s' :=
    fun ⟨F, hF⟩ => ⟨F, d, hF, fun _ => rfl⟩
  simp only [compileMarked] at h
  split at h
  · next hk => exact level (lays_compileIf hst ho hk h)
  · exact level (lays_compileWhile hst ho h)
  · exact level (lays_compileDo hst ho h)
  · exact level (lays_compileFor hst ho h)
  · next hk => exact level (lays_compileSwitch hst ho hk h)
  · next hk => exact level (lays_return ho hk h)
  · next hk => exact level (lays_break ho hk h)
  · next hk => exact level (lays_continue ho hk h)
  · exact level ⟨[], lays_fallthrough ho h⟩
  · simp at h
  · simp at h
  · simp at h
  · obtain ⟨b, t, hdecl, h⟩ := runs_bind.1 h
    obtain rfl := runs_atDeclaration hdecl
    cases b with
    | true =>
      obtain ⟨e, F, hF⟩ := lays_compileLocals ho h
      exact ⟨F, e, hF, fun hno => by cases runs_atDeclaration_unique hdecl hno⟩
    | false =>
      obtain ⟨F, hF⟩ := parses_compileSimple_semicolon ho.toReady h
      exact level ⟨F, hF.lays_pos ho⟩

omit hst ho in
lemma Lays.before (h : Lays q c Γ s.pos t.pos noJump d s t F d)
    (hpos : t.pos = s.pos)
    (hnext : Levels (q ∧ Calm c s.pos t.pos t) c Γ d t s') :
    Levels q c Γ d s s' := by
  obtain ⟨G, e, hG, hlevel⟩ := hnext
  exact ⟨F ++ G, e, h.trans hG, fun hno =>
    hlevel (runs_atDeclaration_congr hno hpos h.stocks.symbols)⟩

lemma lays_compileStatement (h : Runs (compileStatement statement) c s u s') :
    Levels q c Γ d s s' := by
  obtain ⟨t, ht, h⟩ := runs_when h
  obtain ⟨hA, hpos⟩ : Lays q c Γ s.pos t.pos noJump d s t [] d ∧ t.pos = s.pos := by
    rcases ht with ⟨_, _, h1⟩ | ⟨_, rfl⟩
    · have hpos : t.pos = s.pos := by rw [runs_warnAt.1 h1]
      exact ⟨hpos ▸ lays_warnAt ho le_rfl h1, hpos⟩
    · exact ⟨lays_setPos ho le_rfl _, rfl⟩
  refine hA.before hpos ?_
  have ho' := hA.ready ho
  rw [← hpos] at h
  split at h
  · obtain ⟨F, hF⟩ := lays_compileBlock hst ho' h
    exact ⟨F, d, hF, fun _ => rfl⟩
  · simp at h
    obtain rfl := h
    exact ⟨[], d, lays_skip ho', fun _ => rfl⟩
  · obtain ⟨t', h1, h2⟩ := runs_seq.1 h
    obtain ⟨F, hF, hpos'⟩ := lays_markLine ho' (le_refl t.pos) h1
    have hB : Lays (q ∧ Calm c s.pos t.pos t) c Γ t.pos t'.pos noJump d t t' F d := by
      rw [hpos']
      exact hF
    rw [← hpos'] at h2
    exact hB.before hpos' (lays_compileMarked hst (hB.ready ho') h2)

end

lemma lawful_statementWithin : (depth : Nat) → Lawful (statementWithin depth)
  | 0 => ⟨fun _ h => by simp [statementWithin] at h⟩
  | depth + 1 => ⟨fun ho h => lays_compileStatement (lawful_statementWithin depth) ho h⟩

lemma lawful_statement : Lawful Gen.statement := by
  refine ⟨fun ho h => ?_⟩
  simp only [Gen.statement, runs_bind, runs_tokenCount, exists_eq_left, and_assoc] at h
  exact (lawful_statementWithin _).lays ho h

end AdventureScript.Gen
