import AdventureScript.Proofs.Statement.Block

/-!
Assignments and expressions as statements.
-/
namespace AdventureScript

variable {r : Ty × Bool}

def Target.Anchored (symbols : Symbols) : Target → Prop
  | .memory place => place.Anchored symbols
  | .attribute use => ∀ place ∈ use.object, place.Anchored symbols

lemma Operand.Located.target {symbols : Symbols} {o : Operand} {target : Target}
    (h : o.Located symbols) (ho : o.value = .stored target) : target.Anchored symbols := by
  cases target <;> simp only [Operand.Located, ho] at h
  case memory place => exact h.anchored
  case «attribute» use => exact h

namespace Gen
open Assembly

variable {q : Prop} {c : Context} {d e : Int} {s s' t : State} {F : List Node} {u : Unit}
  {ty source : Ty} {target : Target} {stop : Nat} {tokens : Stretch} {step : Gen Unit}

/-! ## Targets -/

variable (hr : Ready q c d s)
include hr

lemma parses_compileTarget {r : Target × Ty}
    (h : Runs (compileTarget stop) c s r s') :
    ∃ F, Parses q c d s s' F d ∧ s'.pos = stop ∧ r.1.Anchored s.symbols := by
  simp [compileTarget, withParts, and_assoc] at h
  obtain ⟨_, o, t, h1, hstop, h⟩ := h
  obtain ⟨F, hF, ho⟩ := yields_compileAccess (sound_compilePart _) hr h1
  obtain ⟨target, hvalue, rfl, rfl⟩ : ∃ target, o.value = .stored target ∧ s' = t ∧
      r = (target, o.ty) := by
    split at h
    · next hvalue =>
      split at h
      · simp at h
      · simp at h
        exact ⟨_, hvalue, h.2.2.1, h.2.2.2⟩
    · simp at h
  exact ⟨F, hF, hstop, ho.located.target hvalue⟩

lemma parses_writeTarget (ht : target.Anchored s.symbols)
    (h : Runs (writeTarget target ty) c s u s') :
    Codes q c d s s' d := by
  cases target with
  | memory place =>
    simp only [writeTarget, runs_seq] at h
    obtain ⟨t, h1, h⟩ := h
    obtain ⟨F, hF⟩ := parses_loadAddress hr ht h1
    rw [runs_ite] at h
    rcases h with ⟨_, h⟩ | ⟨_, h⟩
    · obtain ⟨G, hne, hG⟩ := parses_copyString (hF.ready hr) h
      exact ⟨F ++ G, by simp [hne], hF.trans hG⟩
    · obtain ⟨n, hn⟩ := parses_writeAx (hF.ready hr) h
      exact ⟨_, by simp, hF.trans hn⟩
  | «attribute» use =>
    simp [writeTarget, withParts, and_assoc] at h
    exact parses_setAttribute (sound_compilePart _) hr ht h

omit hr in
lemma exists_tryTarget (h : Runs (do
      modify fun s => { s with axClobbered := false }
      let (_, ty) ← compileTarget stop
      return (ty, (← get).axClobbered)) c s r t) :
    ∃ target, Runs (compileTarget stop) c { s with axClobbered := false } (target, r.1) t ∧
      r.2 = t.axClobbered := by
  simp only [runs_modify, runs_bind, runs_get, runs_pure] at h
  obtain ⟨_, _, rfl, ⟨target, ty⟩, _, h, _, _, ⟨rfl, rfl⟩, rfl, rfl⟩ := h
  exact ⟨target, h, rfl⟩

lemma exists_probeTarget (h : Runs (probeTarget stop) c s r s') :
    ∃ target t, Runs (compileTarget stop) c { s with axClobbered := false } (target, r.1) t ∧
      r.2 = t.axClobbered ∧ s' = { s with jumpTarget := t.jumpTarget.filter (· ≤ s.script.size) } := by
  simp only [probeTarget, runs_bind] at h
  obtain ⟨⟨r', n⟩, t, h1, h⟩ := h
  obtain ⟨rfl, rfl⟩ := runs_pure.1 h
  obtain ⟨t1, h2, _, ht⟩ := tried hr h1 fun h => by
    obtain ⟨_, h, _⟩ := exists_tryTarget h
    have hA : Writes q c d s { s with axClobbered := false } [] d :=
      writes_still hr le_rfl
    obtain ⟨F, hF, _⟩ := parses_compileTarget (hA.ready hr) h
    exact ⟨_, _, (hA.trans hF.toWrites).toEmits⟩
  obtain ⟨target, h2, hr⟩ := exists_tryTarget h2
  exact ⟨target, t1, h2, hr, ht⟩

lemma writes_probeTarget (h : Runs (probeTarget stop) c s r s') : Writes q c d s s' [] d := by
  obtain ⟨_, _, _, _, rfl⟩ := exists_probeTarget hr h
  exact writes_jumpTarget hr _

lemma writes_storeAx (h : Runs (storeAx tokens source) c s u s') :
    ∃ F, F ≠ [] ∧ Writes q c d s s' F d := by
  simp only [storeAx, runs_bind, runs_setPos] at h
  obtain ⟨_, _, rfl, ⟨ty, clobbers⟩, t1, h1, _, t2, h2, h⟩ := h
  have hA := writes_setPos hr tokens.start
  have hB := hA.trans (writes_probeTarget (hA.ready hr) h1)
  obtain ⟨C, hC⟩ := parses_convertAxForStore (hB.ready hr) h2
  have hD := hB.trans hC.toWrites
  cases clobbers with
  | false =>
    simp only [Bool.false_eq_true, if_false, runs_bind] at h
    obtain ⟨⟨target, ty'⟩, t3, h3, h4⟩ := h
    obtain ⟨E, hE, _, ht⟩ := parses_compileTarget (hD.ready hr) h3
    have hF := hD.trans hE.toWrites
    obtain ⟨G, hne, hG⟩ := parses_writeTarget (hF.ready hr) (hE.aside.symbols ▸ ht) h4
    exact ⟨_, by simp [hne], hF.trans hG.toWrites⟩
  | true =>
    simp only [if_true, runs_bind] at h
    obtain ⟨_, t3, h3, ⟨target, ty'⟩, t4, h4, _, t5, h5, h6⟩ := h
    have hE := hD.trans (parses_pushReg (hD.ready hr) h3).toWrites
    obtain ⟨F, hF, _, ht⟩ := parses_compileTarget (hE.ready hr) h4
    have hG := hE.trans hF.toWrites
    have hpop := parses_popReg (hG.ready hr)
      (fun hq => by have := (hr.offset hq.1).2; omega) h5
    have hH := hG.trans (hpop.toWrites.cast (x := d) fun _ _ => by omega)
    obtain ⟨I, _, hI⟩ := parses_writeTarget (hH.ready hr)
      ((hF.aside.trans hpop.aside).symbols ▸ ht) h6
    exact ⟨_, by simp, hH.trans hI.toWrites⟩

lemma writes_updateTarget (ht : target.Anchored s.symbols)
    (hstep : ∀ {r s s'}, (r → q) → Ready r c d s → Runs step c s () s' → ∃ F, Writes r c d s s' F e)
    (h : Runs (updateTarget tokens target ty step) c s u s') :
    ∃ F, F ≠ [] ∧ Writes q c d s s' F e := by
  cases target with
  | memory place =>
    simp only [updateTarget, runs_seq] at h
    obtain ⟨t1, h1, t2, h2, t3, h3, h4⟩ := h
    obtain ⟨F, hF⟩ := parses_loadAddress hr ht h1
    obtain ⟨n, hn⟩ := parses_readAx (hF.ready hr) h2
    have hG := hF.trans hn
    obtain ⟨H, hH⟩ := hstep And.left (hG.ready hr) h3
    have hI := hG.toWrites.trans hH
    obtain ⟨m, hm⟩ := parses_writeAx (hI.ready hr) h4
    exact ⟨_, by simp, hI.trans hm.toWrites⟩
  | «attribute» use =>
    simp only [updateTarget, withParts, runs_bind, runs_tokenCount] at h
    obtain ⟨_, t1, ⟨_, _, ⟨rfl, rfl⟩, h1⟩, _, t2, h2, h3⟩ := h
    obtain ⟨F, hne, hF⟩ := parses_getAttribute (sound_compilePart _) hr ht h1
    obtain ⟨G, hG⟩ := hstep And.left (hF.ready hr) h2
    have hH := hF.toWrites.trans hG
    obtain ⟨I, hne', hI⟩ := writes_storeAx (hH.ready hr) h3
    exact ⟨_, by simp [hne'], hH.trans hI⟩

omit hr in
lemma Writes.parses_at {m : Nat} (h : Writes q c d s s' F e) (hne : F ≠ [])
    (hm : c.tokens.Nested s.pos m) : Parses q c d s { s' with pos := m } F e where
  toEmits := { h with
    toWritten := h.toWritten.same
    aside := h.aside.trans { Aside.refl with } }
  settled := h.settled
  live := h.live
  unmarked := h.unmarked
  nested := hm
  keeps _ hF := absurd hF hne

lemma parses_compileAssignment
    (h : Runs (compileAssignment tokens) c s u s') : Codes q c d s s' d := by
  simp only [compileAssignment, runs_bind, runs_getPos, runs_setPos] at h
  obtain ⟨o, t, h1, _, _, ⟨rfl, rfl⟩, source, t2, h2, _, t3, h3, rfl⟩ := h
  have hy := yields_expression hr h1
  obtain ⟨F, _, hF⟩ := hy.toAx hr h2
  obtain ⟨G, hne, hG⟩ := writes_storeAx (hF.ready hr) h3
  obtain ⟨H, hH, _⟩ := hy
  exact ⟨_, by simp [hne], (hF.toWrites.trans hG).parses_at (by simp [hne]) hH.nested⟩

lemma parses_compileCompound {op : BinaryOp}
    (h : Runs (compileCompound tokens op) c s u s') : Codes q c d s s' d := by
  simp [compileCompound, and_assoc, runs_selectOpcode] at h
  obtain ⟨o, t, h1, rhs, t1, h2, t2, h3, target, ty, t3, h4, _, opcode, ⟨_, hselect⟩, t4, h5, rfl⟩ := h
  have hy := yields_expression hr h1
  obtain ⟨A, _, hA⟩ := hy.toAx hr h2
  have hB := hA.trans (parses_pushReg (hA.ready hr) h3)
  have hC := hB.toWrites.trans (writes_setPos (hB.ready hr) tokens.start)
  obtain ⟨D, hD, _, ht⟩ := parses_compileTarget (hC.ready hr) h4
  have hE := hC.trans hD.toWrites
  obtain ⟨F, _, hF⟩ := writes_updateTarget (e := d) (hE.ready hr) (hD.aside.symbols ▸ ht) (fun hr' hready h => by
    obtain ⟨t, hpop, hop⟩ := runs_seq.1 h
    have hpop := (parses_popReg hready
      (fun hr'' => by have := (hr.offset (hr' hr'').1).2; omega) hpop).cast (x := d) fun _ _ => by omega
    have hcalm := BinaryOp.select_calm hselect
    exact ⟨_, (hpop.trans (parses_emitRegs (hpop.ready hready) hcalm.1 (by simp [hcalm.2]) hop)).toWrites⟩) h5
  obtain ⟨H, hH, _⟩ := hy
  exact ⟨_, by simp, (hE.trans hF).parses_at (by simp) hH.nested⟩

lemma parses_compileIncrement {mark : Symbol} {m : Nat}
    (hm : c.tokens.Nested s.pos m) (h : Runs (compileIncrement tokens mark) c s u s') :
    Codes q c d s { s' with pos := m } d := by
  simp [compileIncrement] at h
  obtain ⟨target, ty, t, h1, _, h2⟩ := h
  have hA := writes_setPos hr tokens.start
  obtain ⟨B, hB, _, ht⟩ := parses_compileTarget (hA.ready hr) h1
  have hC := hA.trans hB.toWrites
  obtain ⟨F, hne, hF⟩ := writes_updateTarget (e := d) (hC.ready hr) (hB.aside.symbols ▸ ht) (fun _ hready h => by
    split at h
    · exact ⟨_, (parses_emitAdd hready (by decide) h).toWrites⟩
    · exact ⟨_, (parses_emitSub hready (by decide) h).toWrites⟩) h2
  exact ⟨_, by simp [hne], (hC.trans hF).parses_at (by simp [hne]) hm⟩

lemma parses_compileExpressionStatement
    (h : Runs compileExpressionStatement c s u s') : ∃ F, Parses q c d s s' F d := by
  simp only [compileExpressionStatement, runs_bind] at h
  obtain ⟨o, t, h1, h⟩ := h
  have hy := yields_expression hr h1
  split at h
  · simp at h
    obtain ⟨ty, h2⟩ := h
    obtain ⟨F, _, hF⟩ := hy.toAx hr h2
    exact ⟨F, hF⟩
  · obtain ⟨rfl, _⟩ := runs_pure.1 h
    obtain ⟨F, hF, _⟩ := hy
    exact ⟨F, hF⟩

lemma parses_compileAssignmentAt {middle : Nat}
    (hm : c.tokens.Nested s.pos (middle + 1))
    (h : Runs (compileAssignmentAt s.pos middle) c s u s') : ∃ F, Parses q c d s s' F d := by
  simp only [compileAssignmentAt, runs_bind, runs_tokenAt, runs_setPos] at h
  obtain ⟨_, _, ⟨rfl, rfl⟩, _, _, rfl, b, t, h1, h⟩ := h
  obtain rfl := runs_atExpressionEnd h1
  have hA := parses_pos hr hm
  cases b with
  | true => simp at h
  | false =>
    simp only [Bool.false_eq_true, if_false] at h
    split at h
    · split at h
      · obtain ⟨F, _, hF⟩ := parses_compileCompound (hA.ready hr) h
        exact ⟨_, hA.trans hF⟩
      · obtain ⟨F, _, hF⟩ := parses_compileAssignment (hA.ready hr) h
        exact ⟨_, hA.trans hF⟩
    · obtain ⟨F, _, hF⟩ := parses_compileAssignment (hA.ready hr) h
      exact ⟨_, hA.trans hF⟩

lemma parses_compileSimple {terminator : Symbol}
    (h : Runs (compileSimple terminator) c s u s') :
    ∃ m F, Parses q c d s { s' with pos := m } F d ∧ (c.tokens.get m).kind = .symbol terminator ∧
      s'.pos = c.tokens.after m := by
  simp [compileSimple, and_assoc] at h
  rcases h with ⟨hlt, t, h, hk, rfl⟩ | ⟨_, h⟩
  · obtain ⟨F, hF⟩ := parses_compileAssignmentAt hr (Stream.nested_assignment hr.stream hlt) h
    exact ⟨t.pos, F, hF, hk, rfl⟩
  · generalize hstop : c.tokens.findAtDepthZero s.pos (fun x => decide (x = .symbol terminator)) = stop at h
    have hnested : (c.tokens.get stop).kind = .symbol terminator → c.tokens.Nested s.pos stop := by
      rintro hk
      rw [← hstop] at hk ⊢
      exact Stream.nested_findAtDepthZero hr.stream (by simp [hk])
    split at h
    · simp at h
      obtain ⟨t, h, hk, rfl⟩ := h
      obtain ⟨F, _, hF⟩ := parses_compileIncrement hr (hnested hk) h
      exact ⟨stop, F, hF, hk, rfl⟩
    · simp at h
      obtain ⟨t, h, hk, rfl⟩ := h
      obtain ⟨F, _, hF⟩ := parses_compileIncrement hr (hnested hk) h
      exact ⟨stop, F, hF, hk, rfl⟩
    · simp at h
      obtain ⟨t, h, hk, rfl⟩ := h
      obtain ⟨F, hF⟩ := parses_compileExpressionStatement hr h
      exact ⟨t.pos, F, hF, hk, rfl⟩

lemma parses_compileSimple_semicolon
    (h : Runs (compileSimple .semicolon) c s u s') : ∃ F, Parses q c d s s' F d := by
  obtain ⟨m, F, hF, hk, hpos⟩ := parses_compileSimple hr h
  have hG := hF.trans (parses_pos (hF.ready hr) (.token hr.stream hk rfl rfl))
  rw [← hpos] at hG
  exact ⟨_, hG⟩

end Gen
end AdventureScript
