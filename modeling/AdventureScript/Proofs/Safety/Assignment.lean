import AdventureScript.Proofs.Safety.Operator

/-!
Assignments and expressions as statements.
-/
namespace AdventureScript

namespace Stream

variable {t : Stream} {mark : Symbol} {i p q : Nat}

/-- A balanced stretch from `p` on, behind which the mark stands, and behind that `q`. -/
def Ends (t : Stream) (mark : Symbol) (p q : Nat) : Prop :=
  ∃ r, t.Nested p r ∧ (t.get r).kind = .symbol mark ∧ q = t.after r

lemma Ends.intro {r : Nat} (h : t.Nested p r) (hk : (t.get r).kind = .symbol mark) :
    t.Ends mark p (t.after r) :=
  ⟨r, h, hk, rfl⟩

lemma Ends.lt (h : t.Ends mark p q) : p < q := by
  obtain ⟨r, hr, hk, rfl⟩ := h
  rw [after_of_ne (by simp [hk])]
  exact Nat.lt_succ_of_le hr.1

lemma Ends.nested (hs : t.Sealed) (h : t.Ends mark p q) (ho : mark.isOpener = false)
    (hc : mark.isCloser = false) : t.Nested p q := by
  obtain ⟨r, hr, hk, rfl⟩ := h
  exact hr.trans (.token hs hk ho hc)

lemma Ends.group (hs : t.Sealed) (hk : (t.get i).kind = kind) (ho : kind.isOpener = true)
    (h : t.Ends mark (t.after i) q) (hc : mark.isCloser = true) : t.Nested i q := by
  obtain ⟨r, hr, hend, rfl⟩ := h
  exact .group hs hk ho hr hend hc

lemma Ends.behind {j : Nat} (h : t.Nested j p) (h' : t.Ends mark p q) : t.Ends mark j q := by
  obtain ⟨r, hr, hk, hq⟩ := h'
  exact ⟨r, h.trans hr, hk, hq⟩

lemma ends_findAtDepthZero {stop : Token.Kind → Bool} (hs : t.Sealed)
    (hk : (t.get (t.findAtDepthZero p stop)).kind = .symbol mark) :
    t.Ends mark p (t.after (t.findAtDepthZero p stop)) :=
  .intro (nested_findAtDepthZero hs (by simp [hk])) hk

end Stream

namespace Gen.Safety

variable {m : Mode} {base : State} {n p : Nat} {ty source : Ty} {target : Target}

/-! ## Targets -/

variable (hf : Fit m base) {tokens : Stretch}
include hf

lemma calmly_compileTarget {stop : Nat} :
    Calmly m base n p (compileTarget stop) fun r q =>
      (m.strict → r.1.Fits base.symbols 0) ∧ q = stop := by
  refine .peek (.unless nofun ?_)
  refine Sure.bind (.withParts (calmly_compileAccess hf (reliable_compilePart hf) fun _ =>
    Nat.zero_le p)) fun o q ho => .getPos (.dite (fun _ => .peek (.fail_bind nofun)) fun hq => ?_)
  cases hv : o.value with
  | stored target =>
    have hend : (m.strict → target.Fits base.symbols 0) ∧ q = stop :=
      ⟨fun hs => (ho.2 hs).stored target hv, by simpa using hq⟩
    cases hfault : o.writeFault with
    | some fault =>
      exact Sure.bind (Q := fun _ _ => False) (J := Calm m.strict base n)
        ⟨fun _ _ _ hs => (ho.2 hs).fault fault hfault⟩ fun _ _ => False.elim
    | none =>
      refine .unless nofun <| .unless nofun ?_
      exact .ret hend
  | _ => exact .fail nofun

lemma calmly_writeTarget (ht : m.strict → target.Fits base.symbols 0) :
    Quiet m base n p (writeTarget target ty) := by
  cases target with
  | memory place =>
    exact (calmly_loadAddress ht).then <| .ite calmly_copyString calmly_writeAx
  | «attribute» use =>
    exact .withParts (f := (setAttribute · use ty))
      (calmly_setAttribute hf (reliable_compilePart hf) ht)

lemma calmly_probeTarget {stop : Nat} :
    Quiet m base n p (probeTarget stop) := by
  refine Sure.bind (calmly_dryRun (Q := fun _ _ => True) fun n' _ => ?_) fun _ q h => .ret h.2
  exact Sure.then (calmly_modify fun _ => ⟨rfl, rfl, rfl, rfl, rfl, le_rfl, rfl⟩) <|
    (calmly_compileTarget hf).bind fun _ _ _ => .get fun _ _ => .ret trivial

lemma calmly_storeAx : Calmly m base n p (storeAx tokens source) fun _ _ => True := by
  have hwrite {q : Nat} {target : Target} {ty : Ty} (h : m.strict → target.Fits base.symbols 0) :
      Calmly m base n q (writeTarget target ty) fun _ _ => True :=
    (calmly_writeTarget hf h).mono fun _ => trivial
  refine .setPos ((calmly_probeTarget hf).then @fun (ty, clobbers) =>
    calmly_convertAxForStore.then <| .ite ?_ ?_)
  · exact calmly_pushReg.then <| (calmly_compileTarget hf).bind fun (target, ty) _ h =>
      .ite (calmly_popReg.then <| hwrite h.1) <| hwrite h.1
  · exact (calmly_compileTarget hf).bind fun (target, ty) _ h =>
      .ite (calmly_popReg.then <| hwrite h.1) <| hwrite h.1

lemma calmly_updateTarget (ht : m.strict → target.Fits base.symbols 0) {step : Gen Unit}
    (hstep : ∀ {p}, Quiet m base n p step) :
    Calmly m base n p (updateTarget tokens target ty step) fun _ _ => True := by
  cases target with
  | memory place =>
    exact (calmly_loadAddress ht).then <| calmly_readAx.then <| hstep.then <|
      calmly_writeAx.mono fun _ => trivial
  | «attribute» use =>
    exact Sure.then (.withParts (calmly_getAttribute hf (reliable_compilePart hf) ht)) <|
      hstep.then <| calmly_storeAx hf

lemma calmly_compileAssignment :
    Calmly m base n p (compileAssignment tokens) fun _ q => m.c.tokens.Nested p q :=
  (calmly_expression hf).bind fun _ _ ho => .getPos ((calmly_toAx hf ho.2).with fun _ _ =>
    (calmly_storeAx hf).bind fun _ _ _ => sure_setPos.mono fun hq => hq ▸ ho.1)

lemma calmly_compileCompound {op : BinaryOp} :
    Calmly m base n p (compileCompound tokens op) fun _ q => m.c.tokens.Nested p q := by
  refine (calmly_expression hf).bind fun _ _ ho => .getPos ((calmly_toAx hf ho.2).with fun _ _ =>
    calmly_pushReg.then <| .setPos ((calmly_compileTarget hf).bind fun (target, ty) _ h => ?_))
  refine .ite (sure_textOf.then <| .fail_bind nofun) ?_
  refine calmly_selectOpcode.with fun (opcode, _) _ => ?_
  exact (calmly_updateTarget hf h.1 (calmly_popReg.then calmly_emitRegs)).bind fun _ _ _ =>
    sure_setPos.mono fun hq => hq ▸ ho.1

lemma calmly_compileIncrement {mark : Symbol} :
    Calmly m base n p (compileIncrement tokens mark) fun _ _ => True := by
  refine .setPos ((calmly_compileTarget hf).bind fun (target, ty) _ h => ?_)
  refine .ite (sure_textOf.then <| .fail_bind nofun) ?_
  exact calmly_updateTarget hf h.1 calmly_emit

lemma calmly_compileExpressionStatement :
    Calmly m base n p compileExpressionStatement fun _ q => m.c.tokens.Nested p q := by
  refine (calmly_expression hf).bind fun o q ho => ?_
  split
  · exact (calmly_toAx hf ho.2).with fun _ _ => .ret ho.1
  · exact .ret ho.1

lemma calmly_compileAssignmentAt {start middle : Nat} :
    Calmly m base n p (compileAssignmentAt start middle) fun _ q =>
      m.c.tokens.Nested (middle + 1) q := by
  refine .tokenAt (.setPos (.atExpressionEnd fun _ => .unless nofun ?_))
  split
  · split
    · exact calmly_compileCompound hf
    · exact calmly_compileAssignment hf
  · exact calmly_compileAssignment hf

lemma calmly_compileSimple {terminator : Symbol} :
    Calmly m base n p (compileSimple terminator) fun _ q => m.c.tokens.Ends terminator p q := by
  have hend {q : Nat} (h : (m.c.tokens.get q).kind = .symbol terminator → m.c.tokens.Nested p q) :
      Calmly m base n q (expect terminator) fun _ q => m.c.tokens.Ends terminator p q :=
    sure_expect.mono fun hk => hk.2 ▸ .intro (h hk.1) hk.1
  refine .getPos (.findAtDepthZero (.findAtDepthZero (.dite (fun hlt => ?_) fun _ => ?_)))
  · exact (calmly_compileAssignmentAt hf).bind fun _ _ h =>
      hend fun _ => (Stream.nested_assignment hf.closed hlt).trans h
  · refine .tokenAt (.tokenAt ?_)
    have hstop : Calmly m base n (m.c.tokens.findAtDepthZero p (· = .symbol terminator))
        (expect terminator) fun _ q => m.c.tokens.Ends terminator p q :=
      hend fun hk => Stream.nested_findAtDepthZero hf.closed (by simp [hk])
    dsimp only
    split
    · exact (calmly_compileIncrement hf).bind fun _ _ _ => .setPos hstop
    · exact (calmly_compileIncrement hf).bind fun _ _ _ => .setPos hstop
    · exact (calmly_compileExpressionStatement hf).bind fun _ _ h => hend fun _ => h

end Gen.Safety
end AdventureScript
