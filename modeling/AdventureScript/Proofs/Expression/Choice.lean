import AdventureScript.Proofs.Declaration.Basic
import AdventureScript.Proofs.Parallel.Part

/-!
The conditional operator behind a constant: it is the arm that the condition chooses.
-/
namespace AdventureScript.Gen

variable {q : Prop} {c : Context} {d : Int} {s s' t t1 t2 : State} {parts : Parts}
  {o lhs condition r : Operand} {value : Constant} {n m start : Nat}

lemma runs_arm (h : start < s.pos) (hlt : start < c.tokens.size) :
    Runs (partsFrom c start arm) c s o s' ↔ Runs expression c s o s' := by
  simp only [runs_partsFrom, runs_expression, h, hlt, true_and]
  rfl

lemma sound_partsFrom : Sound (partsFrom c start) :=
  (sound_compilePart _).below _

def beforeQuestion : Gen Operand :=
  withParts (· (.upTo (ternaryPriority - 1)))

lemma runs_beforeQuestion : Runs beforeQuestion c s o s' ↔
    Runs (compileOperators (partsFrom c s.pos) (ternaryPriority - 1)) c s o s' := by
  simp [beforeQuestion, withParts, runs_compilePart, compileWith, partsFrom, and_assoc]

lemma constant_compileRightSide (hp : Sound parts) (hr : Ready q c d s) {op : BinaryOp}
    (hlhs : lhs.Located s.symbols) (h : Runs (compileRightSide parts op lhs) c s o s')
    (ho : o.constant?.isSome = true) : lhs.constant?.isSome = true ∧ s.pos ≤ s'.pos := by
  have hconstant : lhs.constant?.isSome = true := by
    by_contra hno
    simp [compileRightSide, atExpressionEnd, and_assoc, Option.not_isSome_iff_eq_none.1 hno] at h
    obtain ⟨_, _, _, hax⟩ := parses_emitBinary hp hr hlhs h.2.2.2
    simp [Operand.constant?, hax] at ho
  obtain ⟨F, hF, _⟩ := yields_compileRightSide hp hr
    ⟨[], parses_nil hr, ⟨fun _ => rfl, fun hax => by simp [Operand.constant?, hax] at hconstant, hlhs⟩,
      fun _ => .refl⟩ h
  exact ⟨hconstant, hF.nested.1⟩

lemma runs_roundsWithin_ternary (hp : Sound parts) (hr : Ready q c d s)
    (hy : Yields q c d s t lhs) (hcondition : condition.constant?.isSome = true)
    (h : Runs (roundsWithin (compileOperator parts (ternaryPriority - 1)) n lhs) c t condition t1)
    (hk : (c.tokens.get t1.pos).kind = .symbol .question)
    (hternary : Runs (compileTernary parts condition) c t1 r t2)
    (hend : continues ternaryPriority (c.tokens.get t2.pos).kind = false) :
    lhs.constant?.isSome = true ∧ t.pos ≤ t1.pos ∧ ∀ m, t1.pos + 2 ≤ m + t.pos →
      Runs (roundsWithin (compileOperator parts ternaryPriority) m lhs) c t r t2 := by
  induction n generalizing lhs t with
  | zero => simp [roundsWithin] at h
  | succ n ih =>
    obtain ⟨round, t', h1, h2⟩ := runs_bind.1 h
    cases round with
    | done o =>
      obtain ⟨rfl, rfl⟩ := runs_pure.1 h2
      obtain ⟨rfl, rfl, _⟩ := runs_compileOperator_done.1 h1
      refine ⟨hcondition, le_rfl, fun m hm => ?_⟩
      obtain ⟨m, rfl⟩ : ∃ k, m = k + 2 := ⟨m - 2, by omega⟩
      exact runs_bind.2 ⟨_, _, runs_compileOperator_again.2 (.inl ⟨hk, le_rfl, hternary⟩),
        runs_bind.2 ⟨_, _, runs_compileOperator_done.2 ⟨rfl, rfl, hend⟩, runs_pure.2 ⟨rfl, rfl⟩⟩⟩
    | again lhs' =>
      obtain ⟨hlhs', hle, hrest⟩ := ih (yields_compileOperator hp hr hy h1) h2
      rcases runs_compileOperator_again.1 h1 with ⟨_, hpriority, _⟩ | ⟨mark, op, hmark, hop, hle', h'⟩
      · simp [ternaryPriority] at hpriority
      · obtain ⟨F, hF, ho⟩ := hy
        have hnext : c.tokens.after t.pos = t.pos + 1 := Stream.after_of_ne (by simp [hmark])
        obtain ⟨hlhs, hpos⟩ := constant_compileRightSide hp (ready_pos (hF.ready hr) _)
          (hF.aside.symbols ▸ ho.located) h' hlhs'
        simp only [hnext] at hpos
        refine ⟨hlhs, by omega, fun m hm => ?_⟩
        obtain ⟨m, rfl⟩ : ∃ k, m = k + 1 := ⟨m - 1, by omega⟩
        exact runs_bind.2 ⟨_, _, runs_compileOperator_again.2
          (.inr ⟨mark, op, hmark, hop, by omega, h'⟩), hrest m (by omega)⟩

lemma kind_of_compilePrefixed (h : Runs (compilePrefixed parts) c s o s') :
    Runs atExpressionEnd c s false s ∧ (c.tokens.get s.pos).kind ≠ .symbol .colon := by
  simp only [compilePrefixed, runs_bind, runs_peek] at h
  obtain ⟨_, s, ⟨rfl, rfl⟩, h⟩ := h
  simp only [atExpressionEnd, runs_bind, runs_peek, runs_pure]
  cases hk : (c.tokens.get s.pos).kind with
  | symbol mark =>
    cases mark
    case leftParen | minus | bang | tilde =>
      exact ⟨⟨_, s, ⟨rfl, rfl⟩, rfl, by rw [hk]; rfl⟩, by simp⟩
    all_goals simp [hk, UnaryOp.ofSymbol?, compileOperand] at h
  | endOfInput => simp [hk, compileOperand] at h
  | _ => exact ⟨⟨_, s, ⟨rfl, rfl⟩, rfl, by rw [hk]; rfl⟩, by simp⟩

section

variable (h : Runs expression c s o s')
include h

lemma kind_of_expression (ht : t.pos = s.pos) :
    Runs atExpressionEnd c t false t ∧ (c.tokens.get t.pos).kind ≠ .symbol .colon := by
  rw [runs_expression, compileOperators] at h
  obtain ⟨_, _, h, _⟩ := runs_bind.1 h
  obtain ⟨hend, hcolon⟩ := kind_of_compilePrefixed h
  simp only [atExpressionEnd, runs_bind, runs_peek, runs_pure] at hend ⊢
  obtain ⟨_, _, ⟨_, rfl⟩, _, hend⟩ := hend
  rw [ht]
  exact ⟨⟨_, t, ⟨rfl, ht ▸ rfl⟩, rfl, hend⟩, hcolon⟩

lemma runs_checkThirdArm_of_expression (ht : t.pos = s.pos) :
    Runs checkThirdArm c t () t :=
  (kind_of_expression h ht).1.bind (by simp)

lemma kind_behind_expression : continues ternaryPriority (c.tokens.get s'.pos).kind = false ∧
      startsOperand (c.tokens.get s'.pos).kind = false := by
  rw [runs_expression, compileOperators] at h
  simp only [runs_bind] at h
  obtain ⟨first, t, _, result, t', h2, h3⟩ := h
  simp [and_assoc] at h3
  obtain ⟨hstarts, rfl, rfl⟩ := h3
  refine ⟨?_, hstarts⟩
  exact runs_rounds (P := fun _ _ => True)
    (Q := fun _ t => continues ternaryPriority (c.tokens.get t.pos).kind = false)
    (fun _ _ => trivial) (fun _ h => by
      obtain ⟨rfl, _, hend⟩ := runs_compileOperator_done.1 h
      exact hend) h2 trivial

lemma runs_arm_of_expression {j : Option Nat} (hlt : start < s.pos)
    (hsize : start < c.tokens.size) :
    ∃ j', Runs (partsFrom c start arm) c { s with jumpTarget := j } o
      { s' with jumpTarget := j' } := by
  have hst : Alike ⟨c, c, s, True, False, 0, 0, True⟩ (fun p p' => p' = p) s { s with jumpTarget := j } :=
    ⟨rfl, .refl, ⟨rfl, rfl, rfl⟩, rfl, fun _ => rfl, fun _ => False.elim, fun _ => rfl⟩
  obtain ⟨_, t', h', ht⟩ := (agree_expression rfl).run hst h
  obtain ⟨rfl, hpos⟩ := ht.pos
  refine ⟨t'.jumpTarget, ?_⟩
  rw [show { s' with jumpTarget := t'.jumpTarget } = t' by rw [ht.rest trivial, ht.flag trivial, hpos]]
  exact (runs_arm (s := { s with jumpTarget := j }) hlt hsize).2 h'

end

lemma runs_skipArm {t' : State} (hr : Ready q c d s) (h : Runs expression c t o t')
    (hpos : s.pos = t.pos) (hst : Stays t s) (hlt : start < s.pos) (hsize : start < c.tokens.size) :
    ∃ j, Runs (skipArm (partsFrom c start)) c s () { s with pos := t'.pos, jumpTarget := j } := by
  have hlike : Alike ⟨c, c, t, False, False, t.script.size, s.script.size, False⟩ (fun p p' => p' = p) t s :=
    ⟨hpos, .refl, hst, Nat.add_comm .., False.elim, False.elim, False.elim⟩
  obtain ⟨_, s1, h', hst'⟩ := (agree_expression rfl).run hlike h
  have hdry := runs_dryRun.2 ⟨s1, (runs_arm hlt hsize).2 h', rfl, rfl⟩
  obtain ⟨s2, _, hpos, heq⟩ := tried hr hdry fun h => (sound_partsFrom.yields hr h).emits
  exact ⟨_, runs_bind.2 ⟨_, _, hdry, runs_setPos.2 (by rw [heq, hst'.pos.2])⟩⟩

/-! ## Constant conditions -/

lemma runs_compileChosen {start : Nat} {a b : Operand} {tA tB : State} {j : Option Nat} {n : Nat}
    (hr : Ready q c d s) (hA : Runs expression c { s with pos := n } a tA)
    (hcolon : (c.tokens.get tA.pos).kind = .symbol .colon)
    (hB : Runs expression c { s with pos := c.tokens.after tA.pos } b tB)
    (hlt : start < n) (hsize : start < c.tokens.size) :
    ∃ s', Runs (compileChosen (partsFrom c start) value) c { s with pos := n, jumpTarget := j }
        (if value.isTrue then a else b) s' ∧ s'.pos = tB.pos ∧
      Passes (if value.isTrue then tA else tB) s' := by
  have hr' : Ready q c d { s with pos := n, jumpTarget := j } := Passes.ready ⟨n, j, rfl⟩ hr
  obtain ⟨j1, hA'⟩ := runs_arm_of_expression (j := j) hA hlt hsize
  obtain ⟨F, hF, _⟩ := sound_partsFrom.yields hr' hA'
  have hstart : start < c.tokens.after tA.pos := by
    have := hF.nested.1
    have := @Stream.le_after c.tokens tA.pos
    simp only at *
    omega
  by_cases htrue : value.isTrue = true
  · simp only [compileChosen, htrue, if_true]
    have hskip := Passes.refl.skip (s := { tA with jumpTarget := j1 }) (c.tokens.after tA.pos)
    obtain ⟨j2, hB'⟩ := runs_skipArm (hskip.ready (hF.ready hr')) hB rfl
      ⟨hF.aside.symbols, hF.aside.blocks, hF.aside.function?⟩ hstart hsize
    refine ⟨{ tA with pos := tB.pos, jumpTarget := j2 }, hA'.bind ?_, rfl, ⟨_, _, rfl⟩⟩
    refine Runs.bind (a := ()) (runs_expect.2 ⟨hcolon, rfl⟩) (hB'.bind ?_)
    exact runs_pure.2 ⟨rfl, rfl⟩
  · simp only [compileChosen, htrue]
    obtain ⟨j2, hskip⟩ := runs_skipArm hr' hA rfl ⟨rfl, rfl, rfl⟩ hlt hsize
    obtain ⟨j3, hB'⟩ := runs_arm_of_expression (j := j2) hB hstart hsize
    refine ⟨{ tB with jumpTarget := j3 }, hskip.bind ?_, rfl, ⟨_, _, rfl⟩⟩
    refine Runs.bind (a := ()) (runs_expect.2 ⟨hcolon, rfl⟩) (Runs.bind (a := ()) ?_ hB')
    exact runs_checkThirdArm_of_expression hB rfl

lemma runs_compileShort {b : Operand} {tB : State} {j : Option Nat} {n : Nat} (hr : Ready q c d s)
    (hvalue : condition.constant? = some value) (hB : Runs expression c { s with pos := n } b tB)
    (hlt : start < n) (hsize : start < c.tokens.size) :
    ∃ s', Runs (compileShort (partsFrom c start) condition) c { s with pos := n, jumpTarget := j }
        (if value.isTrue then condition else b) s' ∧ s'.pos = tB.pos ∧
      Passes (if value.isTrue then s else tB) s' := by
  have hthird : Runs checkThirdArm c { s with pos := n, jumpTarget := j } ()
      { s with pos := n, jumpTarget := j } :=
    runs_checkThirdArm_of_expression hB rfl
  simp only [compileShort, hvalue]
  by_cases htrue : value.isTrue = true
  · simp only [htrue, if_true]
    obtain ⟨j2, hskip⟩ := runs_skipArm (Passes.ready ⟨n, j, rfl⟩ hr) hB rfl
      ⟨rfl, rfl, rfl⟩ hlt hsize
    exact ⟨_, hthird.bind (hskip.bind (runs_pure.2 ⟨rfl, rfl⟩)), rfl, ⟨_, _, rfl⟩⟩
  · simp only [htrue]
    obtain ⟨j2, hB'⟩ := runs_arm_of_expression (j := j) hB hlt hsize
    exact ⟨_, hthird.bind hB', rfl, ⟨_, _, rfl⟩⟩

lemma runs_expression_of_ternary (hr : Ready q c d s)
    (hcondition : Runs beforeQuestion c s condition t) (hconstant : condition.constant?.isSome = true)
    (hk : (c.tokens.get t.pos).kind = .symbol .question)
    (hternary : Runs (compileTernary (partsFrom c s.pos) condition) c t r s')
    (hend : continues ternaryPriority (c.tokens.get s'.pos).kind = false)
    (hstarts : startsOperand (c.tokens.get s'.pos).kind = false) : Runs expression c s r s' := by
  rw [runs_beforeQuestion, compileOperators] at hcondition
  simp only [runs_bind] at hcondition
  obtain ⟨first, t0, h1, result, t', h2, h3⟩ := hcondition
  simp [and_assoc] at h3
  obtain ⟨_, rfl, rfl⟩ := h3
  simp only [rounds, runs_bind, runs_tokenCount] at h2
  obtain ⟨_, _, ⟨rfl, rfl⟩, h2⟩ := h2
  have hlt := hr.stream.lt_size (i := t.pos) (by simp [hk])
  obtain ⟨_, _, hrounds⟩ := runs_roundsWithin_ternary sound_partsFrom hr
    (yields_compilePrefixed sound_partsFrom hr h1) hconstant h2 hk hternary hend
  rw [runs_expression, compileOperators]
  refine h1.bind (Runs.bind (a := r) (t := s') ?_ ?_)
  · exact (runs_tokenCount.2 ⟨rfl, rfl⟩).bind (hrounds _ (by simp only [Stream.size]; omega))
  · simp [hstarts]

/-- A conditional operator behind a constant is the arm that the condition chooses, or the condition
itself: all but the next token and the landing of jumps is as if that had been compiled alone. -/
theorem runs_constant_condition (hr : Ready q c d s)
    (hcondition : Runs beforeQuestion c s condition t) (hvalue : condition.constant? = some value)
    (hk : (c.tokens.get t.pos).kind = .symbol .question) :
    (∀ {a b tA tB}, Runs expression c { s with pos := c.tokens.after t.pos } a tA →
      (c.tokens.get tA.pos).kind = .symbol .colon →
      Runs expression c { s with pos := c.tokens.after tA.pos } b tB →
      ∃ s', Runs expression c s (if value.isTrue then a else b) s' ∧ s'.pos = tB.pos ∧
        Passes (if value.isTrue then tA else tB) s') ∧
    ∀ {b tB}, (c.tokens.get (c.tokens.after t.pos)).kind = .symbol .colon →
      Runs expression c { s with pos := c.tokens.after (c.tokens.after t.pos) } b tB →
      ∃ s', Runs expression c s (if value.isTrue then condition else b) s' ∧ s'.pos = tB.pos ∧
        Passes (if value.isTrue then s else tB) s' := by
  have hconstant : condition.constant?.isSome = true := by simp [hvalue]
  obtain ⟨F, hF, ho⟩ := yields_compileOperators sound_partsFrom hr (runs_beforeQuestion.1 hcondition)
  obtain ⟨n, j, rfl⟩ := ho.passes hconstant
  have hnext : c.tokens.after n = n + 1 := Stream.after_of_ne (by simpa using hk ▸ nofun)
  have hle : s.pos ≤ n := hF.nested.1
  have hsize : s.pos < c.tokens.size := by
    have := hr.stream.lt_size (i := n) (by simp [hk])
    simp only [Stream.size]
    omega
  constructor
  · intro a b tA tB hA hcolon hB
    have hlt : s.pos < c.tokens.after n := by omega
    obtain ⟨s', hchosen, hpos, hs'⟩ :=
      @runs_compileChosen _ _ _ _ value _ _ _ _ _ j _ hr hA hcolon hB hlt hsize
    obtain ⟨hend, hstarts⟩ := kind_behind_expression hB
    refine ⟨s', runs_expression_of_ternary hr hcondition hconstant hk ?_ (hpos ▸ hend)
      (hpos ▸ hstarts), hpos, hs'⟩
    obtain ⟨hfirst, hnot⟩ := kind_of_expression hA
      (t := { s with pos := c.tokens.after n, jumpTarget := j }) rfl
    refine (runs_advance.2 ⟨rfl, rfl⟩).bind ((runs_eat.2 (.inr ⟨hnot, rfl, rfl⟩)).bind ?_)
    refine hfirst.bind ?_
    simp only [hvalue]
    exact hchosen
  · intro b tB hcolon hB
    obtain ⟨s', hshort, hpos, hs'⟩ := runs_compileShort (j := j) hr hvalue hB
      (by have := @Stream.le_after c.tokens (c.tokens.after n); simp only [hnext] at *; omega) hsize
    obtain ⟨hend, hstarts⟩ := kind_behind_expression hB
    refine ⟨s', runs_expression_of_ternary hr hcondition hconstant hk ?_ (hpos ▸ hend)
      (hpos ▸ hstarts), hpos, hs'⟩
    simp [compileTernary, hcolon, hshort, and_assoc]

theorem runs_constant_condition_text :
    let kinds : List Token.Kind :=
      [.int 1, .symbol .question, .string [97], .symbol .colon, .string [98]]
    let c : Context := ⟨.ofTokens (kinds.map fun kind => ⟨kind, "", .point 0 0, 0⟩).toArray #[], {}⟩
    ∃ condition t a tA b tB s', Ready False c 0 {} ∧ Runs beforeQuestion c {} condition t ∧
      condition.constant? = some (.int 1) ∧ (c.tokens.get t.pos).kind = .symbol .question ∧
      Runs expression c { pos := c.tokens.after t.pos } a tA ∧
      (c.tokens.get tA.pos).kind = .symbol .colon ∧
      Runs expression c { pos := c.tokens.after tA.pos } b tB ∧
      tA.script.strings.bytes = #[97, 0] ∧ tB.script.strings.bytes = #[98, 0] ∧
      Runs expression c {} a s' ∧ s'.pos = tB.pos ∧ Passes tA s' := by
  intro kinds c
  have hr : Ready False c 0 {} := Coherent.initial.ready rfl
  obtain ⟨condition, t, hcondition, ht⟩ := exists_runs_of_any (x := beforeQuestion) (c := c) (s := {})
    (p := fun o t => o.constant? = some (.int 1) ∧ t.pos = 1) (by decide +kernel)
  obtain ⟨a, tA, hA, htA⟩ := exists_runs_of_any (x := expression) (c := c)
    (s := { pos := 2 })
    (p := fun _ t => t.script.strings.bytes = #[97, 0] ∧ t.pos = 3) (by decide +kernel)
  obtain ⟨b, tB, hB, htB⟩ := exists_runs_of_any (x := expression) (c := c)
    (s := { pos := 4 })
    (p := fun _ t => t.script.strings.bytes = #[98, 0]) (by decide +kernel)
  obtain ⟨hvalue, ht⟩ := of_decide_eq_true ht
  obtain ⟨htextA, htA⟩ := of_decide_eq_true htA
  have hk : (c.tokens.get t.pos).kind = .symbol .question := by rw [ht]; rfl
  have hcolon : (c.tokens.get tA.pos).kind = .symbol .colon := by rw [htA]; rfl
  have hafter : c.tokens.after t.pos = 2 := by rw [ht]; rfl
  have hafterA : c.tokens.after tA.pos = 4 := by rw [htA]; rfl
  rw [← hafter] at hA
  rw [← hafterA] at hB
  obtain ⟨s', hs', hpos, hpass⟩ :=
    (runs_constant_condition hr hcondition hvalue hk).1 hA hcolon hB
  exact ⟨condition, t, a, tA, b, tB, s', hr, hcondition, hvalue, hk, hA, hcolon, hB, htextA,
    of_decide_eq_true htB, hs', hpos, hpass⟩

end AdventureScript.Gen
