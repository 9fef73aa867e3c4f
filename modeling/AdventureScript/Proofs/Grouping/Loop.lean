import AdventureScript.Proofs.Grouping.Evaluation

/-!
The loop over operators compiles an expression as it is grouped.
-/
namespace AdventureScript.Gen

variable {c : Context} {base s s' t : State} {same tight even : Prop} {n m p q start : Nat}
  {o lhs : Operand} {x y right right' second second' third third' : Gen Operand} {op : BinaryOp}
  {X : Nat → Prop}

lemma respects_refl {k : Pair} (h : k.c' = k.c) :
    (Alignment.refl k h).Respects (partsFrom k.c start) (partsFrom k.c' start) := by
  have hr : (Alignment.refl k h).Respects (compilePart k.c.tokens.size)
      (compilePart k.c'.tokens.size) := respects_compilePart (le_of_eq (by rw [h]))
  have hlt {p p' : Nat} (hp : p' = p) (hlt : k.c.tokens.size - p < k.c.tokens.size - start) :
      k.c'.tokens.size - p' < k.c'.tokens.size - start := by
    rw [h, hp]
    exact hlt
  exact ⟨fun hstop => agree_below (hr.argument hstop) fun hp => hlt hp.1,
    agree_below hr.upTo fun hp => hlt hp.1,
    fun ho => agree_below (hr.prefixed ho) fun hp => hlt (ho.shift hp.1)⟩

lemma exchange_refl : Exchange ⟨c, c, base, same, tight, n, m, even⟩ (fun o o' => o' = o)
    (loadToAx (partsFrom c start)) (loadToAx (partsFrom c start)) where
  load {P o o'} h := by
    subst h
    exact agree_loadToAx (respects_refl rfl).loads (moved_refl (h := rfl) o')
  constant? h := by rw [h]
  ty h := by rw [h]
  inAx _ := rfl
  constant _ _ := rfl

def Steady (c : Context) (base : State) (q : Nat) (x : Gen Operand) : Prop :=
  ∀ n m, Agree ⟨c, c, base, False, False, n, m, False⟩ (At q q) (Same fun p p' => p' = p) x x

lemma steady_upTo : Steady c base q (partsFrom c start (.upTo n)) := fun m m' =>
  ((respects_refl (k := ⟨c, c, base, False, False, m, m', False⟩) rfl).upTo (i := ()) (n := 0)).mono
    (fun hp => ⟨hp.2.trans hp.1.symm, Nat.zero_le _⟩) fun h => ⟨h.1.eq_of_refl, h.2.1⟩

lemma Steady.run (h : Steady c base q x) (hs : Stays base s) (hq : s.pos = q)
    (ht : Stays base t) (hq' : t.pos = q) (hrun : Runs x c s o s') :
    Stays base s' ∧ ∃ t', Runs x c t o t' ∧ t'.pos = s'.pos := by
  obtain ⟨o', t', hrun', hst⟩ := Agree.run (h s.script.size t.script.size)
    ⟨⟨hq, hq'⟩, hs, ht, Nat.add_comm .., False.elim, False.elim, False.elim⟩ hrun
  obtain ⟨rfl, hpos⟩ := hst.pos
  exact ⟨hst.left, t', hrun', hpos⟩

lemma alike_self (hs : Stays base s) (hq : s.pos = q) :
    Alike ⟨c, c, base, same, tight, 0, 0, even⟩ (At q q) s s :=
  ⟨⟨hq, hq⟩, hs, hs, rfl, fun _ => rfl, fun _ _ => rfl, fun _ => rfl⟩

lemma Alike.eq {P : Nat → Nat → Prop} (h : Alike ⟨c, c, base, True, True, 0, 0, True⟩ P s t)
    (hpos : t.pos = s.pos) : t = s := by
  rw [h.rest trivial, h.landed trivial trivial, h.flag trivial, hpos]

lemma agree_of_runs {Z : Nat → Prop}
    (h : ∀ {s o s'}, Stays base s → s.pos = q → Runs x c s o s' →
      Runs y c s o s' ∧ Stays base s' ∧ Z s'.pos) :
    Agree ⟨c, c, base, True, True, 0, 0, True⟩ (At q q) (Same fun p p' => p' = p ∧ Z p) x y := by
  refine ⟨fun {s t o s'} hst hrun => ?_⟩
  obtain ⟨hq, hq'⟩ := hst.pos
  obtain rfl := hst.eq (hq'.trans hq.symm)
  obtain ⟨hrun', hstay, hZ⟩ := h hst.left hq hrun
  exact ⟨o, s', hrun', ⟨rfl, rfl, hZ⟩, hstay, hstay, rfl, fun _ => rfl, fun _ _ => rfl, fun _ => rfl⟩

lemma Steady.lands {e : Nat} (h : Steady c base q x)
    (hx : ∀ {s o s'}, Stays base s → s.pos = q → Runs x c s o s' → s'.pos = e) :
    Agree ⟨c, c, base, False, False, 0, 0, False⟩ (At q q) (Same fun p p' => p' = p ∧ p = e) x x := by
  refine ⟨fun {s t o s'} hst hrun => ?_⟩
  obtain ⟨o', t', hrun', hst'⟩ := (h 0 0).run hst hrun
  have he := hx hst.left hst.pos.1 hrun
  exact ⟨o', t', hrun', hst'.mono fun h => ⟨h.1, h.2, he⟩⟩

/-! ## Steps that may end at a wrong place -/

lemma Steady.settles {Y : State → Operand → State → Prop} (hx : Steady c base q x)
    (h : ∀ {s o s'}, Stays base s → s.pos = q → Runs x c s o s' → Y s o s' ∨ X s'.pos) :
    (∀ {s o s'}, Stays base s → s.pos = q → Runs x c s o s' → Y s o s') ∨
      ∃ e, X e ∧ ∀ {s o s'}, Stays base s → s.pos = q → Runs x c s o s' → s'.pos = e := by
  by_cases hall : ∀ s o s', Stays base s → s.pos = q → Runs x c s o s' → Y s o s'
  · exact .inl fun hs hq hrun => hall _ _ _ hs hq hrun
  · simp only [not_forall] at hall
    obtain ⟨s1, o1, s1', hs1, hq1, hrun1, hnot⟩ := hall
    refine .inr ⟨s1'.pos, (h hs1 hq1 hrun1).resolve_left hnot, fun {s o s'} hs hq hrun => ?_⟩
    obtain ⟨_, s2, hrun2, hpos⟩ := hx.run hs1 hq1 hs hq hrun1
    obtain ⟨rfl, rfl⟩ := hrun.unique hrun2
    exact hpos

lemma runs_rightSide_congr (h : ∀ {s o s'}, Stays base s → s.pos = q → Runs right c s o s' →
      Runs right' c s o s' ∧ Stays base s')
    (hs : Stays base s) (hq : s.pos = q)
    (hrun : Runs (rightSide (loadToAx (partsFrom c start)) op lhs right) c s o s') :
    Runs (rightSide (loadToAx (partsFrom c start)) op lhs right') c s o s' := by
  have hright : Agree ⟨c, c, base, True, True, 0, 0, True⟩ (At q q) (Same fun p p' => p' = p ∧ True) right
      right' := agree_of_runs fun hs hq hrun => ⟨(h hs hq hrun).1, (h hs hq hrun).2, trivial⟩
  obtain ⟨o', t', hrun', hst⟩ := (agree_rightSide exchange_refl rfl hright).run
    (alike_self hs hq) hrun
  obtain ⟨rfl, hpos, _⟩ := hst.pos
  obtain rfl := hst.eq hpos
  exact hrun'

lemma runs_arms_congr {e : Tree}
    (h : ∀ {s o s'}, Stays base s → s.pos = q → Runs second c s o s' →
      Runs second' c s o s' ∧ Stays base s' ∧ s'.pos = p)
    (hcolon : (c.tokens.get p).kind = .symbol .colon) (hp : Placed c.tokens (p + 1) e)
    (h' : ∀ {s o s'}, Stays base s → s.pos = p + 1 → Runs third c s o s' →
      Runs third' c s o s' ∧ Stays base s')
    (hs : Stays base s) (hq : s.pos = q)
    (hrun : Runs (arms (loadToAx (partsFrom c start)) lhs second third) c s o s') :
    Runs (arms (loadToAx (partsFrom c start)) lhs second' third') c s o s' := by
  have hsecond : Agree ⟨c, c, base, True, True, 0, 0, True⟩ (At q q) (Same (At p p)) second second' :=
    (agree_of_runs h).behind fun h => ⟨h.1, h.2.2, h.2.1.trans h.2.2⟩
  have hthird : Agree ⟨c, c, base, True, True, 0, 0, True⟩ (At (p + 1) (p + 1)) (Same fun p p' => p' = p ∧ True)
      third third' :=
    agree_of_runs fun hs hq hrun => ⟨(h' hs hq hrun).1, (h' hs hq hrun).2, trivial⟩
  obtain ⟨o', t', hrun', hst⟩ := (agree_arms exchange_refl rfl hsecond
    (agree_expect_at hcolon hcolon) (agree_checkThirdArm_at hp) hthird).run (alike_self hs hq)
    hrun
  obtain ⟨rfl, hpos, _⟩ := hst.pos
  obtain rfl := hst.eq hpos
  exact hrun'

lemma settles_rightSide (hright : Steady c base q right)
    (h : ∀ {s o s'}, Stays base s → s.pos = q → Runs right c s o s' →
      Runs right' c s o s' ∨ X s'.pos)
    (hs : Stays base s) (hq : s.pos = q)
    (hrun : Runs (rightSide (loadToAx (partsFrom c start)) op lhs right) c s o s') :
    Runs (rightSide (loadToAx (partsFrom c start)) op lhs right') c s o s' ∨ X s'.pos := by
  rcases hright.settles h with hall | ⟨e, he, hwrong⟩
  · exact .inl (runs_rightSide_congr (fun hs hq hrun =>
      ⟨hall hs hq hrun, (hright.run hs hq hs hq hrun).1⟩) hs hq hrun)
  · obtain ⟨o', t', hrun', hst⟩ := (agree_rightSide exchange_refl rfl (hright.lands hwrong)).run
      (alike_self hs hq) hrun
    exact .inr (hst.pos.2.2 ▸ he)

lemma settles_arms {e : Tree} (hsecond : Steady c base q second)
    (h : ∀ {s o s'}, Stays base s → s.pos = q → Runs second c s o s' →
      (Runs second' c s o s' ∧ s'.pos = p) ∨ (c.tokens.get s'.pos).kind = .symbol .leftParen)
    (hcolon : (c.tokens.get p).kind = .symbol .colon) (hp : Placed c.tokens (p + 1) e)
    (hthird : Steady c base (p + 1) third)
    (h' : ∀ {s o s'}, Stays base s → s.pos = p + 1 → Runs third c s o s' →
      Runs third' c s o s' ∨ X s'.pos)
    (hs : Stays base s) (hq : s.pos = q)
    (hrun : Runs (arms (loadToAx (partsFrom c start)) lhs second third) c s o s') :
    Runs (arms (loadToAx (partsFrom c start)) lhs second' third') c s o s' ∨ X s'.pos := by
  rcases hsecond.settles (Y := fun s o s' => Runs second' c s o s' ∧ s'.pos = p)
    (X := fun n => (c.tokens.get n).kind = .symbol .leftParen) h with hall | ⟨e, he, hwrong⟩
  · rcases hthird.settles h' with hall' | ⟨e, he, hwrong⟩
    · exact .inl (runs_arms_congr (fun hs hq hrun => ⟨(hall hs hq hrun).1,
        (hsecond.run hs hq hs hq hrun).1, (hall hs hq hrun).2⟩) hcolon hp (fun hs hq hrun =>
          ⟨hall' hs hq hrun, (hthird.run hs hq hs hq hrun).1⟩) hs hq hrun)
    · have hends : Agree ⟨c, c, base, False, False, 0, 0, False⟩ (At q q) (Same (At p p)) second second :=
        (hsecond.lands fun hs hq hrun => (hall hs hq hrun).2).behind
          fun h => ⟨h.1, h.2.2, h.2.1.trans h.2.2⟩
      obtain ⟨o', t', hrun', hst⟩ := (agree_arms exchange_refl rfl hends
        (agree_expect_at hcolon hcolon) (agree_checkThirdArm_at hp) (hthird.lands hwrong)).run
        (alike_self hs hq) hrun
      exact .inr (hst.pos.2.2 ▸ he)
  · -- A second arm that ends at a parenthesis is not followed by a colon.
    have hnever {α β : Type} {W : α → β → Nat → Nat → Prop} {x : Gen α} {y : Gen β} :
        Agree ⟨c, c, base, False, False, 0, 0, False⟩ (fun _ _ => False) W x y := ⟨fun hst => hst.pos.elim⟩
    have hmissing : Agree ⟨c, c, base, False, False, 0, 0, False⟩ (fun n n' => n' = n ∧ n = e)
        (Any fun _ _ => False) (expect .colon) (expect .colon) := by
      refine ⟨fun {s t _ s'} hst hrun => ?_⟩
      have hk := (runs_expect.1 hrun).1
      rw [hst.pos.2] at hk
      simp [he] at hk
    have hrest : Agree ⟨c, c, base, False, False, 0, 0, False⟩ (At q q) (Same fun _ _ => False)
        (arms (loadToAx (partsFrom c start)) lhs second third)
        (arms (loadToAx (partsFrom c start)) lhs second third) :=
      agree_arms exchange_refl rfl (hsecond.lands hwrong) hmissing hnever hnever
    obtain ⟨o', t', hrun', hst⟩ := hrest.run (alike_self hs hq) hrun
    exact hst.pos.2.elim

structure Stops (t : Stream) (n p : Nat) : Prop where
  starts : startsOperand (t.get p).kind = false
  stops : continues n (t.get p).kind = false

lemma continues_mono {kind : Token.Kind} (h : n ≤ m) (hk : continues m kind = false) :
    continues n kind = false := by
  unfold continues at hk ⊢
  split
  · simp at hk ⊢
    omega
  · next mark _ =>
    cases hop : BinaryOp.ofSymbol? mark with
    | none => rfl
    | some op =>
      simp [hop] at hk ⊢
      omega
  · rfl

lemma Stops.mono {t : Stream} (hs : Stops t m p) (h : n ≤ m) : Stops t n p :=
  ⟨hs.starts, continues_mono h hs.stops⟩

lemma continues_op : continues n (.symbol op.symbol) = decide (op.priority ≤ n) := by
  cases op <;> rfl

lemma stops_op {t : Stream} (hk : (t.get p).kind = .symbol op.symbol)
    (h : n < op.priority) : Stops t n p := by
  constructor
  · rw [hk]
    rfl
  · rw [hk, continues_op]
    simpa using h

lemma stops_mark {t : Stream} {mark : Symbol} (hk : (t.get p).kind = .symbol mark)
    (h : mark = .colon ∨ mark = .rightParen) : Stops t n p := by
  rcases h with rfl | rfl <;> exact ⟨by rw [hk]; rfl, by rw [hk]; rfl⟩

lemma stops_question {t : Stream} (hk : (t.get p).kind = .symbol .question)
    (h : n < ternaryPriority) : Stops t n p := by
  refine ⟨by rw [hk]; rfl, ?_⟩
  rw [hk]
  simpa [continues] using h

end Gen

def BinaryOp.limit (leftToRight : Bool) (op : BinaryOp) : Nat :=
  if leftToRight then op.priority - 1 else op.priority

namespace Tree

def reach (leftToRight : Bool) : Tree → Nat
  | operand _ | group _ => 0
  | binary op _ _ => op.limit leftToRight
  | choice .. => ternaryPriority

def spine : Tree → Nat
  | operand _ | group _ => 0
  | binary _ l _ => l.spine + 1
  | choice condition _ _ => condition.spine + 1

lemma spine_lt (e : Tree) : e.spine < e.tokens.length := by
  induction e with
  | operand x => exact List.length_pos_iff.2 x.isOperand.ne_nil
  | binary op l r ihl _ =>
    rw [length_binary, spine]
    omega
  | choice x y z ihx _ _ =>
    rw [length_choice, spine]
    omega
  | group x _ =>
    rw [length_group, spine]
    omega

variable {leftToRight : Bool} {op : BinaryOp} {l r : Tree}

lemma reach_le_level (e : Tree) : e.reach leftToRight ≤ e.level := by
  cases e with
  | binary op l r =>
    simp only [reach, level, BinaryOp.limit]
    split <;> omega
  | _ => exact le_rfl

lemma WellGrouped.reach_lt (h : (binary op l r).WellGrouped leftToRight) :
    l.reach leftToRight < op.priority := by
  have hpos := op.priority_pos
  rcases h.2.2.1 with hlt | ⟨rfl, heq⟩
  · exact lt_of_le_of_lt l.reach_le_level hlt
  · cases l with
    | operand | group => exact hpos
    | binary op' =>
      simp only [reach, BinaryOp.limit, level] at heq ⊢
      simp
      omega
    | choice =>
      have := op.priority_lt
      simp only [level] at heq
      omega

lemma WellGrouped.level_le (h : (binary op l r).WellGrouped leftToRight) :
    r.level ≤ op.limit leftToRight := by
  have := h.2.2.2
  cases leftToRight <;> simp [BinaryOp.limit] at this ⊢ <;> omega

end Tree

namespace Gen

/-! ## Steps of the loop -/

variable {parts : Parts} {op : BinaryOp}

lemma runs_compileRightSide : Runs (compileRightSide parts op lhs) c s o s' ↔
    Runs atExpressionEnd c s false s ∧ Runs (rightSide (loadToAx parts) op lhs
      (parts (.upTo (op.limit c.options.leftToRight)))) c s o s' := by
  rw [compileRightSide_eq, runs_bind]
  constructor
  · rintro ⟨b, s, hend, hrun⟩
    obtain rfl := runs_atExpressionEnd hend
    cases b with
    | true => simp at hrun
    | false => simpa [hend, BinaryOp.limit] using hrun
  · rintro ⟨hend, hrun⟩
    exact ⟨false, s, hend, by simpa [BinaryOp.limit] using hrun⟩

lemma runs_compileTernary_arms (hk : (c.tokens.get s.pos).kind = .symbol .question)
    (hcolon : (c.tokens.get (s.pos + 1)).kind ≠ .symbol .colon) :
    Runs (compileTernary parts lhs) c s o s' ↔
      Runs atExpressionEnd c { s with pos := s.pos + 1 } false { s with pos := s.pos + 1 } ∧
        Runs (arms (loadToAx parts) lhs (parts arm) (parts arm)) c { s with pos := s.pos + 1 } o
          s' := by
  have hnext : c.tokens.after s.pos = s.pos + 1 := Alignment.after_of_symbol hk
  rw [compileTernary_eq]
  simp only [runs_bind, runs_advance, hnext]
  constructor
  · rintro ⟨_, _, ⟨rfl, rfl⟩, b, _, heat, hrun⟩
    rcases runs_eat.1 heat with ⟨hk, _⟩ | ⟨_, rfl, rfl⟩
    · exact absurd hk hcolon
    · obtain ⟨b, t, hend, hrun⟩ := runs_bind.1 hrun
      obtain rfl := runs_atExpressionEnd hend
      cases b with
      | true => simp at hrun
      | false => exact ⟨hend, by simpa using hrun⟩
  · rintro ⟨hend, hrun⟩
    refine ⟨_, _, ⟨rfl, rfl⟩, false, _, runs_eat.2 (.inr ⟨hcolon, rfl, rfl⟩), ?_⟩
    exact runs_bind.2 ⟨false, _, hend, by simpa using hrun⟩

lemma runs_compileChain_end (hdot : (c.tokens.get s.pos).kind ≠ .symbol .dot)
    (hbracket : (c.tokens.get s.pos).kind ≠ .symbol .leftBracket) :
    Runs (compileChain parts o1) c s o s' ↔ s' = s ∧ o = o1 := by
  simp [compileChain, rounds, roundsWithin, hdot, hbracket]

lemma runs_peek_bind {α : Type} {f : Token → Gen α} {a : α} :
    Runs (peek >>= f) c s a s' ↔ Runs (f (c.tokens.get s.pos)) c s a s' := by
  simp [and_assoc]

lemma runs_compilePrefixed_group (hk : (c.tokens.get s.pos).kind = .symbol .leftParen) :
    Runs (compilePrefixed parts) c s o s' ↔ ∃ o1 t,
      Runs (parts (.upTo ternaryPriority)) c { s with pos := s.pos + 1 } o1 t ∧
      (c.tokens.get t.pos).kind = .symbol .rightParen ∧
      Runs (compileChain parts o1) c { t with pos := t.pos + 1 } o s' := by
  have hnext : c.tokens.after s.pos = s.pos + 1 := Alignment.after_of_symbol hk
  have hoperand : Runs (compilePrefixed parts) c s o s' ↔ Runs (compileOperand parts) c s o s' := by
    rw [compilePrefixed, runs_peek_bind]
    simp only [hk]
    rfl
  rw [hoperand, compileOperand, runs_peek_bind]
  simp only [hk, runs_bind, runs_advance, hnext, Parts.whole, runs_expect]
  constructor
  · rintro ⟨_, _, ⟨rfl, rfl⟩, o1, t, hrun, _, _, ⟨hclose, rfl⟩, hchain⟩
    exact ⟨o1, t, hrun, hclose, Alignment.after_of_symbol hclose ▸ hchain⟩
  · rintro ⟨o1, t, hrun, hclose, hchain⟩
    exact ⟨_, _, ⟨rfl, rfl⟩, o1, t, hrun, (), _, ⟨hclose, rfl⟩,
      Alignment.after_of_symbol hclose ▸ hchain⟩

lemma runs_roundsWithin_end (h : Runs (roundsWithin (compileOperator parts n) m o1) c s o s')
    (hend : continues n (c.tokens.get s.pos).kind = false) : o = o1 ∧ s' = s := by
  cases m with
  | zero => exact absurd h runs_fail
  | succ m =>
    obtain ⟨round, t, hround, h⟩ := runs_bind.1 h
    cases round with
    | done o2 =>
      obtain ⟨rfl, rfl⟩ := runs_pure.1 h
      obtain ⟨rfl, rfl, _⟩ := runs_compileOperator_done.1 hround
      exact ⟨rfl, rfl⟩
    | again o2 =>
      rcases runs_compileOperator_again.1 hround with ⟨hk, hle, _⟩ | ⟨mark, op, hk, hop, hle, _⟩
      · simp [hk, continues] at hend
        omega
      · rw [hk] at hend
        unfold continues at hend
        split at hend
        · next heq =>
          cases heq
          simp [BinaryOp.ofSymbol?] at hop
        · next heq =>
          cases heq
          simp [hop] at hend
          omega
        · next hother => exact absurd rfl (hother mark)

lemma runs_roundsWithin_op (hk : (c.tokens.get s.pos).kind = .symbol op.symbol)
    (hle : op.priority ≤ n) :
    Runs (roundsWithin (compileOperator parts n) (m + 1) lhs) c s o s' ↔ ∃ o1 t,
      Runs (compileRightSide parts op lhs) c { s with pos := s.pos + 1 } o1 t ∧
        Runs (roundsWithin (compileOperator parts n) m o1) c t o s' := by
  have hnext : c.tokens.after s.pos = s.pos + 1 := Alignment.after_of_symbol hk
  rw [roundsWithin, runs_bind]
  constructor
  · rintro ⟨round, t, hround, h⟩
    cases round with
    | done o2 =>
      obtain ⟨_, _, hend⟩ := runs_compileOperator_done.1 hround
      simp [hk, continues_op] at hend
      omega
    | again o1 =>
      rcases runs_compileOperator_again.1 hround with ⟨hk', _⟩ | ⟨mark, op', hk', hop, _, hrun⟩
      · rw [hk] at hk'
        cases op <;> simp [BinaryOp.symbol] at hk'
      · rw [hk] at hk'
        cases hk'
        obtain rfl : op = op' := by simpa using hop
        exact ⟨o1, t, hnext ▸ hrun, h⟩
  · rintro ⟨o1, t, hrun, h⟩
    exact ⟨.again o1, t, runs_compileOperator_again.2 (.inr ⟨_, op, hk, op.ofSymbol?_symbol, hle,
      hnext ▸ hrun⟩), h⟩

lemma runs_roundsWithin_question (hk : (c.tokens.get s.pos).kind = .symbol .question)
    (hle : ternaryPriority ≤ n) :
    Runs (roundsWithin (compileOperator parts n) (m + 1) lhs) c s o s' ↔ ∃ o1 t,
      Runs (compileTernary parts lhs) c s o1 t ∧
        Runs (roundsWithin (compileOperator parts n) m o1) c t o s' := by
  rw [roundsWithin, runs_bind]
  constructor
  · rintro ⟨round, t, hround, h⟩
    cases round with
    | done o2 =>
      obtain ⟨_, _, hend⟩ := runs_compileOperator_done.1 hround
      simp [hk, continues] at hend
      omega
    | again o1 =>
      rcases runs_compileOperator_again.1 hround with ⟨_, _, hrun⟩ | ⟨mark, op', hk', hop, _⟩
      · exact ⟨o1, t, hrun, h⟩
      · rw [hk] at hk'
        cases hk'
        simp [BinaryOp.ofSymbol?] at hop
  · rintro ⟨o1, t, hrun, h⟩
    exact ⟨.again o1, t, runs_compileOperator_again.2 (.inl ⟨hk, hle, hrun⟩), h⟩

end Gen
end AdventureScript
