import AdventureScript.Proofs.Grouping.Loop

/-!
What the loop over operators compiles is the expression as it is grouped, and the other way around.
-/
namespace AdventureScript.Gen

variable {c : Context} {base s s' t : State} {n m p start : Nat} {o o1 first : Operand} {e : Tree}

def Stuck (t : Stream) (lo hi p : Nat) : Prop :=
  lo ≤ p ∧ p < hi ∧ (t.get p).kind = .symbol .leftParen

lemma Stuck.mono {t : Stream} {lo hi lo' hi' : Nat} (h : Stuck t lo hi p) (hlo : lo' ≤ lo)
    (hhi : hi ≤ hi') : Stuck t lo' hi' p :=
  ⟨le_trans hlo h.1, lt_of_lt_of_le h.2.1 hhi, h.2.2⟩

lemma Stuck.continues {t : Stream} {lo hi : Nat} (h : Stuck t lo hi p) :
    continues n (t.get p).kind = false := by
  rw [h.2.2]
  rfl

structure Delimited (c : Context) (p : Nat) (e : Tree) : Prop where
  placed : Placed c.tokens p e
  grouped : e.WellGrouped c.options.leftToRight
  stops : Stops c.tokens (e.reach c.options.leftToRight) (p + e.tokens.length)

section

variable {op : BinaryOp} {l r x y z : Tree}

lemma Delimited.left (h : Delimited c p (.binary op l r)) : Delimited c p l :=
  ⟨h.placed.left, h.grouped.1, stops_op h.placed.kind_op h.grouped.reach_lt⟩

lemma Delimited.left_level (h : Delimited c p (.binary op l r))
    (hn : (Tree.binary op l r).level ≤ n) : l.level ≤ n := by
  have := h.grouped.2.2.1
  simp only [Tree.level] at hn
  omega

lemma Delimited.stops_right (h : Delimited c p (.binary op l r)) :
    Stops c.tokens (op.limit c.options.leftToRight)
      (p + l.tokens.length + 1 + r.tokens.length) := by
  have := h.stops
  rw [Tree.length_binary] at this
  simpa [Tree.reach, Nat.add_assoc] using this

lemma Delimited.right (h : Delimited c p (.binary op l r)) :
    Delimited c (p + l.tokens.length + 1) r :=
  ⟨h.placed.right, h.grouped.2.1,
    h.stops_right.mono (le_trans r.reach_le_level h.grouped.level_le)⟩

section

variable (h : Delimited c p (.choice x y z))
include h

lemma Delimited.condition : Delimited c p x :=
  ⟨h.placed.condition, h.grouped.1, stops_question h.placed.kind_question
    (lt_of_le_of_lt x.reach_le_level h.grouped.2.2.2)⟩

lemma Delimited.condition_level (hn : (Tree.choice x y z).level ≤ n) : x.level ≤ n :=
  le_trans (le_of_lt h.grouped.2.2.2) hn

lemma Delimited.second : Delimited c (p + x.tokens.length + 1) y :=
  ⟨h.placed.second, h.grouped.2.1, stops_mark h.placed.kind_colon (.inl rfl)⟩

lemma Delimited.stops_third : Stops c.tokens ternaryPriority
    (p + x.tokens.length + 1 + y.tokens.length + 1 + z.tokens.length) := by
  have := h.stops
  rw [Tree.length_choice] at this
  simpa [Tree.reach, Nat.add_assoc] using this

lemma Delimited.third : Delimited c (p + x.tokens.length + 1 + y.tokens.length + 1) z :=
  ⟨h.placed.third, h.grouped.2.2.1,
    h.stops_third.mono (le_trans z.reach_le_level z.level_le)⟩

end

lemma Delimited.inner (h : Delimited c p (.group x)) : Delimited c (p + 1) x :=
  ⟨h.placed.inner, h.grouped, stops_mark h.placed.kind_close (.inr rfl)⟩

end

lemma runs_eval_end (hs : c.tokens.Sealed) (hp : Placed c.tokens p e) (hstart : start ≤ p)
    (hb : Stays base s) (hpos : s.pos = p) (h : Runs (e.eval c start p) c s o s') :
    Stays base s' ∧ s'.pos = p + e.tokens.length := by
  obtain ⟨_, _, _, hst⟩ := (agree_eval (k := ⟨c, c, base, False, False, 0, 0, False⟩) (.refl e) rfl hs
    hs hp hp hstart).run (alike_self hb hpos) h
  exact ⟨hst.left, hst.pos.2.1⟩

/-! ## From the loop to the tree -/

/-- The loop that goes over an expression compiles it as it is grouped and goes on behind it, unless
it ends within it. -/
def Walks (c : Context) (e : Tree) : Prop :=
  ∀ {n start p m s s1 s' first o}, Delimited c p e → e.level ≤ n → start ≤ p → s.pos = p →
    Runs (compilePrefixed (partsFrom c start)) c s first s1 →
    Runs (roundsWithin (compileOperator (partsFrom c start) n) m first) c s1 o s' →
    (∃ o1 t m', Runs (e.eval c start p) c s o1 t ∧
      Runs (roundsWithin (compileOperator (partsFrom c start) n) m' o1) c t o s') ∨
    Stuck c.tokens p (p + e.tokens.length) s'.pos

lemma Walks.whole (h : Walks c e) (hs : c.tokens.Sealed) (he : Delimited c p e)
    (hlevel : e.level ≤ n) (hend : Stops c.tokens n (p + e.tokens.length)) (hstart : start ≤ p)
    (hpos : s.pos = p) (hrun : Runs (compileOperators (partsFrom c start) n) c s o s') :
    Runs (e.eval c start p) c s o s' ∨ Stuck c.tokens p (p + e.tokens.length) s'.pos := by
  simp only [compileOperators, rounds, runs_bind, runs_tokenCount] at hrun
  obtain ⟨first, s1, h1, result, s2, ⟨_, _, ⟨rfl, rfl⟩, h2⟩, h3⟩ := hrun
  obtain ⟨rfl, rfl⟩ : s' = s2 ∧ o = result := by
    simp [and_assoc] at h3
    exact h3.2
  refine (h he hlevel hstart hpos h1 h2).imp_left ?_
  rintro ⟨o1, t, m', heval, hrest⟩
  obtain ⟨_, ht⟩ := runs_eval_end hs he.placed hstart .refl hpos heval
  obtain ⟨rfl, rfl⟩ := runs_roundsWithin_end hrest (ht ▸ hend.stops)
  exact heval

lemma Walks.part (h : Walks c e) (hs : c.tokens.Sealed) (he : Delimited c p e)
    (hlevel : e.level ≤ n) (hend : Stops c.tokens n (p + e.tokens.length)) (hpos : s.pos = p)
    (hrun : Runs (partsFrom c start (.upTo n)) c s o s') :
    Runs (e.eval c p p) c s o s' ∨ Stuck c.tokens p (p + e.tokens.length) s'.pos := by
  subst hpos
  exact h.whole hs he hlevel hend le_rfl rfl (runs_partsFrom.1 hrun).2.2

lemma walks_behind {x : Gen Operand} {f : Operand → Gen Operand} {mark : Symbol} {q : Nat}
    {o2 : Operand} {t2 : State} (hx : Runs x c s o1 t)
    (hk : (c.tokens.get t.pos).kind = .symbol mark)
    (h : Runs (f o1) c { t with pos := t.pos + 1 } o2 t2 ∨ Stuck c.tokens p q t2.pos)
    (hrest : Runs (roundsWithin (compileOperator (partsFrom c start) n) m o2) c t2 o s') :
    (∃ o2 t2 m, Runs (do let lhs ← x; let _ ← advance; f lhs) c s o2 t2 ∧
      Runs (roundsWithin (compileOperator (partsFrom c start) n) m o2) c t2 o s') ∨
    Stuck c.tokens p q s'.pos := by
  rcases h with h | hstuck
  · refine .inl ⟨o2, t2, m, runs_bind.2 ⟨o1, t, hx, runs_bind.2 ⟨_, _, runs_advance.2 ⟨rfl, rfl⟩,
      ?_⟩⟩, hrest⟩
    rw [Alignment.after_of_symbol hk]
    exact h
  · obtain ⟨_, rfl⟩ := runs_roundsWithin_end hrest hstuck.continues
    exact .inr hstuck

lemma exists_round {a : Operand} {step : Operand → Gen (Round Operand Operand)}
    (h : Runs (roundsWithin step m a) c s o s') : ∃ k, m = k + 1 := by
  cases m with
  | zero => exact absurd h runs_fail
  | succ k => exact ⟨k, rfl⟩

lemma walks (hs : c.tokens.Sealed) (e : Tree) : Walks c e := by
  induction e with
  | operand x =>
    intro n start p m s s1 s' first o he hlevel hstart hpos h1 h2
    have hcopy : Copy ⟨c, c, s, False, False, 0, 0, False⟩ p p x.tokens := ⟨rfl, hs, hs, he.placed.reads,
      he.placed.reads, x.isOperand.balanced.kind_ne, x.isOperand.ne_nil⟩
    obtain ⟨_, t, _, hst⟩ := (hcopy.agree_compilePrefixed he.placed.ends he.placed.ends x.isOperand
      hstart).run (alike_self .refl hpos) h1
    obtain ⟨_, ⟨j, hj, hs1, _⟩, hend⟩ := hst.pos
    by_cases hdone : s1.pos = p + x.tokens.length
    · refine .inl ⟨first, s1, m, ?_, h2⟩
      simp [Tree.eval, ending, hdone, h1, and_assoc]
    · have hstuck : Stuck c.tokens p (p + x.tokens.length) s1.pos :=
        ⟨by omega, by omega, hend.resolve_left hdone⟩
      obtain ⟨_, rfl⟩ := runs_roundsWithin_end h2 hstuck.continues
      exact .inr hstuck
  | group x ih =>
    intro n start p m s s1 s' first o he hlevel hstart hpos h1 h2
    subst hpos
    obtain ⟨o1, t, hinner, hclose, hchain⟩ := (runs_compilePrefixed_group he.placed.kind_open).1 h1
    rcases ih.part hs he.inner x.level_le (stops_mark he.placed.kind_close (.inr rfl)) rfl
      hinner with heval | hstuck
    · obtain ⟨_, ht⟩ := runs_eval_end hs he.placed.inner le_rfl .refl rfl heval
      have hends := he.placed.ends
      have hpos : s.pos + (x.tokens.length + 2) = t.pos + 1 := by
        omega
      rw [Tree.length_group, hpos] at hends
      obtain ⟨rfl, rfl⟩ :=
        (runs_compileChain_end (hends _ (.inl rfl)) (hends _ (.inr (.inl rfl)))).1 hchain
      refine .inl ⟨first, _, m, runs_bind.2 ⟨_, _, runs_advance.2 ⟨rfl, rfl⟩, ?_⟩, h2⟩
      rw [Alignment.after_of_symbol he.placed.kind_open]
      exact runs_bind.2 ⟨_, _, heval, runs_bind.2 ⟨(), _, runs_expect.2 ⟨hclose, by
        rw [Alignment.after_of_symbol hclose]⟩, runs_pure.2 ⟨rfl, rfl⟩⟩⟩
    · exact absurd (hstuck.2.2.symm.trans hclose) (by simp)
  | binary op l r ihl ihr =>
    intro n start p m s s1 s' first o he hlevel hstart hpos h1 h2
    have hlength := @Tree.length_binary op l r
    rcases ihl he.left (he.left_level hlevel) hstart hpos h1 h2 with ⟨o1, t, m', heval, hrest⟩ | hstuck
    · obtain ⟨hstay, ht⟩ := runs_eval_end hs he.placed.left hstart .refl hpos heval
      obtain ⟨m', rfl⟩ := exists_round hrest
      have hk : (c.tokens.get t.pos).kind = .symbol op.symbol := ht ▸ he.placed.kind_op
      obtain ⟨o2, t2, hright, hrest⟩ := (runs_roundsWithin_op hk hlevel).1 hrest
      have hsettled := settles_rightSide (q := p + l.tokens.length + 1)
        (s := { t with pos := t.pos + 1 })
        (X := Stuck c.tokens p (p + (l.tokens.length + 1 + r.tokens.length))) steady_upTo
        (fun _ hq hrun =>
          (ihr.part hs he.right he.grouped.level_le he.stops_right hq hrun).imp_right fun h =>
            h.mono (by omega) (by omega))
        (hstay.trans ⟨rfl, rfl, rfl⟩) (congrArg (· + 1) ht) (runs_compileRightSide.1 hright).2
      rw [hlength]
      exact walks_behind heval hk hsettled hrest
    · exact .inr (hstuck.mono le_rfl (by omega))
  | choice x y z ihx ihy ihz =>
    intro n start p m s s1 s' first o he hlevel hstart hpos h1 h2
    have hlength := @Tree.length_choice x y z
    rcases ihx he.condition (he.condition_level hlevel) hstart hpos h1 h2 with ⟨o1, t, m', heval, hrest⟩ | hstuck
    · obtain ⟨hstay, ht⟩ := runs_eval_end hs he.placed.condition hstart .refl hpos heval
      obtain ⟨m', rfl⟩ := exists_round hrest
      have hk : (c.tokens.get t.pos).kind = .symbol .question := ht ▸ he.placed.kind_question
      obtain ⟨o2, t2, hternary, hrest⟩ := (runs_roundsWithin_question hk hlevel).1 hrest
      have hsecond : Placed c.tokens (t.pos + 1) y := ht ▸ he.placed.second
      have hcolon := (Placed.runs_atExpressionEnd (s := { t with pos := t.pos + 1 }) hsecond).2
      have hsettled := settles_arms (q := p + x.tokens.length + 1)
        (s := { t with pos := t.pos + 1 })
        (X := Stuck c.tokens p (p + (x.tokens.length + 1 + y.tokens.length + 1 + z.tokens.length)))
        steady_upTo
        (fun hb hq hrun => (ihy.part hs he.second y.level_le
          (stops_mark he.placed.kind_colon (.inl rfl)) hq hrun).imp
          (fun h => ⟨h, (runs_eval_end hs he.placed.second le_rfl hb hq h).2⟩)
          fun h => h.2.2)
        he.placed.kind_colon he.placed.third steady_upTo
        (fun _ hq hrun => (ihz.part hs he.third z.level_le he.stops_third hq
          hrun).imp_right fun h => h.mono (by omega) (by omega))
        (hstay.trans ⟨rfl, rfl, rfl⟩) (congrArg (· + 1) ht)
        ((runs_compileTernary_arms hk hcolon).1 hternary).2
      rw [hlength]
      exact walks_behind heval hk hsettled hrest
    · exact .inr (hstuck.mono le_rfl (by omega))

/-! ## From the tree to the loop -/

lemma runs_roundsWithin_mono {σ α : Type} {step : σ → Gen (Round σ α)} {a : σ} {r : α}
    (h : Runs (roundsWithin step m a) c s r s') (hle : m ≤ n) :
    Runs (roundsWithin step n a) c s r s' := by
  induction m generalizing n a s with
  | zero => exact absurd h runs_fail
  | succ m ih =>
    obtain ⟨n, rfl⟩ := Nat.exists_eq_add_one_of_ne_zero (Nat.ne_zero_of_lt hle)
    obtain ⟨round, t, hround, h⟩ := runs_bind.1 h
    refine runs_bind.2 ⟨round, t, hround, ?_⟩
    cases round with
    | again b => exact ih h (Nat.le_of_succ_le_succ hle)
    | done r => exact h

lemma Placed.le_size (h : Placed c.tokens p e) (hs : c.tokens.Sealed) :
    p + e.tokens.length < c.tokens.size := by
  have hlt := e.spine_lt
  have hj : e.tokens.length - 1 < e.tokens.length := by omega
  have hne := e.kind_ne _ (List.getElem_mem hj)
  rw [← (h.reads.get hj).kind] at hne
  have := hs.lt_size hne
  simp only [Stream.size]
  omega

/-- Wherever an expression is compiled as it is grouped, so does the loop that goes over it. -/
def Follows (c : Context) (e : Tree) : Prop :=
  ∀ {n start p m s t s' o1 o}, Delimited c p e → e.level ≤ n → start ≤ p → s.pos = p →
    Runs (e.eval c start p) c s o1 t →
    Runs (roundsWithin (compileOperator (partsFrom c start) n) m o1) c t o s' →
    ∃ first s1, Runs (compilePrefixed (partsFrom c start)) c s first s1 ∧
      Runs (roundsWithin (compileOperator (partsFrom c start) n) (m + e.spine) first) c s1 o s'

lemma Follows.whole (h : Follows c e) (hs : c.tokens.Sealed) (he : Delimited c p e)
    (hlevel : e.level ≤ n) (hend : Stops c.tokens n (p + e.tokens.length)) (hstart : start ≤ p)
    (hpos : s.pos = p) (heval : Runs (e.eval c start p) c s o s') :
    Runs (compileOperators (partsFrom c start) n) c s o s' := by
  obtain ⟨_, hs'⟩ := runs_eval_end hs he.placed hstart .refl hpos heval
  rw [← hs'] at hend
  have hdone : Runs (roundsWithin (compileOperator (partsFrom c start) n) 1 o) c s' o s' :=
    runs_bind.2 ⟨.done o, s', runs_compileOperator_done.2 ⟨rfl, rfl, hend.stops⟩,
      runs_pure.2 ⟨rfl, rfl⟩⟩
  obtain ⟨first, s1, h1, h2⟩ := h he hlevel hstart hpos heval hdone
  have hrounds := runs_roundsWithin_mono h2 (n := c.tokens.size + 1) (by
    have := e.spine_lt
    have := he.placed.le_size hs
    omega)
  refine runs_bind.2 ⟨first, s1, h1, runs_bind.2 ⟨o, s', runs_bind.2 ⟨_, _,
    runs_tokenCount.2 ⟨rfl, rfl⟩, hrounds⟩, ?_⟩⟩
  simp [hend.starts]

lemma Follows.part (h : Follows c e) (hs : c.tokens.Sealed) (he : Delimited c p e)
    (hlevel : e.level ≤ n) (hend : Stops c.tokens n (p + e.tokens.length)) (hlt : start < p)
    (hpos : s.pos = p) (heval : Runs (e.eval c p p) c s o s') :
    Runs (partsFrom c start (.upTo n)) c s o s' := by
  subst hpos
  have := he.placed.le_size hs
  exact runs_partsFrom.2 ⟨hlt, by omega, h.whole hs he hlevel hend le_rfl rfl heval⟩

lemma follows (hs : c.tokens.Sealed) (e : Tree) : Follows c e := by
  induction e with
  | operand x =>
    intro n start p m s t s' o1 o he hlevel hstart hpos heval hrest
    obtain ⟨first, s1, hfirst, hending⟩ := runs_bind.1 heval
    obtain ⟨rfl, rfl⟩ : t = s1 ∧ o1 = first := by
      simp [and_assoc] at hending
      exact hending.2
    exact ⟨o1, t, hfirst, hrest⟩
  | group x ih =>
    intro n start p m s t s' o1 o he hlevel hstart hpos heval hrest
    subst hpos
    obtain ⟨_, _, hopen, heval⟩ := runs_bind.1 heval
    obtain ⟨rfl, rfl⟩ := runs_advance.1 hopen
    rw [Alignment.after_of_symbol he.placed.kind_open] at heval
    obtain ⟨o2, t2, hinside, hclosing⟩ := runs_bind.1 heval
    obtain ⟨_, _, hexpect, hdone⟩ := runs_bind.1 hclosing
    obtain ⟨rfl, rfl⟩ := runs_pure.1 hdone
    obtain ⟨hclose, rfl⟩ := runs_expect.1 hexpect
    have hinner := ih.part hs he.inner x.level_le (stops_mark he.placed.kind_close (.inr rfl))
      (Nat.lt_succ_of_le hstart) rfl hinside
    obtain ⟨_, ht⟩ := runs_eval_end hs he.placed.inner le_rfl .refl rfl hinside
    have hends := he.placed.ends
    have hpos : s.pos + (x.tokens.length + 2) = t2.pos + 1 := by
      omega
    rw [Tree.length_group, hpos] at hends
    rw [Alignment.after_of_symbol hclose] at hrest
    exact ⟨o1, _, (runs_compilePrefixed_group he.placed.kind_open).2 ⟨o1, t2, hinner, hclose,
      (runs_compileChain_end (hends _ (.inl rfl)) (hends _ (.inr (.inl rfl)))).2 ⟨rfl, rfl⟩⟩, hrest⟩
  | binary op l r ihl ihr =>
    intro n start p m s t s' o1 o he hlevel hstart hpos heval hrest
    obtain ⟨lhs, t1, hlhs, heval⟩ := runs_bind.1 heval
    obtain ⟨_, _, hadvance, heval⟩ := runs_bind.1 heval
    obtain ⟨rfl, rfl⟩ := runs_advance.1 hadvance
    obtain ⟨hstay, ht⟩ := runs_eval_end hs he.placed.left hstart .refl hpos hlhs
    have hk : (c.tokens.get t1.pos).kind = .symbol op.symbol := ht ▸ he.placed.kind_op
    rw [Alignment.after_of_symbol hk] at heval
    have hright : Placed c.tokens (t1.pos + 1) r := ht ▸ he.placed.right
    have hside := runs_rightSide_congr (q := p + l.tokens.length + 1)
      (s := { t1 with pos := t1.pos + 1 })
      (fun hb hq hrun => ⟨ihr.part hs he.right he.grouped.level_le he.stops_right
        (by omega : start < _) hq hrun,
        (runs_eval_end hs he.placed.right le_rfl hb hq hrun).1⟩)
      (hstay.trans ⟨rfl, rfl, rfl⟩) (congrArg (· + 1) ht) heval
    have hround := (runs_roundsWithin_op (m := m) hk hlevel).2 ⟨o1, t, runs_compileRightSide.2
      ⟨(Placed.runs_atExpressionEnd (s := { t1 with pos := t1.pos + 1 }) hright).1, hside⟩, hrest⟩
    obtain ⟨first, s1, hfirst, hrounds⟩ := ihl he.left (he.left_level hlevel) hstart hpos hlhs hround
    exact ⟨first, s1, hfirst, by rwa [Tree.spine, Nat.add_comm l.spine, ← Nat.add_assoc]⟩
  | choice x y z ihx ihy ihz =>
    intro n start p m s t s' o1 o he hlevel hstart hpos heval hrest
    obtain ⟨lhs, t1, hlhs, heval⟩ := runs_bind.1 heval
    obtain ⟨_, _, hadvance, heval⟩ := runs_bind.1 heval
    obtain ⟨rfl, rfl⟩ := runs_advance.1 hadvance
    obtain ⟨hstay, ht⟩ := runs_eval_end hs he.placed.condition hstart .refl hpos hlhs
    have hk : (c.tokens.get t1.pos).kind = .symbol .question := ht ▸ he.placed.kind_question
    rw [Alignment.after_of_symbol hk] at heval
    have hsecond : Placed c.tokens (t1.pos + 1) y := ht ▸ he.placed.second
    obtain ⟨hend, hcolon⟩ :=
      Placed.runs_atExpressionEnd (s := { t1 with pos := t1.pos + 1 }) hsecond
    have hside := runs_arms_congr (q := p + x.tokens.length + 1)
      (s := { t1 with pos := t1.pos + 1 })
      (fun hb hq hrun => ⟨ihy.part hs he.second y.level_le
        (stops_mark he.placed.kind_colon (.inl rfl)) (by omega : start < _) hq hrun,
        runs_eval_end hs he.placed.second le_rfl hb hq hrun⟩)
      he.placed.kind_colon he.placed.third
      (fun hb hq hrun => ⟨ihz.part hs he.third z.level_le he.stops_third
        (by omega : start < _) hq hrun,
        (runs_eval_end hs he.placed.third le_rfl hb hq hrun).1⟩)
      (hstay.trans ⟨rfl, rfl, rfl⟩) (congrArg (· + 1) ht) heval
    have hround := (runs_roundsWithin_question (m := m) hk hlevel).2 ⟨o1, t,
      (runs_compileTernary_arms hk hcolon).2 ⟨hend, hside⟩, hrest⟩
    obtain ⟨first, s1, hfirst, hrounds⟩ := ihx he.condition (he.condition_level hlevel) hstart hpos hlhs hround
    exact ⟨first, s1, hfirst, by rwa [Tree.spine, Nat.add_comm x.spine, ← Nat.add_assoc]⟩

end AdventureScript.Gen
