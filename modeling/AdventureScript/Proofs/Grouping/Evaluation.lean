import AdventureScript.Proofs.Grouping.Tree

/-!
Compiling a grouped expression node by node.
-/
namespace AdventureScript.Gen

variable {k : Pair} {P M : Nat → Nat → Prop} {o : Operand} {c : Context} {s : State} {t : Stream}
  {p : Nat}

section

variable {γ δ : Type} {W : γ → δ → Nat → Nat → Prop} {x : Gen γ} {y : Gen δ}

lemma Agree.advance_left (h : Agree k M W x y)
    (hmove : ∀ {p p'}, P p p' → M (k.c.tokens.after p) p') :
    Agree k P W (advance >>= fun _ => x) y := by
  refine ⟨fun {s t a s'} hst hrun => ?_⟩
  obtain ⟨_, _, hadvance, hrun⟩ := runs_bind.1 hrun
  obtain ⟨rfl, rfl⟩ := runs_advance.1 hadvance
  exact h.run (hst.moved (hmove hst.pos)) hrun

lemma Agree.advance_right (h : Agree k M W x y)
    (hmove : ∀ {p p'}, P p p' → M p (k.c'.tokens.after p')) :
    Agree k P W x (advance >>= fun _ => y) := by
  refine ⟨fun {s t a s'} hst hrun => ?_⟩
  obtain ⟨b, t', hrun', hst'⟩ := h.run (hst.moved (hmove hst.pos)) hrun
  exact ⟨b, t', runs_bind.2 ⟨_, _, runs_advance.2 ⟨rfl, rfl⟩, hrun'⟩, hst'⟩

variable {V : γ → δ → Prop} {mark : Symbol} {Q : Nat → Nat → Prop}

lemma Agree.expect_left (h : Agree k P (With V M) x y)
    (hmove : ∀ {p p'}, M p p' → Q (k.c.tokens.after p) p') :
    Agree k P (With V Q) (do let a ← x; expect mark; return a) y := by
  refine ⟨fun {s t a s'} hst hrun => ?_⟩
  obtain ⟨a, s1, hx, hrun⟩ := runs_bind.1 hrun
  obtain ⟨_, s2, hexpect, hrun⟩ := runs_bind.1 hrun
  obtain ⟨rfl, rfl⟩ := runs_pure.1 hrun
  obtain ⟨_, rfl⟩ := runs_expect.1 hexpect
  obtain ⟨b, t', hy, hst'⟩ := h.run hst hx
  exact ⟨b, t', hy, hst'.moved ⟨hst'.pos.1, hmove hst'.pos.2⟩⟩

lemma Agree.expect_right (h : Agree k P (With V M) x y)
    (hmove : ∀ {p p'}, M p p' → (k.c'.tokens.get p').kind = .symbol mark ∧
      Q p (k.c'.tokens.after p')) :
    Agree k P (With V Q) x (do let b ← y; expect mark; return b) := by
  refine ⟨fun {s t a s'} hst hrun => ?_⟩
  obtain ⟨b, t', hy, hst'⟩ := h.run hst hrun
  obtain ⟨hk, hQ⟩ := hmove hst'.pos.2
  exact ⟨b, _, runs_bind.2 ⟨b, t', hy, runs_bind.2 ⟨(), _, runs_expect.2 ⟨hk, rfl⟩,
    runs_pure.2 ⟨rfl, rfl⟩⟩⟩, hst'.moved ⟨hst'.pos.1, hQ⟩⟩

end

/-! ## Places of trees -/

structure Placed (t : Stream) (p : Nat) (e : Tree) : Prop where
  reads : Reads t p e.tokens
  ends : NoSuffix t (p + e.tokens.length)

lemma noSuffix_of_kind {kind : Token.Kind} (h : (t.get p).kind = kind)
    (hk : ∀ mark, mark = .dot ∨ mark = .leftBracket ∨ mark = .leftParen → kind ≠ .symbol mark) :
    NoSuffix t p :=
  fun mark hmark => h ▸ hk mark hmark

section

variable {op : BinaryOp} {l r x y z : Tree}

lemma Placed.kind_op (h : Placed t p (.binary op l r)) :
    (t.get (p + l.tokens.length)).kind = .symbol op.symbol := by
  have := h.reads
  simp only [Tree.tokens, reads_append, Reads] at this
  exact this.2.1.kind

lemma Placed.left (h : Placed t p (.binary op l r)) : Placed t p l := by
  have := h.reads
  simp only [Tree.tokens, reads_append, Reads] at this
  exact ⟨this.1, noSuffix_of_kind h.kind_op (by cases op <;> simp [BinaryOp.symbol])⟩

lemma Placed.right (h : Placed t p (.binary op l r)) : Placed t (p + l.tokens.length + 1) r := by
  have hreads := h.reads
  have hends := h.ends
  simp only [Tree.tokens, reads_append, Reads, List.length_append, List.length_cons] at hreads hends
  exact ⟨hreads.2.2, by simpa [Nat.add_assoc, Nat.add_comm 1] using hends⟩

section

variable (h : Placed t p (.choice x y z))
include h

lemma Placed.kind_question : (t.get (p + x.tokens.length)).kind = .symbol .question := by
  have := h.reads
  simp only [Tree.tokens, reads_append, Reads] at this
  exact this.2.1.kind

lemma Placed.condition : Placed t p x := by
  have := h.reads
  simp only [Tree.tokens, reads_append, Reads] at this
  exact ⟨this.1, noSuffix_of_kind h.kind_question (by simp)⟩

lemma Placed.kind_colon :
    (t.get (p + x.tokens.length + 1 + y.tokens.length)).kind = .symbol .colon := by
  have := h.reads
  simp only [Tree.tokens, reads_append, Reads] at this
  exact this.2.2.2.1.kind

lemma Placed.second : Placed t (p + x.tokens.length + 1) y := by
  have := h.reads
  simp only [Tree.tokens, reads_append, Reads] at this
  exact ⟨this.2.2.1, noSuffix_of_kind h.kind_colon (by simp)⟩

lemma Placed.third : Placed t (p + x.tokens.length + 1 + y.tokens.length + 1) z := by
  have hreads := h.reads
  have hends := h.ends
  simp only [Tree.tokens, reads_append, Reads, List.length_append, List.length_cons] at hreads hends
  refine ⟨hreads.2.2.2.2, ?_⟩
  simpa [Nat.add_assoc, Nat.add_comm, Nat.add_left_comm] using hends

end

lemma Placed.kind_open (h : Placed t p (.group x)) :
    (t.get p).kind = .symbol .leftParen := by
  have := h.reads
  exact this.1.kind

lemma Placed.kind_close (h : Placed t p (.group x)) :
    (t.get (p + 1 + x.tokens.length)).kind = .symbol .rightParen := by
  have := h.reads
  simp only [Tree.tokens, reads_append, Reads] at this
  exact this.2.2.1.kind

lemma Placed.inner (h : Placed t p (.group x)) : Placed t (p + 1) x := by
  have := h.reads
  simp only [Tree.tokens, reads_append, Reads] at this
  exact ⟨this.2.1, noSuffix_of_kind h.kind_close (by simp)⟩

end

lemma not_closing_of_sign {mark : Symbol} (h : (UnaryOp.ofSymbol? mark).isSome = true) :
    mark ≠ .colon ∧ mark.isAssignment = false ∧ mark.isCloser = false ∧ mark ≠ .semicolon ∧
      mark ≠ .comma := by
  revert h
  cases mark <;> decide

lemma Placed.runs_atExpressionEnd {e : Tree} (h : Placed c.tokens s.pos e) :
    Runs atExpressionEnd c s false s ∧ (c.tokens.get s.pos).kind ≠ .symbol .colon := by
  have hend {kind : Token.Kind} (hk : (c.tokens.get s.pos).kind = kind)
      (hkind : kind ≠ .symbol .colon ∧ kind.isAssignment = false ∧ kind.isCloser = false ∧
        kind ≠ .symbol .semicolon ∧ kind ≠ .symbol .comma ∧ kind ≠ .endOfInput) :
      Runs atExpressionEnd c s false s ∧ (c.tokens.get s.pos).kind ≠ .symbol .colon := by
    simp only [atExpressionEnd, runs_bind, runs_peek, runs_pure]
    all_goals simp_all
  induction e with
  | operand x =>
    obtain ⟨a, ts, hts⟩ := x.isOperand.exists_cons
    have hread := h.reads
    have hop := x.isOperand
    simp only [Tree.tokens, hts, Reads] at hread hop
    refine hend hread.1.kind ?_
    rcases hop.cases_head with ⟨_, ha | ha⟩ | ⟨ha | ha, _⟩ | ⟨ha, _⟩ | ⟨mark, ha, hsign, _⟩
    · cases hk : a.kind <;> simp_all [Token.Kind.isLiteral, Token.Kind.isAssignment,
        Token.Kind.isCloser]
    · simp [ha, Token.Kind.isAssignment, Token.Kind.isCloser]
    · simp [ha, Token.Kind.isAssignment, Token.Kind.isCloser]
    · simp [ha, Token.Kind.isAssignment, Token.Kind.isCloser]
    · simp [ha, Token.Kind.isAssignment, Token.Kind.isCloser, Symbol.isAssignment, Symbol.isCloser]
    · obtain ⟨hcolon, hassignment, hcloser, hsemicolon, hcomma⟩ := not_closing_of_sign hsign
      simp [ha, Token.Kind.isAssignment, Token.Kind.isCloser, hcolon, hassignment, hcloser,
        hsemicolon, hcomma]
  | binary op l r ihl _ => exact ihl h.left
  | choice condition second third ihc _ _ => exact ihc h.condition
  | group inner _ =>
    exact hend h.kind_open (by simp [Token.Kind.isAssignment, Token.Kind.isCloser,
      Symbol.isAssignment, Symbol.isCloser])

/-! ## Evaluation -/

def ending (stop : Nat) (x : Gen Operand) : Gen Operand := do
  let o ← x
  if (← getPos) ≠ stop then fail .tooDeep
  return o

end Gen

/-- Compiles the expression that is written from the place `p` on, within one that starts at
`start`. -/
def Tree.eval (c : Context) : Tree → (start p : Nat) → Gen Operand
  | operand x, start, p =>
    Gen.ending (p + x.tokens.length) (Gen.compilePrefixed (Gen.partsFrom c start))
  | binary op l r, start, p => do
    let lhs ← l.eval c start p
    let _ ← Gen.advance
    let right := p + l.tokens.length + 1
    Gen.rightSide (Gen.loadToAx (Gen.partsFrom c start)) op lhs (r.eval c right right)
  | choice condition second third, start, p => do
    let o ← condition.eval c start p
    let _ ← Gen.advance
    let left := p + condition.tokens.length + 1
    let right := left + second.tokens.length + 1
    Gen.arms (Gen.loadToAx (Gen.partsFrom c start)) o (second.eval c left left)
      (third.eval c right right)
  | group inner, _, p => do
    let _ ← Gen.advance
    let o ← inner.eval c (p + 1) (p + 1)
    Gen.expect .rightParen
    return o

namespace Gen

def At (n n' : Nat) : Nat → Nat → Prop :=
  fun p p' => p = n ∧ p' = n'

def Shared (k : Pair) (start : Nat) (r r' : Stretch) : Prop :=
  ∃ lo lo' ts, ∃ h : Copy k lo lo' ts, start ≤ lo' ∧ h.alignment.Span r r'

variable {n n' : Nat}

lemma loadsAlike_shared {start start' : Nat} :
    LoadsAlike k (Shared k start') (partsFrom k.c start) (partsFrom k.c' start') := by
  rintro P r r' ⟨lo, lo', ts, h, hstart, hspan⟩
  exact (h.respects hstart).loads hspan

lemma Moved.mono {S S' : Stretch → Stretch → Prop} (h : Moved S o o')
    (hS : ∀ {r r'}, S r r' → S' r r') : Moved S' o o' := by
  obtain ⟨value', rfl, hvalue⟩ := h.exists_eq
  obtain ⟨value, ty, fault⟩ := o
  refine ⟨?_, rfl, rfl⟩
  cases hvalue with
  | const value => exact .const value
  | ax => exact .ax
  | this => exact .this
  | memory place => exact .memory place
  | «attribute» hindex =>
    cases hindex with
    | none => exact .attribute .none
    | some hr => exact .attribute (.some (hS hr))

lemma Moved.later (h : Moved (Shared k n') o o') (hle : n ≤ n') : Moved (Shared k n) o o' :=
  h.mono fun ⟨lo, lo', ts, h, hstart, hspan⟩ => ⟨lo, lo', ts, h, le_trans hle hstart, hspan⟩

lemma agree_advance_at {mark mark' : Symbol} (h : (k.c.tokens.get n).kind = .symbol mark)
    (h' : (k.c'.tokens.get n').kind = .symbol mark') :
    Agree k (At n n') (Any (At (n + 1) (n' + 1))) advance advance :=
  agree_advance fun {p p'} hp => by
    obtain ⟨rfl, rfl⟩ := hp
    exact ⟨Alignment.after_of_symbol h, Alignment.after_of_symbol h'⟩

lemma agree_expect_at {mark : Symbol} (h : (k.c.tokens.get n).kind = .symbol mark)
    (h' : (k.c'.tokens.get n').kind = .symbol mark) :
    Agree k (At n n') (Any (At (n + 1) (n' + 1))) (expect mark) (expect mark) := by
  refine agree_expect ?_ ?_
  · rintro p p' ⟨rfl, rfl⟩
    exact iff_of_true h' h
  · rintro p p' ⟨rfl, rfl⟩ _
    exact ⟨Alignment.after_of_symbol h, Alignment.after_of_symbol h'⟩

lemma agree_checkThirdArm_at {e' : Tree} (h' : Placed k.c'.tokens n' e') :
    Agree k (At n n') (Any (At n n')) checkThirdArm checkThirdArm := by
  refine ⟨fun {s t _ s'} hst hrun => ?_⟩
  obtain ⟨b, s, hend, hrun⟩ := runs_bind.1 hrun
  obtain rfl := Gen.runs_atExpressionEnd hend
  obtain rfl : s' = s := by
    cases b with
    | false => exact (runs_pure.1 hrun).1
    | true => exact absurd hrun runs_fail
  rw [← hst.pos.2] at h'
  exact ⟨(), t, runs_bind.2 ⟨false, t, h'.runs_atExpressionEnd.1, runs_pure.2 ⟨rfl, rfl⟩⟩,
    hst.mono fun hp => ⟨trivial, hp⟩⟩

lemma agree_eval {e e' : Tree} (h : Tree.Similar e e') (hoptions : k.c'.options = k.c.options)
    (hs : k.c.tokens.Sealed) (hs' : k.c'.tokens.Sealed) {start start' p p' : Nat}
    (hp : Placed k.c.tokens p e) (hp' : Placed k.c'.tokens p' e') (hstart : start' ≤ p') :
    Agree k (At p p')
      (With (Moved (Shared k start')) (At (p + e.tokens.length) (p' + e'.tokens.length)))
      (e.eval k.c start p) (e'.eval k.c' start' p') := by
  induction h generalizing start start' p p' with
  | operand x =>
    have hcopy : Copy k p p' x.tokens := ⟨hoptions, hs, hs', hp.reads, hp'.reads,
      x.isOperand.balanced.kind_ne, x.isOperand.ne_nil⟩
    refine (hcopy.agree_compilePrefixed hp.ends hp'.ends x.isOperand hstart).with fun o o' ho =>
      agree_getPos.bind fun q q' => .pull fun hq => ?_
    have hend : hcopy.alignment.shift (p + x.tokens.length) (p' + x.tokens.length) :=
      ⟨x.tokens.length, le_rfl, rfl, rfl⟩
    refine .ite_iff (not_congr (Alignment.eq_iff hq.1 hend)) (fun _ => .fail_bind) fun hne => ?_
    refine .pure fun hqq => ⟨ho.mono fun hr => ⟨p, p', _, hcopy, hstart, hr⟩, ?_⟩
    obtain ⟨rfl, rfl⟩ := hqq
    exact ⟨not_not.1 hne, (Alignment.eq_iff hq.1 hend).2 (not_not.1 hne)⟩
  | binary op _ _ ihl ihr =>
    refine (ihl hp.left hp'.left hstart).with fun lhs lhs' hlhs =>
      (agree_advance_at hp.kind_op hp'.kind_op).skip ?_
    refine (agree_rightSide (exchange_moved loadsAlike_shared) hlhs
      ((ihr hp.right hp'.right le_rfl).behind fun h => ⟨h.1.later (by omega), h.2⟩)).behind
      fun h => ⟨h.1, ?_⟩
    simpa [Tree.tokens, Nat.add_assoc, Nat.add_comm 1] using h.2
  | choice _ _ _ ihc ihs iht =>
    refine (ihc hp.condition hp'.condition hstart).with fun o o' ho =>
      (agree_advance_at hp.kind_question hp'.kind_question).skip ?_
    refine (agree_arms (exchange_moved loadsAlike_shared) ho
      ((ihs hp.second hp'.second le_rfl).behind fun h => ⟨h.1.later (by omega), h.2⟩)
      (agree_expect_at hp.kind_colon hp'.kind_colon) (agree_checkThirdArm_at hp'.third)
      ((iht hp.third hp'.third le_rfl).behind fun h => ⟨h.1.later (by omega), h.2⟩)).behind
      fun h => ⟨h.1, ?_⟩
    simpa [Tree.tokens, Nat.add_assoc, Nat.add_comm, Nat.add_left_comm] using h.2
  | left _ ih =>
    refine Agree.advance_left (M := At (p + 1) p') (Agree.expect_left
      ((ih hp.inner hp' hstart)) ?_) ?_
    · rintro q q' ⟨rfl, rfl⟩
      exact ⟨by rw [Alignment.after_of_symbol hp.kind_close]; simp [Tree.tokens]; omega, rfl⟩
    · rintro q q' ⟨rfl, rfl⟩
      exact ⟨Alignment.after_of_symbol hp.kind_open, rfl⟩
  | right _ ih =>
    refine Agree.advance_right (M := At p (p' + 1)) (Agree.expect_right
      ((ih hp hp'.inner le_rfl).behind fun h => ⟨h.1.later (by omega), h.2⟩) ?_) ?_
    · rintro q q' ⟨rfl, rfl⟩
      refine ⟨hp'.kind_close, rfl, ?_⟩
      rw [Alignment.after_of_symbol hp'.kind_close]
      simp [Tree.tokens]
      omega
    · rintro q q' ⟨rfl, rfl⟩
      exact ⟨rfl, Alignment.after_of_symbol hp'.kind_open⟩

end Gen
end AdventureScript
