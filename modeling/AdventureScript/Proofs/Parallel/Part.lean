import AdventureScript.Proofs.Expression.Basic
import AdventureScript.Proofs.Parallel.Operator

/-!
Parts of expressions compile alike wherever their tokens stand, however deep they are.
-/
namespace AdventureScript.Gen

variable {k : Pair} {A : Alignment k} {i : A.Index} {n depth depth' priority : Nat}
  {P : Nat → Nat → Prop} {parts parts' : Parts} {o o' lhs lhs' : Operand} {part : Part}
  {c : Context} {s s' : State} {W : Operand → Operand → Nat → Nat → Prop}

open AdventureScript.Gen.Alignment

/-! ## Operands with operators -/

section

variable (hr : A.Respects parts parts')
include hr

lemma agree_compileRightSide (hlhs : Moved A.Span lhs lhs')
    {op : BinaryOp} : Agree k (A.From i n) (With (Moved A.Span) (A.From i n))
      (compileRightSide parts op lhs) (compileRightSide parts' op lhs') := by
  exact (agree_atExpressionEnd copied_from).then <| .unless <| (agree_getOptions A.options).then <|
      agree_rightSide (exchange_moved hr.loads) hlhs hr.upTo

lemma agree_compileShort (ho : Moved A.Span o o') :
    Agree k (A.From i n) (With (Moved A.Span) (A.From i n)) (compileShort parts o)
      (compileShort parts' o') := by
  have hx := exchange_moved hr.loads
  have harm : Agree k (A.From i n) (With (Moved A.Span) (A.From i n)) (parts arm) (parts' arm) :=
    hr.upTo
  refine (agree_checkThirdArm copied_from).skip @fun _ _ => ?_
  rw [ho.constant?]
  split
  · exact .ite ((agree_skipped harm).skip <| .ret ho) harm
  · exact (hx.load ho).then <| agree_checkCondition.skip <| agree_jump.with
      fun _ _ hj => (agree_broughtTo hx harm).skip <| (agree_landHere hj).skip <| .ret moved_inAx

lemma agree_compileTernary (ho : Moved A.Span o o') :
    Agree k (fun p p' => A.From i n p p' ∧ (k.c.tokens.get p).kind = .symbol .question)
      (With (Moved A.Span) (A.From i (n + 1))) (compileTernary parts o)
      (compileTernary parts' o') := by
  refine (agree_advance (M := A.From i (n + 1)) fun hp => hp.1.step hp.2 rfl rfl).skip ?_
  refine agree_eatKind (M := A.From i (n + 1)) sees_from
    (fun hp hk => hp.next hk rfl rfl) (agree_compileShort hr ho) ?_
  refine Agree.before (P := A.From i (n + 1)) ?_ And.left
  exact (agree_atExpressionEnd copied_from).then <| .unless <|
    agree_arms (exchange_moved hr.loads) ho hr.upTo (agree_expect_mark rfl rfl)
      (agree_checkThirdArm copied_from) hr.upTo

lemma agree_compileOperator (ho : Moved A.Span o o') :
    Agree k (A.From i n) (Turn (Moved A.Span) (A.From i (n + 1)) (With (Moved A.Span) (A.From i n)))
      (compileOperator parts priority o) (compileOperator parts' priority o') := by
  have hdone : Agree k (A.From i n)
      (Turn (Moved A.Span) (A.From i (n + 1)) (With (Moved A.Span) (A.From i n)))
      (pure (.done o)) (pure (.done o')) := .pure fun hp => .done ⟨ho, hp⟩
  refine agree_peek_bind copied_from fun t t' ht => ?_
  rw [ht.kind]
  split
  · next hk =>
    refine .ite (hdone.before And.left) ?_
    exact ((agree_compileTernary hr ho).before fun hp => ⟨hp.1, by rw [hp.2, hk]⟩).with
      fun _ _ ho => .pure fun hp => .again ho hp
  · next mark _ hk =>
    split
    · exact hdone.before And.left
    · next op hop =>
      have hbracket := BinaryOp.bracket_of_ofSymbol? (Option.filter_eq_some_iff.1 hop).1
      refine (agree_advance (M := A.From i (n + 1)) fun {p p'} hp =>
        hp.1.step (by rw [hp.2, hk]) hbracket.1 hbracket.2).skip <|
          (agree_compileRightSide hr ho).with fun _ _ ho => .pure fun hp => .again ho hp
  · exact hdone.before And.left

lemma agree_compileOperators :
    Agree k (A.From i n) (With (Moved A.Span) (A.From i n)) (compileOperators parts priority)
      (compileOperators parts' priority) := by
  refine (agree_compilePrefixed operands_from hr).with fun _ _ ho => Agree.with (V := Moved A.Span)
    (M := A.From i n) ?_ fun _ _ ho => (agree_peek copied_from).with fun _ _ ht => by
      rw [ht.kind]
      exact .unless <| .ret ho
  refine Agree.rounds suffixed_from.limit (fun m _ _ ho => ?_) ho
  refine (agree_compileOperator (n := max n m) hr ho).mono
    (fun hp => ⟨hp.1.1, Nat.max_le.2 ⟨hp.1.2, hp.2⟩⟩) fun h => ?_
  cases h with
  | again ho hp => exact .again ho ⟨⟨hp.1, by have := hp.2; omega⟩, by have := hp.2; omega⟩
  | done h => exact .done ⟨h.1, h.2.1, by have := h.2.2; omega⟩

lemma agree_compileArgument {stop stop' : Nat}
    (hstop : A.shift stop stop') : Agree k (A.From i n) (With (Moved A.Span) (A.From i n))
      (compileArgument parts stop) (compileArgument parts' stop') := by
  refine (agree_compileOperators hr).with fun o o' ho => agree_getPos.bind fun p p' => .pull
    fun hp => Agree.before (P := A.From i n) ?_ fun h => h.1 ▸ h.2 ▸ hp
  refine .ite_iff (not_congr (eq_iff (A.shift_of_within hp.1) hstop))
    (fun _ => (agree_peek copied_from).with fun _ _ _ => .fail_bind) fun _ => ?_
  exact (agree_loadToAx hr.loads ho).then <| .ret moved_inAx

end

/-! ## How deep parts may be -/

lemma compilePart_succ (depth : Nat) : compilePart (depth + 1) part c s =
    compileWith (below (c.tokens.size - s.pos) (compilePart depth)) part c s :=
  rfl

lemma below_eq : below n parts part c s =
    if c.tokens.size - s.pos < n then parts part c s else fail .tooDeep c s := by
  change (if c.tokens.size - s.pos < n then parts part else fail .tooDeep) c s = _
  split <;> rfl

lemma compilePart_eq (h : c.tokens.size - s.pos < depth) (h' : c.tokens.size - s.pos < depth') :
    compilePart depth part c s = compilePart depth' part c s := by
  induction depth generalizing depth' part c s with
  | zero => omega
  | succ depth ih =>
    obtain ⟨depth', rfl⟩ := Nat.exists_eq_add_one_of_ne_zero (Nat.ne_zero_of_lt h')
    have hparts : below (c.tokens.size - s.pos) (compilePart depth) =
        below (c.tokens.size - s.pos) (compilePart depth') := by
      funext part c' s'
      rw [below_eq, below_eq]
      split
      · exact ih (by omega) (by omega)
      · rfl
    rw [compilePart_succ, compilePart_succ, hparts]

def partsFrom (c : Context) (start : Nat) : Parts :=
  below (c.tokens.size - start) (compilePart c.tokens.size)

lemma below_compilePart (depth' : Nat) (h : n ≤ depth) (h' : n ≤ depth') :
    below n (compilePart depth) = below n (compilePart depth') := by
  funext part c s
  rw [below_eq, below_eq]
  split
  · exact compilePart_eq (by omega) (by omega)
  · rfl

lemma runs_partsFrom {start : Nat} : Runs (partsFrom c start part) c s o s' ↔
    start < s.pos ∧ start < c.tokens.size ∧
      Runs (compileWith (partsFrom c s.pos) part) c s o s' := by
  have hlt : c.tokens.size - s.pos < c.tokens.size - start ↔
      start < s.pos ∧ start < c.tokens.size := by omega
  rw [partsFrom, runs_below, hlt, and_assoc]
  refine and_congr_right fun hpos => and_congr_right fun hsize => ?_
  obtain ⟨depth, hdepth⟩ := Nat.exists_eq_add_one_of_ne_zero (Nat.ne_zero_of_lt hsize)
  rw [partsFrom, below_compilePart depth (by omega) (by omega), hdepth, runs_compilePart,
    hdepth]

lemma runs_expression : Runs expression c s o s' ↔
    Runs (compileOperators (partsFrom c s.pos) ternaryPriority) c s o s' := by
  simp [expression, withParts, Parts.whole, runs_compilePart, compileWith, partsFrom, and_assoc]

lemma agree_below {n' : Nat} {part' : Part} (h : Agree k P W (parts part) (parts' part'))
    (hlt : ∀ {p p'}, P p p' → k.c.tokens.size - p < n → k.c'.tokens.size - p' < n') :
    Agree k P W (below n parts part) (below n' parts' part') := by
  refine ⟨fun {s t a s'} hst hrun => ?_⟩
  obtain ⟨hn, hrun⟩ := runs_below.1 hrun
  obtain ⟨b, t', hrun', hst'⟩ := h.run hst hrun
  exact ⟨b, t', runs_below.2 ⟨hlt hst.pos hn, hrun'⟩, hst'⟩

lemma respects_below (hr : A.Respects parts parts') {p p' : Nat} (hp : A.shift p p') :
    A.Respects (below (k.c.tokens.size - p) parts) (below (k.c'.tokens.size - p') parts') := by
  have hlt {q q' : Nat} (hq : A.shift q q') (h : k.c.tokens.size - q < k.c.tokens.size - p) :
      k.c'.tokens.size - q' < k.c'.tokens.size - p' := by
    have hsize := A.lt_size hp (by omega)
    have hpq := (A.lt_iff hp hq).2 (by omega)
    omega
  constructor
  · exact fun hstop => agree_below (hr.argument hstop) fun hq => hlt (A.shift_of_within hq.1)
  · exact agree_below hr.upTo fun hq => hlt (A.shift_of_within hq.1)
  · exact fun ho => agree_below (hr.prefixed ho) fun hq => hlt (ho.shift hq.1)

lemma agree_compilePart {part' : Part} (hP : ∀ {p p'}, P p p' → A.shift p p')
    (hr : A.Respects (compilePart depth) (compilePart depth'))
    (h : ∀ {parts parts'}, A.Respects parts parts' →
      Agree k P W (compileWith parts part) (compileWith parts' part')) :
    Agree k P W (compilePart (depth + 1) part) (compilePart (depth' + 1) part') := by
  refine ⟨fun hst hrun => ?_⟩
  rw [runs_compilePart] at hrun
  obtain ⟨b, t', hrun', hst'⟩ := (h (respects_below hr (hP hst.pos))).run hst hrun
  exact ⟨b, t', runs_compilePart.2 hrun', hst'⟩

lemma respects_compilePart (h : depth ≤ depth') :
    A.Respects (compilePart depth) (compilePart depth') := by
  induction depth generalizing depth' with
  | zero => exact ⟨fun _ => .fail, .fail, fun _ => .fail⟩
  | succ depth ih =>
    obtain ⟨depth', rfl⟩ := Nat.exists_eq_add_one_of_ne_zero (Nat.ne_zero_of_lt h)
    have hr := ih (Nat.le_of_succ_le_succ h)
    exact ⟨fun hstop => agree_compilePart (fun hp => A.shift_of_within hp.1) hr fun hr =>
        agree_compileArgument hr hstop,
      agree_compilePart (fun hp => A.shift_of_within hp.1) hr fun hr => agree_compileOperators hr,
      fun ho => agree_compilePart (fun hp => ho.shift hp.1) hr fun hr =>
        (agree_compilePrefixed ho hr).before And.left⟩

def Alignment.refl (k : Pair) (h : k.c' = k.c) : Alignment k where
  Index := Unit
  within _ p p' := p' = p
  shift p p' := p' = p
  options := by rw [h]
  shift_of_within h := h
  lt_iff hp hq := by rw [hp, hq]
  lt_size hp hlt := by rw [hp, h]; exact hlt
  limit := .inl (le_of_eq (by rw [h]))
  copied hp := by
    rw [hp, h]
    exact ⟨rfl, rfl⟩
  next hp _ _ := by rw [hp, h]
  find hp := by rw [hp, h]
  enter hp _ := ⟨(), by rw [hp, h], fun hq _ => by rw [hq, h]⟩

lemma Moved.eq_of_refl {h : k.c' = k.c} (ho : Moved (Alignment.refl k h).Span o o') : o' = o := by
  obtain ⟨value', rfl, hvalue⟩ := ho.exists_eq
  obtain ⟨value, ty, fault⟩ := o
  cases hvalue with
  | «attribute» hindex =>
    cases hindex with
    | none => rfl
    | @some r r' hr =>
      obtain ⟨start, stop⟩ := r
      obtain ⟨start', stop'⟩ := r'
      obtain ⟨⟨_, rfl⟩, rfl⟩ : (∃ _ : Unit, start' = start) ∧ stop' = stop := hr
      rfl
  | _ => rfl

lemma moved_refl {h : k.c' = k.c} (o : Operand) : Moved (Alignment.refl k h).Span o o := by
  obtain ⟨value, ty, fault⟩ := o
  refine ⟨?_, rfl, rfl⟩
  cases value with
  | const value => exact .const value
  | ax => exact .ax
  | this => exact .this
  | stored target =>
    cases target with
    | memory place => exact .memory place
    | «attribute» use =>
      obtain ⟨attr, object, index⟩ := use
      cases index with
      | none => exact .attribute .none
      | some r => exact .attribute (.some ⟨⟨(), rfl⟩, rfl⟩)

lemma agree_expression (hk : k.c' = k.c) :
    Agree k (fun p p' => p' = p) (Same fun p p' => p' = p) expression expression := by
  have hr : (Alignment.refl k hk).Respects (compilePart (k.c.tokens.size + 1))
      (compilePart (k.c'.tokens.size + 1)) := respects_compilePart (le_of_eq (by rw [hk]))
  refine ⟨fun {s t o s'} hst hrun => ?_⟩
  simp only [expression, withParts, Parts.whole, runs_bind, runs_tokenCount] at hrun ⊢
  obtain ⟨_, _, ⟨rfl, rfl⟩, hrun⟩ := hrun
  obtain ⟨o', t', hrun', hst'⟩ := (hr.upTo (i := ()) (n := 0)).run
    (hst.mono fun hp => ⟨hp, Nat.zero_le _⟩) hrun
  exact ⟨o', t', ⟨_, _, ⟨rfl, rfl⟩, hrun'⟩, hst'.mono fun h => ⟨h.1.eq_of_refl, h.2.1⟩⟩

end AdventureScript.Gen
