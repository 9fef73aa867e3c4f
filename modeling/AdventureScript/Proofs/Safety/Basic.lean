import AdventureScript.Proofs.Tokens

/-!
Steps that fail by a fault of the program only.
-/
namespace AdventureScript.Gen.Safety

variable {α β σ : Type} {mark : Symbol} {word : Keyword}

/-- The step ends as `Q` says, or with an error, which if `strict` is none of the compiler itself. -/
def Meets (strict : Prop) (x : Gen α) (c : Context) (s : State) (Q : α → State → Prop) : Prop :=
  match x c s with
  | .ok (a, s') => Q a s'
  | .error failure => strict → failure.error.kind ≠ .internal

section

variable {strict : Prop} {c : Context} {s s' : State} {x : Gen α} {f : α → Gen β} {a : α}
  {Q R : α → State → Prop} {P : β → State → Prop} {fault : Fault}

lemma Meets.runs (h : Meets strict x c s Q) (hrun : Runs x c s a s') : Q a s' := by
  rwa [Meets, hrun] at h

lemma Meets.kind_ne {failure : Failure} (h : Meets strict x c s Q) (hs : strict)
    (hfail : x c s = .error failure) : failure.error.kind ≠ .internal := by
  rw [Meets, hfail] at h
  exact h hs

lemma meets_of_runs (h : Runs x c s a s') : Meets strict x c s Q ↔ Q a s' := by
  rw [Meets, h]

lemma Meets.mono (h : Meets strict x c s Q) (hQ : ∀ {a s'}, Q a s' → R a s') :
    Meets strict x c s R := by
  unfold Meets at h ⊢
  split <;> simp_all

@[simp] lemma meets_bind :
    Meets strict (x >>= f) c s P ↔ Meets strict x c s fun a t => Meets strict (f a) c t P := by
  simp only [Meets, bind, ReaderT.bind, StateT.bind, Except.bind]
  cases x c s <;> rfl

@[simp] lemma meets_pure : Meets strict (pure a) c s Q ↔ Q a s :=
  Iff.rfl

@[simp] lemma meets_map {f : α → β} :
    Meets strict (f <$> x) c s P ↔ Meets strict x c s fun a => P (f a) := by
  rw [← bind_pure_comp, meets_bind]
  rfl

@[simp] lemma meets_get {P : State → State → Prop} : Meets strict get c s P ↔ P s s :=
  Iff.rfl

@[simp] lemma meets_modify {g : State → State} {P : Unit → State → Prop} :
    Meets strict (modify g) c s P ↔ P () (g s) :=
  Iff.rfl

@[simp] lemma meets_set {t : State} {P : PUnit → State → Prop} :
    Meets strict (set t) c s P ↔ P () t :=
  Iff.rfl

lemma meets_failAt {i : UInt16} {line : Nat} (h : fault.kind ≠ .internal) :
    Meets strict (failAt fault i line : Gen α) c s Q :=
  fun _ => h

lemma meets_fail (h : fault.kind ≠ .internal) : Meets strict (fail fault : Gen α) c s Q :=
  fun _ => h

lemma meets_dryRun {P : α × Nat → State → Prop}
    (h : Meets strict x c s fun a t => P (a, t.pos) (untried s t)) :
    Meets strict (dryRun x) c s P := by
  unfold Meets at h ⊢
  rw [dryRun]
  cases hx : x c s with
  | error failure => simpa [hx] using h
  | ok r => simpa [hx] using h

end

structure Mode where
  strict : Prop
  c : Context

/-- From the place `p` on, where `I` holds, the step leads to where `J` holds, and its value and the
place behind it are as `Q` says. -/
structure Sure (m : Mode) (I J : State → Prop) (p : Nat) (x : Gen α) (Q : α → Nat → Prop) :
    Prop where
  run : ∀ s, I s → s.pos = p → Meets m.strict x m.c s fun a s' => J s' ∧ Q a s'.pos

class Placeless (I : State → Prop) : Prop where
  setPos : ∀ {s p}, I s → I { s with pos := p }

variable {m : Mode} {I J K : State → Prop} {p q : Nat}

section

variable {x : Gen α} {f : α → Gen β} {a : α} {Q R : α → Nat → Prop} {T : β → Nat → Prop}
  {V : α → Prop} {fault : Fault}

lemma Sure.bind (hx : Sure m I J p x Q) (hf : ∀ a q, Q a q → Sure m J K q (f a) T) :
    Sure m I K p (x >>= f) T := by
  refine ⟨fun s hs hp => ?_⟩
  rw [meets_bind]
  exact (hx.run s hs hp).mono fun h => (hf _ _ h.2).run _ h.1 rfl

lemma Sure.mono (hx : Sure m I J p x Q) (h : ∀ {a q}, Q a q → R a q) : Sure m I J p x R :=
  ⟨fun s hs hp => (hx.run s hs hp).mono fun h' => ⟨h'.1, h h'.2⟩⟩

lemma Sure.weaken {I' J' : State → Prop} (hx : Sure m I J p x Q) (hI : ∀ {s}, I' s → I s)
    (hJ : ∀ {s}, J s → J' s) : Sure m I' J' p x Q :=
  ⟨fun s hs hp => (hx.run s (hI hs) hp).mono fun h => ⟨hJ h.1, h.2⟩⟩

lemma Sure.with (hx : Sure m I J p x fun a q => V a ∧ q = p)
    (hf : ∀ a, V a → Sure m J K p (f a) T) : Sure m I K p (x >>= f) T :=
  hx.bind fun a _ ⟨ha, hq⟩ => hq ▸ hf a ha

lemma Sure.then (hx : Sure m I J p x fun _ q => q = p) (hf : ∀ {a}, Sure m J K p (f a) T) :
    Sure m I K p (x >>= f) T :=
  hx.bind fun _ _ hq => hq ▸ hf

lemma Sure.ret (h : Q a p) : Sure m I I p (pure a) Q :=
  ⟨fun _ hs hp => ⟨hs, hp ▸ h⟩⟩

lemma Sure.map {g : α → β} (hx : Sure m I J p x fun a => T (g a)) : Sure m I J p (g <$> x) T := by
  refine ⟨fun s hs hp => ?_⟩
  rw [meets_map]
  exact hx.run s hs hp

lemma Sure.fail (h : fault.kind ≠ .internal) :
    Sure m I J p (fail fault : Gen α) Q :=
  ⟨fun _ _ _ => meets_fail h⟩

lemma Sure.fail_bind (h : fault.kind ≠ .internal) :
    Sure m I J p (Gen.fail fault >>= f) T :=
  (Sure.fail (J := I) (Q := fun _ _ => False) h).bind fun _ _ => False.elim

lemma Sure.dite {q : Prop} [Decidable q] {y : Gen α} (h : q → Sure m I J p x Q)
    (h' : ¬q → Sure m I J p y Q) : Sure m I J p (if q then x else y) Q := by
  split
  · next hq => exact h hq
  · next hq => exact h' hq

lemma Sure.ite {q : Prop} [Decidable q] {y : Gen α} (h : Sure m I J p x Q)
    (h' : Sure m I J p y Q) : Sure m I J p (if q then x else y) Q :=
  .dite (fun _ => h) fun _ => h'

lemma Sure.ite_bind {q : Prop} [Decidable q] {y : Gen α} (h : q → Sure m I J p x Q)
    (h' : ¬q → Sure m I J p y Q) (hf : ∀ a q, Q a q → Sure m J K q (f a) T) :
    Sure m I K p (if q then x >>= f else y >>= f) T :=
  .dite (fun hq => (h hq).bind hf) fun hq => (h' hq).bind hf

lemma Sure.require {q : Prop} [Decidable q] {g : β → Gen α} (hk : fault.kind ≠ .internal)
    (h : ¬q → Sure m I J p x Q) :
    Sure m I J p (if q then Gen.fail fault >>= g else x) Q :=
  .dite (fun _ => .fail_bind hk) h

lemma Sure.unless {q : Prop} [Decidable q] {g : β → Gen α} (hk : fault.kind ≠ .internal)
    (h : Sure m I J p x Q) : Sure m I J p (if q then Gen.fail fault >>= g else x) Q :=
  .require hk fun _ => h

lemma sure_orFail {x : Option α} (h : fault.kind ≠ .internal) :
    Sure m I I p (orFail x fault) fun a q => x = some a ∧ q = p := by
  cases x with
  | none => exact .fail h
  | some a => exact .ret ⟨rfl, rfl⟩

lemma sure_orFail_of_isSome {x : Option α} (h : m.strict → x.isSome = true) :
    Sure m I I p (orFail x fault) fun a q => x = some a ∧ q = p := by
  cases x with
  | none => exact ⟨fun _ _ _ hs => absurd (h hs) (by simp)⟩
  | some a => exact .ret ⟨rfl, rfl⟩

end

/-! ## Looking -/

section

variable {x : Gen α} {f : α → Gen β} {T : β → Nat → Prop}

lemma Sure.look {g : State → α} (hx : ∀ {s}, Runs x m.c s (g s) s)
    (hf : ∀ s, I s → s.pos = p → Meets m.strict (f (g s)) m.c s fun b s' => J s' ∧ T b s'.pos) :
    Sure m I J p (x >>= f) T := by
  refine ⟨fun s hs hp => ?_⟩
  rw [meets_bind, meets_of_runs hx]
  exact hf s hs hp

lemma Sure.get {f : State → Gen β} (hf : ∀ s, I s → Sure m I J p (f s) T) :
    Sure m I J p (get >>= f) T :=
  .look (fun {_} => runs_get.2 ⟨rfl, rfl⟩) fun s hs hp => (hf s hs).run s hs hp

lemma Sure.look_at {a : α} (hx : ∀ {s}, s.pos = p → Runs x m.c s a s)
    (hf : Sure m I J p (f a) T) : Sure m I J p (x >>= f) T := by
  refine ⟨fun s hs hp => ?_⟩
  rw [meets_bind, meets_of_runs (hx hp)]
  exact hf.run s hs hp

variable {g : Token → Gen β}

lemma Sure.peek (hf : Sure m I J p (g (m.c.tokens.get p)) T) : Sure m I J p (peek >>= g) T :=
  .look_at (fun h => runs_peek.2 ⟨rfl, by rw [h]⟩) hf

lemma Sure.peekAt {n : Nat} (hf : Sure m I J p (g (m.c.tokens.get (p + n))) T) :
    Sure m I J p (peekAt n >>= g) T :=
  .look_at (fun h => runs_peekAt.2 ⟨rfl, by rw [h]⟩) hf

lemma Sure.tokenAt {i : Nat} (hf : Sure m I J p (g (m.c.tokens.get i)) T) :
    Sure m I J p (tokenAt i >>= g) T :=
  .look_at (fun _ => runs_tokenAt.2 ⟨rfl, rfl⟩) hf

lemma Sure.getPos {f : Nat → Gen β} (hf : Sure m I J p (f p) T) : Sure m I J p (getPos >>= f) T :=
  .look_at (fun h => runs_getPos.2 ⟨rfl, h.symm⟩) hf

lemma Sure.findAtDepthZero {i : Nat} {stop : Token.Kind → Bool} {f : Nat → Gen β}
    (hf : Sure m I J p (f (m.c.tokens.findAtDepthZero i stop)) T) :
    Sure m I J p (findAtDepthZero i stop >>= f) T :=
  .look_at (fun _ => runs_findAtDepthZero.2 ⟨rfl, rfl⟩) hf

lemma Sure.tokenCount {f : Nat → Gen β} (hf : Sure m I J p (f m.c.tokens.size) T) :
    Sure m I J p (tokenCount >>= f) T :=
  .look_at (fun _ => runs_tokenCount.2 ⟨rfl, rfl⟩) hf

lemma Sure.getOptions {f : Options → Gen β} (hf : Sure m I J p (f m.c.options) T) :
    Sure m I J p (getOptions >>= f) T :=
  .look_at (fun _ => runs_getOptions.2 ⟨rfl, rfl⟩) hf

variable {kind : Token.Kind} {f : Bool → Gen β}

lemma Sure.seeKind
    (h : ∀ b : Bool, (b = true ↔ (m.c.tokens.get p).kind = kind) → Sure m I J p (f b) T) :
    Sure m I J p (checkKind kind >>= f) T :=
  .look_at (fun hp => runs_checkKind.2 ⟨rfl, by rw [hp]⟩) (h _ decide_eq_true_iff)

lemma Sure.checkKind (h : (m.c.tokens.get p).kind = kind → Sure m I J p (f true) T)
    (h' : (m.c.tokens.get p).kind ≠ kind → Sure m I J p (f false) T) :
    Sure m I J p (checkKind kind >>= f) T := by
  refine .seeKind fun b hb => ?_
  cases b with
  | true => exact h (hb.1 rfl)
  | false => exact h' (by simpa using hb)

lemma Sure.check (h : (m.c.tokens.get p).kind = .symbol mark → Sure m I J p (f true) T)
    (h' : (m.c.tokens.get p).kind ≠ .symbol mark → Sure m I J p (f false) T) :
    Sure m I J p (check mark >>= f) T :=
  .checkKind h h'

lemma Sure.checkWord (h : (m.c.tokens.get p).kind = .keyword word → Sure m I J p (f true) T)
    (h' : (m.c.tokens.get p).kind ≠ .keyword word → Sure m I J p (f false) T) :
    Sure m I J p (checkWord word >>= f) T :=
  .checkKind h h'

lemma Sure.atEnd (h : (m.c.tokens.get p).kind = .endOfInput → Sure m I J p (f true) T)
    (h' : (m.c.tokens.get p).kind ≠ .endOfInput → Sure m I J p (f false) T) :
    Sure m I J p (atEnd >>= f) T :=
  .checkKind h h'

lemma Sure.atExpressionEnd (h : ∀ b, Sure m I J p (f b) T) : Sure m I J p (atExpressionEnd >>= f) T :=
  .look_at (fun {_} hp => by
    simp only [Gen.atExpressionEnd, runs_bind, runs_peek, runs_pure]
    exact ⟨_, _, ⟨rfl, rfl⟩, rfl, by rw [hp]⟩) (h _)

end

/-! ## Moving -/

section

variable [Placeless I] {f : α → Gen β} {T : β → Nat → Prop} {kind : Token.Kind}

lemma Sure.move {x : Gen α} {a : α} (hx : ∀ {s}, s.pos = p → Runs x m.c s a { s with pos := q })
    (hf : Sure m I J q (f a) T) : Sure m I J p (x >>= f) T := by
  refine ⟨fun s hs hp => ?_⟩
  rw [meets_bind, meets_of_runs (hx hp)]
  exact hf.run _ (Placeless.setPos hs) rfl

lemma Sure.setPos {f : Unit → Gen β} (hf : Sure m I J q (f ()) T) : Sure m I J p (setPos q >>= f) T :=
  .move (fun _ => runs_setPos.2 rfl) hf

lemma sure_setPos : Sure m I I p (setPos q) fun _ r => r = q :=
  ⟨fun _ hs _ => ⟨Placeless.setPos hs, rfl⟩⟩

lemma Sure.advance {f : Token → Gen β}
    (hf : Sure m I J (m.c.tokens.after p) (f (m.c.tokens.get p)) T) :
    Sure m I J p (advance >>= f) T :=
  .move (fun h => runs_advance.2 ⟨by rw [h], by rw [h]⟩) hf

lemma Sure.eatKind {f : Bool → Gen β}
    (h : (m.c.tokens.get p).kind = kind → Sure m I J (m.c.tokens.after p) (f true) T)
    (h' : (m.c.tokens.get p).kind ≠ kind → Sure m I J p (f false) T) :
    Sure m I J p (eatKind kind >>= f) T := by
  by_cases hk : (m.c.tokens.get p).kind = kind
  · exact .move (fun hp => runs_eatKind.2 (.inl ⟨by rw [hp, hk], by rw [hp], rfl⟩)) (h hk)
  · exact .look_at (fun hp => runs_eatKind.2 (.inr ⟨by rw [hp]; exact hk, rfl, rfl⟩)) (h' hk)

lemma Sure.eat {f : Bool → Gen β}
    (h : (m.c.tokens.get p).kind = .symbol mark → Sure m I J (m.c.tokens.after p) (f true) T)
    (h' : (m.c.tokens.get p).kind ≠ .symbol mark → Sure m I J p (f false) T) :
    Sure m I J p (eat mark >>= f) T :=
  .eatKind h h'

lemma Sure.eat_bind {x y : Gen α} {f : α → Gen β}
    (h : (m.c.tokens.get p).kind = .symbol mark → Sure m I J (m.c.tokens.after p) x Q)
    (h' : (m.c.tokens.get p).kind ≠ .symbol mark → Sure m I J p y Q)
    (hf : ∀ a q, Q a q → Sure m J K q (f a) T) :
    Sure m I K p (Gen.eat mark >>= fun b => if b then x >>= f else y >>= f) T :=
  .eat (fun hk => (h hk).bind hf) fun hk => (h' hk).bind hf

lemma sure_eat {Q : Bool → Nat → Prop}
    (h : (m.c.tokens.get p).kind = .symbol mark → Q true (m.c.tokens.after p))
    (h' : (m.c.tokens.get p).kind ≠ .symbol mark → Q false p) : Sure m I I p (eat mark) Q := by
  have hrun : Sure m I I p (eat mark >>= pure) Q :=
    .eat (fun hk => .ret (h hk)) fun hk => .ret (h' hk)
  simpa using hrun

lemma Sure.eatWord {f : Bool → Gen β}
    (h : (m.c.tokens.get p).kind = .keyword word → Sure m I J (m.c.tokens.after p) (f true) T)
    (h' : (m.c.tokens.get p).kind ≠ .keyword word → Sure m I J p (f false) T) :
    Sure m I J p (eatWord word >>= f) T :=
  .eatKind h h'

lemma sure_expectKind :
    Sure m I I p (expectKind kind) fun t q =>
      ((m.c.tokens.get p).kind = kind ∧ t = m.c.tokens.get p) ∧ q = m.c.tokens.after p := by
  refine .checkKind (fun hk => ?_) fun _ => .peek (.fail nofun)
  have := @Sure.advance _ m I I p _ (fun t q => ((m.c.tokens.get p).kind = kind ∧
    t = m.c.tokens.get p) ∧ q = m.c.tokens.after p) pure (.ret ⟨⟨hk, rfl⟩, rfl⟩)
  simpa using this

lemma sure_expect :
    Sure m I I p (expect mark) fun _ q =>
      (m.c.tokens.get p).kind = .symbol mark ∧ q = m.c.tokens.after p :=
  sure_expectKind.bind fun _ _ h => .ret ⟨h.1.1, h.2⟩

lemma sure_expectWord :
    Sure m I I p (expectWord word) fun _ q =>
      (m.c.tokens.get p).kind = .keyword word ∧ q = m.c.tokens.after p :=
  sure_expectKind.bind fun _ _ h => .ret ⟨h.1.1, h.2⟩

lemma sure_expectIdentifier :
    Sure m I I p expectIdentifier fun name q =>
      ((m.c.tokens.get p).kind = .identifier ∧ name = (m.c.tokens.get p).lexeme) ∧
        q = m.c.tokens.after p := by
  refine .peek (.dite (fun hk => .advance (.ret ⟨⟨hk, rfl⟩, rfl⟩)) fun _ => .fail nofun)

lemma Sure.expect {f : Unit → Gen β}
    (h : (m.c.tokens.get p).kind = .symbol mark → Sure m I J (m.c.tokens.after p) (f ()) T) :
    Sure m I J p (expect mark >>= f) T :=
  sure_expect.bind fun _ _ ⟨hk, hq⟩ => hq ▸ h hk

lemma Sure.expectWord {f : Unit → Gen β}
    (h : (m.c.tokens.get p).kind = .keyword word → Sure m I J (m.c.tokens.after p) (f ()) T) :
    Sure m I J p (expectWord word >>= f) T :=
  sure_expectWord.bind fun _ _ ⟨hk, hq⟩ => hq ▸ h hk

lemma Sure.expectIdentifier {f : String → Gen β}
    (h : (m.c.tokens.get p).kind = .identifier →
      Sure m I J (m.c.tokens.after p) (f (m.c.tokens.get p).lexeme) T) :
    Sure m I J p (expectIdentifier >>= f) T :=
  sure_expectIdentifier.bind fun _ _ ⟨⟨hk, hn⟩, hq⟩ => hq ▸ hn ▸ h hk

end

section

variable {step : σ → Gen (Round σ α)} {P : σ → Nat → Prop} {Q : α → Nat → Prop} {x : σ}
  {f : α → Gen Unit}

/-- What is left behind by a round: another one starts with fewer tokens left, or it was the last. -/
def Turns (m : Mode) (p : Nat) (P : σ → Nat → Prop) (Q : α → Nat → Prop) :
    Round σ α → Nat → Prop
  | .again y, q => m.c.tokens.size - q < m.c.tokens.size - p ∧ P y q
  | .done a, q => Q a q

lemma sure_roundsWithin (h : ∀ x p, P x p → Sure m I I p (step x) (Turns m p P Q)) {limit : Nat}
    (hlimit : m.c.tokens.size - p < limit) (hx : P x p) :
    Sure m I I p (roundsWithin step limit x) Q := by
  induction limit generalizing x p with
  | zero => omega
  | succ limit ih =>
    refine (h x p hx).bind fun r q hr => ?_
    cases r with
    | again y => exact ih (lt_of_lt_of_le hr.1 (Nat.le_of_lt_succ hlimit)) hr.2
    | done a => exact .ret hr

lemma sure_rounds (h : ∀ x p, P x p → Sure m I I p (step x) (Turns m p P Q)) (hx : P x p) :
    Sure m I I p (rounds step x) Q :=
  .tokenCount (sure_roundsWithin h (by omega) hx)

lemma sure_repeatWhile {step : Gen Bool} {P Q : Nat → Prop}
    (h : ∀ p, P p → Sure m I I p step fun b q =>
      if b then m.c.tokens.size - q < m.c.tokens.size - p ∧ P q else Q q) (hp : P p) :
    Sure m I I p (repeatWhile step) fun _ => Q := by
  refine sure_rounds (P := fun _ => P) (fun _ p hp => (h p hp).bind fun b q hq => .ret ?_) hp
  cases b with
  | true => exact hq
  | false => exact hq

lemma sure_forM {as : List α} {P : Nat → Prop}
    (h : ∀ a ∈ as, ∀ p, P p → Sure m I I p (f a) fun _ => P) (hp : P p) :
    Sure m I I p (forM as f) fun _ => P := by
  induction as generalizing p with
  | nil => exact .ret hp
  | cons a as ih =>
    exact (h a List.mem_cons_self p hp).bind fun _ q hq =>
      ih (fun b hb => h b (List.mem_cons_of_mem _ hb)) hq

lemma sure_forM_array {as : Array α} {P : Nat → Prop}
    (h : ∀ a ∈ as, ∀ p, P p → Sure m I I p (f a) fun _ => P) (hp : P p) :
    Sure m I I p (as.forM f) fun _ => P := by
  rcases as with ⟨as⟩
  simpa using sure_forM (fun a ha => h a (by simpa using ha)) hp

end

end AdventureScript.Gen.Safety
