import AdventureScript.Proofs.Runs
import Mathlib.Data.List.Forall2

/-!
Two runs of the same steps side by side, each in a context of its own.
-/
namespace AdventureScript.Gen

variable {α β γ δ σ τ : Type} {s t : State} {n : Nat} {op : Opcode} {reg : Register}
  {kind : Token.Kind} {reference : Reference} {bytes : Int32}

structure Stays (s s' : State) : Prop where
  symbols : s'.symbols = s.symbols
  blocks : s'.scope.blocks = s.scope.blocks
  function? : s'.function? = s.function?

lemma Stays.refl : Stays s s :=
  ⟨rfl, rfl, rfl⟩

lemma Stays.trans {s' s'' : State} (h : Stays s s') (h' : Stays s' s'') : Stays s s'' :=
  ⟨h'.symbols.trans h.symbols, h'.blocks.trans h.blocks, h'.function?.trans h.function?⟩

/-- Two runs to compare: their contexts, a state that has what expressions look at in both, whether
they have to write the same code, whether jumps have to land alike, how much code there was before,
and whether they have to note alike that AX was overwritten. -/
structure Pair where
  c : Context
  c' : Context
  base : State
  same : Prop
  tight : Prop
  size : Nat
  size' : Nat
  even : Prop

def Pair.Level (k : Pair) (n n' : Nat) : Prop :=
  n' + k.size = n + k.size'

/-- The states agree in what expressions look at, the places in the token lists being related, and
equally much code has been written. If they have to be the same, then they agree in all but those
places, where a jump landed and whether AX was overwritten. -/
structure Alike (k : Pair) (P : Nat → Nat → Prop) (s t : State) : Prop where
  pos : P s.pos t.pos
  left : Stays k.base s
  right : Stays k.base t
  level : k.Level s.script.size t.script.size
  rest : k.same →
    t = { s with pos := t.pos, jumpTarget := t.jumpTarget, axClobbered := t.axClobbered }
  landed : k.same → k.tight → t.jumpTarget = s.jumpTarget
  flag : k.even → t.axClobbered = s.axClobbered

structure Agree (k : Pair) (P : Nat → Nat → Prop) (W : α → β → Nat → Nat → Prop) (x : Gen α)
    (y : Gen β) : Prop where
  run : ∀ {s t a s'}, Alike k P s t → Runs x k.c s a s' →
    ∃ b t', Runs y k.c' t b t' ∧ Alike k (W a b) s' t'

def With (V : α → β → Prop) (P : Nat → Nat → Prop) : α → β → Nat → Nat → Prop :=
  fun a b p p' => V a b ∧ P p p'

abbrev Same (P : Nat → Nat → Prop) : α → α → Nat → Nat → Prop :=
  With (fun a b => b = a) P

abbrev Any (P : Nat → Nat → Prop) : α → β → Nat → Nat → Prop :=
  With (fun _ _ => True) P

def Tied (k : Pair) (a b : α) : Prop :=
  k.same → b = a

def TiedAt (k : Pair) (position : α → Nat) (a b : α) : Prop :=
  Tied k a b ∧ k.Level (position a) (position b)

variable {k : Pair} {P M Q : Nat → Nat → Prop}

lemma Alike.mono (h : Alike k P s t) (hP : P s.pos t.pos → M s.pos t.pos) : Alike k M s t :=
  ⟨hP h.pos, h.left, h.right, h.level, h.rest, h.landed, h.flag⟩

lemma Alike.symbols (h : Alike k P s t) : t.symbols = s.symbols :=
  h.right.symbols.trans h.left.symbols.symm

lemma Alike.blocks (h : Alike k P s t) : t.scope.blocks = s.scope.blocks :=
  h.right.blocks.trans h.left.blocks.symm

lemma Alike.function? (h : Alike k P s t) : t.function? = s.function? :=
  h.right.function?.trans h.left.function?.symm

/-! ## Composition -/

section

variable {V : α → β → Prop} {W W' : γ → δ → Nat → Nat → Prop} {U : α → β → Nat → Nat → Prop}
  {x x' : Gen α} {y y' : Gen β} {f : α → Gen γ} {g : β → Gen δ} {z : Gen γ} {z' : Gen δ} {q : Prop}
  {fault : Fault}

lemma Agree.bind (hx : Agree k P U x y) (hf : ∀ a b, Agree k (U a b) W (f a) (g b)) :
    Agree k P W (x >>= f) (y >>= g) := by
  refine ⟨fun {s t e s'} hst h => ?_⟩
  obtain ⟨a, s1, h1, h2⟩ := runs_bind.1 h
  obtain ⟨b, t1, h1', hst1⟩ := hx.run hst h1
  obtain ⟨e', t', h2', hst'⟩ := (hf a b).run hst1 h2
  exact ⟨e', t', runs_bind.2 ⟨b, t1, h1', h2'⟩, hst'⟩

lemma Agree.mono (h : Agree k P W z z') (hP : ∀ {p p'}, Q p p' → P p p')
    (hW : ∀ {a b p p'}, W a b p p' → W' a b p p') : Agree k Q W' z z' := by
  refine ⟨fun hst hrun => ?_⟩
  obtain ⟨b, t', hrun', hst'⟩ := h.run (hst.mono hP) hrun
  exact ⟨b, t', hrun', hst'.mono hW⟩

lemma Agree.before (h : Agree k P W z z') (hP : ∀ {p p'}, Q p p' → P p p') : Agree k Q W z z' :=
  h.mono hP id

lemma Agree.behind (h : Agree k P W z z') (hW : ∀ {a b p p'}, W a b p p' → W' a b p p') :
    Agree k P W' z z' :=
  h.mono id hW

lemma Agree.pull (h : q → Agree k P W z z') : Agree k (fun p p' => q ∧ P p p') W z z' :=
  ⟨fun hst hrun => (h hst.pos.1).run (hst.mono And.right) hrun⟩

lemma Agree.pull_exists {ι : Type} {P : ι → Nat → Nat → Prop} (h : ∀ i, Agree k (P i) W z z') :
    Agree k (fun p p' => ∃ i, P i p p') W z z' := by
  refine ⟨fun hst hrun => ?_⟩
  obtain ⟨i, hi⟩ := hst.pos
  exact (h i).run (hst.mono fun _ => hi) hrun

lemma Agree.with (hx : Agree k P (With V M) x y)
    (hf : ∀ a b, V a b → Agree k M W (f a) (g b)) : Agree k P W (x >>= f) (y >>= g) :=
  hx.bind fun a b => .pull (hf a b)

lemma Agree.then {y : Gen α} {g : α → Gen δ} (hx : Agree k P (Same M) x y)
    (hf : ∀ {a}, Agree k M W (f a) (g a)) : Agree k P W (x >>= f) (y >>= g) :=
  hx.with fun _ _ hab => hab ▸ hf

lemma Agree.skip (hx : Agree k P (Any M) x y) (hf : ∀ {a b}, Agree k M W (f a) (g b)) :
    Agree k P W (x >>= f) (y >>= g) :=
  hx.with fun _ _ _ => hf

lemma Agree.pure {a : γ} {b : δ} (h : ∀ {p p'}, P p p' → W a b p p') :
    Agree k P W (pure a) (pure b) := by
  refine ⟨fun {s t a' s'} hst hrun => ?_⟩
  obtain ⟨rfl, rfl⟩ := runs_pure.1 hrun
  exact ⟨b, t, runs_pure.2 ⟨rfl, rfl⟩, hst.mono h⟩

lemma Agree.ret {a : α} {b : β} (h : V a b) : Agree k P (With V P) (Pure.pure a) (Pure.pure b) :=
  .pure fun hp => ⟨h, hp⟩

lemma Agree.map {h : α → γ} {h' : β → δ} (hx : Agree k P U x y)
    (hV : ∀ {a b p p'}, U a b p p' → W (h a) (h' b) p p') : Agree k P W (h <$> x) (h' <$> y) := by
  exact hx.bind fun a b => .pure hV

lemma Agree.fail : Agree k P W (fail fault) z' :=
  ⟨fun _ h => absurd h runs_fail⟩

lemma Agree.fail_bind : Agree k P W (Gen.fail fault >>= f) (y >>= g) := by
  refine ⟨fun {s t e s'} _ h => ?_⟩
  obtain ⟨_, _, h, _⟩ := runs_bind.1 h
  exact absurd h runs_fail

lemma Agree.ite [Decidable q] (h : Agree k P U x y) (h' : Agree k P U x' y') :
    Agree k P U (if q then x else x') (if q then y else y') := by
  split
  · exact h
  · exact h'

lemma Agree.ite_iff {q' : Prop} [Decidable q] [Decidable q'] (hq : q' ↔ q)
    (h : q → Agree k P U x y) (h' : ¬q → Agree k P U x' y') :
    Agree k P U (if q then x else x') (if q' then y else y') := by
  by_cases hc : q
  · rw [if_pos hc, if_pos (hq.2 hc)]
    exact h hc
  · rw [if_neg hc, if_neg (mt hq.1 hc)]
    exact h' hc

lemma Agree.ite_bind [Decidable q] (h : Agree k P U x y) (h' : Agree k P U x' y')
    (hf : ∀ a b, Agree k (U a b) W (f a) (g b)) :
    Agree k P W (if q then x >>= f else x' >>= f) (if q then y >>= g else y' >>= g) :=
  .ite (h.bind hf) (h'.bind hf)

lemma Agree.unless [Decidable q] (h : Agree k P W z z') :
    Agree k P W (if q then Gen.fail fault >>= f else z) (if q then y >>= g else z') :=
  .ite .fail_bind h

lemma agree_orFail {x : Option α} {fault' : Fault} :
    Agree k P (Same P) (orFail x fault) (orFail x fault') := by
  cases x with
  | none => exact .fail
  | some a => exact .ret rfl

end

inductive Turn (V : σ → τ → Prop) (P : Nat → Nat → Prop) (W : γ → δ → Nat → Nat → Prop) :
    Round σ γ → Round τ δ → Nat → Nat → Prop
  | again {a b p p'} : V a b → P p p' → Turn V P W (.again a) (.again b) p p'
  | done {r r' p p'} : W r r' p p' → Turn V P W (.done r) (.done r') p p'

section

variable {V : σ → τ → Prop} {W : γ → δ → Nat → Nat → Prop} {step : σ → Gen (Round σ γ)}
  {step' : τ → Gen (Round τ δ)} {a : σ} {b : τ}

lemma Agree.roundsWithin
    (h : ∀ n a b, V a b → Agree k (fun p p' => P p p' ∧ n ≤ p')
      (Turn V (fun p p' => P p p' ∧ n < p') W) (step a) (step' b)) {l m : Nat} {s' : State} {r : γ}
    (hlimit : l ≤ m ∨ (∀ p p', P p p' → p' ≤ k.c'.tokens.size) ∧ k.c'.tokens.size < m + t.pos)
    (hab : V a b) (hst : Alike k P s t) (hrun : Runs (roundsWithin step l a) k.c s r s') :
    ∃ r' t', Runs (Gen.roundsWithin step' m b) k.c' t r' t' ∧
      Alike k (W r r') s' t' := by
  induction l generalizing m a b s t with
  | zero => exact absurd hrun runs_fail
  | succ l ih =>
    obtain ⟨m, rfl⟩ : ∃ i, m = i + 1 := by
      refine Nat.exists_eq_add_one_of_ne_zero fun h0 => ?_
      rcases hlimit with hle | ⟨hsize, hlt⟩
      · omega
      · have := hsize _ _ hst.pos
        omega
    obtain ⟨round, s1, h1, h2⟩ := runs_bind.1 hrun
    obtain ⟨round', t1, h1', hst1⟩ :=
      (h t.pos a b hab).run (hst.mono fun hp => ⟨hp, le_rfl⟩) h1
    cases round with
    | again a' =>
      obtain ⟨b', rfl, hab', hp⟩ : ∃ b', round' = .again b' ∧ V a' b' ∧
          P s1.pos t1.pos ∧ t.pos < t1.pos := by
        cases hst1.pos with
        | again hab' hp => exact ⟨_, rfl, hab', hp⟩
      obtain ⟨r', t', h2', hst'⟩ := ih (m := m) (hlimit.imp (by omega) fun h =>
        ⟨h.1, by omega⟩) hab' (hst1.mono fun _ => hp.1) h2
      exact ⟨r', t', runs_bind.2 ⟨_, _, h1', h2'⟩, hst'⟩
    | done r1 =>
      obtain ⟨rfl, rfl⟩ := runs_pure.1 h2
      obtain ⟨r', rfl, hr⟩ : ∃ r', round' = .done r' ∧ W r r' s'.pos t1.pos := by
        cases hst1.pos with
        | done hr => exact ⟨_, rfl, hr⟩
      exact ⟨r', t1, runs_bind.2 ⟨_, _, h1', runs_pure.2 ⟨rfl, rfl⟩⟩, hst1.mono fun _ => hr⟩

lemma Agree.rounds (hlimit : k.c.tokens.size ≤ k.c'.tokens.size ∨
      ∀ p p', P p p' → p' ≤ k.c'.tokens.size)
    (h : ∀ n a b, V a b → Agree k (fun p p' => P p p' ∧ n ≤ p')
      (Turn V (fun p p' => P p p' ∧ n < p') W) (step a) (step' b)) (hab : V a b) :
    Agree k P W (rounds step a) (rounds step' b) := by
  refine ⟨fun {s t r s'} hst hrun => ?_⟩
  simp only [Gen.rounds, runs_bind, runs_tokenCount] at hrun ⊢
  obtain ⟨_, _, ⟨rfl, rfl⟩, hrun⟩ := hrun
  obtain ⟨r', t', hrun', hst'⟩ :=
    Agree.roundsWithin (m := k.c'.tokens.size + 1) h
      (hlimit.imp (by omega) fun h => ⟨h, by omega⟩) hab hst hrun
  exact ⟨r', t', ⟨_, _, ⟨rfl, rfl⟩, hrun'⟩, hst'⟩

end

lemma Agree.forM {V : α → β → Prop} {f : α → Gen Unit} {g : β → Gen Unit} {as : List α}
    {bs : List β} (hab : List.Forall₂ V as bs) (h : ∀ a b, V a b → Agree k P (Any P) (f a) (g b)) :
    Agree k P (Any P) (as.forM f) (bs.forM g) := by
  induction hab with
  | nil => exact .ret trivial
  | cons hab _ ih => exact (h _ _ hab).skip ih

lemma agree_of_look {x : Gen α} {y : Gen β} {f : State → α} {g : State → β}
    {W : α → β → Nat → Nat → Prop} (hx : ∀ {s a s'}, Runs x k.c s a s' ↔ s' = s ∧ a = f s)
    (hy : ∀ {t b t'}, Runs y k.c' t b t' ↔ t' = t ∧ b = g t)
    (h : ∀ {s t}, Alike k P s t → W (f s) (g t) s.pos t.pos) : Agree k P W x y := by
  refine ⟨fun {s t a s'} hst hrun => ?_⟩
  obtain ⟨rfl, rfl⟩ := hx.1 hrun
  exact ⟨_, t, hy.2 ⟨rfl, rfl⟩, hst.mono fun _ => h hst⟩

lemma agree_get : Agree k P (fun s t p p' => Alike k P s t ∧ p = s.pos ∧ p' = t.pos) get get :=
  agree_of_look runs_get runs_get fun hst => ⟨hst, rfl, rfl⟩

lemma agree_look {f : State → Gen γ} {g : State → Gen δ} {W : γ → δ → Nat → Nat → Prop}
    (h : ∀ s t, Alike k P s t → Agree k P W (f s) (g t)) :
    Agree k P W (get >>= f) (get >>= g) := by
  refine agree_get.bind fun s t => Agree.pull fun hst => (h s t hst).before ?_
  rintro p p' ⟨rfl, rfl⟩
  exact hst.pos

lemma agree_getPos : Agree k P (fun n n' p p' => P n n' ∧ p = n ∧ p' = n') getPos getPos :=
  agree_of_look runs_getPos runs_getPos fun hst => ⟨hst.pos, rfl, rfl⟩

lemma agree_getSymbols : Agree k P (Same P) getSymbols getSymbols :=
  agree_look fun _ _ h => .ret (by rw [h.symbols])

lemma agree_getTypes : Agree k P (Same P) getTypes getTypes :=
  agree_look fun _ _ h => .ret (by rw [h.symbols])

lemma agree_textOf {ty : Ty} : Agree k P (Same P) (textOf ty) (textOf ty) :=
  agree_getTypes.then <| .ret rfl

lemma agree_functionAt {id : FuncId} :
    Agree k P (Same P) (functionAt id) (functionAt id) :=
  agree_getSymbols.then agree_orFail

lemma agree_globalAt {id : GlobalId} : Agree k P (Same P) (globalAt id) (globalAt id) :=
  agree_getSymbols.then agree_orFail

lemma agree_currentFunction? : Agree k P (Same P) currentFunction? currentFunction? := by
  refine agree_look fun s t h => ?_
  rw [h.function?]
  cases s.function? with
  | none => exact .ret rfl
  | some id => exact agree_functionAt.map fun h => ⟨by rw [h.1], h.2⟩

lemma agree_currentStruct? : Agree k P (Same P) currentStruct? currentStruct? :=
  agree_currentFunction?.then <| .ret rfl

lemma agree_hasThis : Agree k P (Same P) hasThis hasThis :=
  agree_currentFunction?.then <| .ret rfl

lemma agree_getOptions (h : k.c'.options = k.c.options) :
    Agree k P (Same P) getOptions getOptions :=
  agree_of_look runs_getOptions runs_getOptions fun hst => ⟨h, hst.pos⟩

/-! ## Writing code -/

lemma agree_modify {f g : State → State}
    (h : ∀ {s t}, Alike k P s t → Alike k M (f s) (g t)) :
    Agree k P (Any M) (modify f) (modify g) := by
  refine ⟨fun {s t a s'} hst hrun => ?_⟩
  obtain rfl := runs_modify.1 hrun
  exact ⟨(), g t, runs_modify.2 rfl, (h hst).mono fun hp => ⟨trivial, hp⟩⟩

/-- The change writes `n` words. It neither depends on the token, on where a jump landed or on AX, nor
does it touch them. -/
structure Blind (n : Nat) (f : State → State) : Prop where
  pos : ∀ s, (f s).pos = s.pos := by intro; rfl
  jumpTarget : ∀ s, (f s).jumpTarget = s.jumpTarget := by intro; rfl
  flag : ∀ s, (f s).axClobbered = s.axClobbered := by intro; rfl
  stays : ∀ s, Stays s (f s) := by intro; exact ⟨rfl, rfl, rfl⟩
  size : ∀ s, (f s).script.size = s.script.size + n := by intro; rfl
  congr : ∀ s pos jumpTarget axClobbered,
    f { s with pos, jumpTarget, axClobbered } = { f s with pos, jumpTarget, axClobbered } := by
      intros; rfl

lemma Alike.change {f g : State → State} (h : Alike k P s t) (hf : Blind n f) (hg : Blind n g)
    (hfg : k.same → g = f) : Alike k P (f s) (g t) where
  pos := by
    rw [hf.pos, hg.pos]
    exact h.pos
  left := h.left.trans (hf.stays s)
  right := h.right.trans (hg.stays t)
  level := by
    have := h.level
    simp only [Pair.Level, hf.size, hg.size] at this ⊢
    omega
  rest hs := by
    rw [hg.pos, hg.jumpTarget, hg.flag, hfg hs, ← hf.congr, ← h.rest hs]
  landed hs ht := by rw [hg.jumpTarget, hf.jumpTarget, h.landed hs ht]
  flag he := by rw [hg.flag, hf.flag, h.flag he]

lemma agree_change {f g : State → State} (hf : Blind n f) (hg : Blind n g) (hfg : k.same → g = f) :
    Agree k P (Any P) (modify f) (modify g) :=
  agree_modify fun h => h.change hf hg hfg

lemma agree_modifyScript {f g : Script → Script} (h : Tied k f g)
    (hf : ∀ s, (f s).size = s.size + n) (hg : ∀ s, (g s).size = s.size + n) :
    Agree k P (Any P) (modifyScript f) (modifyScript g) :=
  agree_change { size := fun s => hf s.script } { size := fun s => hg s.script } fun hs => by
    rw [h hs]

lemma agree_emit {operands operands' : List Int32} (h : Tied k operands operands')
    (hlength : operands'.length = operands.length) :
    Agree k P (Any P) (emit op operands) (emit op operands') :=
  agree_modifyScript (fun hs => by rw [h hs]) (fun _ => Script.size_write)
    fun _ => hlength ▸ Script.size_write

lemma agree_write {operands : List Int32} :
    Agree k P (Any P) (emit op operands) (emit op operands) :=
  agree_emit (fun _ => rfl) rfl

lemma agree_updateScript {f : Script → α × Script} (hf : ∀ s, (f s).2.size = s.size + n) :
    Agree k P (With (Tied k) P) (updateScript f) (updateScript f) := by
  refine ⟨fun {s t a s'} hst hrun => ?_⟩
  obtain ⟨rfl, rfl⟩ := runs_updateScript.1 hrun
  refine ⟨_, _, runs_updateScript.2 ⟨rfl, rfl⟩, ⟨⟨fun hs => ?_, hst.pos⟩,
    hst.left.trans ⟨rfl, rfl, rfl⟩, hst.right.trans ⟨rfl, rfl, rfl⟩, ?_, fun hs => ?_,
    hst.landed, hst.flag⟩⟩
  · rw [hst.rest hs]
  · have := hst.level
    simp only [Pair.Level, hf] at this ⊢
    omega
  · rw [hst.rest hs]

lemma agree_clobberAx : Agree k P (Any P) clobberAx clobberAx :=
  agree_modify fun hst => ⟨hst.pos, hst.left.trans ⟨rfl, rfl, rfl⟩, hst.right.trans ⟨rfl, rfl, rfl⟩,
    hst.level, fun hs => by rw [hst.rest hs], hst.landed, fun _ => rfl⟩

lemma agree_litToReg {v w : Int32} (h : Tied k v w) :
    Agree k P (Any P) (litToReg reg v) (litToReg reg w) := by
  have hwrite : Agree k P (Any P) (modifyScript (·.litToReg reg v))
      (modifyScript (·.litToReg reg w)) :=
    agree_modifyScript (fun hs => by rw [h hs]) (fun _ => Script.size_write) fun _ => Script.size_write
  exact .ite (agree_clobberAx.skip hwrite) hwrite

lemma agree_literal {v : Int32} : Agree k P (Any P) (litToReg reg v) (litToReg reg v) :=
  agree_litToReg fun _ => rfl

lemma agree_fixupLast : Agree k P (Any P) (fixupLast reference) (fixupLast reference) :=
  have h : Blind 0 fun s : State => { s with
      script := s.script.fixupLast reference.kind
      references := s.references.add (s.script.size - 1) reference } := {}
  agree_change h h fun _ => rfl

lemma agree_stringToAx {bytes : List UInt8} :
    Agree k P (Any P) (stringToAx bytes) (stringToAx bytes) :=
  (agree_updateScript (n := 0) fun _ => rfl).with fun _ _ h =>
    (agree_litToReg fun hs => by rw [h hs]).skip agree_fixupLast

lemma agree_importToReg {name : String} :
    Agree k P (Any P) (importToReg reg reference name) (importToReg reg reference name) := by
  have hsize (s : Script) : (s.addImport name).2.size = s.size + 0 := by
    unfold Script.addImport
    split <;> rfl
  exact (agree_updateScript hsize).with fun _ _ h =>
    (agree_litToReg fun hs => by rw [h hs]).skip agree_fixupLast

lemma agree_adjustStack : Agree k P (Any P) (adjustStack bytes) (adjustStack bytes) :=
  have h : Blind 0 fun s : State => { s with scope := s.scope.adjust bytes } := {}
  agree_change h h fun _ => rfl

lemma agree_pushReg : Agree k P (Any P) (pushReg reg) (pushReg reg) :=
  agree_write.skip agree_adjustStack

lemma agree_popReg : Agree k P (Any P) (popReg reg) (popReg reg) :=
  agree_write.skip agree_adjustStack

lemma agree_release : Agree k P (Any P) (release bytes) (release bytes) :=
  .ite (agree_write.skip agree_adjustStack) <| .ret trivial

lemma agree_loadLocal {offset : Int32} :
    Agree k P (Any P) (loadLocal offset) (loadLocal offset) := by
  have h : Blind 0 fun s : State =>
      { s with localUses := s.localUses.add s.script.size offset } := {}
  refine (agree_change h h fun _ => rfl).skip <| agree_look fun s t hst =>
    agree_emit (fun hs => ?_) rfl
  rw [hst.rest hs]

lemma agree_jump : Agree k P (With (TiedAt k (·.operand)) P) (jump op) (jump op) := by
  refine ⟨fun {s t j s'} hst hrun => ?_⟩
  obtain ⟨j', t', hrun', hst'⟩ :=
    (agree_updateScript (f := (·.jump op)) fun _ => Script.size_write).run hst hrun
  refine ⟨j', t', hrun', hst'.mono fun hp => ⟨⟨hp.1, ?_⟩, hp.2⟩⟩
  obtain ⟨rfl, rfl⟩ := runs_updateScript.1 hrun
  obtain ⟨rfl, rfl⟩ := runs_updateScript.1 hrun'
  have := hst.level
  simp only [Pair.Level, Script.jump, Script.size_write, List.length_singleton] at this ⊢
  omega

lemma agree_codeSize :
    Agree k P (With (fun n n' => Tied k n n' ∧ k.Level n n') P) codeSize codeSize :=
  agree_look fun _ _ h => .ret ⟨fun hs => by rw [h.rest hs], h.level⟩

lemma agree_landHere {j j' : PendingJump} (h : TiedAt k (·.operand) j j') :
    Agree k P (Any P) (landHere j) (landHere j') := by
  have hmark : Agree k P (Any P) markJumpTarget markJumpTarget :=
    agree_modify fun h => ⟨h.pos, h.left.trans ⟨rfl, rfl, rfl⟩, h.right.trans ⟨rfl, rfl, rfl⟩,
      h.level, fun hs => by rw [h.rest hs], fun hs _ => by rw [h.rest hs], h.flag⟩
  refine agree_codeSize.with fun n n' hn => .ite_iff ?_ (fun _ => .fail_bind) fun _ => ?_
  · have := h.2
    simp only [Pair.Level] at *
    omega
  · exact Agree.skip (agree_modifyScript (n := 0) (fun hs => by rw [h.1 hs])
      (fun _ => Script.size_landHere) fun _ => Script.size_landHere) hmark

lemma agree_checkpoint :
    Agree k P (With (TiedAt k (·.codeSize)) P) checkpoint checkpoint :=
  agree_look fun _ _ h => .ret ⟨fun hs => by rw [h.rest hs], h.level⟩

lemma Pair.Level.min {a a' b b' : Nat} (h : k.Level a a') (h' : k.Level b b') :
    k.Level (min a b) (min a' b') := by
  simp only [Pair.Level] at *
  omega

lemma agree_restore {p p' : Checkpoint} (h : TiedAt k (·.codeSize) p p') :
    Agree k P (Any P) (restore p) (restore p') := by
  refine agree_modify fun hst => ⟨hst.pos, hst.left.trans ⟨rfl, rfl, rfl⟩,
    hst.right.trans ⟨rfl, rfl, rfl⟩, ?_, fun hs => by rw [hst.rest hs, h.1 hs],
    fun hs ht => by rw [hst.landed hs ht, h.1 hs], hst.flag⟩
  simp only [Script.size_restore]
  exact h.2.min hst.level

lemma Agree.dryRun {V : α → β → Prop} {x : Gen α} {y : Gen β} (h : Agree k P (With V M) x y) :
    Agree k P (With (fun r r' => V r.1 r'.1 ∧ M r.2 r'.2) P) (dryRun x) (dryRun y) := by
  refine ⟨fun {s t r s'} hst hrun => ?_⟩
  obtain ⟨a, n⟩ := r
  obtain ⟨s1, hx, rfl, rfl⟩ := runs_dryRun.1 hrun
  obtain ⟨b, t1, hy, hst1⟩ := h.run hst hx
  refine ⟨(b, t1.pos), _, runs_dryRun.2 ⟨t1, hy, rfl, rfl⟩, ⟨⟨hst1.pos, hst.pos⟩,
    hst1.left.trans ⟨rfl, rfl, rfl⟩, hst1.right.trans ⟨rfl, rfl, rfl⟩, ?_, fun hs => ?_,
    fun hs ht => ?_, hst.flag⟩⟩
  · simp only [untried, Script.size_restore]
    exact hst.level.min hst1.level
  · rw [untried, hst.rest hs, hst1.rest hs]
    rfl
  · simp only [untried]
    rw [hst1.landed hs ht, hst.rest hs]

/-! ## Tokens -/

lemma Alike.moved {n' : Nat} (hst : Alike k P s t) (h : M n n') :
    Alike k M { s with pos := n } { t with pos := n' } :=
  ⟨h, hst.left.trans ⟨rfl, rfl, rfl⟩, hst.right.trans ⟨rfl, rfl, rfl⟩, hst.level,
    fun hs => by rw [hst.rest hs], hst.landed, hst.flag⟩

lemma agree_setPos {n' : Nat} (h : M n n') : Agree k P (Any M) (setPos n) (setPos n') :=
  agree_modify fun hst => hst.moved h

structure Twin (t t' : Token) : Prop where
  kind : t'.kind = t.kind
  lexeme : t'.lexeme = t.lexeme

def Sees (k : Pair) (P : Nat → Nat → Prop) (kind : Token.Kind) : Prop :=
  ∀ {p p'}, P p p' → ((k.c'.tokens.get p').kind = kind ↔ (k.c.tokens.get p).kind = kind)

def Copied (k : Pair) (P : Nat → Nat → Prop) : Prop :=
  ∀ {p p'}, P p p' → Twin (k.c.tokens.get p) (k.c'.tokens.get p')

lemma Copied.sees (h : Copied k P) : Sees k P kind :=
  fun hp => by rw [(h hp).kind]

lemma agree_peek (h : Copied k P) : Agree k P (With Twin P) peek peek :=
  agree_of_look runs_peek runs_peek fun hst => ⟨h hst.pos, hst.pos⟩

lemma agree_peek_bind {f : Token → Gen γ} {g : Token → Gen δ} {W : γ → δ → Nat → Nat → Prop}
    (hcopy : Copied k P)
    (h : ∀ t t', Twin t t' → Agree k (fun p p' => P p p' ∧ k.c.tokens.get p = t) W (f t) (g t')) :
    Agree k P W (peek >>= f) (peek >>= g) :=
  have hpeek : Agree k P (fun t t' p p' => Twin t t' ∧ P p p' ∧ k.c.tokens.get p = t) peek peek :=
    agree_of_look runs_peek runs_peek fun hst => ⟨hcopy hst.pos, hst.pos, rfl⟩
  hpeek.bind fun t t' => .pull (h t t')

lemma agree_advance
    (h : ∀ {p p'}, P p p' → M (k.c.tokens.after p) (k.c'.tokens.after p')) :
    Agree k P (Any M) advance advance := by
  refine ⟨fun {s t a s'} hst hrun => ?_⟩
  obtain ⟨rfl, rfl⟩ := runs_advance.1 hrun
  exact ⟨_, _, runs_advance.2 ⟨rfl, rfl⟩, hst.moved ⟨trivial, h hst.pos⟩⟩

lemma agree_expect {mark : Symbol} (hsees : Sees k P (.symbol mark))
    (h : ∀ {p p'}, P p p' → (k.c.tokens.get p).kind = .symbol mark →
      M (k.c.tokens.after p) (k.c'.tokens.after p')) :
    Agree k P (Any M) (expect mark) (expect mark) := by
  refine ⟨fun {s t a s'} hst hrun => ?_⟩
  obtain ⟨hk, rfl⟩ := runs_expect.1 hrun
  exact ⟨(), _, runs_expect.2 ⟨(hsees hst.pos).2 hk, rfl⟩, hst.moved ⟨trivial, h hst.pos hk⟩⟩

lemma agree_expectIdentifier (hcopy : Copied k P)
    (h : ∀ {p p'}, P p p' → (k.c.tokens.get p).kind = .identifier →
      M (k.c.tokens.after p) (k.c'.tokens.after p')) :
    Agree k P (Same M) expectIdentifier expectIdentifier := by
  refine ⟨fun {s t a s'} hst hrun => ?_⟩
  obtain ⟨hk, rfl, rfl⟩ := runs_expectIdentifier.1 hrun
  have htok := hcopy hst.pos
  exact ⟨_, _, runs_expectIdentifier.2 ⟨htok.kind.trans hk, rfl, rfl⟩,
    hst.moved ⟨htok.lexeme, h hst.pos hk⟩⟩

lemma agree_seeKind {f : Bool → Gen γ} {g : Bool → Gen δ} {W : γ → δ → Nat → Nat → Prop}
    (hsees : Sees k P kind)
    (h : ∀ b : Bool, Agree k (fun p p' => P p p' ∧ (b ↔ (k.c.tokens.get p).kind = kind)) W (f b)
      (g b)) :
    Agree k P W (checkKind kind >>= f) (checkKind kind >>= g) := by
  have hcheck : Agree k P
      (fun b b' p p' => b' = b ∧ P p p' ∧ (b = true ↔ (k.c.tokens.get p).kind = kind))
      (checkKind kind) (checkKind kind) :=
    agree_of_look runs_checkKind runs_checkKind fun hst =>
      ⟨by simp [hsees hst.pos], hst.pos, decide_eq_true_iff⟩
  refine hcheck.bind fun a b => .pull ?_
  rintro rfl
  exact h b

lemma agree_checkKind {f : Bool → Gen γ} {g : Bool → Gen δ} {W : γ → δ → Nat → Nat → Prop}
    (hsees : Sees k P kind)
    (hyes : Agree k (fun p p' => P p p' ∧ (k.c.tokens.get p).kind = kind) W (f true) (g true))
    (hno : Agree k (fun p p' => P p p' ∧ (k.c.tokens.get p).kind ≠ kind) W (f false) (g false)) :
    Agree k P W (checkKind kind >>= f) (checkKind kind >>= g) := by
  refine agree_seeKind hsees fun b => ?_
  cases b with
  | true => exact hyes.before fun hp => ⟨hp.1, by simpa using hp.2⟩
  | false => exact hno.before fun hp => ⟨hp.1, by simpa using hp.2⟩

lemma agree_eatKind {f : Bool → Gen γ} {g : Bool → Gen δ} {W : γ → δ → Nat → Nat → Prop}
    (hsees : Sees k P kind)
    (hmove : ∀ {p p'}, P p p' → (k.c.tokens.get p).kind = kind →
      M (k.c.tokens.after p) (k.c'.tokens.after p')) (hyes : Agree k M W (f true) (g true))
    (hno : Agree k (fun p p' => P p p' ∧ (k.c.tokens.get p).kind ≠ kind) W (f false) (g false)) :
    Agree k P W (eatKind kind >>= f) (eatKind kind >>= g) := by
  simp only [eatKind, bind_assoc]
  refine agree_checkKind hsees ?_ ?_
  · simpa using (agree_advance fun hp => hmove hp.1 hp.2).skip hyes
  · simpa using hno

end AdventureScript.Gen
