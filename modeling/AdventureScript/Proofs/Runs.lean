import AdventureScript.Compile.Basic
import Mathlib.Order.Nat
import Mathlib.Tactic.Simproc.ExistsAndEq

/-!
Reading a step of the generator backwards: from the state that it ended in to what it did.
-/
namespace AdventureScript

variable {u : Unit} {n : Nat} {b : Bool} {t : Token} {P : State → Prop} {k : Token.Kind} {f : Fault}
  {symbols : Symbols} {id : GlobalId} {v : GlobalVar}

/-- The index behind the token at `i`; the end of input stays. -/
def Stream.after (tokens : Stream) (i : Nat) : Nat :=
  if (tokens.get i).kind = .endOfInput then i else i + 1

lemma Symbols.function_eq {id : FuncId} {f : FuncDef}
    (h : symbols.functions[id.index]? = some f) : symbols.function id = f := by
  simp [Symbols.function, h]

lemma Symbols.global_eq (h : symbols.globals[id.index]? = some v) : symbols.global id = v := by
  simp [Symbols.global, h]

lemma UnaryOp.bracket_of_ofSymbol? {mark : Symbol} {op : UnaryOp} (h : ofSymbol? mark = some op) :
    mark.isOpener = false ∧ mark.isCloser = false := by
  cases mark <;> first | exact ⟨rfl, rfl⟩ | cases h

lemma BinaryOp.bracket_of_ofSymbol? {mark : Symbol} {op : BinaryOp} (h : ofSymbol? mark = some op) :
    mark.isOpener = false ∧ mark.isCloser = false := by
  cases mark <;> first | exact ⟨rfl, rfl⟩ | cases h

namespace Gen

lemma map_eq_ok_iff {α β ε : Type} {x : Except ε α} {f : α → β} {b : β} :
    x.map f = .ok b ↔ ∃ a, x = .ok a ∧ f a = b := by
  cases x <;> simp [Except.map]

/-- The step `x` ends with the value `a` in the state `s'`. -/
def Runs {α : Type} (x : Gen α) (c : Context) (s : State) (a : α) (s' : State) : Prop :=
  x c s = .ok (a, s')

variable {α β σ : Type} {c : Context} {s s' : State}

lemma exists_runs_of_any {x : Gen α} {p : α → State → Bool}
    (h : (x c s).toOption.any (fun r => p r.1 r.2) = true) :
    ∃ a s', Runs x c s a s' ∧ p a s' = true := by
  cases hx : x c s with
  | error e => simp [hx, Except.toOption] at h
  | ok r => exact ⟨r.1, r.2, hx, by simpa [hx, Except.toOption] using h⟩

lemma Runs.unique {x : Gen α} {a b : α} {t : State} (h : Runs x c s a s')
    (h' : Runs x c s b t) : b = a ∧ t = s' := by
  have := h.symm.trans h'
  simp only [Except.ok.injEq, Prod.mk.injEq] at this
  exact ⟨this.1.symm, this.2.symm⟩

@[simp] lemma runs_pure {a b : α} : Runs (pure a) c s b s' ↔ s' = s ∧ b = a := by
  change Except.ok (a, s) = Except.ok (b, s') ↔ _
  simp [eq_comm, and_comm]

@[simp] lemma runs_bind {x : Gen α} {f : α → Gen β} {b : β} :
    Runs (x >>= f) c s b s' ↔ ∃ a t, Runs x c s a t ∧ Runs (f a) c t b s' := by
  simp only [Runs, bind, ReaderT.bind, StateT.bind, Except.bind]
  cases x c s with
  | error e => simp
  | ok r =>
    obtain ⟨a, t⟩ := r
    constructor
    · intro h
      exact ⟨a, t, rfl, h⟩
    · rintro ⟨_, _, h, h'⟩
      cases h
      exact h'

lemma Runs.bind {x : Gen α} {f : α → Gen β} {a : α} {b : β} {t : State} (h : Runs x c s a t)
    (h' : Runs (f a) c t b s') : Runs (x >>= f) c s b s' :=
  runs_bind.2 ⟨a, t, h, h'⟩

@[simp high] lemma runs_seq {x : Gen Unit} {f : Unit → Gen β} {b : β} :
    Runs (x >>= f) c s b s' ↔ ∃ t, Runs x c s () t ∧ Runs (f ()) c t b s' := by
  rw [runs_bind]
  exact ⟨fun ⟨_, h⟩ => h, fun h => ⟨(), h⟩⟩

@[simp] lemma runs_map {x : Gen α} {f : α → β} {b : β} :
    Runs (f <$> x) c s b s' ↔ ∃ a, Runs x c s a s' ∧ b = f a := by
  rw [← bind_pure_comp, runs_bind]
  constructor
  · rintro ⟨a, t, h, h'⟩
    obtain ⟨rfl, rfl⟩ := runs_pure.1 h'
    exact ⟨a, h, rfl⟩
  · rintro ⟨a, h, rfl⟩
    exact ⟨a, s', h, runs_pure.2 ⟨rfl, rfl⟩⟩

@[simp] lemma runs_ite {p : Prop} [Decidable p] {x y : Gen α} {a : α} :
    Runs (if p then x else y) c s a s' ↔ (p ∧ Runs x c s a s') ∨ (¬p ∧ Runs y c s a s') := by
  split <;> simp [*]

lemma runs_ite_bind {p : Prop} [Decidable p] {x y : Gen α} {f : α → Gen β} {b : β}
    (h : Runs (if p then x >>= f else y >>= f) c s b s') :
    ∃ a t, Runs (if p then x else y) c s a t ∧ Runs (f a) c t b s' := by
  split at h
  · next hp => exact (if_pos hp).symm ▸ runs_bind.1 h
  · next hp => exact (if_neg hp).symm ▸ runs_bind.1 h

lemma runs_when {p : Prop} [Decidable p] {x : Gen α} {y : Gen β} {b : β}
    (h : Runs (if p then x >>= fun _ => y else y) c s b s') :
    ∃ t, ((p ∧ ∃ a, Runs x c s a t) ∨ (¬p ∧ t = s)) ∧ Runs y c t b s' := by
  rcases runs_ite.1 h with ⟨hp, h⟩ | ⟨hp, h⟩
  · obtain ⟨a, t, hx, hy⟩ := runs_bind.1 h
    exact ⟨t, .inl ⟨hp, a, hx⟩, hy⟩
  · exact ⟨s, .inr ⟨hp, rfl⟩, h⟩

@[simp] lemma runs_get {t : State} : Runs get c s t s' ↔ s' = s ∧ t = s := by
  simp [Runs, get, getThe, MonadStateOf.get, liftM, monadLift, MonadLift.monadLift, StateT.get,
    pure, Except.pure, eq_comm, and_comm]

@[simp] lemma runs_set {t : State} {u : PUnit} :
    Runs (set t) c s u s' ↔ s' = t := by
  constructor
  · intro h
    cases h
    rfl
  · rintro rfl
    rfl

@[simp] lemma runs_modify {f : State → State} : Runs (modify f) c s u s' ↔ s' = f s := by
  simp [Runs, modify, modifyGet, MonadStateOf.modifyGet, monadLift, MonadLift.monadLift,
    StateT.modifyGet, pure, Except.pure, eq_comm]

@[simp] lemma runs_modifyGet {f : State → α × State} {a : α} :
    Runs (modifyGet f) c s a s' ↔ s' = (f s).2 ∧ a = (f s).1 := by
  simp [Runs, modifyGet, MonadStateOf.modifyGet, monadLift, MonadLift.monadLift,
    StateT.modifyGet, pure, Except.pure, Prod.ext_iff, eq_comm, and_comm]

@[simp] lemma runs_read {d : Context} : Runs read c s d s' ↔ s' = s ∧ d = c := by
  change Except.ok (c, s) = Except.ok (d, s') ↔ _
  simp [eq_comm, and_comm]

@[simp] lemma runs_throw {f : Failure} {a : α} : ¬Runs (throw f) c s a s' := by
  simp [Runs, throw, throwThe, MonadExceptOf.throw, liftM, monadLift, MonadLift.monadLift,
    StateT.lift, bind, Except.bind]

/-! ## Tokens -/

@[simp] lemma runs_tokenAt {i : Nat} :
    Runs (tokenAt i) c s t s' ↔ s' = s ∧ t = c.tokens.get i := by
  simp [tokenAt, and_assoc]

@[simp] lemma runs_getPos : Runs getPos c s n s' ↔ s' = s ∧ n = s.pos := by
  simp [getPos, and_assoc]

@[simp] lemma runs_setPos : Runs (setPos n) c s u s' ↔ s' = { s with pos := n } := by
  simp [setPos]

@[simp] lemma runs_peek : Runs peek c s t s' ↔ s' = s ∧ t = c.tokens.get s.pos := by
  simp [peek, and_assoc]

@[simp] lemma runs_peekAt : Runs (peekAt n) c s t s' ↔ s' = s ∧ t = c.tokens.get (s.pos + n) := by
  simp [peekAt, and_assoc]

@[simp] lemma runs_advance :
    Runs advance c s t s' ↔
      s' = { s with pos := c.tokens.after s.pos } ∧ t = c.tokens.get s.pos := by
  by_cases h : (c.tokens.get s.pos).kind = .endOfInput
  · simp [advance, Stream.after, and_assoc, h]
  · simp [advance, Stream.after, and_assoc, h]

@[simp] lemma runs_checkKind :
    Runs (checkKind k) c s b s' ↔ s' = s ∧ b = decide ((c.tokens.get s.pos).kind = k) := by
  simp [checkKind, and_assoc]

@[simp] lemma runs_check {k : Symbol} :
    Runs (check k) c s b s' ↔ s' = s ∧ b = decide ((c.tokens.get s.pos).kind = .symbol k) :=
  runs_checkKind

@[simp] lemma runs_checkWord {k : Keyword} :
    Runs (checkWord k) c s b s' ↔ s' = s ∧ b = decide ((c.tokens.get s.pos).kind = .keyword k) :=
  runs_checkKind

lemma runs_atEmptyBrackets :
    Runs atEmptyBrackets c s b s' ↔ s' = s ∧
      b = ((c.tokens.get s.pos).kind = .symbol .leftBracket &&
        (c.tokens.get (s.pos + 1)).kind = .symbol .rightBracket) := by
  simp [atEmptyBrackets]

@[simp] lemma runs_atEnd :
    Runs atEnd c s b s' ↔ s' = s ∧ b = decide ((c.tokens.get s.pos).kind = .endOfInput) :=
  runs_checkKind

@[simp] lemma runs_eatKind :
    Runs (eatKind k) c s b s' ↔
      ((c.tokens.get s.pos).kind = k ∧ s' = { s with pos := c.tokens.after s.pos } ∧ b = true) ∨
      ((c.tokens.get s.pos).kind ≠ k ∧ s' = s ∧ b = false) := by
  simp [eatKind, and_assoc]

@[simp] lemma runs_eat {k : Symbol} :
    Runs (eat k) c s b s' ↔
      ((c.tokens.get s.pos).kind = .symbol k ∧
        s' = { s with pos := c.tokens.after s.pos } ∧ b = true) ∨
      ((c.tokens.get s.pos).kind ≠ .symbol k ∧ s' = s ∧ b = false) :=
  runs_eatKind

@[simp] lemma runs_eatWord {k : Keyword} :
    Runs (eatWord k) c s b s' ↔
      ((c.tokens.get s.pos).kind = .keyword k ∧
        s' = { s with pos := c.tokens.after s.pos } ∧ b = true) ∨
      ((c.tokens.get s.pos).kind ≠ .keyword k ∧ s' = s ∧ b = false) :=
  runs_eatKind

@[simp] lemma runs_findAtDepthZero {i : Nat} {stop : Token.Kind → Bool} :
    Runs (findAtDepthZero i stop) c s n s' ↔
      s' = s ∧ n = c.tokens.findAtDepthZero i stop := by
  simp [findAtDepthZero, and_assoc]

@[simp] lemma runs_tokenCount : Runs tokenCount c s n s' ↔ s' = s ∧ n = c.tokens.size := by
  simp [tokenCount, and_assoc]

@[simp] lemma runs_lastToken :
    Runs lastToken c s t s' ↔ s' = s ∧ t = c.tokens.get (s.pos - 1) := by
  simp [lastToken, and_assoc]

@[simp] lemma runs_currentLine :
    Runs currentLine c s n s' ↔ s' = s ∧ n = (c.tokens.get (s.pos - 1)).line := by
  simp [currentLine, and_assoc]

@[simp] lemma runs_currentSection {n : UInt16} :
    Runs currentSection c s n s' ↔ s' = s ∧ n = (c.tokens.get (s.pos - 1)).sectionIndex := by
  simp [currentSection, and_assoc]

@[simp] lemma runs_failAt {i : UInt16} {a : α} : ¬Runs (failAt f i n) c s a s' := by
  simp [failAt]

@[simp] lemma runs_fail {a : α} : ¬Runs (fail f) c s a s' := by
  simp [fail]

lemma runs_unless {p : Prop} [Decidable p] {x : Gen β} {g : α → Gen β} {b : β}
    (h : Runs (if p then fail f >>= g else x) c s b s') : ¬p ∧ Runs x c s b s' := by
  split at h
  · obtain ⟨_, _, h, _⟩ := runs_bind.1 h
    exact absurd h runs_fail
  · next hp => exact ⟨hp, h⟩

@[simp] lemma runs_orFail {x : Option α} {a : α} :
    Runs (orFail x f) c s a s' ↔ s' = s ∧ x = some a := by
  cases x <;> simp [orFail, eq_comm]

@[simp] lemma runs_warnAt {w : Warning} :
    Runs (warnAt t w) c s u s' ↔
      s' = { s with diagnostics :=
        s.diagnostics.warn w.message (c.tokens.sectionName t.sectionIndex) t.line } := by
  simp [warnAt, and_assoc]

@[simp] lemma runs_warn {w : Warning} :
    Runs (warn w) c s u s' ↔ Runs (warnAt (c.tokens.get (s.pos - 1)) w) c s u s' := by
  simp [warn, and_assoc]

@[simp] lemma runs_expectKind :
    Runs (expectKind k) c s t s' ↔
      (c.tokens.get s.pos).kind = k ∧ s' = { s with pos := c.tokens.after s.pos } ∧
        t = c.tokens.get s.pos := by
  simp [expectKind, and_assoc]

@[simp] lemma runs_expect {k : Symbol} :
    Runs (expect k) c s u s' ↔
      (c.tokens.get s.pos).kind = .symbol k ∧ s' = { s with pos := c.tokens.after s.pos } := by
  simp [expect]

@[simp] lemma runs_expectWord {k : Keyword} :
    Runs (expectWord k) c s u s' ↔
      (c.tokens.get s.pos).kind = .keyword k ∧ s' = { s with pos := c.tokens.after s.pos } := by
  simp [expectWord]

@[simp] lemma runs_expectIdentifier {n : String} :
    Runs expectIdentifier c s n s' ↔
      (c.tokens.get s.pos).kind = .identifier ∧ s' = { s with pos := c.tokens.after s.pos } ∧
        n = (c.tokens.get s.pos).lexeme := by
  simp [expectIdentifier, and_assoc]

@[simp] lemma runs_getSymbols {y : Symbols} :
    Runs getSymbols c s y s' ↔ s' = s ∧ y = s.symbols := by
  simp [getSymbols, and_assoc]

@[simp] lemma runs_getTypes {y : TypeTable} :
    Runs getTypes c s y s' ↔ s' = s ∧ y = s.symbols.types := by
  simp [getTypes, and_assoc]

@[simp] lemma runs_modifySymbols {f : Symbols → Symbols} :
    Runs (modifySymbols f) c s u s' ↔ s' = { s with symbols := f s.symbols } := by
  simp [modifySymbols]

@[simp] lemma runs_textOf {t : Ty} {n : String} :
    Runs (textOf t) c s n s' ↔ s' = s ∧ n = t.text s.symbols.types := by
  simp [textOf, and_assoc]

@[simp] lemma runs_getOptions {o : Options} :
    Runs getOptions c s o s' ↔ s' = s ∧ o = c.options := by
  simp [getOptions, and_assoc]

@[simp] lemma runs_functionAt {id : FuncId} {f : FuncDef} :
    Runs (functionAt id) c s f s' ↔ s' = s ∧ s.symbols.functions[id.index]? = some f := by
  simp [functionAt, and_assoc]

@[simp] lemma runs_globalAt :
    Runs (globalAt id) c s v s' ↔ s' = s ∧ s.symbols.globals[id.index]? = some v := by
  simp [globalAt, and_assoc]

@[simp] lemma runs_currentFunction? {f : Option FuncDef} :
    Runs currentFunction? c s f s' ↔
      s' = s ∧ f = s.function?.map s.symbols.function ∧
        ∀ id ∈ s.function?, id.index < s.symbols.functions.size := by
  simp only [currentFunction?, runs_bind, runs_get, and_assoc, exists_eq_left]
  cases s.function? with
  | none => simp
  | some id =>
    by_cases hid : id.index < s.symbols.functions.size
    · simp [hid, Symbols.function]
    · simp [hid, Symbols.function]

@[simp] lemma runs_currentStruct? {i : Option TypeId} :
    Runs currentStruct? c s i s' ↔
      s' = s ∧ i = (s.function?.map s.symbols.function).bind (·.structOf) ∧
        ∀ id ∈ s.function?, id.index < s.symbols.functions.size := by
  simp [currentStruct?, and_comm, and_left_comm]

@[simp] lemma runs_hasThis :
    Runs hasThis c s b s' ↔
      s' = s ∧ b = (s.function?.map s.symbols.function).any (·.needsObject) ∧
        ∀ id ∈ s.function?, id.index < s.symbols.functions.size := by
  simp [hasThis, and_comm, and_left_comm]

lemma runs_rounds {step : σ → Gen (Round σ α)} {P : σ → State → Prop} {Q : α → State → Prop}
    (again : ∀ {x y s s'}, P x s → Runs (step x) c s (.again y) s' → P y s')
    (done : ∀ {x a s s'}, P x s → Runs (step x) c s (.done a) s' → Q a s')
    {x : σ} {a : α} (h : Runs (rounds step x) c s a s') (start : P x s) : Q a s' := by
  simp only [rounds, runs_bind, runs_tokenCount] at h
  obtain ⟨n, t, ⟨rfl, rfl⟩, h⟩ := h
  generalize c.tokens.size + 1 = limit at h
  -- The induction is on the rounds that are left.
  induction limit generalizing x t with
  | zero => simp [roundsWithin] at h
  | succ limit ih =>
    simp only [roundsWithin, runs_bind] at h
    obtain ⟨r, t', hr, h⟩ := h
    cases r with
    | again y => exact ih t' (again start hr) h
    | done b =>
      obtain ⟨rfl, rfl⟩ := runs_pure.1 h
      exact done start hr

lemma runs_repeatWhile {step : Gen Bool} {Q : State → Prop}
    (again : ∀ {s s'}, P s → Runs step c s true s' → P s')
    (done : ∀ {s s'}, P s → Runs step c s false s' → Q s')
    (h : Runs (repeatWhile step) c s u s') (start : P s) : Q s' := by
  refine runs_rounds (P := fun _ => P) (Q := fun _ => Q) ?_ ?_ h start
  · intro _ _ _ _ hp hr
    obtain ⟨b, _, hr, h⟩ := runs_bind.1 hr
    obtain ⟨rfl, h⟩ := runs_pure.1 h
    cases b with
    | true => exact again hp hr
    | false => cases h
  · intro _ _ _ _ hp hr
    obtain ⟨b, _, hr, h⟩ := runs_bind.1 hr
    obtain ⟨rfl, h⟩ := runs_pure.1 h
    cases b with
    | true => cases h
    | false => exact done hp hr

@[simp] lemma runs_forM_nil {f : α → Gen Unit} :
    Runs (forM ([] : List α) f) c s u s' ↔ s' = s := by
  simp

@[simp] lemma runs_forM_cons {f : α → Gen Unit} {a : α} {as : List α} :
    Runs (forM (a :: as) f) c s u s' ↔ ∃ t, Runs (f a) c s () t ∧ Runs (forM as f) c t u s' := by
  simp

lemma runs_forM {f : α → Gen Unit} {as : List α}
    (keep : ∀ {a s s'}, a ∈ as → P s → Runs (f a) c s () s' → P s')
    (h : Runs (forM as f) c s u s') (start : P s) : P s' := by
  induction as generalizing s with
  | nil =>
    obtain rfl := runs_forM_nil.1 h
    exact start
  | cons a as ih =>
    obtain ⟨t, ha, h⟩ := runs_forM_cons.1 h
    exact ih (fun hm => keep (List.mem_cons_of_mem _ hm)) h (keep List.mem_cons_self start ha)

lemma runs_forM_each {f : α → Gen Unit} {as : List α} {Q : α → State → Prop}
    (each : ∀ {a s s'}, a ∈ as → P s → Runs (f a) c s () s' →
      P s' ∧ Q a s' ∧ ∀ b, Q b s → Q b s') (h : Runs (forM as f) c s u s') (start : P s) :
    P s' ∧ (∀ a ∈ as, Q a s') ∧ ∀ b, Q b s → Q b s' := by
  induction as generalizing s with
  | nil =>
    obtain rfl := runs_forM_nil.1 h
    exact ⟨start, nofun, fun _ hb => hb⟩
  | cons a as ih =>
    obtain ⟨t, ha, h⟩ := runs_forM_cons.1 h
    obtain ⟨hp, hq, hkeep⟩ := each List.mem_cons_self start ha
    obtain ⟨hp', hall, hkeep'⟩ := ih (fun hm => each (List.mem_cons_of_mem _ hm)) h hp
    refine ⟨hp', fun b hb => ?_, fun b hb => hkeep' b (hkeep b hb)⟩
    cases hb with
    | head => exact hkeep' a hq
    | tail _ hb => exact hall b hb

lemma forM_eq_forM_toList {f : α → Gen Unit} {as : Array α} :
    as.forM f = forM as.toList f := by
  rcases as with ⟨l⟩
  simp

lemma runs_forM_array {f : α → Gen Unit} {as : Array α}
    (keep : ∀ {a s s'}, P s → Runs (f a) c s () s' → P s')
    (h : Runs (as.forM f) c s u s') (start : P s) : P s' := by
  rw [forM_eq_forM_toList] at h
  exact runs_forM (fun _ => keep) h start

lemma runs_modifyScript {f : Script → Script} :
    Runs (modifyScript f) c s u s' ↔ s' = { s with script := f s.script } := by
  simp [modifyScript]

lemma runs_modifyScope {f : Scope → Scope} :
    Runs (modifyScope f) c s u s' ↔ s' = { s with scope := f s.scope } := by
  simp [modifyScope]

@[simp] lemma runs_codeSize : Runs codeSize c s n s' ↔ s' = s ∧ n = s.script.size := by
  simp [codeSize, and_assoc]

lemma runs_emit {op : Opcode} {operands : List Int32} :
    Runs (emit op operands) c s u s' ↔ s' = { s with script := s.script.write op operands } := by
  simp [emit, runs_modifyScript]

lemma runs_emitRegs {op : Opcode} {regs : List Register} :
    Runs (emitRegs op regs) c s u s' ↔ Runs (emit op (regs.map Register.toWord)) c s u s' := by
  simp [emitRegs, Script.writeRegs, runs_emit, runs_modifyScript]

lemma runs_clobberAx : Runs clobberAx c s u s' ↔ s' = { s with axClobbered := true } := by
  simp [clobberAx]

lemma runs_fixupLast {reference : Reference} :
    Runs (fixupLast reference) c s u s' ↔
      s' = { s with
        script := s.script.fixupLast reference.kind
        references := s.references.add (s.script.size - 1) reference } := by
  simp [fixupLast]

lemma runs_updateScript {f : Script → α × Script} {a : α} :
    Runs (updateScript f) c s a s' ↔
      s' = { s with script := (f s.script).2 } ∧ a = (f s.script).1 := by
  simp [updateScript]

lemma runs_adjustStack {delta : Int32} :
    Runs (adjustStack delta) c s u s' ↔ s' = { s with scope := s.scope.adjust delta } := by
  simp [adjustStack, runs_modifyScope]

lemma runs_markJumpTarget :
    Runs markJumpTarget c s u s' ↔ s' = { s with jumpTarget := some s.script.size } := by
  simp [markJumpTarget]

@[simp] lemma runs_isReachable : Runs isReachable c s b s' ↔ s' = s ∧ b = s.isReachable := by
  simp [isReachable, and_assoc]

@[simp] lemma runs_checkpoint {k : Checkpoint} :
    Runs checkpoint c s k s' ↔ s' = s ∧ k = s.script.checkpoint := by
  simp [checkpoint, and_assoc]

lemma runs_dryRun {x : Gen α} {a : α} :
    Runs (dryRun x) c s (a, n) s' ↔
      ∃ t, Runs x c s a t ∧ n = t.pos ∧ s' = untried s t := by
  simp only [Runs, dryRun]
  cases x c s with
  | error failure => simp
  | ok r =>
    obtain ⟨b, t⟩ := r
    constructor
    · intro h
      cases h
      exact ⟨t, rfl, rfl, rfl⟩
    · rintro ⟨_, h, rfl, rfl⟩
      cases h
      rfl

end Gen
end AdventureScript
