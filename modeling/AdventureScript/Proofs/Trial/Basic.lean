import AdventureScript.Proofs.Script.Rollback

/-!
Steps that only write code. Whether such a step goes through or fails, what was there before it is
still there, and all that is new lies behind it, so that it can be taken back.
-/
namespace AdventureScript

/-- Marks have been added to `m` at positions from `n` on, and all lie before `size`. -/
structure Marks.Over {α : Type} (n size : Nat) (m m' : Marks α) : Prop where
  grown : Grown (n ≤ ·.position) m.entries.toList m'.entries.toList
  within : ∀ k ∈ m'.entries.toList, k.position < size

namespace Marks.Over

variable {α : Type} {m m' m'' : Marks α} {n n' size size' position : Nat} {value : α}

lemma refl (h : ∀ k ∈ m.entries.toList, k.position < size) : Over n size m m :=
  ⟨.refl, h⟩

lemma trans (h : Over n size m m') (h' : Over n' size' m' m'') (hn : n ≤ n') :
    Over n size' m m'' :=
  ⟨h.grown.trans (h'.grown.mono fun _ hk => le_trans hn hk), h'.within⟩

lemma grow (h : Over n size m m') (hsize : size ≤ size') : Over n size' m m' :=
  ⟨h.grown, fun k hk => lt_of_lt_of_le (h.within k hk) hsize⟩

lemma add (h : Over n size m m') (hn : n ≤ position) (hsize : size ≤ size')
    (hposition : position < size') : Over n size' m (m'.add position value) := by
  constructor
  · have hadd : (m'.add position value).entries.toList = m'.entries.toList ++ [⟨position, value⟩] := by
      simp [Marks.add]
    rw [hadd]
    exact h.grown.trans (.concat hn)
  · intro k hk
    have hk : k ∈ m'.entries.toList ∨ k = ⟨position, value⟩ := by simpa [Marks.add] using hk
    cases hk with
    | inl hk => exact lt_of_lt_of_le (h.within k hk) hsize
    | inr hk =>
      subst hk
      exact hposition

end Marks.Over

def Opcode.changed? : Opcode → Option Nat
  | .regToReg => some 1
  | .add | .sub | .litToReg | .memRead | .memReadB | .memReadW | .memReadPtr | .mulReg | .divReg
  | .addReg | .subReg | .bitAnd | .bitOr | .isEqual | .notEqual | .greater | .lessThan | .gte | .lte
  | .and | .or | .popReg | .mul | .modReg | .xorReg | .notReg | .shiftLeft | .shiftRight | .fAdd
  | .fSub | .fMulReg | .fDivReg | .fAddReg | .fSubReg | .fGreater | .fLessThan | .fGte | .fLte
  | .createString | .stringsEqual | .stringsNotEq | .newArray | .newUserObject => some 0
  | _ => none

/-- Whether an instruction is complete and leaves AX as it is. A call leaves its result there. -/
def Opcode.sparesAx (op : Opcode) (operands : List Int32) : Bool :=
  operands.length = op.operandCount &&
    match op with
    | .call | .callExt | .callAs => false
    | _ => op.changed?.bind (operands[·]?) ≠ some Register.ax.toWord

inductive Spares : List Int32 → Prop
  | nil : Spares []
  | write {words operands : List Int32} {op : Opcode} (h : Spares words)
      (hop : op.sparesAx operands = true) : Spares (words ++ op.toWord :: operands)

lemma Spares.append {v w : List Int32} (hv : Spares v) (hw : Spares w) : Spares (v ++ w) := by
  induction hw with
  | nil => simpa using hv
  | write _ hop ih =>
    rw [← List.append_assoc]
    exact ih.write hop

def Spared (s t : State) : Prop :=
  ∃ words, t.script.code.toList = s.script.code.toList ++ words ∧ Spares words

lemma Spared.refl {s : State} : Spared s s :=
  ⟨[], by simp, .nil⟩

lemma Spared.trans {s t t' : State} (h : Spared s t) (h' : Spared t t') : Spared s t' := by
  obtain ⟨v, hv, hspares⟩ := h
  obtain ⟨w, hw, hspares'⟩ := h'
  exact ⟨v ++ w, by rw [hw, hv, List.append_assoc], hspares.append hspares'⟩

lemma Spared.write {s : State} (hop : op.sparesAx operands = true) :
    Spared s { s with script := s.script.write op operands } :=
  ⟨op.toWord :: operands, by simp [Script.write], Spares.nil.write hop⟩

/-! ## Code that was written since -/

structure State.Within (s : State) : Prop where
  script : s.script.Bounded
  lastOp : ∀ {p}, s.script.lastOp = some p → p < s.script.size
  calls : ∀ k ∈ s.calls.entries.toList, k.position < s.script.size
  references : ∀ k ∈ s.references.entries.toList, k.position < s.script.size
  uses : ∀ k ∈ s.localUses.entries.toList, k.position < s.script.size

namespace Gen

variable {α β σ : Type} {k : Prop} {b s s' t : State} {c : Context} {fault : Fault}
  {kind : Token.Kind} {reg : Register} {reference : Reference} {n : Nat}

lemma Tidy.within (h : Tidy s) : s.Within where
  script := {
    fixups := fun _ hf => h.fixups_lt hf
    lines := fun _ hl => h.tables.lines hl
    texts := fun _ he => (h.tables.strings.holds he).lt }
  lastOp := h.lastOp
  calls _ hk := h.calls_lt hk
  references _ hk := h.references_lt hk
  uses _ hk := h.uses_lt hk

/-- Since `b` code was written, and all else that is not about the code stays. If `k` holds, then the
code leaves AX alone unless AX is noted as overwritten. -/
structure Since (k : Prop) (b s : State) : Prop where
  within : b.Within
  script : b.script.Over s.script
  lastOp : ∀ {p}, s.script.lastOp = some p → p < s.script.size
  calls : b.calls.Over b.script.size s.script.size s.calls
  references : b.references.Over b.script.size s.script.size s.references
  uses : b.localUses.Over b.script.size s.script.size s.localUses
  aside : Aside b s
  spares : k → s.axClobbered = false → Spared b s

namespace Since

lemma refl (h : s.Within) : Since k s s where
  within := h
  script := .refl h.script
  lastOp := h.lastOp
  calls := .refl h.calls
  references := .refl h.references
  uses := .refl h.uses
  aside := .refl
  spares _ _ := .refl

variable (h : Since k b s)
include h

lemma size_le : b.script.size ≤ s.script.size :=
  h.script.size_le

lemma within_right : s.Within where
  script := h.script.bounded
  lastOp := h.lastOp
  calls := h.calls.within
  references := h.references.within
  uses := h.uses.within

lemma trans (h' : Since k s t)
    (hflag : k → s.axClobbered = true → t.axClobbered = true) : Since k b t where
  within := h.within
  script := h.script.trans h'.script
  lastOp := h'.lastOp
  calls := h.calls.trans h'.calls h.size_le
  references := h.references.trans h'.references h.size_le
  uses := h.uses.trans h'.uses h.size_le
  aside := h.aside.trans h'.aside
  spares hk hclean := by
    have hs : s.axClobbered = false := Bool.eq_false_iff.2 fun hs => by simp [hflag hk hs] at hclean
    exact (h.spares hk hs).trans (h'.spares hk hclean)

lemma loose : Since False b s :=
  { h with spares := False.elim }

lemma code {script : Script} (hscript : b.script.Over script)
    (hsize : s.script.size ≤ script.size)
    (hlast : ∀ {p}, script.lastOp = some p → p < script.size)
    (hspares : k → s.axClobbered = false → Spared b { s with script }) :
    Since k b { s with script } where
  within := h.within
  script := hscript
  lastOp := hlast
  calls := h.calls.grow hsize
  references := h.references.grow hsize
  uses := h.uses.grow hsize
  aside := { h.aside with
    exports := ⟨hscript.exports, h.aside.exports.2⟩
    sections := ⟨hscript.sections, h.aside.sections.2⟩ }
  spares := hspares

lemma rest {pos lastLine callBytes : Nat} {diagnostics : Diagnostics}
    {offset : Int32} {jumpTarget : Option Nat} :
    Since k b { s with
      pos, diagnostics, scope := { s.scope with offset }, lastLine, jumpTarget, callBytes } :=
  ⟨h.within, h.script, h.lastOp, h.calls, h.references, h.uses, { h.aside with }, h.spares⟩

omit h in
lemma of_clobbered (h : Since False b s) (hs : s.axClobbered = true) : Since k b s :=
  { h with spares := fun _ hclean => by simp [hs] at hclean }

lemma clobber : Since k b { s with axClobbered := true } :=
  { h with aside := { h.aside with }, spares := fun _ => nofun }

end Since

/-! ## Steps -/

/-- The step ends, in one way or the other, where only code was written since `b`, and that AX was
overwritten is not forgotten. -/
@[irreducible]
def Ends (k : Prop) (b : State) (x : Gen α) (c : Context) (s : State) : Prop :=
  match x c s with
  | .ok (_, t) => Since k b t ∧ (s.axClobbered = true → t.axClobbered = true)
  | .error failure => Since False b failure.state

def Adds (k : Prop) (b : State) (x : Gen α) : Prop :=
  ∀ c s, Since k b s → Ends k b x c s

def Loads (x : Gen α) : Prop :=
  ∀ c s a t, Runs x c s a t → t.axClobbered = true

variable {x y : Gen α} {f : α → Gen β} {a : α}

lemma ends_of_runs (h : Runs x c s a t) (hflag : s.axClobbered = true → t.axClobbered = true)
    (ht : Since k b t) : Ends k b x c s := by
  rw [Ends, h]
  exact ⟨ht, hflag⟩

lemma ends_bind_of_runs (h : Runs x c s a t)
    (hflag : s.axClobbered = true → t.axClobbered = true) (hf : Ends k b (f a) c t) :
    Ends k b (x >>= f) c s := by
  rw [Runs] at h
  simp only [Ends, bind, ReaderT.bind, StateT.bind, Except.bind, h] at hf ⊢
  split at hf
  · exact ⟨hf.1, hf.2 ∘ hflag⟩
  · exact hf

lemma Ends.trans (h : Since k b s) (hx : Ends k s x c s) : Ends k b x c s := by
  unfold Ends at hx ⊢
  split at hx
  · exact ⟨h.trans hx.1 fun _ => hx.2, hx.2⟩
  · exact h.loose.trans hx False.elim

lemma adds_pure : Adds k b (pure a : Gen α) :=
  fun _ _ hs => ends_of_runs (runs_pure.2 ⟨rfl, rfl⟩) id hs

lemma adds_fail : Adds k b (fail fault : Gen α) := by
  intro c s hs
  rw [Ends]
  exact hs.loose

lemma Adds.bind_run (hx : Adds k b x)
    (hf : ∀ {c s a t}, Runs x c s a t → Since k b t → Ends k b (f a) c t) : Adds k b (x >>= f) := by
  intro c s hs
  have hends := hx c s hs
  cases hrun : x c s with
  | error failure =>
    simpa only [Ends, bind, ReaderT.bind, StateT.bind, Except.bind, hrun] using hends
  | ok r =>
    simp only [Ends, hrun] at hends
    exact ends_bind_of_runs hrun hends.2 (hf hrun hends.1)

lemma Adds.bind (hx : Adds k b x) (hf : ∀ a, Adds k b (f a)) : Adds k b (x >>= f) :=
  hx.bind_run fun _ ht => hf _ _ _ ht

lemma Adds.then (hx : Adds k b x) (hf : ∀ {a}, Adds k b (f a)) : Adds k b (x >>= f) :=
  hx.bind fun _ => hf

lemma Loads.then (hf : ∀ {a}, Loads (f a)) : Loads (x >>= f) := by
  intro c s a t h
  obtain ⟨_, _, _, h⟩ := runs_bind.1 h
  exact hf _ _ _ _ h

lemma Adds.noted (hx : Adds False b x) (hl : Loads x) : Adds k b x := by
  intro c s hs
  have hends := hx c s hs.loose
  unfold Ends at hends ⊢
  split at hends
  · next hrun => exact ⟨hends.1.of_clobbered (hl _ _ _ _ hrun), fun _ => hl _ _ _ _ hrun⟩
  · exact hends

lemma Adds.after (hx : Adds k b x) (hl : Loads x) (hf : ∀ a, Adds False b (f a)) :
    Adds k b (x >>= f) := by
  refine hx.bind_run fun {c s a t} hrun ht => ?_
  have hrest := hf a c t ht.loose
  unfold Ends at hrest ⊢
  split at hrest
  · have hflag := hrest.2 (hl _ _ _ _ hrun)
    exact ⟨hrest.1.of_clobbered hflag, fun _ => hflag⟩
  · exact hrest

lemma Adds.value {g : α → β} (hx : Adds k b x) : Adds k b (x >>= fun a => pure (g a)) :=
  hx.then adds_pure

lemma Adds.map {g : α → β} (hx : Adds k b x) : Adds k b (g <$> x) := by
  exact hx.value

lemma Adds.ite {q : Prop} [Decidable q] (hx : Adds k b x) (hy : Adds k b y) :
    Adds k b (if q then x else y) := by
  split
  · exact hx
  · exact hy

lemma adds_orFail {o : Option α} : Adds k b (orFail o fault) := by
  cases o with
  | none => exact adds_fail
  | some a => exact adds_pure

lemma adds_of_look {g : Context → State → α}
    (h : ∀ {c s a s'}, Runs x c s a s' ↔ s' = s ∧ a = g c s) : Adds k b x :=
  fun _ _ hs => ends_of_runs (h.2 ⟨rfl, rfl⟩) id hs

lemma Adds.fail_bind {g : β → Gen α} : Adds k b (fail fault >>= g) :=
  adds_fail.bind_run fun h => (runs_fail h).elim

lemma Adds.unless {q : Prop} [Decidable q] {g : β → Gen α} (hx : Adds k b x) :
    Adds k b (if q then fail fault >>= g else x) :=
  .ite .fail_bind hx

/-! ## Tokens and symbols -/

lemma adds_modify {g : State → State}
    (hflag : ∀ s, s.axClobbered = true → (g s).axClobbered = true)
    (h : ∀ s, Since k b s → Since k b (g s)) : Adds k b (modify g) :=
  fun _ s hs => ends_of_runs (a := ()) (runs_modify.2 rfl) (hflag s) (h s hs)

lemma adds_get : Adds k b (get : Gen State) :=
  adds_of_look runs_get

lemma adds_getPos : Adds k b getPos :=
  adds_of_look runs_getPos

lemma adds_peek : Adds k b peek :=
  adds_of_look runs_peek

lemma adds_peekAt : Adds k b (peekAt n) :=
  adds_of_look runs_peekAt

lemma adds_checkKind : Adds k b (checkKind kind) :=
  adds_of_look runs_checkKind

lemma adds_findAtDepthZero {stop : Token.Kind → Bool} : Adds k b (findAtDepthZero n stop) :=
  adds_of_look runs_findAtDepthZero

lemma adds_tokenCount : Adds k b tokenCount :=
  adds_of_look runs_tokenCount

lemma adds_getOptions : Adds k b getOptions :=
  adds_of_look runs_getOptions

lemma adds_getSymbols : Adds k b getSymbols :=
  adds_of_look runs_getSymbols

lemma adds_getTypes : Adds k b getTypes :=
  adds_of_look runs_getTypes

lemma adds_textOf {ty : Ty} : Adds k b (textOf ty) :=
  adds_of_look runs_textOf

lemma adds_codeSize : Adds k b codeSize :=
  adds_of_look runs_codeSize

lemma adds_atExpressionEnd : Adds k b atExpressionEnd :=
  adds_peek.value

lemma adds_setPos : Adds k b (setPos n) :=
  adds_modify (fun _ => id) fun _ hs => hs.rest

lemma adds_advance : Adds k b advance :=
  adds_peek.then <| .ite ((adds_modify (by exact fun _ => id) fun _ hs => hs.rest).value)
      adds_pure

lemma adds_eatKind : Adds k b (eatKind kind) :=
  adds_checkKind.then <| .ite adds_advance.value adds_pure

lemma adds_expectKind : Adds k b (expectKind kind) :=
  adds_checkKind.then <| .ite adds_advance <| adds_peek.then adds_fail

lemma adds_expect {mark : Symbol} : Adds k b (expect mark) :=
  adds_expectKind.value

lemma adds_expectIdentifier : Adds k b expectIdentifier :=
  adds_peek.then <| .ite adds_advance.value adds_fail

lemma adds_functionAt {id : FuncId} : Adds k b (functionAt id) :=
  adds_getSymbols.then adds_orFail

lemma adds_globalAt {id : GlobalId} : Adds k b (globalAt id) :=
  adds_getSymbols.then adds_orFail

lemma adds_currentFunction? : Adds k b currentFunction? := by
  refine adds_get.bind fun s => ?_
  cases s.function? with
  | none => exact adds_pure
  | some id => exact adds_functionAt.map

lemma adds_currentStruct? : Adds k b currentStruct? :=
  adds_currentFunction?.value

lemma adds_hasThis : Adds k b hasThis :=
  adds_currentFunction?.value

lemma adds_roundsWithin {step : σ → Gen (Round σ α)} (h : ∀ r, Adds k b (step r)) (limit : Nat)
    (start : σ) : Adds k b (roundsWithin step limit start) := by
  induction limit generalizing start with
  | zero => exact adds_fail
  | succ limit ih =>
    refine (h start).bind fun r => ?_
    cases r with
    | again next => exact ih next
    | done result => exact adds_pure

lemma adds_rounds {step : σ → Gen (Round σ α)} {start : σ} (h : ∀ r, Adds k b (step r)) :
    Adds k b (rounds step start) :=
  adds_tokenCount.then <| adds_roundsWithin h _ _

lemma adds_forM {as : List α} {f : α → Gen Unit} (h : ∀ a, Adds k b (f a)) :
    Adds k b (as.forM f) := by
  induction as with
  | nil => exact adds_pure
  | cons a as ih => exact (h a).then ih

lemma Since.write (h : Since k b s)
    (hop : k → s.axClobbered = false → op.sparesAx operands = true) :
    Since k b { s with script := s.script.write op operands } := by
  refine h.code h.script.write ?_ (fun {p} hp => ?_) fun hk hclean => ?_
  · rw [Script.size_write]
    exact Nat.le_add_right _ _
  · cases hp
    rw [Script.size_write]
    exact Nat.lt_add_of_pos_right (Nat.succ_pos _)
  · exact (h.spares hk hclean).trans (.write (hop hk hclean))

lemma adds_emit (hop : k → op.sparesAx operands = true) : Adds k b (emit op operands) :=
  adds_modify (fun _ => id) fun _ hs => hs.write fun hk _ => hop hk

lemma Adds.write {f : Unit → Gen β} (hop : k → op.sparesAx operands = true)
    (hf : Adds k b (f ())) : Adds k b (emit op operands >>= f) :=
  (adds_emit hop).then hf

lemma adds_emitRegs {regs : List Register}
    (hop : k → op.sparesAx (regs.map Register.toWord) = true) : Adds k b (emitRegs op regs) :=
  adds_emit hop

lemma adds_clobberAx : Adds k b clobberAx :=
  adds_modify (fun _ _ => rfl) fun _ hs => hs.clobber

lemma adds_adjustStack {delta : Int32} : Adds k b (adjustStack delta) :=
  adds_modify (fun _ => id) fun _ hs => hs.rest

lemma adds_pushReg : Adds k b (pushReg reg) :=
  .write (fun _ => rfl) adds_adjustStack

lemma adds_popReg (hop : k → Opcode.popReg.sparesAx [reg.toWord] = true) : Adds k b (popReg reg) :=
  (adds_emitRegs hop).then adds_adjustStack

lemma adds_release {bytes : Int32} : Adds k b (release bytes) :=
  .ite (.write (fun _ => rfl) adds_adjustStack) adds_pure

lemma adds_loadLocal {offset : Int32} : Adds k b (loadLocal offset) := by
  intro c s hs
  refine ends_of_runs (a := ()) (t := { s with
    script := s.script.write .loadSpOffs [s.scope.distance offset]
    localUses := s.localUses.add s.script.size offset }) ?_ id ?_
  · simp [loadLocal, emit, modifyScript]
  · have hw : Since k b { s with script := s.script.write .loadSpOffs [s.scope.distance offset] } :=
      hs.write fun _ _ => rfl
    have hsize : s.script.size < (s.script.write .loadSpOffs [s.scope.distance offset]).size := by
      rw [Script.size_write]
      exact Nat.lt_add_of_pos_right (Nat.succ_pos _)
    exact { hw with
      uses := hs.uses.add hs.size_le (le_of_lt hsize) hsize
      aside := { hw.aside with } }

/-! ## Fixups -/

structure Longer (k : Prop) (b s : State) : Prop extends Since k b s where
  size_lt : b.script.size < s.script.size

lemma Longer.fixup (h : Longer k b s) :
    Longer k b { s with
      script := s.script.fixupLast reference.kind
      references := s.references.add (s.script.size - 1) reference } := by
  have hlt := h.size_lt
  have hlast : s.script.size - 1 < s.script.size := by omega
  have hc : Since k b { s with script := s.script.fixupLast reference.kind } :=
    h.code (h.script.fixupLast hlt) le_rfl h.lastOp h.spares
  exact { hc with
    references := h.references.add (Nat.le_sub_one_of_lt hlt) le_rfl hlast
    aside := { hc.aside with }
    size_lt := hlt }

lemma Longer.noteCall (h : Longer k b s) {id : FuncId} :
    Longer k b { s with calls := s.calls.add (s.script.size - 1) id } := by
  have hlt := h.size_lt
  have hlast : s.script.size - 1 < s.script.size := by omega
  exact { h with
    calls := h.calls.add (Nat.le_sub_one_of_lt hlt) le_rfl hlast
    aside := { h.aside with } }

lemma Adds.literal {value : Int32} {f : Unit → Gen β}
    (hf : ∀ c s, Longer k b s → Ends k b (f ()) c s) : Adds k b (litToReg reg value >>= f) := by
  intro c s hs
  have hsize : b.script.size < (s.script.litToReg reg value).size := by
    have := hs.size_le
    simp only [Script.litToReg, Script.size_write]
    omega
  by_cases hreg : reg = .ax
  · have hw : Since k b { s with axClobbered := true, script := s.script.litToReg reg value } :=
      hs.clobber.write fun _ h => by cases h
    refine ends_bind_of_runs (a := ()) ?_ (fun _ => rfl) (hf c _ { hw with size_lt := hsize })
    simp [litToReg, hreg, clobberAx, modifyScript]
  · have hw : Since k b { s with script := s.script.litToReg reg value } :=
      hs.write fun _ _ => by cases reg <;> first | rfl | exact absurd rfl hreg
    refine ends_bind_of_runs (a := ()) ?_ (by exact id) (hf c _ { hw with size_lt := hsize })
    simp [litToReg, hreg, modifyScript]

lemma adds_litToReg {value : Int32} : Adds k b (litToReg reg value) := by
  rw [← bind_pure (litToReg reg value)]
  exact .literal fun c s hs => adds_pure c s hs.toSince

lemma ends_fixupLast (h : Longer k b s) : Ends k b (fixupLast reference) c s :=
  ends_of_runs (a := ()) (runs_fixupLast.2 rfl) id h.fixup.toSince

lemma adds_updateScript {g : Script → α × Script} (hover : ∀ s, b.script.Over s →
    b.script.Over (g s).2) (hcode : ∀ s : Script, (g s).2.code = s.code)
    (hlast : ∀ s : Script, (g s).2.lastOp = s.lastOp) : Adds k b (updateScript g) := by
  intro c s hs
  refine ends_of_runs (runs_updateScript.2 ⟨rfl, rfl⟩) id ?_
  have hsize : (g s.script).2.size = s.script.size := congrArg Array.size (hcode _)
  refine hs.code (hover _ hs.script) (le_of_eq hsize.symm) (fun {p} hp => ?_) ?_
  · rw [hsize]
    rw [hlast] at hp
    exact hs.lastOp hp
  · rw [Spared, hcode]
    exact hs.spares

lemma adds_stringToAx {bytes : List UInt8} : Adds k b (stringToAx bytes) :=
  (adds_updateScript (fun _ h => h.addString) (fun _ => rfl) fun _ => rfl).then <|
    .literal fun _ _ hs => ends_fixupLast hs

lemma adds_importToReg {name : String} : Adds k b (importToReg reg reference name) := by
  refine Adds.then (adds_updateScript (fun _ h => h.addImport) (fun s => ?_) fun s => ?_) <|
    .literal fun _ _ hs => ends_fixupLast hs
  · unfold Script.addImport
    split <;> rfl
  · unfold Script.addImport
    split <;> rfl

lemma Adds.jump {f : PendingJump → Gen β}
    (hf : ∀ j : PendingJump, b.script.size ≤ j.operand → Adds False b (f j)) :
    Adds False b (jump op >>= f) := by
  intro c s hs
  refine ends_bind_of_runs (runs_updateScript.2 ⟨rfl, rfl⟩) id ?_
  have hj : b.script.size ≤ (s.script.jump op).1.operand := by
    have := hs.size_le
    simp only [Script.jump, Script.size_write]
    omega
  have hw : Since False b { s with script := (s.script.jump op).2 } := hs.write False.elim
  exact hf _ hj c _ hw

lemma adds_landHere {j : PendingJump} (hj : b.script.size ≤ j.operand) :
    Adds False b (landHere j) := by
  have hland : Adds False b (modifyScript (·.landHere j)) := by
    refine adds_modify (fun _ => id) fun s hs => ?_
    have hsize : (s.script.landHere j).size = s.script.size := Script.size_landHere
    exact hs.code (hs.script.patch hj) (le_of_eq hsize.symm) (fun hp => hsize ▸ hs.lastOp hp)
      False.elim
  exact adds_codeSize.then <| .unless <| hland.then <| adds_modify (fun _ => id) fun _ hs => hs.rest

lemma Since.restore (h : Since k b s) {jumpTarget : Option Nat} :
    Since k b { s with
      script := s.script.restore b.script.checkpoint
      calls := s.calls.keepBefore b.script.size
      references := s.references.keepBefore b.script.size
      localUses := s.localUses.keepBefore b.script.size
      jumpTarget } := by
  have hscript := h.script.restore_eq h.within.script h.within.lastOp
  have hcalls := keepBefore_of_grown h.calls.grown h.within.calls
  have hreferences := keepBefore_of_grown h.references.grown h.within.references
  have huses := keepBefore_of_grown h.uses.grown h.within.uses
  rw [hscript, hcalls, hreferences, huses]
  exact {
    within := h.within
    script := .refl h.within.script
    lastOp := h.within.lastOp
    calls := .refl h.within.calls
    references := .refl h.within.references
    uses := .refl h.within.uses
    aside := { h.aside with
      exports := ⟨rfl, h.aside.exports.2⟩
      sections := ⟨rfl, h.aside.sections.2⟩ }
    spares := fun _ _ => .refl }

lemma adds_restore : Adds k b (restore b.script.checkpoint) :=
  adds_modify (fun _ => id) fun _ hs => hs.restore

lemma Adds.checkpoint {f : Checkpoint → Gen β} (hf : ∀ b, Adds k b (f b.script.checkpoint)) :
    Adds k b (checkpoint >>= f) := by
  intro c s hs
  refine ends_bind_of_runs (runs_checkpoint.2 ⟨rfl, rfl⟩) id ?_
  exact .trans hs (hf s c s (.refl hs.within_right))

lemma Since.untried (h : Since k b s) :
    Gen.untried b s = { b with jumpTarget := s.jumpTarget.filter (· ≤ b.script.size) } := by
  have haside := h.aside
  ext1
  case script => exact h.script.restore_eq h.within.script h.within.lastOp
  case symbols => exact haside.symbols
  case scope =>
    ext1
    · exact haside.blocks
    · exact (Int32.add_comm _ _).trans (Int32.sub_add_cancel _ _)
  case nesting => exact haside.nesting
  case calls => exact keepBefore_of_grown h.calls.grown h.within.calls
  case function? => exact haside.function?
  case sectionIndex? => exact haside.sections.2
  case exportRequests => exact haside.exports.2
  case references => exact keepBefore_of_grown h.references.grown h.within.references
  case localUses => exact keepBefore_of_grown h.uses.grown h.within.uses
  case localBytes => exact haside.localBytes
  case bodies => exact haside.bodies
  all_goals rfl

lemma Adds.dryRun (hx : ∀ b, Adds False b x) : Adds k b (dryRun x) := by
  intro c s hs
  have hends := hx s c s (.refl hs.within_right)
  simp only [Ends, Gen.dryRun] at hends ⊢
  cases hrun : x c s with
  | error failure =>
    rw [hrun] at hends
    simp only [hends.untried]
    exact hs.rest.loose
  | ok r =>
    rw [hrun] at hends
    simp only [hends.1.untried]
    exact ⟨hs.rest, id⟩

end Gen
end AdventureScript
