import AdventureScript.Proofs.Statement.Block

/-!
Ways out of constructs and functions. What lies on the stack is given back on the way.
-/
namespace AdventureScript.Gen
open Assembly

variable {q : Prop} {c : Context} {d x : Int} {s s' t v : State} {F : List Node} {u : Unit}
  {depth : Nat} {Γ : Site} {op : Opcode} {operands : List Int32} {i : Instr} {nesting : Nesting}
  {scope : Scope} {ty : Ty} {w : Keyword}

lemma Parses.leaves (ho : Open q c Γ d s) (h : Parses q c d s v F x)
    (hwf : i.WellFormed) (hends : i.op.endsFlow = true)
    (hwords : i.words v.script.size = op.toWord :: operands)
    (hjump : ∀ op t, i = .jump op (some t) → Γ.out t x)
    (hret : q → Fits v → i.op = .ret → x = 0)
    (hheld : Held (q ∧ Fits v) v.script.size [⟨i, x⟩] Γ.exits s.nesting nesting)
    (hholes : ∀ op, i = .jump op none → Waits nesting ⟨v.script.size + 1⟩)
    (hblocks : scope.blocks = s.scope.blocks) (hoffset : q → Fits v → scope.offset = Int32.ofInt d)
    (hs' : s' = { v with script := v.script.write op operands, scope, nesting }) :
    Lays q c Γ s.pos v.pos noJump d s s' (F ++ [⟨i, x⟩]) d := by
  have hout : ∀ {t y}, Γ.out t y → t ≤ v.script.size := fun ht =>
    le_trans (ho.out_le ht) (h.size_eq ▸ Nat.le_add_right ..)
  have hlast : Laid (q ∧ Calm c s.pos v.pos v) c Γ v.pos v.pos noJump x v s' [⟨i, x⟩] d := by
    subst hs'
    exact {
      code := by simp [Node.words, hwords]
      wellFormed := by
        intro n hn
        obtain rfl := List.mem_singleton.1 hn
        exact hwf
      callBytes := le_rfl
      references := .refl
      called := called_nil.concat fun hop => by
        rw [show i.op = .call from hop] at hends
        cases hends
      uses := .refl
      lines := .unmarked (.single fun hop => by
        rw [show i.op = .lineNum from hop] at hends
        cases hends)
      stocks := stocks_write rfl rfl rfl
      tidy := h.tidy.write rfl rfl rfl rfl fun u hu => .inl hu
      le := le_rfl
      localBytes := le_rfl
      function? := rfl
      bodies := rfl
      out_le := fun ht => le_trans (hout ht) (by simp)
      spent := .of_tables rfl rfl
      linked := Linked.nil.concat fun op t ht => .inr ⟨x, hjump op t ht⟩
      paced := fun hq _ =>
        Paced.concat (n := ⟨i, x⟩) .nil (fun hf => by simp [hends] at hf)
          (fun op t ht => .inr (hjump op t ht)) (h.offset hq.1 hq.2.fits).2 (hret hq.1 hq.2.fits)
      held := by
        rw [h.aside.nesting]
        exact hheld.mono fun _ _ hj => hj.imp fun hq => ⟨hq.1.1, hq.1.2.fits⟩
      holes := by
        intro p n op' hn hi
        obtain rfl := List.mem_singleton.1 (nodeAt_mem hn)
        simp only [nodeAt] at hn
        split at hn
        · next hp => exact .inr (hp ▸ hholes op' hi)
        · cases hn
      reach := by
        intro _ _ hend
        cases hend with
        | start hF => cases hF
        | last n hn hop =>
          cases hn
          simp [hends] at hop
        | jump n hn op' hi =>
          obtain rfl := List.mem_singleton.1 hn
          have hle := hout (hjump _ _ hi)
          have := Node.size_pos ⟨i, x⟩
          simp only [width_cons] at hle
          omega }
  have hall := (h.laid ho h.nested.1 id).comp hlast le_rfl le_rfl h.nested.1
    le_rfl
  refine { hall.pending fun _ => (Or.elim · id id) with starts := ?_, offset := fun hq hc => ?_ }
  · rw [hs', Scope.starts, hblocks, Scope.starts]
  · have := hall.localBytes
    rw [hs'] at this hc ⊢
    exact ⟨hoffset hq hc.fits, Int.le_refl d, by omega⟩

/-! ## Out of a construct -/

lemma parses_leaveTo (hr : Ready q c d s)
    (hx : q → s.scope.starts.reverse[depth]? = some (Int32.ofInt x) ∧ 0 ≤ x ∧ x ≤ d ∧ d < 2 ^ 31)
    (h : Runs (leaveTo depth) c s u t) :
    ∃ scope F, Parses q c d s { t with scope } F x ∧ t.scope = s.scope ∧ t.pos = s.pos := by
  simp only [leaveTo, runs_bind, runs_get] at h
  obtain ⟨b, t1, h1, _, _, ⟨rfl, rfl⟩, h2⟩ := h
  obtain ⟨F, hF, hpos, hscope, _⟩ := parses_releaseHandles hr h1
  rw [hscope] at h2
  obtain ⟨scope, G, hG, hscope', hpos'⟩ := parses_releaseOnExit (k := d - x) (hF.ready hr)
    (fun hq => by
      obtain ⟨hstart, h0, hle, hlt⟩ := hx hq.1
      refine ⟨?_, by omega, by omega, by omega⟩
      rw [Scope.sizeFrom_eq hstart, (hr.offset hq.1).1, Int32.ofInt_sub]) h2
  exact ⟨scope, F ++ G, (hF.trans hG).cast fun _ _ => by omega, hscope'.trans hscope,
    hpos'.trans hpos⟩

lemma parses_wayOut (ho : Open q c Γ d s) (hk : (c.tokens.get s.pos).kind = .keyword w)
    (hsemi : (c.tokens.get (c.tokens.after s.pos)).kind = .symbol .semicolon) (hx : x ∈ Γ.exits)
    (hstart : q → s.scope.starts.reverse[depth]? = some (Int32.ofInt x))
    (h : Runs (leaveTo depth) c { s with pos := c.tokens.after (c.tokens.after s.pos) } u t) :
    ∃ scope F, Parses (q ∧ s.localBytes < 2 ^ 31) c d s { t with scope } F x ∧
      t.scope = s.scope ∧ t.nesting = s.nesting := by
  have hr := ho.toReady.imp (r := q ∧ s.localBytes < 2 ^ 31) And.left
  have h1 := parses_pos hr
    ((Stream.nested_keyword ho.stream hk).trans (.token ho.stream hsemi rfl rfl))
  obtain ⟨scope, F, hF, hscope, hpos⟩ := parses_leaveTo (x := x) (h1.ready hr) (fun ⟨⟨hq, hl⟩, _⟩ => by
    have := ho.bound hq
    have := ho.exits hq x hx
    exact ⟨hstart hq, by omega, by omega, by omega⟩) h
  exact ⟨scope, _, h1.trans hF, hscope, hF.aside.nesting⟩

lemma Parses.leaves_waiting (ho : Open q c Γ d s)
    (hF : Parses (q ∧ s.localBytes < 2 ^ 31) c d s { t with scope } F x) (hscope : t.scope = s.scope)
    (hadd : ∀ {g F}, JumpAt g t.script.size F x ⟨t.script.size + 1⟩ →
      Held g t.script.size F Γ.exits s.nesting nesting ∧ Waits nesting ⟨t.script.size + 1⟩)
    (hs' : s' = { t with script := t.script.write .jmp [0], nesting }) :
    Finishes q c Γ d s s' d := by
  obtain ⟨hheld, hwaits⟩ := hadd (g := (q ∧ s.localBytes < 2 ^ 31) ∧ Fits { t with scope })
    (F := [⟨.jump .jmp none, x⟩]) ⟨t.script.size, _, nodeAt_cons_self, rfl, .jmp, none, rfl, fun _ => rfl⟩
  subst hs'
  refine ⟨_, (hF.leaves (ho.imp And.left) (i := .jump .jmp none) rfl rfl rfl (fun _ _ h => by cases h)
    (fun _ _ h => by cases h) hheld (fun _ _ => hwaits) rfl (fun hq _ => (ho.offset hq.1).1) ?_).absorb⟩
  rw [← hscope]

lemma lays_break (ho : Open q c Γ d s) (hk : (c.tokens.get s.pos).kind = .keyword w)
    (h : Runs compileBreak c s u s') : Finishes q c Γ d s s' d := by
  simp [compileBreak, and_assoc, runs_jump] at h
  obtain ⟨hsemi, f, hf, t, h, rfl⟩ := h
  obtain ⟨x, hx, hstart, hadd⟩ := ho.framed.addBreak hf
  obtain ⟨scope, F, hF, hscope, hnesting⟩ := parses_wayOut ho hk hsemi hx hstart h
  exact hF.leaves_waiting ho hscope hadd (by rw [hnesting])

lemma lays_continue (ho : Open q c Γ d s)
    (hk : (c.tokens.get s.pos).kind = .keyword w) (h : Runs compileContinue c s u s') :
    Finishes q c Γ d s s' d := by
  simp only [compileContinue, runs_bind, runs_advance, runs_expect, runs_get, runs_orFail] at h
  obtain ⟨_, _, ⟨rfl, rfl⟩, _, _, ⟨hsemi, rfl⟩, _, _, ⟨rfl, rfl⟩, f, _, ⟨rfl, hf⟩, _, t, h, h'⟩ := h
  obtain ⟨x, hx, hstart, hback, hadd⟩ := ho.framed.addContinue hf
  obtain ⟨scope, F, hF, hscope, hnesting⟩ := parses_wayOut ho hk hsemi hx hstart h
  split at h'
  · next target js hconstruct =>
    obtain rfl := runs_jumpTo.1 h'
    have htarget : f.target? = some target := by simp [Frame.target?, hconstruct]
    refine ⟨_, (hF.leaves (ho.imp And.left) (i := .jump .jmp (some target)) rfl rfl rfl ?_
      (fun _ _ h => by cases h) (.refl ho.framed.length_eq) (fun _ h => by cases h) rfl
      (fun hq _ => (ho.offset hq.1).1) ?_).absorb⟩
    · intro op t ht
      cases ht
      exact hback _ htarget
    · rw [← hnesting, ← hscope]
  · next hconstruct =>
    simp [runs_jump, and_assoc] at h'
    obtain rfl := h'
    have htarget : f.target? = none := by
      unfold Frame.target?
      split
      · next target js hc =>
        cases target with
        | none => rfl
        | some target => exact absurd hc (hconstruct target js)
      · rfl
    exact hF.leaves_waiting ho hscope (hadd htarget) (by rw [hnesting])

/-! ## Out of a function -/

lemma parses_saveResult (hr : Ready q c d s) (h : Runs (saveResult ty) c s u s') :
    ∃ F, Parses q c d s s' F (d + 4) ∧ s'.jumpTarget = s.jumpTarget := by
  simp only [saveResult, runs_seq, runs_ite, runs_pure] at h
  obtain ⟨t, h1, h⟩ := h
  have hF := parses_pushReg hr h1
  simp [pushReg, runs_emitRegs, runs_emit, runs_adjustStack] at h1
  rcases h with ⟨_, t', h2, h3⟩ | ⟨_, rfl, _⟩
  · have hG := hF.trans (parses_emitValue (hF.ready hr) rfl rfl rfl h2)
    refine ⟨_, hG.trans (parses_emitRegs (hG.ready hr) rfl rfl h3), ?_⟩
    rw [runs_emit.1 (runs_emitRegs.1 h3), runs_emit.1 h2, h1]
  · exact ⟨_, hF, by rw [h1]⟩

lemma parses_takeResult (hr : Ready q c (d + 4) s) (hd : q → 0 ≤ d)
    (h : Runs (takeResult ty) c s u s') : ∃ F, Parses q c (d + 4) s s' F d := by
  simp only [takeResult, runs_seq, runs_ite] at h
  rcases h with ⟨_, t1, h1, t2, h2, t3, h3, h4⟩ | ⟨_, h⟩
  · have hF := parses_emitValue hr rfl rfl rfl h1
    have hG := hF.trans (parses_emitRegs (hF.ready hr) rfl rfl h2)
    have hH := hG.trans (parses_emitBare (hG.ready hr) rfl rfl h3)
    have hpop := parses_popReg (hH.ready hr) (fun hq => by have := hd hq.1; omega) h4
    exact ⟨_, hH.trans (hpop.cast fun _ _ => by omega)⟩
  · have hpop := parses_popReg hr (fun hq => by have := hd hq; omega) h
    exact ⟨_, hpop.cast fun _ _ => by omega⟩

lemma parses_releaseKeepingAx (hr : Ready q c d s)
    (h : Runs (releaseKeepingAx ty) c s u s') : ∃ F, Parses q c d s s' F d := by
  simp only [releaseKeepingAx, runs_bind, runs_checkpoint] at h
  obtain ⟨_, _, ⟨rfl, rfl⟩, _, t, h1, b, t', h2, h3⟩ := h
  obtain ⟨F, hF, hjump⟩ := parses_saveResult hr h1
  obtain ⟨G, hG, hpos, hscope, hjump'⟩ := parses_releaseHandles (hF.ready hr) h2
  have hFG := hF.trans hG
  rw [runs_ite] at h3
  rcases h3 with ⟨_, h3⟩ | ⟨_, h3⟩
  · obtain ⟨H, hH⟩ := parses_takeResult (hFG.ready hr) (fun hq => (hr.offset hq.1).2) h3
    exact ⟨_, hFG.trans hH⟩
  · exact ⟨[], parses_unsaveMar hr hFG (fun _ => .of_eq (hjump'.trans hjump)) h3⟩

lemma parses_compileReturned (hr : Ready q c d s) (h : Runs (compileReturned ty) c s u s') :
    ∃ F, Parses q c d s s' F d := by
  simp only [compileReturned, runs_bind] at h
  obtain ⟨b, t, h1, h⟩ := h
  rw [runs_eat] at h1
  rcases h1 with ⟨hsemi, rfl, rfl⟩ | ⟨_, rfl, rfl⟩
  · simp at h
    obtain ⟨b, h⟩ : ∃ b, Runs (releaseHandles 1) c _ b s' := h.2.elim (⟨_, ·⟩) (⟨_, ·⟩)
    have h1 := parses_pos hr (.token hr.stream hsemi rfl rfl)
    obtain ⟨F, hF, _⟩ := parses_releaseHandles (h1.ready hr) h
    exact ⟨_, h1.trans hF⟩
  · simp [and_assoc] at h
    obtain ⟨_, source, t1, h1, t2, h2, hsemi, h3⟩ := h
    obtain ⟨F, _, hF⟩ := parses_expressionToAx hr h1
    obtain ⟨G, hG⟩ := parses_convertAxForStore (hF.ready hr) h2
    have hFG := hF.trans hG
    have hend := parses_pos (hFG.ready hr) (.token hr.stream hsemi rfl rfl)
    obtain ⟨H, hH⟩ := parses_releaseKeepingAx ((hFG.trans hend).ready hr) h3
    exact ⟨_, (hFG.trans hend).trans hH⟩

lemma lays_return (ho : Open q c Γ d s) (hk : (c.tokens.get s.pos).kind = .keyword w)
    (h : Runs compileReturn c s u s') : Finishes q c Γ d s s' d := by
  simp [compileReturn, and_assoc, runs_emit] at h
  obtain ⟨_, f, hf, t, h1, t', h2, rfl⟩ := h
  have hr := ho.toReady.imp (r := q ∧ s.localBytes < 2 ^ 31) And.left
  have h₀ := parses_pos hr (Stream.nested_keyword ho.stream hk)
  obtain ⟨F, hF⟩ := parses_compileReturned (h₀.ready hr) h1
  have hall := h₀.trans hF
  obtain ⟨scope, G, hG, hscope, hpos⟩ := parses_releaseOnExit (k := d) (hall.ready hr)
    (fun ⟨⟨hq, hl⟩, hs⟩ => by
      have := ho.bound hq
      have := hall.offset ⟨hq, hl⟩ hs
      exact ⟨this.1, by omega, by omega, by omega⟩) h2
  have hend := (hall.trans hG).cast (x := 0) fun _ _ => by omega
  have hblocks : t'.scope.blocks = s.scope.blocks := by rw [hscope, hall.aside.blocks]
  have hoffset : q ∧ s.localBytes < 2 ^ 31 → Fits { t' with scope } →
      t'.scope.offset = Int32.ofInt d := fun hq hs =>
    hscope ▸ (hall.offset hq (hG.fits hs)).1
  refine ⟨_, (hend.leaves (ho.imp And.left) (i := .plain .ret []) (Instr.wellFormed_bare rfl rfl) rfl
    rfl (fun _ _ h => by cases h) (fun _ _ _ => rfl) (.refl ho.framed.length_eq) (fun _ h => by cases h)
    hblocks hoffset ?_).absorb⟩
  rw [← hend.aside.nesting]

lemma lays_fallthrough (ho : Open q c Γ d s) (h : Runs compileFallthrough c s u s') :
    Lays q c Γ s.pos s'.pos noJump d s s' [] d := by
  simp [compileFallthrough, and_assoc] at h
  obtain ⟨_, _, rfl⟩ := h
  exact lays_silent ho (le_trans Stream.le_after Stream.le_after)
    (.markSwitch ho.framed.length_eq) id

end AdventureScript.Gen
