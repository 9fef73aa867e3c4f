import AdventureScript.Proofs.Emission.Chunk
import AdventureScript.Proofs.Statement.Exit
import AdventureScript.Proofs.Statement.Loop

/-!
Switches. The comparisons behind the clauses go back to where the clauses start, as deep as the
clauses were entered.
-/
namespace AdventureScript.Gen
open Assembly

variable {q g g' : Prop} {c : Context} {d e x : Int} {s s' t : State} {F G : List Node} {u : Unit}
  {Γ Δ : Site} {lo hi b p : Nat} {P : Nat → Prop} {statement : Gen Unit} {j : PendingJump}
  {f : Frame} {ty : Ty} {clauses clauses' : Clauses} {offset : Int32} {v : CaseValue}
  {owed : Reference → Prop} {compare : Opcode}

def CaseValue.Sound (g : Prop) (c : Context) (s : State) (d : Int) : CaseValue → Prop
  | .const _ => True
  | .code chunk marks => ∃ b F, Cut g c s d chunk marks b F

lemma CaseValue.Sound.imp (h : CaseValue.Sound g c s d v) (hg : g' → g) :
    CaseValue.Sound g' c s d v := by
  cases v with
  | const value => trivial
  | code chunk marks =>
    obtain ⟨b, F, h⟩ := h
    exact ⟨b, F, h.imp hg⟩

lemma CaseValue.Sound.stocks (h : CaseValue.Sound g c s d v) (hs : Stocks s s') :
    CaseValue.Sound g c s' d v := by
  cases v with
  | const value => trivial
  | code chunk marks =>
    obtain ⟨b, F, h⟩ := h
    exact ⟨b, F, h.stocks hs⟩

def CaseValue.Owes : CaseValue → Reference → Prop
  | .const _ => nothing
  | .code _ marks => ChunkMarks.Owes marks

lemma sound_caseValue (hr : Ready q c d s) {line : Nat}
    (h : Runs (caseValue s.script.size line ty) c s v s') :
    CaseValue.Sound (q ∧ Fits s') c s' d v ∧ Regains s s' ∧ Spends (CaseValue.Owes v) s s' ∧
      Aside s s' ∧ s.callBytes ≤ s'.callBytes ∧ s.pos ≤ s'.pos := by
  simp only [caseValue, runs_bind] at h
  obtain ⟨o, t, h1, h⟩ := h
  obtain ⟨F, hF, hy⟩ := yields_expression hr h1
  split at h
  · next value hvalue =>
    simp [and_assoc] at h
    obtain ⟨_, rfl, rfl⟩ := h
    obtain rfl := hy.constant (by simp [hvalue])
    exact ⟨trivial, hF.regains hr.tidy, hF.spent, hF.aside, hF.callBytes, hF.nested.1⟩
  · simp only [runs_bind] at h
    obtain ⟨ty', t1, h2, _, t2, h3, h4⟩ := h
    obtain ⟨G, hne, hG⟩ := Yields.toAx ⟨F, hF, hy⟩ hr h2
    obtain ⟨H, hH⟩ := parses_convertAx (hG.ready hr) h3
    have hGH := hG.trans hH
    obtain ⟨chunk, marks, rfl, hcut, hregains, _, hspent, _, _, _, _, _, _, _, rfl⟩ :=
      cut_cutCode hr hGH.toWrites (by simp [hne]) h4
    exact ⟨⟨_, _, hcut⟩, hregains, hspent, { hGH.aside with }, hGH.callBytes, hGH.nested.1⟩

def Site.owing (Γ : Site) (owed : Reference → Prop) : Site :=
  { Γ with owed := fun r => Γ.owed r ∨ owed r }

lemma Open.owing (ho : Open q c Γ d s) : Open q c (Γ.owing owed) d s :=
  { ho with }

lemma Lays.owe (h : Lays q c Γ lo hi P d s s' F e) (hmore : ∀ r, Γ.owed r → owed r) :
    Lays q c { Γ with owed } lo hi P d s s' F e :=
  { h with spent := h.spent.mono hmore }

lemma Lays.paid (h : Lays q c (Γ.owing owed) lo hi P d s s' F e) (hpaid : Pays owed s s') :
    Lays q c Γ lo hi P d s s' F e :=
  { h with spent := h.spent.paid hpaid }

def Clauses.addCase (clauses : Clauses) (k : Case) : Clauses :=
  { clauses with cases := clauses.cases.push k, start? := some k.body }

def Clauses.addDefault (clauses : Clauses) (body : Nat) : Clauses :=
  { clauses with default? := some body, start? := some body }

lemma runs_warnFallThrough {label : Token} (h : Runs (warnFallThrough label clauses) c s u s') :
    ∃ diagnostics, s' = { s with diagnostics } := by
  simp only [warnFallThrough, runs_bind, runs_get, exists_eq_left, and_assoc, runs_ite, runs_warnAt,
    runs_pure] at h
  rcases h with ⟨_, rfl⟩ | ⟨_, rfl, _⟩
  · exact ⟨_, rfl⟩
  · exact ⟨_, rfl⟩

lemma runs_startClause {n : Nat} :
    Runs startClause c s n s' ↔ s' = { s with
      jumpTarget := some s.script.size
      nesting := s.nesting.markSwitch false } ∧ n = s.script.size := by
  simp [startClause, runs_markJumpTarget]

lemma runs_checkCase (h : Runs (checkCase v clauses) c s u s') : s' = s := by
  cases v with
  | const value =>
    simp [checkCase] at h
    exact h.2
  | code => exact (runs_pure.1 h).1

lemma lays_compileDefault (ho : Open q c Γ d s) (h : Runs (compileDefault clauses) c s clauses' s') :
    clauses' = Clauses.addDefault clauses s'.script.size ∧ s'.isReachable = true ∧
      Lays q c Γ s.pos s'.pos noJump d s s' [] d := by
  simp [compileDefault, and_assoc, runs_startClause] at h
  obtain ⟨_, h1, _, _, rfl, rfl⟩ := h
  obtain ⟨_, rfl⟩ := runs_warnFallThrough h1
  refine ⟨rfl, by simp [State.isReachable], ?_⟩
  exact lays_silent ho (le_trans Stream.le_after Stream.le_after)
    (.markSwitch ho.framed.length_eq) fun _ => by simp [State.isReachable]

lemma lays_compileCase (ho : Open q c Γ d s) (hoffset : q → offset = Int32.ofInt d)
    (h : Runs (compileCase ty offset clauses) c s clauses' s') :
    ∃ value line, clauses' = Clauses.addCase clauses ⟨value, s'.script.size, line⟩ ∧
      s'.isReachable = true ∧
      Lays q c (Γ.owing (CaseValue.Owes value)) s.pos s'.pos noJump d s s' [] d ∧
      CaseValue.Sound (q ∧ Calm c s.pos s'.pos s') c s' (d + 4) value := by
  simp [compileCase, atStackOffset, and_assoc, runs_modifyScope, runs_startClause] at h
  obtain ⟨_, h1, _, value, t, h2, _, h3, _, rfl, rfl⟩ := h
  obtain ⟨diagnostics, rfl⟩ := runs_warnFallThrough h1
  obtain rfl := runs_checkCase h3
  have hr : Ready q c (d + 4) { s with
      pos := c.tokens.after s.pos
      diagnostics
      scope := { s.scope with offset := offset + cell } } := by
    refine ⟨ho.stream, ho.known, { ho.tidy with },
      fun hq => ⟨?_, by have := (ho.offset hq).2; omega⟩⟩
    rw [hoffset hq, Int32.ofInt_add]
    rfl
  obtain ⟨hvalue, hregains, hspent, haside, hbytes, hpos⟩ := sound_caseValue hr h2
  have hstocks := hregains.stocks
  refine ⟨value, _, rfl, by simp [State.isReachable], ?_, (hvalue.imp fun ⟨hq, hc⟩ => ⟨hq, hc.fits⟩).stocks
    ⟨rfl, rfl, rfl, rfl, .refl, .refl⟩⟩
  refine lays_regains ho.owing ?_ ⟨hregains.code, hregains.fixups, hregains.references,
    hregains.calls, hregains.uses, hregains.lines,
    ⟨hstocks.symbols, hstocks.globalData, hstocks.exports, hstocks.requests, hstocks.strings,
      hstocks.imports⟩, hregains.tables, hregains.lastOp⟩ (hspent.mono fun _ => .inr) ?_ (fun hq _ => (ho.offset hq).1) hbytes
    (le_of_eq haside.localBytes.symm) haside.function? haside.bodies ?_
    fun _ _ _ => by simp [State.isReachable]
  · exact le_trans Stream.le_after (le_trans hpos Stream.le_after)
  · simp [Scope.starts, haside.blocks]
  · rw [haside.nesting]
    exact .markSwitch ho.framed.length_eq

/-! ## Clauses -/

structure Label (g : Prop) (b : Nat) (F : List Node) (d : Int) (t : Nat) : Prop where
  boundary : Boundary b F t
  arrives : g → Arrives b F d t d

lemma Label.becomes {t : Nat} (h : Label g b F d t) (hnew : Becomes g g' b F d G d) :
    Label g' b G d t :=
  ⟨hnew.boundary h.boundary, fun hg => hnew.arrives hg (h.arrives (hnew.imp hg))⟩

lemma Label.append_right {t : Nat} (h : Label g (b + width F) G d t) (hg : g' → g) :
    Label g' b (F ++ G) d t :=
  ⟨h.boundary.append_right, fun hg' => (h.arrives (hg hg')).append_right⟩

lemma label_end : Label g b F d (b + width F) :=
  ⟨boundary_end, fun _ => arrives_end⟩

structure Clauses.Sound (g : Prop) (c : Context) (s : State) (b : Nat) (F : List Node) (d : Int)
    (clauses : Clauses) : Prop where
  body : ∀ {k}, k ∈ clauses.cases.toList → Label g b F d k.body
  value : ∀ {k}, k ∈ clauses.cases.toList → CaseValue.Sound g c s (d + 4) k.value
  default : ∀ {t}, clauses.default? = some t → Label g b F d t

lemma Clauses.Sound.becomes (h : Clauses.Sound g c s b F d clauses)
    (hnew : Becomes g g' b F d G d) (hs : Stocks s s') : Clauses.Sound g' c s' b G d clauses where
  body hk := (h.body hk).becomes hnew
  value hk := ((h.value hk).imp hnew.imp).stocks hs
  default ht := (h.default ht).becomes hnew

lemma Clauses.Sound.append_right (h : Clauses.Sound g c s (b + width F) G d clauses)
    (hg : g' → g) : Clauses.Sound g' c s b (F ++ G) d clauses where
  body hk := (h.body hk).append_right hg
  value hk := (h.value hk).imp hg
  default ht := (h.default ht).append_right hg

def Clauses.Owes (clauses : Clauses) (reference : Reference) : Prop :=
  ∃ k ∈ clauses.cases.toList, CaseValue.Owes k.value reference

def Clauses.StartsAt (clauses : Clauses) (p : Nat) : Prop :=
  (∃ k ∈ clauses.cases.toList, k.body = p) ∨ clauses.default? = some p

lemma Clauses.Sound.label (h : Clauses.Sound g c s b F d clauses) (hp : Clauses.StartsAt clauses p) :
    Label g b F d p := by
  rcases hp with ⟨k, hk, rfl⟩ | hp
  · exact h.body hk
  · exact h.default hp

/-- The labels and statements of a switch in the order of the source. A label writes no code: its
clause starts where the statements in front of it end. -/
inductive Listed (statement : Gen Unit) (c : Context) (ty : Ty) (offset : Int32) (s : State) :
    Clauses → State → Prop
  | start : Listed statement c ty offset s {} s
  | case {clauses : Clauses} {t t' : State} {value : CaseValue} {line : Nat}
      (h : Listed statement c ty offset s clauses t)
      (hrun : Runs (compileCase ty offset clauses) c t
        (Clauses.addCase clauses ⟨value, t.script.size, line⟩) t')
      (hcode : t'.script.code.toList = t.script.code.toList) :
      Listed statement c ty offset s (Clauses.addCase clauses ⟨value, t.script.size, line⟩) t'
  | default {clauses : Clauses} {t t' : State} (h : Listed statement c ty offset s clauses t)
      (hrun : Runs (compileDefault clauses) c t (Clauses.addDefault clauses t.script.size) t')
      (hcode : t'.script.code.toList = t.script.code.toList) :
      Listed statement c ty offset s (Clauses.addDefault clauses t.script.size) t'
  | statement {clauses : Clauses} {t t' : State} (h : Listed statement c ty offset s clauses t)
      (hrun : Runs (compileClauseStatement statement clauses) c t () t') :
      Listed statement c ty offset s clauses t'

structure Progress (q : Prop) (c : Context) (Γ : Site) (d : Int) (statement : Gen Unit) (ty : Ty)
    (level : Int32) (s t : State) (clauses : Clauses) (F : List Node) : Prop
    extends Lays q c (Γ.owing (Clauses.Owes clauses)) s.pos t.pos noJump d s t F d where
  sound : Clauses.Sound (q ∧ Calm c s.pos t.pos t) c t s.script.size F d clauses
  isEmpty : clauses.isEmpty = true → t = s
  listed : Listed statement c ty level s clauses t
  reached : q → Calm c s.pos t.pos t → Clauses.StartsAt clauses t.script.size → t.isReachable = true

section

variable (ho : Open q c Γ d s)
include ho

lemma Progress.case (hoffset : q → offset = Int32.ofInt d)
    (h : Progress q c Γ d statement ty offset s t clauses F)
    (ht : Runs (compileCase ty offset clauses) c t clauses' s') :
    ∃ G, Progress q c Γ d statement ty offset s s' clauses' G := by
  obtain ⟨value, line, rfl, hreach, hA, hvalue⟩ :=
    lays_compileCase (h.toLays.ready ho.owing) (fun ⟨hq, _⟩ => hoffset hq) ht
  have hnew := hA.becomes h.le h.size_eq
  have hsound := h.sound.becomes hnew hA.stocks
  have hall := (h.toLays.owe fun _ => .inl).trans hA
  have hsize : s'.script.size = t.script.size := hA.size_eq
  rw [hsize] at ht ⊢
  refine ⟨F ++ [], hall.owe ?_, ⟨?_, ?_, hsound.default⟩, fun he => by
    simp [Clauses.isEmpty, Clauses.addCase] at he,
    h.listed.case ht (by simpa using hA.code), fun _ _ _ => hreach⟩
  · rintro r ((hr | ⟨k, hk, hr⟩) | hr)
    · exact .inl hr
    · exact .inr ⟨k, by simp [Clauses.addCase, Array.mem_toList_iff.1 hk], hr⟩
    · exact .inr ⟨⟨value, t.script.size, line⟩, by simp [Clauses.addCase], hr⟩
  · intro k hk
    rcases (by simpa [Clauses.addCase] using hk : k ∈ clauses.cases ∨ _) with hk | rfl
    · exact hsound.body (Array.mem_toList_iff.2 hk)
    · exact hsize ▸ hall.size_eq ▸ label_end
  · intro k hk
    rcases (by simpa [Clauses.addCase] using hk : k ∈ clauses.cases ∨ _) with hk | rfl
    · exact hsound.value (Array.mem_toList_iff.2 hk)
    · exact hvalue.imp fun ⟨hq, hc⟩ => ⟨⟨hq, (hnew.imp ⟨hq, hc⟩).2⟩,
        hc.mono h.le le_rfl le_rfl le_rfl⟩

lemma Progress.default (h : Progress q c Γ d statement ty offset s t clauses F)
    (ht : Runs (compileDefault clauses) c t clauses' s') :
    ∃ G, Progress q c Γ d statement ty offset s s' clauses' G := by
  obtain ⟨rfl, hreach, hA⟩ := lays_compileDefault (h.toLays.ready ho.owing) ht
  have hsound := h.sound.becomes (hA.becomes h.le h.size_eq) hA.stocks
  have hsize : s'.script.size = t.script.size := hA.size_eq
  rw [hsize] at ht ⊢
  refine ⟨F ++ [], h.toLays.trans hA, ⟨hsound.body, hsound.value, ?_⟩, fun he => by
    simp [Clauses.isEmpty, Clauses.addDefault] at he,
    h.listed.default ht (by simpa using hA.code), fun _ _ _ => hreach⟩
  rintro _ ⟨⟩
  exact hsize ▸ (h.toLays.trans hA).size_eq ▸ label_end

omit ho in
lemma Progress.clauseStatement (hst : Lawful statement) (ho : Open q c Γ d s)
    (h : Progress q c Γ d statement ty offset s t clauses F)
    (ht : Runs (compileClauseStatement statement clauses) c t u s') :
    ∃ G, Progress q c Γ d statement ty offset s s' clauses G := by
  have hlisted := h.listed.statement ht
  simp [compileClauseStatement] at ht
  obtain ⟨hne, t', hdecl, ht⟩ := ht
  obtain rfl := runs_atDeclaration hdecl
  obtain ⟨G, e, hG, hlevel⟩ := hst.lays (h.toLays.ready ho.owing) ht
  obtain rfl := hlevel hdecl
  refine ⟨F ++ G, h.toLays.trans hG, h.sound.becomes (hG.becomes h.le h.size_eq) hG.stocks,
    fun he => by simp [hne] at he, hlisted, fun hq hc hstart => ?_⟩
  -- A clause that starts at the end was reached there in front of a statement without code.
  have hle := (h.sound.label hstart).boundary.bounds.2
  have hsize := hG.size_eq
  rw [← h.size_eq] at hle
  obtain rfl : G = [] := width_eq_zero.1 (by omega)
  rw [show s'.script.size = t'.script.size from hsize] at hstart
  have hct := hc.mono le_rfl hG.le hG.callBytes hG.localBytes
  exact hG.reach ⟨hq, hct⟩ (hc.mono h.le le_rfl le_rfl le_rfl)
    (.start rfl (h.reached hq hct hstart))

omit ho in
lemma lays_compileClauses (hst : Lawful statement) (ho : Open q c Γ d s)
    (hoffset : q → offset = Int32.ofInt d)
    (h : Runs (compileClauses statement ty offset) c s clauses s') :
    ∃ F, Progress q c Γ d statement ty offset s s' clauses F ∧
      (c.tokens.get s'.pos).kind = .symbol .rightBrace := by
  refine runs_rounds (P := fun clauses t => ∃ F, Progress q c Γ d statement ty offset s t clauses F)
    (Q := fun clauses t => ∃ F, Progress q c Γ d statement ty offset s t clauses F ∧
      (c.tokens.get t.pos).kind = .symbol .rightBrace) ?again ?done h ?start
  case again =>
    rintro clauses clauses' t t' ⟨F, hF⟩ h
    simp only [runs_bind, runs_peek, exists_eq_left, and_assoc] at h
    split at h
    · simp at h
      exact hF.case ho hoffset h
    · simp at h
      exact hF.default ho h
    · simp at h
    · simp at h
    · simp at h
      obtain ⟨⟨_, h⟩, rfl⟩ := h
      exact hF.clauseStatement hst ho h
  case done =>
    rintro clauses clauses' t t' ⟨F, hF⟩ h
    simp only [runs_bind, runs_peek, exists_eq_left, and_assoc] at h
    split at h
    · simp at h
    · simp at h
    · next hk =>
      obtain ⟨rfl, hd⟩ := runs_pure.1 h
      cases hd
      exact ⟨F, hF, hk⟩
    · simp at h
    · simp at h
  case start =>
    exact ⟨[], lays_setPos ho.owing le_rfl s.pos, ⟨by simp, by simp, by simp⟩,
      fun _ => rfl, .start, fun _ _ h => by simp [Clauses.StartsAt] at h⟩

/-! ## Comparisons -/

omit ho in
lemma parses_caseToAx (hr : Ready q c d s) (hv : CaseValue.Sound q c s (d + 4) v)
    (h : Runs (caseToAx v) c s u s') :
    ∃ F, Parses q c d s s' F d ∧ s'.pos = s.pos ∧ Pays (CaseValue.Owes v) s s' := by
  cases v with
  | const value =>
    have h : Runs (litToReg .ax value.toWord) c s u s' := h
    exact ⟨_, parses_litToReg hr h, pos_litToReg h, fun _ hr => hr.elim⟩
  | code chunk marks =>
    obtain ⟨b, F, hcut⟩ := hv
    obtain ⟨G, _, hG, hpos, hpays⟩ := parses_caseCode hr hcut h
    exact ⟨G, hG, hpos, hpays⟩

lemma lays_compileComparison {k : Case}
    (hop : compare.isCalm = true) (hcount : compare.operandCount = 2)
    (hv : CaseValue.Sound q c s (d + 4) k.value) (hout : Γ.out k.body d)
    (h : Runs (compileComparison compare k) c s u s') :
    ∃ F, Lays q c Γ s.pos s.pos noJump d s s' F d ∧ s'.pos = s.pos ∧
      Pays (CaseValue.Owes k.value) s s' := by
  simp only [compileComparison, forgetLine, runs_bind, runs_modify, exists_eq_left] at h
  obtain ⟨_, _, t1, h1, _, t2, h2, _, t3, h3, h4⟩ := h
  have hA : Lays q c Γ s.pos s.pos noJump d s { s with lastLine := 0 } [] d :=
    lays_silent ho le_rfl (.refl ho.framed.length_eq) id
  obtain ⟨B, hB, hpos1⟩ := lays_markLine (hA.ready ho) (le_refl s.pos) h1
  have hAB := hA.trans hB
  obtain ⟨C, hC, hpos2, hpays⟩ := parses_caseToAx (hAB.ready ho).toReady
    ((hv.imp And.left).stocks hAB.stocks) h2
  have hAC := hAB.trans (hC.lays_still (hAB.ready ho) le_rfl hpos2)
  have hpos3 : t3.pos = t2.pos := by
    rw [runs_emit.1 h3]
  have hD := parses_emitRegs (hAC.ready ho).toReady hop (by simpa using hcount.symm) h3
  have hAD := hAC.trans (hD.lays_still (hAC.ready ho) le_rfl hpos3)
  have hE := lays_jumpTo (hAD.ready ho) rfl (le_refl s.pos) hout h4
  refine ⟨_, hAD.trans hE, by rw [pos_jumpTo h4, hpos3, hpos2, hpos1], ?_⟩
  exact hpays.within hAB.extends.size_le fun _ hm =>
    hE.references.subset (hD.references.subset hm)

lemma lays_comparisons {ks : List Case}
    (hop : compare.isCalm = true) (hcount : compare.operandCount = 2)
    (hv : ∀ k ∈ ks, CaseValue.Sound q c s (d + 4) k.value) (hout : ∀ k ∈ ks, Γ.out k.body d)
    (h : Runs (forM ks (compileComparison compare)) c s u s') :
    ∃ F, Lays q c Γ s.pos s.pos noJump d s s' F d ∧ s'.pos = s.pos ∧
      ∀ k ∈ ks, Pays (CaseValue.Owes k.value) s s' := by
  induction ks generalizing q s with
  | nil =>
    obtain rfl := runs_forM_nil.1 h
    exact ⟨[], lays_setPos ho le_rfl _, rfl, by simp⟩
  | cons k ks ih =>
    obtain ⟨t, ht, h⟩ := runs_forM_cons.1 h
    obtain ⟨F, hF, hpos, hpays⟩ := lays_compileComparison ho hop hcount (hv k List.mem_cons_self)
      (hout k List.mem_cons_self) ht
    obtain ⟨G, hG, hpos', hpays'⟩ := ih (hF.ready ho)
      (fun k hk => ((hv k (List.mem_cons_of_mem _ hk)).imp And.left).stocks hF.stocks)
      (fun k hk => hout k (List.mem_cons_of_mem _ hk)) h
    rw [hpos] at hG hpos'
    refine ⟨F ++ G, hF.trans hG, hpos', fun k' hk' => ?_⟩
    rcases List.mem_cons.1 hk' with rfl | hk'
    · exact hpays.within le_rfl fun _ hm => hG.references.subset hm
    · exact (hpays' k' hk').within hF.extends.size_le fun _ => id

lemma lays_compileComparisons
    (hv : ∀ k ∈ clauses.cases.toList, CaseValue.Sound q c s (d + 4) k.value)
    (hcases : ∀ k ∈ clauses.cases.toList, Γ.out k.body d)
    (hdefault : ∀ t, clauses.default? = some t → Γ.out t d)
    (h : Runs (compileComparisons ty clauses) c s u s') :
    ∃ F, Lays q c Γ s.pos s.pos noJump d s s' F d ∧ s'.pos = s.pos ∧
      Pays (Clauses.Owes clauses) s s' := by
  simp only [compileComparisons, runs_bind, runs_getTypes, exists_eq_left, and_assoc] at h
  obtain ⟨_, t, h1, h2⟩ := h
  have h1 : Runs (forM clauses.cases.toList (compileComparison
      (if ty.isAnyString s.symbols.types then .stringsEqual else .isEqual))) c s () t := by
    rcases clauses with ⟨⟨ks⟩, default?, start?⟩
    simpa using h1
  obtain ⟨F, hF, hpos, hpays⟩ :=
    lays_comparisons ho (by split <;> rfl) (by split <;> rfl) hv hcases h1
  have hpays : Pays (Clauses.Owes clauses) s t := by
    rintro r ⟨k, hk, hr⟩
    exact hpays k hk r hr
  split at h2
  · next body hbody =>
    have hG := lays_jumpTo (hF.ready ho) rfl (le_refl s.pos) (hdefault body hbody) h2
    exact ⟨_, hF.trans hG, (pos_jumpTo h2).trans hpos,
      hpays.within le_rfl fun _ hm => hG.references.subset hm⟩
  · obtain ⟨rfl, _⟩ := runs_pure.1 h2
    exact ⟨F, hF, hpos, hpays⟩

/-! ## Switches -/

omit ho in
lemma parses_switchValue (hr : Ready q c d s) (h : Runs switchValue c s ty s') :
    ∃ F, Parses q c d s s' F d ∧ (c.tokens.get s.pos).kind = .symbol .leftParen ∧
      s'.pos = c.tokens.findFrom (fun _ => true) (c.tokens.after s.pos) 1 := by
  simp [switchValue, and_assoc] at h
  obtain ⟨hopen, t, h, _, hclose, rfl⟩ := h
  obtain ⟨F, _, hF⟩ := parses_expressionToAx (ready_pos hr _) h
  refine ⟨F, hF.group hr.stream hopen rfl rfl hclose rfl rfl, hopen, ?_⟩
  rw [hF.nested.2 _ 1 Stream.bound_succ, Stream.findFrom_closer hr.stream (by rw [hclose]; rfl),
    Stream.findFrom_of_stop rfl, Stream.after_of_ne (by simp [hclose])]

lemma lays_switchHead {w : Keyword} {head : Ty × PendingJump}
    (hk : (c.tokens.get s.pos).kind = .keyword w) (h : Runs switchHead c s head s') :
    ∃ F m, Lays q c Γ s.pos s'.pos (fun p => head.2 = ⟨p + 1⟩) d s s' F d ∧
      JumpAt True s.script.size F d head.2 ∧ s'.nesting = s.nesting ∧
      m = c.tokens.findFrom (fun _ => true) (s.pos + 2) 1 ∧
      (c.tokens.get m).kind = .symbol .leftBrace ∧ s'.pos = m + 1 := by
  simp only [switchHead, runs_bind, runs_advance, runs_expect, runs_pure, exists_eq_left,
    and_assoc] at h
  obtain ⟨ty, t1, h1, _, t2, h2, j, t3, h3, _, _, hbrace, rfl, rfl, rfl⟩ := h
  have hA := parses_pos ho.toReady (Stream.nested_keyword ho.stream hk)
  obtain ⟨B, hB, hopen, hpos1⟩ := parses_switchValue (hA.ready ho.toReady) h1
  have hAB := hA.trans hB
  have hABC := hAB.trans (parses_emitRegs (hAB.ready ho.toReady) rfl rfl h2)
  have hC := hABC.lays_pos ho
  obtain ⟨hj, hD⟩ := lays_jump (hC.ready ho) rfl (le_refl t2.pos) h3
  have hCD := pos_jump h3 ▸ hC.trans hD
  have hpos : t3.pos = t1.pos := by
    rw [pos_jump h3, runs_emit.1 h2]
  rw [hC.size_eq] at hj
  simp only [Stream.after_of_ne (show (c.tokens.get s.pos).kind ≠ .endOfInput by simp [hk])]
    at hopen hpos1
  rw [Stream.after_of_ne (by simp [hopen])] at hpos1
  refine ⟨_, t3.pos, hCD.followed (lays_skip (hCD.ready ho)), hj.append_right.append_left,
    ?_, hpos.trans hpos1, hbrace, Stream.after_of_ne (by simp [hbrace])⟩
  rw [runs_jump] at h3
  rw [h3.1]
  exact hABC.aside.nesting

/-- The clauses of a switch were compiled from `s` to `s'`. The jumps out of it wait in its frame. -/
structure SwitchLaid (q : Prop) (c : Context) (Γ : Site) (d : Int) (statement : Gen Unit) (ty : Ty)
    (s s' : State) (clauses : Clauses) (f : Frame) (F : List Node) : Prop
    extends Lays q c (Γ.owing (Clauses.Owes clauses)) s.pos s'.pos (fun p => Waits [f] ⟨p + 1⟩) d s s'
      F d where
  jumps : ∀ j, Waits [f] j → JumpAt (q ∧ Calm c s.pos s'.pos s') s.script.size F d j
  continues : f.continues = #[]
  sound : Clauses.Sound (q ∧ Calm c s.pos s'.pos s') c s' s.script.size F d clauses
  listed : ∃ t, t.script.code.toList <+: s'.script.code.toList ∧
    Listed statement c ty s.scope.offset
      { s with scope := s.scope.enter, nesting := ⟨.switch false, s.scope.depth, #[]⟩ :: s.nesting }
      clauses t
  reached : q → Calm c s.pos s'.pos s' → Clauses.StartsAt clauses s'.script.size →
    s'.isReachable = true
  empty : clauses.isEmpty = true → s'.nesting = s.nesting ∧
    (c.tokens.get s.pos).kind = .symbol .rightBrace ∧ s'.pos = s.pos + 1

omit ho in
lemma laid_switchBody (hst : Lawful statement) (ho : Open q c Γ d s)
    (h : Runs (switchBody statement ty s.scope.depth) c s (clauses, f) s') :
    ∃ F, SwitchLaid q c Γ d statement ty s s' clauses f F := by
  simp [switchBody, runs_within, enterBlock, and_assoc, runs_modifyScope] at h
  obtain ⟨t', ⟨t, h1, _, h2⟩, outer, houter, rfl⟩ := h
  have ho' := ho.inner (f := ⟨.switch false, s.scope.depth, #[]⟩) rfl (fun t ht => by cases ht)
  obtain ⟨F, hF, hk⟩ := lays_compileClauses hst ho' (fun hq => (ho.offset hq).1) h1
  have hskip := lays_skip (hF.toLays.ready ho'.owing)
  have hopen := (hF.toLays.trans hskip).ready ho'.owing
  obtain ⟨f', nesting, G, hnesting, hpos, hG, hjumps, hdirect, hnew⟩ :=
    (hF.toLays.trans hskip).construct (f := ⟨.switch false, s.scope.depth, #[]⟩) ho.owing rfl
      (fun t ht => by cases ht) rfl rfl h2
  have hstocks := hskip.stocks.trans (stocks_exitBlock hopen.toReady h2)
  have hbecomes := (hskip.becomes hF.le hF.size_eq).trans (hnew rfl)
  have hsound := hF.sound.becomes hbecomes hstocks
  have hsame := nesting_exitBlock hopen.toReady h2
  have hpos : t'.pos = c.tokens.after t.pos := hpos
  have hcode : t.script.code.toList <+: t'.script.code.toList := by
    have hall := hG.code
    rw [words_append, words_append, ← List.append_assoc, ← List.append_assoc] at hall
    exact hall ▸ hF.code ▸ (List.prefix_append ..).trans (List.prefix_append ..)
  obtain ⟨rfl, rfl⟩ := List.cons.inj (houter.symm.trans hnesting)
  rw [hnesting] at hsame
  rw [← hpos] at hG hjumps hsound hbecomes
  refine ⟨_, hG, hjumps, hdirect (.inl rfl), hsound.becomes .refl ⟨rfl, rfl, rfl, rfl, .refl, .refl⟩,
    ⟨t, hcode, hF.listed⟩, fun hq hc hstart => ?_, fun he => ?_⟩
  · -- Then no code was written behind the last label.
    have hle : t'.script.size ≤ t.script.size :=
      hF.size_eq ▸ (hF.sound.label hstart).boundary.bounds.2
    have hsize : t'.script.size = t.script.size :=
      Nat.le_antisymm hle (by simpa [Script.size] using hcode.length_le)
    have hreached : t'.isReachable = true := isReachable_exitBlock hopen.toReady h2
      (hF.reached hq (hbecomes.imp ⟨hq, hc⟩).2 (hsize ▸ hstart))
    exact hreached
  · obtain rfl := hF.isEmpty he
    exact ⟨(List.cons.inj hsame).2, hk, hpos.trans (Stream.after_of_ne (by simp [hk]))⟩

def targets (clauses : Clauses) (d : Int) : Outside :=
  fun t x => Clauses.StartsAt clauses t ∧ x = d

lemma Lays.switchEnd (h : Lays q c (Γ.owing (Clauses.Owes clauses)) lo t.pos
      (fun p => j = ⟨p + 1⟩ ∨ Waits [f] ⟨p + 1⟩) d s t F d)
    (hj : JumpAt True s.script.size F d j)
    (hjumps : ∀ j, Waits [f] j → JumpAt (q ∧ Calm c lo t.pos t) s.script.size F d j)
    (hf : f.continues = #[])
    (hsound : Clauses.Sound (q ∧ Calm c lo t.pos t) c t s.script.size F d clauses)
    (ht : Runs (Gen.switchEnd ty clauses f j) c t u s') :
    ∃ G, Lays q c Γ lo s'.pos noJump d s s' G d ∧
      (q → Calm c lo s'.pos s' → Calm c lo t.pos t) := by
  simp only [Gen.switchEnd, runs_bind] at ht
  obtain ⟨j?, t1, h1, _, t2, h2, _, t3, h3, h4⟩ := ht
  obtain ⟨A, hA, hj?, hpos1⟩ := lays_skipNext (h.ready ho.owing) (le_refl t.pos) h1
  have hFA := h.comp hA le_rfl le_rfl h.le le_rfl
  have hnewA := hA.becomes h.le h.size_eq
  obtain ⟨B, hB, hnewB⟩ := hFA.land (hj.imp fun _ => trivial).append_left h2
  have hpos2 : t2.pos = t.pos := (pos_landHere h2).trans hpos1
  have hsoundB := hsound.becomes (hnewA.trans hnewB) (hA.stocks.trans (stocks_landHere h2))
  -- The comparisons lie behind the clauses that they go back to.
  have hB' := hB.also (targets clauses d) fun ht => by
    rw [hB.size_eq]
    exact (hsoundB.label ht.1).boundary.bounds.2
  obtain ⟨C, hC, hpos3, hpays⟩ := lays_compileComparisons (hB'.opens ho.owing.toStands.also)
    (fun k hk => hsoundB.value hk) (fun k hk => .inr ⟨.inl ⟨k, hk, rfl⟩, rfl⟩)
    (fun t ht => .inr ⟨.inr ht, rfl⟩) h3
  rw [hpos2] at hC hpos3
  have hnewC := hC.becomes hB.le hB.size_eq
  have hnew := (hnewA.trans hnewB).trans hnewC
  have hwaits : ∀ k ∈ (f.breaks ++ j?.toArray).toList,
      JumpAt (q ∧ Calm c lo t.pos t3) s.script.size (B ++ C) d k := fun k hk => by
    rcases (by simpa using hk : k ∈ f.breaks ∨ j? = some k) with hk | hk
    · exact hnew.jump (hjumps k ⟨f, List.mem_singleton_self f, .inl (by simpa using hk)⟩)
    · exact (hnewB.trans hnewC).jump (h.jump_right hA ((hj? k hk).imp fun _ => trivial))
  obtain ⟨D, hD, hnewD⟩ := (hB'.followed hC).landAll hwaits (runs_landAllHere.1 h4)
  have hnewE := hnewC.trans hnewD
  have hpos : s'.pos = t.pos := (pos_landAllHere h4).trans hpos3
  rw [hpos]
  refine ⟨D, ((hD.pending ?_).within ho.owing ?_ ?_).paid ?_,
    fun hq hc => ((hnew.trans hnewD).imp ⟨hq, hc⟩).2⟩
  · rintro p ⟨⟨(hp | ⟨f', hf', hp⟩) | hp, hne⟩, hmem⟩
    · exact hne hp
    · obtain rfl := List.mem_singleton.1 hf'
      rcases hp with hp | hp
      · exact hmem (by simp [Array.mem_toList_iff.1 hp])
      · simp [hf] at hp
    · exact hmem (by simp [hp])
  · exact fun t x ht => ((hsoundB.label ht.1).becomes hnewE).boundary
  · rintro hq hc t x ⟨ht, rfl⟩
    exact ((hsoundB.label ht).becomes hnewE).arrives ⟨hq, hc⟩
  · exact hpays.within hB.extends.size_le (by rw [references_landAllHere h4]; exact fun _ => id)

lemma lays_emptySwitch (hempty : c.tokens.EmptySwitchAt s.pos)
    (h : Lays q c Δ s.pos t.pos P d s t F d) (hnesting : t.nesting = s.nesting) (hlt : s.pos < t.pos)
    (ht : Runs (restore s.script.checkpoint) c t u s') :
    Lays q c Γ s.pos s'.pos noJump d s s' [] d := by
  have hr := restored ho.tidy h.extends ht
  rw [hr.pos]
  have hno : ¬Calm c s.pos t.pos s' := fun hc => (hc.plain s.pos hlt le_rfl).2 hempty
  refine lays_regains ho h.le (hr.regains h.stocks ho.tidy) (.of_tables hr.imports hr.strings)
    (hr.scope ▸ h.starts)
    (fun _ hc => absurd hc hno) (hr.callBytes ▸ h.callBytes) (hr.aside.localBytes ▸ h.localBytes)
    (hr.aside.function?.trans h.function?) (hr.aside.bodies.trans h.bodies) ?_ fun _ hc => absurd hc hno
  rw [hr.aside.nesting, hnesting]
  exact .refl ho.framed.length_eq

omit ho in
lemma lays_switchParts (hst : Lawful statement) (ho : Open q c Γ d s)
    (hk : (c.tokens.get s.pos).kind = .keyword .kwSwitch) (h : Runs switchHead c s (ty, j) t)
    (h' : Runs (switchBody statement ty s.scope.depth) c t (clauses, f) s') :
    ∃ F G, Lays q c Γ s.pos t.pos (fun p => j = ⟨p + 1⟩) d s t F d ∧ JumpAt True s.script.size F d j ∧
      SwitchLaid (q ∧ Calm c s.pos t.pos t) c Γ d statement ty t s' clauses f G ∧
      (clauses.isEmpty = true → c.tokens.EmptySwitchAt s.pos ∧ s'.nesting = s.nesting ∧
        s.pos < s'.pos) := by
  obtain ⟨F, m, hF, hj, hnesting, hm, hbrace, hpos⟩ := lays_switchHead ho hk h
  have hdepth : s.scope.depth = t.scope.depth := by
    have := congrArg List.length hF.starts
    simpa [Scope.starts, Scope.depth] using this.symm
  rw [hdepth] at h'
  obtain ⟨G, hG⟩ := laid_switchBody hst (hF.ready ho) h'
  refine ⟨F, G, hF, hj, hG, fun he => ?_⟩
  obtain ⟨hnesting', hclose, hpos'⟩ := hG.empty he
  refine ⟨⟨hk, hm ▸ hbrace, by rw [← hm, ← hpos, hclose]⟩, hnesting'.trans hnesting, ?_⟩
  have := hF.le
  omega

lemma SwitchLaid.switchEnd
    (hF : Lays q c Γ s.pos t.pos (fun p => j = ⟨p + 1⟩) d s t F d) (hj : JumpAt True s.script.size F d j)
    {t' : State} (hG : SwitchLaid (q ∧ Calm c s.pos t.pos t) c Γ d statement ty t t' clauses f G)
    (h : Runs (Gen.switchEnd ty clauses f j) c t' u s') :
    ∃ H, Lays q c Γ s.pos s'.pos noJump d s s' H d ∧
      (q → Calm c s.pos s'.pos s' → Calm c s.pos t'.pos t') := by
  have hF' : Lays q c (Γ.owing (Clauses.Owes clauses)) _ _ _ _ _ _ _ _ := hF.owe fun _ => .inl
  have hFG := hF'.comp hG.toLays le_rfl hG.le hF.le le_rfl
  refine hFG.switchEnd ho hj.append_left (fun k hk => hF'.jump_right hG.toLays (hG.jumps k hk))
    hG.continues ?_ h
  refine (hF.size_eq ▸ hG.sound).append_right fun ⟨hq, hc⟩ => ⟨⟨hq, ?_⟩, ?_⟩
  · exact hc.mono le_rfl hG.le hG.callBytes hG.localBytes
  · exact hc.mono hF.le le_rfl le_rfl le_rfl

end

lemma lays_compileSwitch (hst : Lawful statement) (ho : Open q c Γ d s)
    (hk : (c.tokens.get s.pos).kind = .keyword .kwSwitch)
    (h : Runs (compileSwitch statement) c s u s') :
    Finishes q c Γ d s s' d := by
  simp only [compileSwitch, checkpoint, runs_bind, runs_get, runs_pure, exists_eq_left, and_assoc] at h
  obtain ⟨⟨ty, j⟩, t1, h1, ⟨clauses, f⟩, t2, h2, h3⟩ := h
  obtain ⟨A, B, hA, hj, hB, hempty⟩ := lays_switchParts hst ho hk h1 h2
  rw [runs_ite] at h3
  rcases h3 with ⟨he, h3⟩ | ⟨_, h3⟩
  · obtain ⟨hat, hnesting, hlt⟩ := hempty he
    have hA' : Lays q c (Γ.owing (Clauses.Owes clauses)) _ _ _ _ _ _ _ _ := hA.owe fun _ => .inl
    exact ⟨[], lays_emptySwitch ho hat
      (hA'.comp hB.toLays le_rfl hB.le hA.le le_rfl) hnesting hlt h3⟩
  · obtain ⟨F, hF, _⟩ := hB.switchEnd ho hA hj h3
    exact ⟨F, hF⟩

end AdventureScript.Gen
