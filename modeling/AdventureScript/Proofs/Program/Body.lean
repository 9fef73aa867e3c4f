import AdventureScript.Proofs.Program.Code
import AdventureScript.Proofs.Statement.Basic

/-!
The body of a function: a piece of code that starts with its own address, whose jumps all stay
within it, and which control does not run out of at its end.
-/
namespace AdventureScript

open Assembly

variable {params : List (Param × Nat)}

abbrev Body.Bounded (b : Body) (tokens : Stream) : Prop :=
  Gen.Bounded tokens b.tokens.start b.tokens.stop b.callBytes b.localBytes

/-- What the code of a function is. Of the marks of local variables those within it count. -/
structure Body.Piece (tokens : Stream) (uses : List (Mark Int32)) (b : Body) (F : List Node) :
    Prop where
  stop_eq : b.stop = b.start + width F
  head? : F.head? = some ⟨.plain .thisBase [Int32.ofNat b.start], 0⟩
  linked : Linked nowhere b.start F
  settled : Settled F
  paced : b.Bounded tokens → ∃ e, Paced nowhere b.start F 0 e
  closed : b.Bounded tokens → ¬Ends False b.start F
  uses : ∀ u ∈ uses, b.start ≤ u.position → u.position < b.stop →
    OnLocal (b.Bounded tokens) b.start F u

namespace Body.Piece

variable {tokens : Stream} {uses more : List (Mark Int32)} {b : Body} {F : List Node}
  {f : Nat → Int32 → Int32}

lemma relit (h : b.Piece tokens uses F) : b.Piece tokens uses (relit f b.start F) where
  stop_eq := by rw [width_relabel, h.stop_eq]
  head? := by
    have hhead := h.head?
    cases F with
    | nil => cases hhead
    | cons n F =>
      cases hhead
      rfl
  linked := h.linked.relit
  settled := h.settled.relit
  paced hb := by
    obtain ⟨e, he⟩ := h.paced hb
    exact ⟨e, he.relit⟩
  closed hb hends := h.closed hb hends.of_relit
  uses u hu hlo hhi := (h.uses u hu hlo hhi).relit

lemma grow (h : b.Piece tokens uses F) (hmore : ∀ u ∈ more, b.stop ≤ u.position) :
    b.Piece tokens (uses ++ more) F :=
  { h with
    uses := fun u hu hlo hhi => by
      rcases List.mem_append.1 hu with hu | hu
      · exact h.uses u hu hlo hhi
      · have := hmore u hu
        omega }

end Body.Piece

namespace Gen

variable {q : Prop} {c : Context} {d e x : Int} {s s' t : State} {F G : List Node} {u : Unit}
  {Γ : Site} {lo hi : Nat} {id : FuncId} {f : FuncDef} {P : Nat → Prop}

lemma lays_declare {v : Variable} {scope : Scope} (ho : Open q c Γ d s) (hle : lo ≤ hi)
    (h : s.scope.declare v = .ok scope) :
    Lays q c Γ lo hi noJump d s { s with scope } [] d := by
  obtain rfl := eq_add_of_declare h
  refine lays_regains ho hle ?_ (.of_tables rfl rfl) starts_add (fun hq _ => offset_add.trans (ho.offset hq).1)
    le_rfl le_rfl rfl rfl (.refl ho.framed.length_eq) fun _ _ => id
  exact ⟨rfl, rfl, rfl, rfl, rfl, rfl, ⟨rfl, rfl, rfl, rfl, .refl, .refl⟩, ho.tidy.tables, ho.tidy.lastOp⟩

lemma parses_countHandle {offset : Int32} (hr : Ready q c d s) {t1 t2 : State}
    (h1 : Runs (loadLocal offset) c s () t1) (h2 : Runs (emitRegs .memRead [.ax]) c t1 () t2)
    (h3 : Runs (emitRegs .memInitPtr [.ax]) c t2 () s') :
    ∃ F, Parses q c d s s' F d ∧ s'.pos = s.pos := by
  have hA := parses_loadLocal hr h1
  have hB := hA.trans (parses_emitRegs (hA.ready hr) rfl rfl h2)
  refine ⟨_, hB.trans (parses_emitRegs (hB.ready hr) rfl rfl h3), ?_⟩
  simp [loadLocal, and_assoc, runs_emit] at h1
  rw [runs_emit.1 (runs_emitRegs.1 h3), runs_emit.1 (runs_emitRegs.1 h2), h1]

lemma lays_declareParam {p : Param} {k : Nat} (ho : Open q c Γ d s)
    (h : Runs (declareParam p k) c s u s') :
    s'.pos = s.pos ∧ ∃ F, Lays q c Γ s.pos s.pos noJump d s s' F d := by
  obtain ⟨t, F, hF, hpos, h⟩ : ∃ t F, Parses q c d s t F d ∧ t.pos = s.pos ∧
      (s' = t ∨ ∃ v scope, t.scope.declare v = .ok scope ∧ s' = { t with scope }) := by
    unfold declareParam at h
    extract_lets offset rest at h
    have hname {t : State} (h : Runs (rest ()) c t u s') :
        s' = t ∨ ∃ v scope, t.scope.declare v = .ok scope ∧ s' = { t with scope } := by
      dsimp only [rest] at h
      split at h
      · simp only [runs_bind, runs_get, exists_eq_left, and_assoc] at h
        split at h
        · next hd => exact .inr ⟨_, _, hd, runs_modifyScope.1 h⟩
        · simp at h
      · exact .inl (runs_pure.1 h).1
    simp only [runs_ite, runs_seq] at h
    rcases h with ⟨_, t1, h1, t2, h2, t3, h3, h⟩ | ⟨_, h⟩
    · obtain ⟨F, hF, hpos⟩ := parses_countHandle ho.toReady h1 h2 h3
      exact ⟨t3, F, hF, hpos, hname h⟩
    · exact ⟨s, [], parses_nil ho.toReady, rfl, hname h⟩
  have hA := hF.lays_still ho (le_refl s.pos) hpos
  rcases h with rfl | ⟨v, scope, hd, rfl⟩
  · exact ⟨hpos, F, hA⟩
  · exact ⟨hpos, _, hA.trans (lays_declare (hA.ready ho) le_rfl hd)⟩

lemma lays_declareParams (ho : Open q c Γ d s)
    (h : Runs (forM params fun (p, k) => declareParam p k) c s u s') :
    s'.pos = s.pos ∧ ∃ F, Lays q c Γ s.pos s.pos noJump d s s' F d := by
  induction params generalizing q s with
  | nil =>
    obtain rfl := runs_forM_nil.1 h
    exact ⟨rfl, [], lays_setPos ho le_rfl _⟩
  | cons p params ih =>
    obtain ⟨t, h1, h2⟩ := runs_forM_cons.1 h
    obtain ⟨hpos, F, hF⟩ := lays_declareParam ho h1
    obtain ⟨hpos', G, hG⟩ := ih (hF.ready ho) h2
    rw [hpos] at hG hpos'
    exact ⟨hpos', _, hF.trans hG⟩

/-! ## The code of a body -/

lemma Laid.trans {mid : Nat} (h : Laid q c Γ lo mid noJump d s t F x)
    (h' : Laid (q ∧ Calm c lo mid t) c Γ mid hi P x t s' G e) :
    Laid q c Γ lo hi P d s s' (F ++ G) e :=
  (h.comp h' le_rfl h'.le h.le le_rfl).pending fun _ => Or.rec False.elim id

lemma Laid.entered (h : Laid q c Γ lo hi P d { s with scope := s.scope.enter } s' F e) :
    Laid q c Γ lo hi P d s s' F e :=
  { h with toWritten := h.toWritten.since }

def outermost : Site :=
  ⟨[], nowhere, nothing⟩

lemma open_atStart (hstream : c.tokens.Sealed) (hknown : Known c s.symbols) (hh : Holds c s F)
    (hf : s.symbols.functions[id.index]? = some f) (hnone : f.codeOffset = none) :
    Open True c outermost 0 (atStart s id) where
  stream := hstream
  known := hknown.start
  tidy := (hh.start hf hnone).tidy
  offset _ := ⟨rfl, Int.le_refl 0⟩
  bound _ := Int.le_refl 0
  exits _ _ h := by cases h
  framed := .nil
  out_le h := h.elim

lemma laid_openBody {fault : Fault} {t1 : State} (ho : Open q c Γ 0 t)
    (h1 : Runs (forM params fun (p, k) => declareParam p k) c { t with scope := t.scope.enter } () t1)
    (h2 : Runs (compileUntilBrace statement fault) c
      { t1 with scope := t1.scope.enter, lastLine := 0, pos := c.tokens.after t1.pos } u s') :
    ∃ F e, Laid q c Γ t.pos s'.pos noJump 0 t s' F e ∧
      Open (q ∧ Calm c t.pos s'.pos s') c Γ e s' := by
  obtain ⟨hpos, F, hF⟩ := lays_declareParams ho.enter h1
  rw [hpos] at h2
  have ho1 := hF.ready ho.enter
  have hA : Lays (q ∧ Calm c t.pos t.pos t1) c Γ t.pos (c.tokens.after t.pos) noJump 0
      { t1 with scope := t1.scope.enter }
      { t1 with scope := t1.scope.enter, lastLine := 0, pos := c.tokens.after t.pos } [] 0 :=
    lays_silent ho1.enter Stream.le_after (.refl ho1.framed.length_eq) id
  obtain ⟨e, G, hG⟩ := lays_compileUntilBrace lawful_statement (hA.ready ho1.enter) h2
  have hB := hA.trans hG
  refine ⟨_, e, (hF.toLaid.trans hB.toLaid.entered).entered,
    (hB.ready ho1.enter).imp fun ⟨hq, hc⟩ => ⟨⟨hq, ?_⟩, hc⟩⟩
  exact (hB.calm hc).mono le_rfl hB.le le_rfl le_rfl

lemma not_ends_ret {b : Nat} : ¬Ends False b [⟨.plain .ret [], d⟩] := by
  intro h
  cases h with
  | start hF => cases hF
  | last n hn hop =>
    cases hn
    cases hop
  | jump n hn op hi =>
    obtain rfl := List.mem_singleton.1 hn
    cases hi

lemma not_ends_append_ret {b : Nat} (hF : Linked nowhere b F) :
    ¬Ends False b (F ++ [⟨.plain .ret [], d⟩]) := fun h => by
  rcases h.of_append hF (fun h => h.elim) with ⟨h, _⟩ | ⟨_, h⟩
  · cases h
  · exact not_ends_ret h

lemma lays_endFunction {ty : Ty} (ho : Open q c Γ d s) (h : Runs (endFunction ty) c s u s') :
    ∃ scope F, Lays q c Γ s.pos s'.pos noJump d s { s' with scope } F d ∧ F ≠ [] ∧
      ¬Ends False s.script.size F := by
  have hr := ho.toReady.imp (r := q ∧ s.localBytes < 2 ^ 31) And.left
  obtain ⟨v, F, hF, rfl⟩ : ∃ v F, Parses (q ∧ s.localBytes < 2 ^ 31) c d s v F 0 ∧
      s' = { v with script := v.script.write .ret [] } := by
    simp only [endFunction, runs_bind, runs_get, exists_eq_left, and_assoc, runs_ite,
      runs_emit] at h
    obtain ⟨b, t1, h1, _, t2, h2, h⟩ := h
    obtain ⟨F, hF, _⟩ := parses_releaseHandles hr h1
    obtain ⟨G, hG⟩ := parses_release (k := d) (hF.ready hr) (fun hq => by
      have := ho.bound hq.1.1
      have := hF.offset hq.1 hq.2
      exact ⟨this.1, by omega, by omega, by omega⟩) h2
    have hFG := (hF.trans hG).cast (x := 0) fun _ _ => by omega
    rcases h with ⟨_, _, t3, h3, rfl⟩ | ⟨_, rfl⟩
    · exact ⟨t3, _, hFG.trans (parses_litToReg (hFG.ready hr) h3), rfl⟩
    · exact ⟨t2, _, hFG, rfl⟩
  have hend : Lays (q ∧ s.localBytes < 2 ^ 31) c Γ s.pos v.pos noJump d s
      { v with script := v.script.write .ret [], scope := s.scope } (F ++ [⟨.plain .ret [], 0⟩]) d :=
    hF.leaves (ho.imp And.left) (Instr.wellFormed_bare rfl rfl) rfl rfl (fun _ _ h => by cases h)
      (fun _ _ _ => rfl) (.refl ho.framed.length_eq) (fun _ h => by cases h) rfl
      (fun hq _ => (ho.offset hq.1).1) (by rw [← hF.aside.nesting])
  exact ⟨s.scope, _, hend.absorb, by simp, not_ends_append_ret hF.linked⟩

lemma lays_startFunction (ho : Open q c Γ 0 (atStart s id))
    (h : Runs (startFunction id) c s f t) :
    ∃ F, Lays q c Γ s.pos t.pos noJump 0 (atStart s id) t F 0 ∧
      F.head? = some ⟨.plain .thisBase [Int32.ofNat s.script.size], 0⟩ ∧ t.pos = s.pos := by
  obtain ⟨_, t1, h1, h⟩ := runs_startFunction h
  have hA := parses_emitValue ho.toReady rfl rfl rfl h1
  have hpos : t1.pos = s.pos := by rw [runs_emit.1 h1, atStart]
  rcases h with h2 | rfl
  · have hB := parses_emitBare (hA.ready ho.toReady) rfl rfl h2
    exact ⟨_, (hA.trans hB).lays_pos ho, rfl, by rw [runs_emit.1 h2, hpos]⟩
  · exact ⟨_, hA.lays_pos ho, rfl, hpos⟩

def recorded (t : State) (id : FuncId) (first start : Nat) : State :=
  { t with
    function? := none
    scope := {}
    bodies := t.bodies.push {
      function := id
      tokens := ⟨first, t.pos⟩
      start
      stop := t.script.size
      localBytes := t.localBytes
      callBytes := t.callBytes } }

lemma laid_untilEnd (ho : Open True c outermost 0 (atStart s id))
    (h : Runs (compileBody id) c s u s') :
    ∃ t F e, Laid True c outermost s.pos t.pos noJump 0 (atStart s id) t F e ∧
      Open (True ∧ Calm c s.pos t.pos t) c outermost e t ∧
      F.head? = some ⟨.plain .thisBase [Int32.ofNat s.script.size], 0⟩ ∧
      ((t.isReachable = false ∧ s' = recorded t id s.pos s.script.size) ∨
        ∃ diagnostics t' ty, Runs (endFunction ty) c { t with diagnostics } () t' ∧
          s' = recorded t' id s.pos s.script.size) := by
  simp only [compileBody, enterBlock, forgetLine, runs_bind, runs_getPos, runs_codeSize,
    exists_eq_left, and_assoc, runs_modifyScope, runs_modify, runs_expect, runs_isReachable,
    runs_ite, runs_warn, runs_warnAt] at h
  obtain ⟨f, t1, h1, _, _, t2, h2, _, _, _, _, _, rfl, _, t3, h3, h⟩ := h
  obtain ⟨F, hF, hhead, hpos⟩ := lays_startFunction ho h1
  obtain ⟨G, e, hG, ho'⟩ := laid_openBody (hF.ready ho) h2 h3
  rw [hpos] at hF hG ho'
  refine ⟨t3, F ++ G, e, hF.toLaid.trans hG, ho'.imp fun hq => ⟨⟨trivial, ?_⟩, hq.2⟩, ?_, ?_⟩
  · exact (hG.calm hq.2).mono le_rfl hG.le le_rfl le_rfl
  · rw [List.head?_append, hhead]
    rfl
  · rcases h with ⟨_, ⟨_, _, _, t', h, rfl⟩ | ⟨_, _, t', h, rfl⟩⟩ | ⟨hr, rfl⟩
    · exact .inr ⟨_, t', _, h, rfl⟩
    · exact .inr ⟨t3.diagnostics, t', _, h, rfl⟩
    · exact .inl ⟨by simpa using hr, rfl⟩

lemma laid_compileBody (ho : Open True c outermost 0 (atStart s id))
    (h : Runs (compileBody id) c s u s') :
    ∃ t F e, Laid True c outermost s.pos t.pos noJump 0 (atStart s id) t F e ∧
      F.head? = some ⟨.plain .thisBase [Int32.ofNat s.script.size], 0⟩ ∧
      (Calm c s.pos t.pos t → ¬Ends False (atStart s id).script.size F) ∧
      s' = recorded t id s.pos s.script.size := by
  obtain ⟨t, F, e, hF, ho', hhead, ⟨hreach, rfl⟩ | ⟨diagnostics, t', ty, h', rfl⟩⟩ :=
    laid_untilEnd ho h
  · refine ⟨t, F, e, hF, hhead, fun hc hends => ?_, rfl⟩
    simp [hF.reach trivial hc (hends.imp False.elim)] at hreach
  · have hA : Lays (True ∧ Calm c s.pos t.pos t) c outermost t.pos t.pos noJump e t
        { t with diagnostics } [] e :=
      lays_silent ho' le_rfl (.refl ho'.framed.length_eq) fun h => h
    obtain ⟨scope, G, hG, hne, hclosed⟩ := lays_endFunction (hA.ready ho') h'
    have hend := hA.trans hG
    refine ⟨{ t' with scope }, _, e, hF.trans hend.toLaid, ?_, fun _ hends => ?_, rfl⟩
    · rw [List.head?_append, hhead]
      rfl
    · rcases hends.of_append hF.linked (fun h => h.elim) with ⟨hnil, _⟩ | ⟨_, hends⟩
      · exact hne hnil
      · exact hclosed (hF.size_eq ▸ hends)

lemma piece_compileBody (hstream : c.tokens.Sealed) (hknown : Known c s.symbols)
    (hh : Holds c s F) (hf : s.symbols.functions[id.index]? = some f) (hnone : f.codeOffset = none)
    (h : Runs (compileBody id) c s u s') :
    ∃ (b : Body) (G : List Node), s'.bodies = s.bodies.push b ∧ b.function = id ∧
      b.start = s.script.size ∧ b.Piece c.tokens s'.localUses.entries.toList G ∧
      Written False c (atStart s id) s' G ∧ Spends nothing (atStart s id) s' ∧
      s'.function? = none := by
  have hsize : (atStart s id).script.size = s.script.size := by
    rw [(hh.start hf hnone).size_eq, width_relabel, hh.size_eq]
  obtain ⟨t, G, e, hG, hhead, hclosed, rfl⟩ :=
    laid_compileBody (open_atStart hstream hknown hh hf hnone) h
  refine ⟨_, G, congrArg (Array.push · _) hG.bodies, rfl, rfl, ?_,
    (hG.toWritten.imp False.elim).same, hG.spent.stay rfl rfl fun _ h => h,
    rfl⟩
  exact {
    stop_eq := hsize ▸ hG.size_eq
    head? := hhead
    linked := hsize ▸ hG.linked
    settled := fun n hn op hi => by
      obtain ⟨p, hp⟩ := exists_nodeAt (b := (atStart s id).script.size) hn
      rcases hG.holes hp hi with h | ⟨f, hmem, _⟩
      · exact h
      · simp [Held.nil_inv hG.held] at hmem
    paced := fun hb => ⟨e, hsize ▸ hG.paced trivial hb⟩
    closed := fun hb => hsize ▸ hclosed hb
    uses := fun u hu hlo hhi => by
      rcases hG.uses.mem hu with hu | hu
      · have := hh.tidy.uses_lt hu
        simp only at hlo
        omega
      · rw [hsize] at hu
        exact hu.imp fun hb => ⟨trivial, hb⟩ }

end Gen
end AdventureScript
