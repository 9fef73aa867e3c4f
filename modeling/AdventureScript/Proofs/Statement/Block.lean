import AdventureScript.Proofs.Statement.Lay

/-!
Blocks and constructs around laid code. The end of a block gives the stack back.
-/
namespace AdventureScript

variable {start : Int32} {rest : List Int32} {scope : Scope}

namespace Framed
open Assembly

variable {q : Prop} {starts : List Int32} {out out' : Outside} {xs : List Int} {n : Nesting}

lemma also (h : Framed q starts out xs n) (hout : ∀ t x, out t x → out' t x) :
    Framed q starts out' xs n := by
  induction h with
  | nil => exact .nil
  | cons hstart hback _ ih => exact .cons hstart (fun t ht => hout t _ (hback t ht)) ih

lemma enter (h : Framed q starts out xs n) (start : Int32) :
    Framed q (start :: starts) out xs n := by
  induction h with
  | nil => exact .nil
  | cons hstart hback _ ih =>
    refine .cons (fun hq => ?_) hback ih
    have := hstart hq
    rw [List.reverse_cons, List.getElem?_append_left (List.getElem?_eq_some_iff.1 this).1, this]

end Framed

namespace Gen
open Assembly

variable {q : Prop} {c : Context} {d e x : Int} {s s' t : State} {F G : List Node} {u : Unit}
  {lo hi p : Nat} {Γ : Site} {P : Nat → Prop} {more : Outside} {f : Frame} {bytes : Int32} {k : Int}

def Site.also (Γ : Site) (more : Outside) : Site :=
  { Γ with out := fun t x => Γ.out t x ∨ more t x }

lemma Stands.also (hs : Stands q c Γ d s) : Stands q c (Γ.also more) d s :=
  { hs with framed := hs.framed.also fun _ _ => .inl }

lemma Open.also (ho : Open q c Γ d s) (hmore : ∀ {t x}, more t x → t ≤ s.script.size) :
    Open q c (Γ.also more) d s where
  toStands := ho.toStands.also
  out_le h := h.elim ho.out_le hmore

lemma Lays.also (more : Outside) (h : Lays q c Γ lo hi P d s s' F e)
    (hmore : ∀ {t x}, more t x → t ≤ s'.script.size) :
    Lays q c (Γ.also more) lo hi P d s s' F e :=
  { h with
    out_le := fun ht => ht.elim h.out_le hmore
    linked := h.linked.within fun _ x ht => .inr ⟨x, .inl ht⟩
    paced := fun hq hc => (h.paced hq hc).within fun _ _ ht => .inr (.inl ht)
    held := h.held }

lemma Lays.within (ho : Open q c Γ d s) (h : Lays q c (Γ.also more) lo hi P d s s' F e)
    (hb : ∀ t x, more t x → Boundary s.script.size F t)
    (ha : q → Calm c lo hi s' → ∀ t x, more t x → Arrives s.script.size F e t x) :
    Lays q c Γ lo hi P d s s' F e :=
  { h with
    out_le := fun ht => le_trans (ho.out_le ht) (h.size_eq ▸ Nat.le_add_right ..)
    linked := h.linked.within fun t x ht => ht.elim (fun h => .inr ⟨x, h⟩) (fun h => .inl (hb t x h))
    paced := fun hq hc => (h.paced hq hc).within fun t x ht => ht.elim .inr (.inl ∘ ha hq hc t x)
    held := h.held }

def backTo (b : Nat) (d : Int) : Outside :=
  fun t x => t = b ∧ x = d

lemma Open.back (ho : Open q c Γ d s) : Open q c (Γ.also (backTo s.script.size d)) d s :=
  ho.also fun h => le_of_eq h.1

lemma Lays.back (ho : Open q c Γ d s)
    (h : Lays q c (Γ.also (backTo s.script.size d)) lo hi P d s s' F e) :
    Lays q c Γ lo hi P d s s' F e := by
  refine h.within ho ?_ ?_
  · rintro t x ⟨rfl, rfl⟩
    exact .start
  · rintro hq hc t x ⟨rfl, rfl⟩
    exact (h.paced hq hc).entry

lemma Writes.parses (h : Writes q c d s s' F e) (hpos : s'.pos = s.pos)
    (hjump : s'.jumpTarget = s.jumpTarget) : Parses q c d s s' F e where
  toWrites := h
  nested := hpos ▸ .refl
  keeps _ _ := .of_eq hjump

lemma pos_release (h : Runs (release bytes) c s u s') :
    s'.pos = s.pos ∧ s'.jumpTarget = s.jumpTarget := by
  simp only [release, runs_ite, runs_seq, runs_emit, runs_adjustStack] at h
  rcases h with ⟨_, t, rfl, rfl⟩ | ⟨_, h⟩
  · exact ⟨rfl, rfl⟩
  · rw [(runs_pure.1 h).1]
    exact ⟨rfl, rfl⟩

lemma parses_release (hr : Ready q c d s)
    (hk : q → bytes = Int32.ofInt k ∧ 0 ≤ k ∧ k < 2 ^ 31 ∧ k ≤ d)
    (h : Runs (release bytes) c s u s') : ∃ F, Parses q c d s s' F (d - k) := by
  obtain ⟨F, hF⟩ := writes_release hr hk h
  exact ⟨F, hF.parses (pos_release h).1 (pos_release h).2⟩

lemma parses_releaseOnExit (hr : Ready q c d s)
    (hk : q → bytes = Int32.ofInt k ∧ 0 ≤ k ∧ k < 2 ^ 31 ∧ k ≤ d)
    (h : Runs (releaseOnExit bytes) c s u s') :
    ∃ scope F, Parses q c d s { s' with scope } F (d - k) ∧ s'.scope = s.scope ∧ s'.pos = s.pos := by
  have hrun : ∃ scope, Runs (release bytes) c s u { s' with scope } ∧ s'.scope = s.scope ∧
      s'.pos = s.pos := by
    simp only [releaseOnExit, runs_ite, runs_emit] at h
    simp only [release, runs_ite, runs_seq, runs_emit, runs_adjustStack]
    rcases h with ⟨hpos, rfl⟩ | ⟨hpos, h⟩
    · exact ⟨_, .inl ⟨hpos, _, rfl, rfl⟩, rfl, rfl⟩
    · obtain ⟨rfl, _⟩ := runs_pure.1 h
      exact ⟨s'.scope, .inr ⟨hpos, h⟩, rfl, rfl⟩
  obtain ⟨scope, hrun, hsame⟩ := hrun
  obtain ⟨F, hF⟩ := parses_release hr hk hrun
  exact ⟨scope, F, hF, hsame⟩

lemma parses_zeroHandles {slots : List Int32} (hr : Ready q c d s)
    (h : Runs (forM slots fun slot => do loadLocal slot; emit .memZeroPtr []) c s u s') :
    ∃ F, Parses q c d s s' F d ∧ s'.pos = s.pos ∧ s'.scope = s.scope ∧
      s'.jumpTarget = s.jumpTarget := by
  induction slots generalizing q s with
  | nil =>
    obtain rfl := runs_forM_nil.1 h
    exact ⟨[], parses_nil hr, rfl, rfl, rfl⟩
  | cons slot slots ih =>
    obtain ⟨t, ht, h⟩ := runs_forM_cons.1 h
    obtain ⟨t', hload, hzero⟩ := runs_seq.1 ht
    have h1 := parses_loadLocal hr hload
    have h2 := h1.trans (parses_emitBare (h1.ready hr) rfl rfl hzero)
    obtain ⟨F, hF, hpos, hscope, hjump⟩ := ih (h2.ready hr) h
    simp [loadLocal, and_assoc, runs_emit] at hload
    refine ⟨_, h2.trans hF, ?_, ?_, ?_⟩
    · rw [hpos, runs_emit.1 hzero, hload]
    · rw [hscope, runs_emit.1 hzero, hload]
    · rw [hjump, runs_emit.1 hzero, hload]

lemma parses_releaseHandles (hr : Ready q c d s) {depth : Nat} {b : Bool}
    (h : Runs (releaseHandles depth) c s b s') :
    ∃ F, Parses q c d s s' F d ∧ s'.pos = s.pos ∧ s'.scope = s.scope ∧
      s'.jumpTarget = s.jumpTarget := by
  simp only [releaseHandles, runs_bind, runs_getTypes, runs_get] at h
  obtain ⟨_, _, ⟨rfl, rfl⟩, _, _, ⟨rfl, rfl⟩, _, _, h, hb⟩ := h
  obtain ⟨rfl, _⟩ := runs_pure.1 hb
  exact parses_zeroHandles hr h

/-! ## Blocks -/

lemma Open.enter (ho : Open q c Γ d s) : Open q c Γ d { s with scope := s.scope.enter } :=
  { ho with tidy := { ho.tidy with }, framed := ho.framed.enter _ }

lemma parses_leaveBlock (hr : Ready q c x t) {depth : Nat} {b : Bool}
    (hk : q → bytes = Int32.ofInt (x - d) ∧ d ≤ x ∧ 0 ≤ d ∧ x < 2 ^ 31)
    (h : Runs (releaseHandles depth) c t b s) (h' : Runs (release bytes) c s u s') :
    ∃ F, Parses q c x t s' F d ∧ s'.pos = t.pos ∧ s'.scope.blocks = t.scope.blocks := by
  obtain ⟨F, hF, hpos, _, _⟩ := parses_releaseHandles hr h
  obtain ⟨G, hG⟩ := parses_release (k := x - d) (hF.ready hr)
    (fun ⟨hq, _⟩ => by have := hk hq; exact ⟨this.1, by omega, by omega, by omega⟩) h'
  have hall := hF.trans (hG.cast (x := d) fun _ _ => by omega)
  exact ⟨_, hall, (pos_release h').1.trans hpos, hall.aside.blocks⟩

lemma starts_leave (h : scope.starts = start :: rest) :
    scope.leave.2.starts = rest ∧ scope.leave.2.offset = scope.offset := by
  unfold Scope.starts at h
  unfold Scope.leave
  split
  · next hb => simp_all [Scope.starts]
  · next hb => simp [hb] at h

lemma sizeFrom_innermost
    (h : scope.starts = start :: rest) : scope.sizeFrom scope.depth = scope.offset - start := by
  have hdepth : scope.depth = rest.length + 1 := by
    have := congrArg List.length h
    simpa [Scope.starts, Scope.depth] using this
  rw [hdepth]
  refine Scope.sizeFrom_eq ?_
  simp [h]

lemma runs_exitBlock :
    Runs exitBlock c t u s' ↔
      (t.isReachable = true ∧ ∃ b t1 t2, Runs (releaseHandles t.scope.depth) c t b t1 ∧
        Runs (release (t.scope.sizeFrom t.scope.depth)) c t1 () t2 ∧
        s' = { t2 with scope := t2.scope.leave.2 }) ∨
      (t.isReachable = false ∧
        s' = { t with scope := (t.scope.adjust (-t.scope.sizeFrom t.scope.depth)).leave.2 }) := by
  cases hr : t.isReachable <;>
    simp [exitBlock, and_assoc, hr, runs_modifyScope, runs_adjustStack]

section

variable (hr : Ready q c x t) (h : Runs exitBlock c t u s')
include hr h

lemma nesting_exitBlock : s'.nesting = t.nesting := by
  rcases runs_exitBlock.1 h with ⟨_, b, t1, t2, h1, h2, rfl⟩ | ⟨_, rfl⟩
  · obtain ⟨F, hF, _⟩ := parses_releaseHandles hr h1
    simp only [release, runs_ite, runs_seq, runs_emit, runs_adjustStack, runs_pure] at h2
    rcases h2 with ⟨_, _, rfl, rfl⟩ | ⟨_, rfl, _⟩
    · exact hF.aside.nesting
    · exact hF.aside.nesting
  · rfl

lemma stocks_exitBlock : Stocks t s' := by
  rcases runs_exitBlock.1 h with ⟨_, b, t1, t2, h1, h2, rfl⟩ | ⟨_, rfl⟩
  · obtain ⟨F, hF, _⟩ := parses_releaseHandles hr h1
    refine hF.stocks.trans ?_
    simp only [release, runs_ite, runs_seq, runs_emit, runs_adjustStack, runs_pure] at h2
    rcases h2 with ⟨_, _, rfl, rfl⟩ | ⟨_, rfl, _⟩ <;> exact ⟨rfl, rfl, rfl, rfl, .refl, .refl⟩
  · exact ⟨rfl, rfl, rfl, rfl, .refl, .refl⟩

lemma isReachable_exitBlock (ht : t.isReachable = true) : s'.isReachable = true := by
  rcases runs_exitBlock.1 h with ⟨_, b, t1, t2, h1, h2, rfl⟩ | ⟨hno, _⟩
  · obtain ⟨F, hF, hpos, _⟩ := parses_leaveBlock (d := x) (hr.imp False.elim) False.elim h1 h2
    change t2.isReachable = true
    by_cases hF' : F = []
    · subst hF'
      exact isReachable_of_keeps hF.toEmits (hF.keeps (fun i hi hlo => by omega) rfl) ht
    · exact isReachable_of_live hF.toEmits hF' hF.live
  · simp [ht] at hno

end

lemma Laid.unreached (h : Laid q c Γ lo hi P d s t F x) (ht : t.isReachable = false) :
    Laid q c Γ lo hi P d s t F d :=
  { h with
    paced := fun hq hc => by
      have hp := h.paced hq hc
      by_cases hF : F = []
      · subst hF
        exact .nil
      · refine hp.of_not_ends hF (r := s.isReachable = true) (fun hends => ?_) d
        simp [h.reach hq hc hends] at ht }

lemma Lays.exitBlock (ho : Open q c Γ d s) (h : Lays q c Γ lo hi P d s t F x)
    (hs : s.scope.starts = start :: rest) (hd : q → start = Int32.ofInt d)
    (ht : Runs exitBlock c t u s') :
    ∃ G, Laid q c Γ lo hi P d s s' (F ++ G) d ∧ s'.pos = t.pos ∧ s'.scope.starts = rest ∧
      (q → Calm c lo hi s' → s'.scope.offset = Int32.ofInt d) ∧
      (x = d → Becomes (q ∧ Calm c lo hi t) (q ∧ Calm c lo hi s') s.script.size F d (F ++ G) d) := by
  have hstarts : t.scope.starts = start :: rest := h.starts.trans hs
  have hbytes : q ∧ Calm c lo hi t →
      t.scope.offset - start = Int32.ofInt (x - d) ∧ d ≤ x ∧ 0 ≤ d ∧ x < 2 ^ 31 := by
    rintro ⟨hq, hc⟩
    have hx := h.offset hq hc
    have := ho.bound hq
    have := hc.locals
    refine ⟨by rw [hx.1, hd hq, Int32.ofInt_sub], hx.2.1, (ho.offset hq).2, by omega⟩
  rw [runs_exitBlock, sizeFrom_innermost hstarts] at ht
  rcases ht with ⟨_, b, t1, t2, h1, h2, rfl⟩ | ⟨hreach, rfl⟩
  · obtain ⟨G, hG, hpos, hblocks⟩ := parses_leaveBlock (h.ready ho).toReady hbytes h1 h2
    have hscope : t2.scope.starts = start :: rest := by
      rw [Scope.starts, hblocks, ← hstarts, Scope.starts]
    have hleave := starts_leave hscope
    have hlaid := (h.toLaid.comp (hG.laid (h.ready ho) (le_refl hi) fun _ i hi hlo => by omega)
      (le_refl lo) (le_refl hi) h.le (le_refl hi)).pending fun _ => (Or.elim · id False.elim)
    have hcalm : Calm c lo hi t2 → Calm c lo hi t := fun hc =>
      hc.mono le_rfl le_rfl hG.callBytes (le_of_eq hG.aside.localBytes.symm)
    refine ⟨G, { hlaid with toWritten := hlaid.toWritten.same },
      hpos, hleave.1, fun hq hc => ?_,
      fun hx => becomes_append (And.imp_right hcalm) fun hq => ?_⟩
    · exact hleave.2.trans (hG.offset ⟨hq, hcalm hc⟩ hc.fits).1
    · rw [← h.size_eq]
      exact hx ▸ (hG.paced ⟨hq.1, hcalm hq.2⟩ hq.2.fits).entry
  · have hleave := @starts_leave start rest (t.scope.adjust (-(t.scope.offset - start))) hstarts
    have hlaid := h.toLaid.unreached hreach
    refine ⟨[], ?_, rfl, hleave.1, fun hq hc => ?_,
      fun _ => becomes_append id fun _ => .inl ⟨rfl, rfl⟩⟩
    · rw [List.append_nil]
      exact { hlaid with toWritten := hlaid.toWritten.same }
    · rw [hleave.2, ← hd hq, Scope.adjust, Int32.neg_sub, Int32.add_comm, Int32.sub_add_cancel]

lemma Lays.block (ho : Open q c Γ d s)
    (h : Lays q c Γ lo hi P d { s with scope := s.scope.enter } t F x)
    (ht : Runs Gen.exitBlock c t u s') :
    ∃ G, Lays q c Γ lo hi P d s s' G d ∧ s'.pos = t.pos := by
  obtain ⟨G, hG, hpos, hstarts, hoffset, _⟩ :=
    h.exitBlock ho.enter rfl (fun hq => (ho.offset hq).1) ht
  refine ⟨F ++ G, { hG with
    toWritten := hG.toWritten.since
    starts := hstarts
    offset := fun hq hc => ?_ }, hpos⟩
  have := hG.localBytes
  exact ⟨hoffset hq hc, Int.le_refl d, by simp only at this; omega⟩

def Site.inner (Γ : Site) (d : Int) : Site :=
  { Γ with exits := d :: Γ.exits }

lemma Open.inner (ho : Open q c Γ d s) (hf : f.depth = s.scope.depth)
    (htarget : ∀ t, f.target? = some t → Γ.out t d) :
    Open q c (Γ.inner d) d { s with scope := s.scope.enter, nesting := f :: s.nesting } := by
  refine { ho with
    tidy := { ho.tidy with }, exits := fun hq y hy => ?_, framed := ?_ }
  · rcases List.mem_cons.1 hy with rfl | hy
    · exact ⟨(ho.offset hq).2, Int.le_refl _⟩
    · exact ho.exits hq y hy
  · refine .cons (fun hq => ?_) htarget (ho.framed.enter _)
    have hlength : f.depth = s.scope.starts.reverse.length := by simp [hf, Scope.starts, Scope.depth]
    rw [← (ho.offset hq).1, Scope.starts, Scope.enter, List.map_cons, List.reverse_cons, hlength]
    exact List.getElem?_concat_length

lemma Lays.construct (ho : Open q c Γ d s) (hf : f.depth = s.scope.depth)
    (htarget : ∀ t, f.target? = some t → Γ.out t d) (hbreaks : f.breaks = #[])
    (hcontinues : f.continues = #[])
    (h : Lays q c (Γ.inner d) lo hi noJump d
      { s with scope := s.scope.enter, nesting := f :: s.nesting } t F x)
    (ht : Runs Gen.exitBlock c t u s') :
    ∃ f' nesting G, s'.nesting = f' :: nesting ∧ s'.pos = t.pos ∧
      Lays q c Γ lo hi (fun p => Waits [f'] ⟨p + 1⟩) d s { s' with nesting } (F ++ G) d ∧
      (∀ j, Waits [f'] j → JumpAt (q ∧ Calm c lo hi s') s.script.size (F ++ G) d j) ∧
      (f.isLoop = false ∨ f.target?.isSome = true → f'.continues = #[]) ∧
      (x = d → Becomes (q ∧ Calm c lo hi t) (q ∧ Calm c lo hi s') s.script.size F d (F ++ G) d) := by
  obtain ⟨G, hG, hpos, hstarts, hoffset, hnew⟩ :=
    h.exitBlock (ho.inner hf htarget) rfl (fun hq => (ho.offset hq).1) ht
  obtain ⟨f', nesting, hnesting, hgains, hheld⟩ := hG.held.cons_inv
  refine ⟨f', nesting, G, hnesting, hpos, ?_, fun j hj => hgains.jumpAt hbreaks hcontinues hj,
    fun hdirect => hdirect.elim (fun h => Frame.continues_of_not_isLoop (hgains.isLoop.trans h))
      fun h => (hgains.direct h).trans hcontinues, hnew⟩
  have hwritten : Written (q ∧ Calm c lo hi s') c s s' (F ++ G) :=
    hG.toWritten.since
  exact { hG with
    toWritten := hwritten.same
    held := hheld
    holes := fun hn hi => by
      have hw := (hG.holes hn hi).resolve_left id
      rw [hnesting] at hw
      exact waits_cons.1 hw
    starts := hstarts
    offset := fun hq hc => by
      have := hG.localBytes
      exact ⟨hoffset hq hc, Int.le_refl d, by simp only at this ⊢; omega⟩ }

end Gen
end AdventureScript
