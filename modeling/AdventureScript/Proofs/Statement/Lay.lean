import AdventureScript.Proofs.Statement.Frame

/-!
What a statement lays down: code whose jumps lead to its own instructions, back to a loop around it,
or wait for the end of a construct.
-/
namespace AdventureScript.Gen
open Assembly

variable {q r : Prop} {c : Context} {d e x : Int} {s s' t : State} {F G : List Node} {u : Unit}
  {lo mid hi lo' hi' lo1 hi1 lo2 hi2 p : Nat} {op : Opcode} {n : Node} {j : PendingJump}

/-- All bytes that a function puts on the stack can be counted in words, and between the tokens `lo`
and `hi` there are only forms that leave something behind. -/
structure Bounded (tokens : Stream) (lo hi callBytes localBytes : Nat) : Prop where
  plain : tokens.Plain lo hi
  fits : callBytes < 2 ^ 31
  locals : localBytes < 2 ^ 31

abbrev Calm (c : Context) (lo hi : Nat) (s : State) : Prop :=
  Bounded c.tokens lo hi s.callBytes s.localBytes

lemma Bounded.mono {tokens : Stream} {k k' m m' : Nat} (h : Bounded tokens lo' hi' k' m')
    (hlo : lo' ≤ lo) (hhi : hi ≤ hi') (hcalls : k ≤ k') (hlocals : m ≤ m') :
    Bounded tokens lo hi k m where
  plain := h.plain.mono hlo hhi
  fits := lt_of_le_of_lt hcalls h.fits
  locals := lt_of_le_of_lt hlocals h.locals

structure Site where
  exits : List Int
  out : Outside
  owed : Reference → Prop

variable {Γ : Site}

/-- The generator stands within the constructs of a site, on a stack of depth `d`. -/
structure Stands (q : Prop) (c : Context) (Γ : Site) (d : Int) (s : State) : Prop
    extends Ready q c d s where
  bound : q → d ≤ s.localBytes
  exits : q → ∀ x ∈ Γ.exits, 0 ≤ x ∧ x ≤ d
  framed : Framed q s.scope.starts Γ.out Γ.exits s.nesting

structure Open (q : Prop) (c : Context) (Γ : Site) (d : Int) (s : State) : Prop
    extends Stands q c Γ d s where
  out_le : ∀ {t x}, Γ.out t x → t ≤ s.script.size

lemma Open.imp (ho : Open q c Γ d s) (hr : r → q) : Open r c Γ d s where
  toReady := ho.toReady.imp hr
  bound := ho.bound ∘ hr
  exits := ho.exits ∘ hr
  framed := ho.framed.held (.refl ho.framed.length_eq (g := True) (b := 0) (F := [])) hr
  out_le := ho.out_le

/-! ## Laid code -/

/-- From `s` to `s'`, between the tokens `lo` and `hi`, the code `F` was written, in which the jumps
at the positions `pending` have no destination yet. -/
structure Laid (q : Prop) (c : Context) (Γ : Site) (lo hi : Nat) (pending : Nat → Prop) (d : Int)
    (s s' : State) (F : List Node) (e : Int) : Prop extends Written (q ∧ Calm c lo hi s') c s s' F where
  le : lo ≤ hi
  localBytes : s.localBytes ≤ s'.localBytes
  function? : s'.function? = s.function?
  bodies : s'.bodies = s.bodies
  out_le : ∀ {t x}, Γ.out t x → t ≤ s'.script.size
  spent : Spends Γ.owed s s'
  linked : Linked Γ.out s.script.size F
  paced : q → Calm c lo hi s' → Paced Γ.out s.script.size F d e
  held : Held (q ∧ Calm c lo hi s') s.script.size F Γ.exits s.nesting s'.nesting
  holes : ∀ {p n op}, nodeAt s.script.size F p = some n → n.instr = .jump op none →
    pending p ∨ Waits s'.nesting ⟨p + 1⟩
  reach : q → Calm c lo hi s' → Ends (s.isReachable = true) s.script.size F →
    s'.isReachable = true

def noJump : Nat → Prop :=
  fun _ => False

variable {P P' : Nat → Prop}

namespace Laid

lemma calm (h : Laid q c Γ lo hi P d s s' F e) (hc : Calm c lo' hi' s') : Calm c lo' hi' s :=
  hc.mono le_rfl le_rfl h.callBytes h.localBytes

lemma pending (h : Laid q c Γ lo hi P d s s' F e) (hP : ∀ p, P p → P' p) :
    Laid q c Γ lo hi P' d s s' F e :=
  { h with holes := fun hn hi => (h.holes hn hi).imp_left (hP _) }

lemma absorb (h : Laid (q ∧ r) c Γ lo hi P d s s' F e) (hr : Calm c lo hi s' → r) :
    Laid q c Γ lo hi P d s s' F e :=
  { h with
    toWritten := h.toWritten.imp fun ⟨hq, hc⟩ => ⟨⟨hq, hr hc⟩, hc⟩
    paced := fun hq hc => h.paced ⟨hq, hr hc⟩ hc
    held := h.held.mono fun _ _ hj => hj.imp fun ⟨hq, hc⟩ => ⟨⟨hq, hr hc⟩, hc⟩
    reach := fun hq hc => h.reach ⟨hq, hr hc⟩ hc }

lemma comp (h : Laid q c Γ lo1 hi1 P d s t F x)
    (h' : Laid (q ∧ Calm c lo1 hi1 t) c Γ lo2 hi2 P' x t s' G e) (hlo1 : lo ≤ lo1) (hhi1 : hi1 ≤ hi)
    (hlo2 : lo ≤ lo2) (hhi2 : hi2 ≤ hi) :
    Laid q c Γ lo hi (fun p => P p ∨ P' p) d s s' (F ++ G) e := by
  have hcalm : Calm c lo hi s' → Calm c lo1 hi1 t :=
    fun hc => hc.mono hlo1 hhi1 h'.callBytes h'.localBytes
  have hcalm' : Calm c lo hi s' → Calm c lo2 hi2 s' :=
    fun hc => hc.mono hlo2 hhi2 le_rfl le_rfl
  exact {
    toWritten := h.toWritten.trans h'.toWritten (And.imp_right hcalm)
      fun ⟨hq, hc⟩ => ⟨⟨hq, hcalm hc⟩, hcalm' hc⟩
    le := by have := h.le; omega
    localBytes := le_trans h.localBytes h'.localBytes
    function? := h'.function?.trans h.function?
    bodies := h'.bodies.trans h.bodies
    out_le := h'.out_le
    spent := h.spent.trans h'.spent h.stocks.symbols (h.size_eq ▸ Nat.le_add_right ..)
      fun _ hm => h'.references.subset hm
    linked := h.linked.append (h.size_eq ▸ h'.linked)
    paced := fun hq hc => (h.paced hq (hcalm hc)).append
      (h.size_eq ▸ h'.paced ⟨hq, hcalm hc⟩ (hcalm' hc))
    held := (h.held.mono fun _ _ hj => (hj.imp (And.imp_right hcalm)).append_left).trans
      (h'.held.mono fun _ _ hj => JumpAt.imp (h.size_eq ▸ hj).append_right
        fun ⟨hq, hc⟩ => ⟨⟨hq, hcalm hc⟩, hcalm' hc⟩)
    holes := fun hn hi => by
      rcases nodeAt_append hn with hn | hn
      · exact (h.holes hn hi).imp .inl h'.held.waits
      · exact (h'.holes (h.size_eq ▸ hn) hi).imp_left .inr
    reach := fun hq hc hends => by
      rcases Ends.of_append h.linked (h.size_eq ▸ h.out_le) hends with ⟨rfl, hF⟩ | ⟨_, hG⟩
      · exact h'.reach ⟨hq, hcalm hc⟩ (hcalm' hc) (.start rfl (h.reach hq (hcalm hc) hF))
      · exact h'.reach ⟨hq, hcalm hc⟩ (hcalm' hc) (h.size_eq ▸ hG.imp False.elim) }

end Laid

/-- The same by a step that leaves the blocks as they were, with the generator's count of the stack.
-/
structure Lays (q : Prop) (c : Context) (Γ : Site) (lo hi : Nat) (pending : Nat → Prop) (d : Int)
    (s s' : State) (F : List Node) (e : Int) : Prop extends Laid q c Γ lo hi pending d s s' F e where
  starts : s'.scope.starts = s.scope.starts
  offset : q → Calm c lo hi s' → s'.scope.offset = Int32.ofInt e ∧ d ≤ e ∧
    e + s.localBytes ≤ d + s'.localBytes

/-- The step lays code from which no jump is pending. -/
abbrev Finishes (q : Prop) (c : Context) (Γ : Site) (d : Int) (s s' : State) (e : Int) : Prop :=
  ∃ F, Lays q c Γ s.pos s'.pos noJump d s s' F e

namespace Lays

lemma opens (ho : Stands q c Γ d s) (h : Lays q c Γ lo hi P d s s' F e) :
    Open (q ∧ Calm c lo hi s') c Γ e s' where
  stream := ho.stream
  known := h.stocks.symbols ▸ ho.known
  tidy := h.tidy
  offset := fun ⟨hq, hc⟩ => by
    have := h.offset hq hc
    have := (ho.offset hq).2
    exact ⟨(h.offset hq hc).1, by omega⟩
  bound := fun ⟨hq, hc⟩ => by
    have := h.offset hq hc
    have := ho.bound hq
    omega
  exits := fun ⟨hq, hc⟩ x hx => by
    have := h.offset hq hc
    have := ho.exits hq x hx
    omega
  framed := h.starts ▸ ho.framed.held h.held And.left
  out_le := h.out_le

lemma ready (ho : Open q c Γ d s) (h : Lays q c Γ lo hi P d s s' F e) :
    Open (q ∧ Calm c lo hi s') c Γ e s' :=
  h.opens ho.toStands

lemma pending (h : Lays q c Γ lo hi P d s s' F e) (hP : ∀ p, P p → P' p) :
    Lays q c Γ lo hi P' d s s' F e :=
  { h with toLaid := h.toLaid.pending hP }

lemma absorb (h : Lays (q ∧ s.localBytes < 2 ^ 31) c Γ lo hi P d s s' F e) :
    Lays q c Γ lo hi P d s s' F e := by
  have hr : Calm c lo hi s' → s.localBytes < 2 ^ 31 := fun hc =>
    lt_of_le_of_lt h.localBytes hc.locals
  exact { h with
    toLaid := h.toLaid.absorb hr
    offset := fun hq hc => h.offset ⟨hq, hr hc⟩ hc }

lemma comp (h : Lays q c Γ lo1 hi1 P d s t F x)
    (h' : Lays (q ∧ Calm c lo1 hi1 t) c Γ lo2 hi2 P' x t s' G e) (hlo1 : lo ≤ lo1) (hhi1 : hi1 ≤ hi)
    (hlo2 : lo ≤ lo2) (hhi2 : hi2 ≤ hi) :
    Lays q c Γ lo hi (fun p => P p ∨ P' p) d s s' (F ++ G) e where
  toLaid := h.toLaid.comp h'.toLaid hlo1 hhi1 hlo2 hhi2
  starts := h'.starts.trans h.starts
  offset hq hc := by
    have hc1 := hc.mono hlo1 hhi1 h'.callBytes h'.localBytes
    have := h.offset hq hc1
    have := h'.offset ⟨hq, hc1⟩ (hc.mono hlo2 hhi2 le_rfl le_rfl)
    exact ⟨by simp [this], by omega, by omega⟩

lemma trans (h : Lays q c Γ lo mid noJump d s t F x)
    (h' : Lays (q ∧ Calm c lo mid t) c Γ mid hi P x t s' G e) :
    Lays q c Γ lo hi P d s s' (F ++ G) e :=
  (h.comp h' le_rfl h'.le h.le le_rfl).pending fun _ => Or.rec False.elim id

lemma followed (h : Lays q c Γ lo mid P d s t F x)
    (h' : Lays (q ∧ Calm c lo mid t) c Γ mid hi noJump x t s' G e) :
    Lays q c Γ lo hi P d s s' (F ++ G) e :=
  (h.comp h' le_rfl h'.le h.le le_rfl).pending fun _ => Or.rec id False.elim

lemma becomes_comp {b : Nat} (h : Lays (q ∧ Calm c lo1 hi1 t) c Γ lo2 hi2 P x t s' G e)
    (hsize : t.script.size = b + width F) (hlo1 : lo ≤ lo1) (hhi1 : hi1 ≤ hi) (hlo2 : lo ≤ lo2)
    (hhi2 : hi2 ≤ hi) :
    Becomes (q ∧ Calm c lo1 hi1 t) (q ∧ Calm c lo hi s') b F x (F ++ G) e := by
  have hcalm : Calm c lo hi s' → Calm c lo1 hi1 t := fun hc =>
    hc.mono hlo1 hhi1 h.callBytes h.localBytes
  refine becomes_append (And.imp_right hcalm) fun ⟨hq, hc⟩ => ?_
  rw [← hsize]
  exact (h.paced ⟨hq, hcalm hc⟩ (hc.mono hlo2 hhi2 le_rfl le_rfl)).entry

lemma becomes {b : Nat} (h : Lays (q ∧ Calm c lo mid t) c Γ mid hi P x t s' G e) (hle : lo ≤ mid)
    (hsize : t.script.size = b + width F) :
    Becomes (q ∧ Calm c lo mid t) (q ∧ Calm c lo hi s') b F x (F ++ G) e :=
  h.becomes_comp hsize le_rfl h.le hle le_rfl

lemma jump_right {y : Int} (h : Lays q c Γ lo mid P d s t F x)
    (h' : Lays (q ∧ Calm c lo mid t) c Γ mid hi P' x t s' G e)
    (hj : JumpAt ((q ∧ Calm c lo mid t) ∧ Calm c mid hi s') t.script.size G y j) :
    JumpAt (q ∧ Calm c lo hi s') s.script.size (F ++ G) y j :=
  JumpAt.imp (h.size_eq ▸ hj).append_right fun ⟨hq, hc⟩ =>
    ⟨⟨hq, hc.mono le_rfl h'.le h'.callBytes h'.localBytes⟩,
      hc.mono h.le le_rfl le_rfl le_rfl⟩

end Lays

lemma isReachable_of_live (h : Emits q c d s s' F e) (hF : F ≠ []) (hlive : Live F) :
    s'.isReachable = true := by
  simp only [State.isReachable, h.lastOpcode? hF, Bool.or_eq_true, Bool.not_eq_true']
  refine .inl ?_
  cases hop : lastOp? F with
  | none => rfl
  | some op => exact hlive op hop

lemma isReachable_of_keeps (h : Emits q c d s s' [] e) (hk : Keeps s s')
    (hs : s.isReachable = true) : s'.isReachable = true := by
  have hsize : s'.script.size = s.script.size := by simpa using h.size_eq
  have hcode : s'.script.code = s.script.code := by
    simpa using h.code
  simp only [State.isReachable, Script.lastOpcode?, h.quiet rfl, hcode, hsize, Bool.or_eq_true,
    decide_eq_true_eq] at hs ⊢
  exact hs.imp_right (hk _ le_rfl)

section

variable (ho : Open q c Γ d s)
include ho

lemma Emits.laid (h : Emits q c d s s' F e) (hle : lo ≤ hi)
    (hholes : ∀ {p n op}, nodeAt s.script.size F p = some n → n.instr = .jump op none → P p)
    (hreach : q → Calm c lo hi s' → Ends (s.isReachable = true) s.script.size F →
      s'.isReachable = true) : Laid q c Γ lo hi P d s s' F e where
  toWritten := h.toWritten.imp fun ⟨hq, hc⟩ => ⟨hq, hc.fits⟩
  le := hle
  localBytes := le_of_eq h.aside.localBytes.symm
  function? := h.aside.function?
  bodies := h.aside.bodies
  out_le := fun ht => le_trans (ho.out_le ht) (h.size_eq ▸ Nat.le_add_right ..)
  spent := h.spent.mono fun _ h => h.elim
  linked := h.linked.within fun _ _ h => h.elim
  paced hq hc := (h.paced hq hc.fits).within fun _ _ h => h.elim
  held := by
    rw [h.aside.nesting]
    exact .refl ho.framed.length_eq
  holes hn hi := .inl (hholes hn hi)
  reach := hreach

omit ho in
lemma Laid.lays (h : Laid q c Γ lo hi P d s s' F d) (he : Emits q c d s s' F d) :
    Lays q c Γ lo hi P d s s' F d where
  toLaid := h
  starts := by rw [Scope.starts, he.aside.blocks, Scope.starts]
  offset hq hc := ⟨(he.offset hq hc.fits).1, Int.le_refl d, by have := h.localBytes; omega⟩

lemma Parses.laid (h : Parses q c d s s' F e) (hle : lo ≤ hi)
    (hplain : c.tokens.Plain lo hi → c.tokens.Plain s.pos s'.pos) :
    Laid q c Γ lo hi noJump d s s' F e := by
  refine h.toEmits.laid ho hle (fun hn hi => absurd hi (h.settled _ (nodeAt_mem hn) _)) ?_
  intro _ hc hends
  by_cases hF : F = []
  · subst hF
    cases hends with
    | start _ hs => exact isReachable_of_keeps h.toEmits (h.keeps (hplain hc.plain) rfl) hs
    | last n hn _ => cases hn
    | jump n hn => cases hn
  · exact isReachable_of_live h.toEmits hF h.live

lemma Parses.lays (h : Parses q c d s s' F d) (hle : lo ≤ hi)
    (hplain : c.tokens.Plain lo hi → c.tokens.Plain s.pos s'.pos) :
    Lays q c Γ lo hi noJump d s s' F d :=
  (h.laid ho hle hplain).lays h.toEmits

lemma Parses.lays_pos (h : Parses q c d s s' F d) :
    Lays q c Γ s.pos s'.pos noJump d s s' F d :=
  h.lays ho h.nested.1 id

lemma Parses.lays_still (h : Parses q c d s s' F d) (hle : lo ≤ hi)
    (hpos : s'.pos = s.pos) : Lays q c Γ lo hi noJump d s s' F d :=
  h.lays ho hle fun _ i hi hlo => by omega

/-! ## Steps without code -/

lemma lays_regains (hle : lo ≤ hi) (h : Regains s s')
    (hspent : Spends Γ.owed s s')
    (hstarts : s'.scope.starts = s.scope.starts)
    (hoffset : q → Calm c lo hi s' → s'.scope.offset = Int32.ofInt d)
    (hbytes : s.callBytes ≤ s'.callBytes) (hlocals : s.localBytes ≤ s'.localBytes)
    (hfunction : s'.function? = s.function?) (hbodies : s'.bodies = s.bodies)
    (hheld : Held True s.script.size [] Γ.exits s.nesting s'.nesting)
    (hreach : q → Calm c lo hi s' → s.isReachable = true → s'.isReachable = true) :
    Lays q c Γ lo hi noJump d s s' [] d where
  code := by simp [h.code]
  wellFormed h := by cases h
  callBytes := hbytes
  references := h.references ▸ .refl
  called := called_nil
  uses := h.uses ▸ .refl
  lines := h.lines ▸ .unmarked .nil
  stocks := h.stocks
  tidy := h.tidy ho.tidy
  le := hle
  localBytes := hlocals
  function? := hfunction
  bodies := hbodies
  out_le ht := h.size_eq ▸ ho.out_le ht
  spent := hspent
  linked := .nil
  paced _ _ := .nil
  held := hheld.mono fun _ _ hj => hj.imp fun _ => trivial
  holes hn := by cases hn
  reach hq hc hends := by
    cases hends with
    | start _ hs => exact hreach hq hc hs
    | last n hn => cases hn
    | jump n hn => cases hn
  starts := hstarts
  offset hq hc := ⟨hoffset hq hc, Int.le_refl d, by omega⟩

lemma lays_silent {pos lastLine : Nat} {diagnostics : Diagnostics} {jumpTarget : Option Nat}
    {nesting : Nesting} (hle : lo ≤ hi)
    (hheld : Held True s.script.size [] Γ.exits s.nesting nesting)
    (hreach : s.isReachable = true → { s with jumpTarget }.isReachable = true) :
    Lays q c Γ lo hi noJump d s { s with pos, diagnostics, lastLine, jumpTarget, nesting } [] d := by
  have hregains : Regains s { s with pos, diagnostics, lastLine, jumpTarget, nesting } :=
    ⟨rfl, rfl, rfl, rfl, rfl, rfl, ⟨rfl, rfl, rfl, rfl, .refl, .refl⟩, ho.tidy.tables, ho.tidy.lastOp⟩
  exact lays_regains ho hle hregains (.of_tables rfl rfl) rfl (fun hq _ => (ho.offset hq).1)
    le_rfl le_rfl rfl rfl hheld fun _ _ => hreach

lemma lays_setPos (hle : lo ≤ hi) (m : Nat) :
    Lays q c Γ lo hi noJump d s { s with pos := m } [] d :=
  lays_silent ho hle (.refl ho.framed.length_eq) id

lemma lays_skip :
    Lays q c Γ s.pos (c.tokens.after s.pos) noJump d s { s with pos := c.tokens.after s.pos } [] d :=
  lays_setPos ho Stream.le_after _

lemma lays_warnAt {token : Token} {warning : Warning} (hle : lo ≤ hi)
    (h : Runs (warnAt token warning) c s u s') : Lays q c Γ lo hi noJump d s s' [] d := by
  obtain rfl := runs_warnAt.1 h
  exact lays_silent ho hle (.refl ho.framed.length_eq) id

lemma lays_markJumpTarget (hle : lo ≤ hi)
    (h : Runs markJumpTarget c s u s') : Lays q c Γ lo hi noJump d s s' [] d := by
  obtain rfl := runs_markJumpTarget.1 h
  exact lays_silent ho hle (.refl ho.framed.length_eq)
    fun _ => by simp [State.isReachable]

omit ho in
lemma emits_writeLine (hr : Ready q c d s) {line : Nat} (hon : c.options.lineNumbers = true) :
    Emits q c d s { s with script := s.script.writeLine line, lastLine := line }
      [⟨.plain .lineNum [Int32.ofNat line], d⟩] d := by
  have hlined : Lined c.options.lineNumbers s.script.size [⟨.plain .lineNum [Int32.ofNat line], d⟩]
      s.script.lines.toList (s.script.lines.push ⟨s.script.size, line⟩).toList :=
    ⟨⟨[⟨s.script.size, line⟩], by simp, rfl⟩, fun hoff => by simp [hoff] at hon⟩
  exact (emits_nil hr).writeMarked (Instr.wellFormed_value rfl rfl rfl) (by decide)
    (by simp [Instr.effect]) rfl rfl nofun .refl (fun hq _ => hr.offset hq) rfl { Aside.refl with } rfl
    hlined

lemma lays_markLine (hle : lo ≤ hi) {line : Nat}
    (h : Runs (markLine line) c s u s') :
    ∃ F, Lays q c Γ lo hi noJump d s s' F d ∧ s'.pos = s.pos := by
  simp [markLine, and_assoc, runs_modifyScript] at h
  rcases h with ⟨hon, _, rfl⟩ | ⟨_, rfl⟩
  · have he := @emits_writeLine q c d s ho.toReady line hon
    refine ⟨_, (he.laid ho hle (fun hn hi => ?_) fun _ _ _ => ?_).lays he, rfl⟩
    · exact absurd hi (settled_plain _ (nodeAt_mem hn) _)
    · exact isReachable_of_live he (by simp) (live_concat (F := []) rfl)
  · exact ⟨[], (parses_nil ho.toReady).lays_still ho hle rfl, rfl⟩

/-! ## Jumps -/

lemma lays_jump (hop : op.isJump = true) (hle : lo ≤ hi)
    (h : Runs (jump op) c s j s') :
    JumpAt True s.script.size [⟨.jump op none, d⟩] d j ∧
      Lays q c Γ lo hi (fun p => j = ⟨p + 1⟩) d s s' [⟨.jump op none, d⟩] d := by
  obtain ⟨rfl, he⟩ := emits_jump ho.toReady hop h
  refine ⟨⟨s.script.size, _, nodeAt_cons_self, rfl, op, none, rfl, fun _ => rfl⟩,
    (he.laid ho hle ?_ ?_).lays he⟩
  · intro p n op' hn _
    simp only [nodeAt] at hn
    split at hn
    · next hp => rw [hp]
    · cases hn
  · intro _ _ hends
    cases hends with
    | start hF => cases hF
    | last n hn hlive =>
      cases hn
      exact isReachable_of_live he (by simp) (live_concat (F := []) hlive)
    | jump n hn op' hi =>
      obtain rfl := List.mem_singleton.1 hn
      cases hi

lemma lays_jumpTo (hop : op.isJump = true) (hle : lo ≤ hi)
    (hout : Γ.out p d) (h : Runs (jumpTo op p) c s u s') :
    Lays q c Γ lo hi noJump d s s' [⟨.jump op (some p), d⟩] d := by
  have hw := (emits_nil ho.toReady).toWritten.jumpTo (e := d) hop h
  obtain rfl := runs_jumpTo.1 h
  exact {
    toWritten := hw.imp fun ⟨hq, hc⟩ => ⟨hq, hc.fits⟩
    le := hle
    localBytes := le_rfl
    function? := rfl
    bodies := rfl
    out_le := fun ht => le_trans (ho.out_le ht) (hw.size_eq ▸ Nat.le_add_right ..)
    spent := .of_tables rfl rfl
    linked := by
      refine Linked.nil.concat fun op' t ht => ?_
      cases ht
      exact .inr ⟨d, hout⟩
    paced := fun hq _ => Paced.nil.jumpTo hop (ho.offset hq).2 (.inr hout)
    held := .refl ho.framed.length_eq
    holes := by
      intro p' n op' hn hi
      obtain rfl := List.mem_singleton.1 (nodeAt_mem hn)
      cases hi
    reach := by
      intro _ _ hends
      cases hends with
      | start hF => cases hF
      | last n hn hlive =>
        cases hn
        simpa [State.isReachable] using .inl hlive
      | jump n hn op' hi =>
        obtain rfl := List.mem_singleton.1 hn
        have := ho.out_le hout
        simp only [width_cons, Instr.jump.injEq, Option.some.injEq] at hi
        have := Node.size_pos ⟨.jump op (some p), d⟩
        omega
    starts := rfl
    offset := fun hq _ => ⟨(ho.offset hq).1, Int.le_refl d, by simp⟩ }

end

lemma isReachable_landHere (h : Runs (landHere j) c s u s') : s'.isReachable = true := by
  obtain rfl := eq_of_landHere h
  simp [State.isReachable]

lemma calm_landHere (h : Runs (landHere j) c s u s') (hc : Calm c lo hi s') : Calm c lo hi s := by
  obtain rfl := eq_of_landHere h
  exact hc

lemma Lays.land (h : Lays q c Γ lo hi P d s t F e)
    (hj : JumpAt (q ∧ Calm c lo hi t) s.script.size F e j) (ht : Runs (landHere j) c t u s') :
    ∃ G, Lays q c Γ lo hi (fun p => P p ∧ j ≠ ⟨p + 1⟩) d s s' G e ∧
      Becomes (q ∧ Calm c lo hi t) (q ∧ Calm c lo hi s') s.script.size F e G e := by
  obtain ⟨p, n, hn, rfl, op, dest?, hop, hd⟩ := hj
  have hw := h.toWritten.land hn hop ht
  have hreach := isReachable_landHere ht
  have hcalm : Calm c lo hi s' → Calm c lo hi t := calm_landHere ht
  refine ⟨landAt s.script.size F p t.script.size, ?_, becomes_landAt (And.imp_right hcalm)⟩
  obtain rfl := eq_of_landHere ht
  exact { h with
    toWritten := hw.imp (And.imp_right hcalm)
    out_le := fun ht => by simpa using h.out_le ht
    spent := h.spent.stay rfl rfl fun _ => id
    linked := h.linked.landAt (h.size_eq ▸ boundary_end)
    paced := fun hq hc => by
      refine (h.paced hq (hcalm hc)).landAt fun m hm => ?_
      rw [hn] at hm
      cases hm
      exact hd ⟨hq, hcalm hc⟩ ▸ h.size_eq ▸ arrives_end
    offset := fun hq hc => h.offset hq (hcalm hc)
    held := h.held.mono fun _ _ hj => hj.landAt.imp (And.imp_right hcalm)
    holes := fun {k m op'} hm hi' => by
      rw [nodeAt_relabel_self, Option.map_eq_some_iff] at hm
      obtain ⟨m, hm, rfl⟩ := hm
      unfold landing at hi'
      split at hi'
      · next hk =>
        subst hk
        obtain rfl := Option.some.inj (hn.symm.trans hm)
        simp [Node.land, hop] at hi'
      · next hk =>
        exact (h.holes hm hi').imp_left fun hP => ⟨hP, fun he => hk (by simpa using he.symm)⟩
    reach := fun _ _ _ => hreach }

lemma Lays.landAll {js : List PendingJump} (h : Lays q c Γ lo hi P d s t F e)
    (hj : ∀ j ∈ js, JumpAt (q ∧ Calm c lo hi t) s.script.size F e j)
    (ht : Runs (forM js landHere) c t u s') :
    ∃ G, Lays q c Γ lo hi (fun p => P p ∧ ⟨p + 1⟩ ∉ js) d s s' G e ∧
      Becomes (q ∧ Calm c lo hi t) (q ∧ Calm c lo hi s') s.script.size F e G e := by
  induction js generalizing P t F with
  | nil =>
    obtain rfl := runs_forM_nil.1 ht
    exact ⟨F, h.pending fun p hp => ⟨hp, by simp⟩, .refl⟩
  | cons j js ih =>
    obtain ⟨t', ht', ht⟩ := runs_forM_cons.1 ht
    obtain ⟨G, hG, hnew⟩ := h.land (hj j List.mem_cons_self) ht'
    obtain ⟨H, hH, hnew'⟩ := ih hG (fun k hk => hnew.jump (hj k (List.mem_cons_of_mem _ hk))) ht
    refine ⟨H, hH.pending fun p ⟨⟨hp, hne⟩, hmem⟩ => ⟨hp, ?_⟩, hnew.trans hnew'⟩
    rw [List.mem_cons, not_or]
    exact ⟨Ne.symm hne, hmem⟩

end AdventureScript.Gen
