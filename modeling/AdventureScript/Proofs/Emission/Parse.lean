import AdventureScript.Proofs.Emission.Restore

/-!
Steps that compile a part of an expression: they pass over a balanced stretch of tokens and write
code that all jumps in it stay within and that control leaves at its end.
-/
namespace AdventureScript.Gen
open Assembly

variable {q : Prop} {c : Context} {d e x : Int} {s s' t : State} {F G : List Node} {u : Unit}
  {op : Opcode} {operands : List Int32} {m : Nat} {n : Node} {reg : Register} {w : Int32}
  {diagnostics : Diagnostics} {jumpTarget : Option Nat} {axClobbered : Bool} {mark : Symbol}
  {reference : Reference}

def Live (F : List Node) : Prop :=
  ∀ op, lastOp? F = some op → op.endsFlow = false

lemma Live.nil : Live [] := by
  intro op h
  cases h

lemma live_concat (h : n.instr.op.endsFlow = false) : Live (F ++ [n]) := by
  intro op hop
  obtain rfl : n.instr.op = op := by simpa [lastOp?] using hop
  exact h

lemma Live.append_left (hG : Live G) (hne : G ≠ []) : Live (F ++ G) := by
  intro op hop
  refine hG op ?_
  simpa [lastOp?, List.getLast?_eq_some_getLast hne] using hop

lemma Live.cons (hF : Live F) (hne : F ≠ []) : Live (n :: F) :=
  hF.append_left (F := [n]) hne

lemma Live.append (hF : Live F) (hG : Live G) : Live (F ++ G) := by
  rcases List.eq_nil_or_concat G with rfl | ⟨G, n, rfl⟩
  · simpa using hF
  · simp only [List.concat_eq_append, ← List.append_assoc] at *
    exact live_concat (hG _ (by simp [lastOp?]))

/-- A jump that landed at `m`, which is still there, is still known to have done so. -/
def Keeps (s s' : State) : Prop :=
  ∀ m ≤ s.script.size, s.jumpTarget = some m → s'.jumpTarget = some m

lemma Keeps.of_eq (h : s'.jumpTarget = s.jumpTarget) : Keeps s s' :=
  fun _ _ hm => h.trans hm

/-- From `s` to `s'` complete code was written: its jumps stay within it, control leaves it at its
end, and no line is marked in it. -/
structure Writes (q : Prop) (c : Context) (d : Int) (s s' : State) (F : List Node) (e : Int) : Prop
    extends Emits q c d s s' F e where
  settled : Settled F
  live : Live F
  unmarked : Unmarked F

lemma Writes.trans (h : Writes q c d s t F x) (h' : Writes (q ∧ Fits t) c x t s' G e) :
    Writes q c d s s' (F ++ G) e where
  toEmits := h.toEmits.trans h'.toEmits
  settled := h.settled.append h'.settled
  live := h.live.append h'.live
  unmarked := h.unmarked.append h'.unmarked

lemma Writes.cast (h : Writes q c d s s' F e) (he : q → Fits s' → e = x) : Writes q c d s s' F x :=
  { h with toEmits := h.toEmits.cast he }

lemma Writes.ready (hr : Ready q c d s) (h : Writes q c d s s' F e) :
    Ready (q ∧ Fits s') c e s' :=
  h.toEmits.ready hr

structure Parses (q : Prop) (c : Context) (d : Int) (s s' : State) (F : List Node) (e : Int) : Prop
    extends Writes q c d s s' F e where
  nested : c.tokens.Nested s.pos s'.pos
  keeps : c.tokens.Plain s.pos s'.pos → F = [] → Keeps s s'

/-- Some code was written in between. -/
abbrev Codes (q : Prop) (c : Context) (d : Int) (s s' : State) (e : Int) : Prop :=
  ∃ F, F ≠ [] ∧ Parses q c d s s' F e

lemma Parses.ready (hr : Ready q c d s) (h : Parses q c d s s' F e) :
    Ready (q ∧ Fits s') c e s' :=
  h.toEmits.ready hr

lemma Parses.cast (h : Parses q c d s s' F e) (he : q → Fits s' → e = x) :
    Parses q c d s s' F x :=
  { h with toEmits := h.toEmits.cast he }

lemma Parses.trans (h : Parses q c d s t F x) (h' : Parses (q ∧ Fits t) c x t s' G e) :
    Parses q c d s s' (F ++ G) e where
  toWrites := h.toWrites.trans h'.toWrites
  nested := h.nested.trans h'.nested
  keeps hp hFG := by
    obtain ⟨rfl, rfl⟩ := List.append_eq_nil_iff.1 hFG
    intro m hm hj
    have hm' : m ≤ t.script.size := by simpa [h.size_eq] using hm
    exact h'.keeps (hp.mono h.nested.1 le_rfl) rfl m hm'
      (h.keeps (hp.mono le_rfl h'.nested.1) rfl m hm hj)

lemma Emits.parses_of_ne_nil (h : Emits q c d s s' F e) (hne : F ≠ [])
    (hnested : c.tokens.Nested s.pos s'.pos) (hsettled : Settled F) (hlive : Live F)
    (hunmarked : Unmarked F) : Parses q c d s s' F e where
  toEmits := h
  nested := hnested
  settled := hsettled
  live := hlive
  unmarked := hunmarked
  keeps _ hF := absurd hF hne

lemma settled_jump {dest : Nat} : Settled [⟨.jump op (some dest), d⟩] := by
  intro n hn op' h
  obtain rfl := List.mem_singleton.1 hn
  cases h

lemma settled_plain : Settled [⟨.plain op operands, d⟩] := by
  intro n hn op' h
  obtain rfl := List.mem_singleton.1 hn
  cases h

lemma Emits.parses (h : Emits q c d s s' [⟨.plain op operands, x⟩] e)
    (hlive : op.endsFlow = false) (hline : op ≠ .lineNum) (hpos : s'.pos = s.pos) :
    Parses q c d s s' [⟨.plain op operands, x⟩] e where
  toEmits := h
  nested := hpos ▸ .refl
  settled := settled_plain
  live := live_concat (F := []) hlive
  unmarked := .plain hline
  keeps _ h := by cases h

variable (hr : Ready q c d s)
include hr

lemma writes_still {pos lastLine callBytes : Nat} (hbytes : s.callBytes ≤ callBytes) :
    Writes q c d s { s with pos, diagnostics, lastLine, jumpTarget, axClobbered, callBytes } [] d :=
  ⟨emits_still hr hbytes, .nil, .nil, .nil⟩

lemma parses_silent {pos lastLine : Nat}
    (hkeeps : c.tokens.Plain s.pos pos → Keeps s { s with jumpTarget })
    (hnested : c.tokens.Nested s.pos pos) :
    Parses q c d s { s with pos, diagnostics, lastLine, jumpTarget, axClobbered } [] d where
  toWrites := writes_still hr le_rfl
  nested := hnested
  keeps hp _ := hkeeps hp

lemma parses_pos (hnested : c.tokens.Nested s.pos m) :
    Parses q c d s { s with pos := m } [] d :=
  parses_silent hr (fun _ => .of_eq rfl) hnested

lemma parses_nil : Parses q c d s s [] d :=
  parses_pos hr .refl

/-! ## Tokens -/

lemma parses_eatWord {w : Keyword} {b : Bool}
    (h : Runs (eatWord w) c s b s') : Parses q c d s s' [] d := by
  rcases runs_eatWord.1 h with ⟨hk, rfl, _⟩ | ⟨_, rfl, _⟩
  · exact parses_pos hr (Stream.nested_keyword hr.stream hk)
  · exact parses_nil hr

lemma parses_eat {b : Bool} (ho : mark.isOpener = false)
    (hc : mark.isCloser = false) (h : Runs (eat mark) c s b s') : Parses q c d s s' [] d := by
  rcases runs_eat.1 h with ⟨hk, rfl, _⟩ | ⟨_, rfl, _⟩
  · exact parses_pos hr (.token hr.stream hk ho hc)
  · exact parses_nil hr

lemma parses_expect (ho : mark.isOpener = false)
    (hc : mark.isCloser = false) (h : Runs (expect mark) c s u s') : Parses q c d s s' [] d := by
  obtain ⟨hk, rfl⟩ := runs_expect.1 h
  exact parses_pos hr (.token hr.stream hk ho hc)

omit hr in
lemma Parses.group {a b : Nat} (h : Parses q c d { s with pos := a } s' F e)
    (hs : c.tokens.Sealed) {kind kind' : Token.Kind} (hk : (c.tokens.get s.pos).kind = kind)
    (ho : kind.isOpener = true) (ha : a = c.tokens.after s.pos)
    (hk' : (c.tokens.get s'.pos).kind = kind') (hc : kind'.isCloser = true)
    (hb : b = c.tokens.after s'.pos) : Parses q c d s { s' with pos := b } F e where
  toEmits := { h with
    aside := { h.aside with }
    stocks := { h.stocks with }
    tidy := { h.tidy with } }
  nested := by
    have := h.nested
    rw [ha] at this
    exact hb ▸ .group hs hk ho this hk' hc
  settled := h.settled
  live := h.live
  unmarked := h.unmarked
  keeps hp hF := by
    refine h.keeps (hp.mono ?_ ?_) hF
    · exact ha ▸ Stream.le_after
    · exact hb ▸ Stream.le_after

lemma parses_emit (wf : (Instr.plain op operands).WellFormed)
    (hlive : op.endsFlow = false) (hline : op ≠ .lineNum) (hcall : op ≠ .call)
    (he : (Instr.plain op operands).effect = 0)
    (h : Runs (emit op operands) c s u s') : Parses q c d s s' [⟨.plain op operands, d⟩] d := by
  obtain rfl := runs_emit.1 h
  refine Emits.parses (emits_write hr wf ?_ hline hcall (by omega) rfl rfl rfl .refl hr.offset rfl
    { Aside.refl with }) hlive hline rfl
  rintro rfl
  cases hlive

lemma parses_calm (hc : op.isCalm = true) (wf : (Instr.plain op operands).WellFormed)
    (h : Runs (emit op operands) c s u s') : Parses q c d s s' [⟨.plain op operands, d⟩] d :=
  parses_emit hr wf (Opcode.endsFlow_of_isCalm hc) (Opcode.ne_lineNum_of_isCalm hc)
    (Opcode.ne_call_of_isCalm hc) (Instr.effect_of_isCalm hc) h

lemma parses_emitRegs {regs : List Register} (hc : op.isCalm = true)
    (hl : regs.length = op.operandCount) (h : Runs (emitRegs op regs) c s u s') :
    Parses q c d s s' [⟨.plain op (regs.map Register.toWord), d⟩] d :=
  parses_calm hr hc (Instr.wellFormed_regs regs (Opcode.isJump_of_isCalm hc) hl)
    (runs_emitRegs.1 h)

lemma parses_emitBare (hc : op.isCalm = true) (hl : op.operandCount = 0)
    (h : Runs (emit op []) c s u s') : Parses q c d s s' [⟨.plain op [], d⟩] d :=
  parses_calm hr hc (Instr.wellFormed_bare (Opcode.isJump_of_isCalm hc) hl) h

lemma parses_emitValue (hc : op.isCalm = true)
    (hl : op.operandCount = 1) (hn : op.isRegister 0 = false) (h : Runs (emit op [w]) c s u s') :
    Parses q c d s s' [⟨.plain op [w], d⟩] d :=
  parses_calm hr hc (Instr.wellFormed_value (Opcode.isJump_of_isCalm hc) hl hn) h

lemma parses_emitRegValues {ws : List Int32} (hc : op.isCalm = true)
    (hl : op.operandCount = ws.length + 1) (hn : ∀ i, op.isRegister (i + 1) = false)
    (h : Runs (emit op (reg.toWord :: ws)) c s u s') :
    Parses q c d s s' [⟨.plain op (reg.toWord :: ws), d⟩] d :=
  parses_calm hr hc (Instr.wellFormed_reg_values (Opcode.isJump_of_isCalm hc) hl hn) h

lemma parses_emitAdd (hn : reg ≠ .sp) (h : Runs (emit .add [reg.toWord, w]) c s u s') :
    Parses q c d s s' [⟨.plain .add [reg.toWord, w], d⟩] d :=
  parses_emit hr (Instr.wellFormed_reg_values rfl rfl fun _ => rfl) rfl (by decide) (by decide)
    (Instr.effect_add_of_ne hn) h

lemma parses_emitSub (hn : reg ≠ .sp) (h : Runs (emit .sub [reg.toWord, w]) c s u s') :
    Parses q c d s s' [⟨.plain .sub [reg.toWord, w], d⟩] d :=
  parses_emit hr (Instr.wellFormed_reg_values rfl rfl fun _ => rfl) rfl (by decide) (by decide)
    (Instr.effect_sub_of_ne hn) h

lemma parses_pushReg (h : Runs (pushReg reg) c s u s') :
    Parses q c d s s' [⟨.plain .pushReg [reg.toWord], d⟩] (d + 4) := by
  obtain ⟨_, rfl, rfl⟩ := h
  refine Emits.parses (emits_write hr (Instr.wellFormed_regs [reg] rfl rfl) (by decide) (by decide) (by decide)
    rfl rfl rfl rfl .refl ?_ rfl
    ⟨rfl, blocks_adjust, rfl, rfl, rfl, rfl, ⟨rfl, rfl⟩, ⟨rfl, rfl⟩⟩) rfl (by decide) rfl
  intro hq
  obtain ⟨ho, hd⟩ := hr.offset hq
  exact ⟨by rw [offset_adjust ho, toInt_cell], by omega⟩

lemma parses_popReg (hd : q → 4 ≤ d) (h : Runs (popReg reg) c s u s') :
    Parses q c d s s' [⟨.plain .popReg [reg.toWord], d⟩] (d - 4) := by
  obtain ⟨_, rfl, rfl⟩ := h
  refine Emits.parses (emits_write hr (Instr.wellFormed_regs [reg] rfl rfl) (by decide) (by decide) (by decide)
    (by simp [Instr.effect, Int.sub_eq_add_neg]) rfl rfl rfl .refl ?_ rfl
    ⟨rfl, blocks_adjust, rfl, rfl, rfl, rfl, ⟨rfl, rfl⟩, ⟨rfl, rfl⟩⟩) rfl (by decide) rfl
  intro hq
  have := hd hq
  exact ⟨by rw [offset_adjust (hr.offset hq).1, toInt_neg_cell, Int.sub_eq_add_neg], by omega⟩

lemma parses_loadLocal {offset : Int32}
    (h : Runs (loadLocal offset) c s u s') :
    Parses q c d s s' [⟨.plain .loadSpOffs [s.scope.offset - offset], d⟩] d := by
  simp [loadLocal, and_assoc, Scope.distance, runs_emit] at h
  subst h
  refine Emits.parses (emits_write hr (Instr.wellFormed_value rfl rfl rfl) (by decide) (by decide) (by decide)
    (by simp [Instr.effect]) rfl rfl rfl ?_ hr.offset rfl { Aside.refl with }) rfl (by decide) rfl
  simp only [Marks.add, Array.toList_push]
  refine .concat ⟨_, ⟨.plain .loadSpOffs [s.scope.offset - offset], d⟩, by simp [nodeAt], rfl,
    s.scope.offset - offset, rfl, fun hq => ?_⟩
  rw [(hr.offset hq).1]

omit hr in
lemma pos_litToReg (h : Runs (litToReg reg w) c s u s') : s'.pos = s.pos := by
  obtain ⟨_, rfl⟩ := runs_litToReg h
  rfl

omit hr in
lemma pos_fixed (h : Runs (litToReg reg w) c s u t) (h' : Runs (fixupLast reference) c t u s') :
    s'.pos = s.pos := by
  rw [← pos_litToReg h, runs_fixupLast.1 h']

lemma parses_litToReg (h : Runs (litToReg reg w) c s u s') :
    Parses q c d s s' [⟨.plain .litToReg [reg.toWord, w], d⟩] d :=
  (emits_litToReg hr h).parses rfl (by decide) (pos_litToReg h)

lemma parses_stringToAx {bytes : List UInt8} (ht : c.tokens.HasText bytes)
    (h : Runs (stringToAx bytes) c s u s') :
    ∃ w, Parses q c d s s' [⟨.plain .litToReg [Register.ax.toWord, w], d⟩] d := by
  simp only [stringToAx, runs_bind, runs_updateScript] at h
  obtain ⟨w, t, ⟨rfl, rfl⟩, _, t', h, h'⟩ := h
  have hpos := pos_fixed h h'
  have hsame : { s with script := (s.script.addString bytes).2 } = { s with script := { s.script with
      strings := (s.script.strings.add bytes).2, imports := s.script.imports } } := rfl
  have hr' := hr.stocked hsame (StringPool.add_sound hr.tidy.tables.strings) hr.tidy.tables.imports
  refine ⟨_, ((emits_fixed hr' ?_ (fun _ => rfl) h h').stocked hsame
    ⟨rfl, rfl, rfl, rfl, StringPool.add_grows, .refl⟩ (spends_fixed h h' rfl rfl fun e he => ?_)).parses
    rfl (by decide) hpos⟩
  · exact ⟨rfl, ht, _, rfl, StringPool.add_mem⟩
  · cases e with
    | imported name => exact .inl he
    | text bytes' =>
      rcases StringPool.mem_texts_add he with he | rfl
      · exact .inl he
      · exact .inr rfl

lemma parses_importToReg {name : String} (hname : s.symbols.Imports name)
    (hentry : reference.needs? s.symbols = some (.imported name))
    (hmeans : ∀ {script : Script} {slot : Nat}, script.imports[slot]? = some name →
      reference.Means c s.symbols script reg (Int32.ofNat slot))
    (hwait : ∀ p, Mark.waiting? s.symbols ⟨p, reference⟩ = none)
    (h : Runs (importToReg reg reference name) c s u s') :
    ∃ w, Parses q c d s s' [⟨.plain .litToReg [reg.toWord, w], d⟩] d := by
  simp only [importToReg, runs_bind, runs_updateScript] at h
  obtain ⟨w, t, ⟨rfl, rfl⟩, _, t', h, h'⟩ := h
  have hpos := pos_fixed h h'
  obtain ⟨imports, hsame⟩ := @addImport_same name s.script
  have ht : { s with script := (s.script.addImport name).2 } =
      { s with script := { s.script with strings := s.script.strings, imports } } := by rw [hsame]
  have himports : imports = (s.script.addImport name).2.imports := by rw [hsame]
  have hgrown : Grown s.symbols.Imports s.script.imports.toList
      (s.script.addImport name).2.imports.toList := addImport_grown hname
  have hr' := hr.stocked ht hr.tidy.tables.strings
    (himports ▸ addImport_nodup hr.tidy.tables.imports)
  refine ⟨_, ((emits_fixed hr' (hmeans addImport_slot) hwait h h').stocked ht
    ⟨rfl, by simp only [hsame], by simp only [hsame], rfl, by simp only [hsame]; exact .refl, hgrown⟩
    (spends_fixed h h' (by simp only [hsame]; rfl) hentry fun e he => ?_)).parses rfl (by decide)
    hpos⟩
  cases e with
  | imported name' =>
    rcases (addImport_grown (P := (· = name)) rfl).mem he with he | rfl
    · exact .inl he
    · exact .inr rfl
  | text bytes =>
    simp only [Script.Has, hsame] at he
    exact .inl he

lemma parses_clobberAx (h : Runs clobberAx c s u s') :
    Parses q c d s s' [] d := by
  obtain rfl := runs_clobberAx.1 h
  exact parses_silent hr (fun _ => .of_eq rfl) .refl

end AdventureScript.Gen
