import AdventureScript.Proofs.Safety.Basic

/-!
Writing code while an expression is compiled.
-/
namespace AdventureScript

variable {bytes value : Int32} {reference : Reference} {name : String}

def State.CallsWithin (s : State) : Prop :=
  ∀ m ∈ s.calls.entries, m.position < s.script.size ∧ m.value.index < s.symbols.functions.size

lemma State.CallsWithin.grow {s s' : State} (h : s.CallsWithin) (hcalls : s'.calls = s.calls)
    (hsymbols : s'.symbols = s.symbols) (hsize : s.script.size ≤ s'.script.size) :
    s'.CallsWithin := by
  intro m hm
  rw [hcalls] at hm
  rw [hsymbols]
  exact ⟨lt_of_lt_of_le (h m hm).1 hsize, (h m hm).2⟩

lemma State.CallsWithin.restore {s s' : State} {size : Nat} (h : s.CallsWithin)
    (hcalls : s'.calls = s.calls.keepBefore size) (hsymbols : s'.symbols = s.symbols) (hsize : min size s.script.size ≤ s'.script.size) :
    s'.CallsWithin := by
  intro k hk
  rw [hcalls] at hk
  obtain ⟨hk, hlt⟩ : k ∈ s.calls.entries ∧ k.position < size := by
    simpa [Marks.keepBefore] using hk
  rw [hsymbols]
  have := h k hk
  exact ⟨by omega, this.2⟩

namespace Gen.Safety

variable {α β : Type} {m : Mode} {base s s' : State} {n p : Nat}

/-- What an expression finds: all that it looks at is as in `base`. -/
structure Calm (strict : Prop) (base : State) (n : Nat) (s : State) : Prop where
  symbols : s.symbols = base.symbols
  blocks : s.scope.blocks = base.scope.blocks
  nesting : s.nesting = base.nesting
  function? : s.function? = base.function?
  size_le : n ≤ s.script.size
  calls : strict → s.CallsWithin

variable {strict : Prop} {J : State → Prop} {op : Opcode} {reg : Register}

lemma Calm.write (h : Calm strict base n s) (hsymbols : s'.symbols = s.symbols)
    (hblocks : s'.scope.blocks = s.scope.blocks) (hnesting : s'.nesting = s.nesting)
    (hfunction : s'.function? = s.function?) (hcalls : s'.calls = s.calls)
    (hsize : s.script.size ≤ s'.script.size) : Calm strict base n s' where
  symbols := hsymbols.trans h.symbols
  blocks := hblocks.trans h.blocks
  nesting := hnesting.trans h.nesting
  function? := hfunction.trans h.function?
  size_le := le_trans h.size_le hsize
  calls hs := (h.calls hs).grow hcalls hsymbols hsize

instance : Placeless (Calm strict base n) where
  setPos h := h.write rfl rfl rfl rfl rfl le_rfl

class Growing (I : Nat → State → Prop) : Prop where
  size_le : ∀ {n s}, I n s → n ≤ s.script.size
  mono : ∀ {n n' s}, I n s → n' ≤ s.script.size → I n' s
  write : ∀ {n s script}, I n s → s.script.size ≤ Script.size script → I n { s with script }

instance : Growing (Calm strict base) where
  size_le h := h.size_le
  mono h hn := { h with size_le := hn }
  write h hle := h.write rfl rfl rfl rfl rfl hle

lemma Growing.raise {I : Nat → State → Prop} [Growing I] {f : α → Gen β} {a : α} {n' : Nat}
    {T : β → Nat → Prop} (hle : n ≤ n') (hs : I n s) (hn : n' ≤ s.script.size)
    (hp : s.pos = p) (h : Sure m (I n') (I n') p (f a) T) :
    Meets m.strict (f a) m.c s fun b s' => I n s' ∧ T b s'.pos :=
  (h.run s (mono hs hn) hp).mono fun h' => ⟨mono h'.1 (le_trans hle (size_le h'.1)), h'.2⟩

abbrev Calmly (m : Mode) (base : State) (n p : Nat) (x : Gen α) (Q : α → Nat → Prop) : Prop :=
  Sure m (Calm m.strict base n) (Calm m.strict base n) p x Q

abbrev Quiet (m : Mode) (base : State) (n p : Nat) (x : Gen α) : Prop :=
  Calmly m base n p x fun _ q => q = p

section

variable {f : α → Gen β} {T : β → Nat → Prop}

lemma Sure.getSymbols {f : Symbols → Gen β}
    (h : Sure m (Calm m.strict base n) J p (f base.symbols) T) :
    Sure m (Calm m.strict base n) J p (getSymbols >>= f) T :=
  .look (fun {_} => runs_getSymbols.2 ⟨rfl, rfl⟩) fun s hs hp => hs.symbols ▸ h.run s hs hp

lemma Sure.getTypes {f : TypeTable → Gen β}
    (h : Sure m (Calm m.strict base n) J p (f base.symbols.types) T) :
    Sure m (Calm m.strict base n) J p (getTypes >>= f) T :=
  .look (fun {_} => runs_getTypes.2 ⟨rfl, rfl⟩) fun s hs hp => by
    rw [hs.symbols]
    exact h.run s hs hp

lemma sure_textOf {I : State → Prop} {ty : Ty} : Sure m I I p (textOf ty) fun _ q => q = p := by
  refine ⟨fun s hs hp => ?_⟩
  exact ⟨hs, hp⟩

end

/-! ## Writing -/

lemma calmly_modify {f : State → State}
    (hf : ∀ s, (f s).symbols = s.symbols ∧ (f s).scope.blocks = s.scope.blocks ∧
      (f s).nesting = s.nesting ∧ (f s).function? = s.function? ∧ (f s).calls = s.calls ∧
      s.script.size ≤ (f s).script.size ∧ (f s).pos = s.pos) :
    Quiet m base n p (modify f) := by
  refine ⟨fun s hs hp => ?_⟩
  obtain ⟨h1, h2, h3, h4, h5, h6, h7⟩ := hf s
  exact ⟨hs.write h1 h2 h3 h4 h5 h6, h7.trans hp⟩

lemma calmly_modifyScript {f : Script → Script} (hf : ∀ s : Script, s.size ≤ (f s).size) :
    Quiet m base n p (modifyScript f) :=
  calmly_modify fun s => ⟨rfl, rfl, rfl, rfl, rfl, hf s.script, rfl⟩

lemma calmly_emit {operands : List Int32} : Quiet m base n p (emit op operands) :=
  calmly_modifyScript fun s => by simp

lemma calmly_emitRegs {regs : List Register} : Quiet m base n p (emitRegs op regs) :=
  calmly_modifyScript fun s => by simp [Script.writeRegs]

lemma calmly_clobberAx : Quiet m base n p clobberAx :=
  calmly_modify fun _ => ⟨rfl, rfl, rfl, rfl, rfl, le_rfl, rfl⟩

lemma calmly_litToReg : Quiet m base n p (litToReg reg value) := by
  have hwrite : Quiet m base n p (modifyScript (·.litToReg reg value)) :=
    calmly_modifyScript fun s => by simp [Script.litToReg]
  exact .ite (calmly_clobberAx.then hwrite) hwrite

lemma Sure.litToReg {f : Unit → Gen β} {T : β → Nat → Prop}
    (h : ∀ n', 0 < n' → n ≤ n' → Calmly m base n' p (f ()) T) :
    Calmly m base n p (litToReg reg value >>= f) T := by
  have hwrite : Calmly m base n p (modifyScript (·.litToReg reg value) >>= f) T := by
    refine ⟨fun s hs hp => ?_⟩
    have hsize : (s.script.litToReg reg value).size = s.script.size + 3 := by simp [Script.litToReg]
    have hle : n ≤ s.script.size + 3 := le_trans hs.size_le (Nat.le_add_right ..)
    rw [meets_bind, modifyScript, meets_modify]
    exact Growing.raise hle (Growing.write hs (by omega)) (le_of_eq hsize.symm) hp
      (h _ (Nat.succ_pos _) hle)
  have hlit : Gen.litToReg reg value >>= f =
      if reg = .ax then clobberAx >>= fun _ => modifyScript (·.litToReg reg value) >>= f
      else modifyScript (·.litToReg reg value) >>= f := by
    unfold Gen.litToReg
    split <;> simp
  rw [hlit]
  exact .ite (calmly_clobberAx.then hwrite) hwrite

lemma calmly_fixupLast : Quiet m base n p (fixupLast reference) :=
  calmly_modify fun _ => ⟨rfl, rfl, rfl, rfl, rfl, le_rfl, rfl⟩

lemma calmly_updateScript {f : Script → α × Script} (hf : ∀ s : Script, s.size ≤ (f s).2.size) :
    Quiet m base n p (updateScript f) := by
  refine ⟨fun s hs hp => ?_⟩
  exact ⟨hs.write rfl rfl rfl rfl rfl (hf s.script), hp⟩

lemma calmly_stringToAx {bytes : List UInt8} : Quiet m base n p (stringToAx bytes) :=
  (calmly_updateScript fun _ => le_rfl).then <| calmly_litToReg.then calmly_fixupLast

lemma size_addImport {s : Script} : (s.addImport name).2.size = s.size := by
  unfold Script.addImport
  split <;> rfl

lemma calmly_importToReg : Quiet m base n p (importToReg reg reference name) :=
  (calmly_updateScript fun _ => le_of_eq size_addImport.symm).then <|
    calmly_litToReg.then calmly_fixupLast

lemma calmly_adjustStack {delta : Int32} : Quiet m base n p (adjustStack delta) :=
  calmly_modify fun _ => ⟨rfl, rfl, rfl, rfl, rfl, le_rfl, rfl⟩

lemma calmly_pushReg : Quiet m base n p (pushReg reg) :=
  calmly_emitRegs.then calmly_adjustStack

lemma calmly_popReg : Quiet m base n p (popReg reg) :=
  calmly_emitRegs.then calmly_adjustStack

lemma calmly_allocate : Quiet m base n p (allocate bytes) :=
  .ite (calmly_emit.then calmly_adjustStack) <| .ret rfl

lemma calmly_release : Quiet m base n p (release bytes) :=
  .ite (calmly_emit.then calmly_adjustStack) <| .ret rfl

lemma calmly_releaseOnExit : Quiet m base n p (releaseOnExit bytes) :=
  .ite calmly_emit <| .ret rfl

lemma calmly_loadLocal {offset : Int32} : Quiet m base n p (loadLocal offset) :=
  Sure.then (calmly_modify fun _ => ⟨rfl, rfl, rfl, rfl, rfl, le_rfl, rfl⟩) <|
      .get fun _ _ => calmly_emit

lemma calmly_jumpTo {target : Nat} : Quiet m base n p (jumpTo op target) :=
  calmly_modifyScript fun s => by simp [Script.jumpTo]

lemma calmly_noteCall {id : FuncId} (hn : 0 < n)
    (hid : m.strict → id.index < base.symbols.functions.size) :
    Quiet m base n p (modify fun s : State =>
      { s with calls := s.calls.add (s.script.size - 1) id }) := by
  refine ⟨fun s hs hp => ⟨{ hs with calls := fun h k hk => ?_ }, hp⟩⟩
  have hsize := hs.size_le
  rcases Array.mem_push.1 hk with hk | rfl
  · exact hs.calls h k hk
  · exact ⟨by simp only; omega, by simpa [hs.symbols] using hid h⟩

lemma calmly_markJumpTarget : Quiet m base n p markJumpTarget :=
  calmly_modify fun _ => ⟨rfl, rfl, rfl, rfl, rfl, le_rfl, rfl⟩

lemma calmly_markLine {line : Nat} : Quiet m base n p (markLine line) := by
  refine .getOptions (.get fun s hs => .ite ?_ <| .ret rfl)
  refine Sure.then (calmly_modifyScript fun s => ?_) <| calmly_modify
    fun _ => ⟨rfl, rfl, rfl, rfl, rfl, le_rfl, rfl⟩
  simp [Script.writeLine, Script.write, Script.size]
  omega

lemma calmly_forgetLine : Quiet m base n p forgetLine :=
  calmly_modify fun _ => ⟨rfl, rfl, rfl, rfl, rfl, le_rfl, rfl⟩

lemma calmly_warnAt {t : Token} {w : Warning} : Quiet m base n p (warnAt t w) := by
  refine ⟨fun s hs hp => ?_⟩
  exact ⟨hs.write rfl rfl rfl rfl rfl le_rfl, hp⟩

lemma calmly_warn {w : Warning} : Quiet m base n p (warn w) :=
  .look (fun {_} => runs_lastToken.2 ⟨rfl, rfl⟩) fun s hs hp => Sure.run calmly_warnAt s hs hp

section

variable {I : Nat → State → Prop} [Growing I] {T : β → Nat → Prop} {f : PendingJump → Gen β}

lemma Sure.jumped (h : ∀ j n', j.operand < n' → n ≤ n' → Sure m (I n') J p (f j) T) :
    Sure m (I n) J p (jump op >>= f) T := by
  refine ⟨fun s hs hp => ?_⟩
  rw [meets_bind, Gen.jump, meets_of_runs (runs_updateScript.2 ⟨rfl, rfl⟩)]
  have hsize : (s.script.jump op).2.size = s.script.size + 2 := by simp [Script.jump]
  have hj : (s.script.jump op).1.operand < s.script.size + 2 := by simp [Script.jump]
  have hle : n ≤ s.script.size + 2 := le_trans (Growing.size_le hs) (Nat.le_add_right ..)
  exact (h _ _ hj hle).run _ (Growing.mono (Growing.write hs (by omega)) (le_of_eq hsize.symm)) hp

lemma Sure.jump (h : ∀ j n', j.operand < n' → n ≤ n' → Sure m (I n') (I n') p (f j) T) :
    Sure m (I n) (I n) p (jump op >>= f) T :=
  .jumped fun j n' hj hn => (h j n' hj hn).weaken id fun h' =>
    Growing.mono h' (le_trans hn (Growing.size_le h'))

lemma sure_codeSize : Sure m J J p codeSize fun _ q => q = p :=
  ⟨fun _ hs hp => (meets_of_runs (runs_codeSize.2 ⟨rfl, rfl⟩)).2 ⟨hs, hp⟩⟩

lemma Sure.codeSize {f : Nat → Gen β}
    (h : ∀ size, n ≤ size → Sure m (I size) (I size) p (f size) T) :
    Sure m (I n) (I n) p (codeSize >>= f) T := by
  refine ⟨fun s hs hp => ?_⟩
  rw [meets_bind, meets_of_runs (runs_codeSize.2 ⟨rfl, rfl⟩)]
  have hle := Growing.size_le hs
  exact Growing.raise hle hs le_rfl hp (h _ hle)

lemma Sure.checkpoint {f : Checkpoint → Gen β}
    (h : ∀ k, n ≤ k.codeSize → Sure m (I n) J p (f k) T) : Sure m (I n) J p (checkpoint >>= f) T :=
  .look (fun {_} => runs_checkpoint.2 ⟨rfl, rfl⟩) fun s hs hp =>
    (h _ (Growing.size_le hs)).run s hs hp

end

lemma calmly_landHere {j : PendingJump} (hj : j.operand < n) : Quiet m base n p (landHere j) := by
  refine .codeSize fun size hsize => .dite (fun h => by omega) fun _ => ?_
  exact (calmly_modifyScript fun s => by simp).then calmly_markJumpTarget

lemma calmly_isReachable : Quiet m base n p isReachable := by
  refine ⟨fun s hs hp => ?_⟩
  exact ⟨hs, hp⟩

lemma calmly_restore {k : Checkpoint} (hk : n ≤ k.codeSize) : Quiet m base n p (restore k) := by
  refine ⟨fun s hs hp => ?_⟩
  have hsize := @Script.size_restore s.script k
  exact ⟨{ hs with
    size_le := by
      have := hs.size_le
      simp only [hsize]
      omega
    calls := fun h => (hs.calls h).restore rfl rfl (le_of_eq hsize.symm) }, hp⟩

lemma calmly_dryRun {x : Gen α} {Q : α → Nat → Prop}
    (h : ∀ n', n ≤ n' → Calmly m base n' p x Q) :
    Calmly m base n p (dryRun x) fun r q => Q r.1 r.2 ∧ q = p := by
  refine ⟨fun s hs hp => ?_⟩
  have hx := (h s.script.size hs.size_le).run s (Growing.mono hs le_rfl) hp
  refine meets_dryRun (hx.mono fun {a t} ht => ?_)
  have hsize := @Script.size_restore t.script s.script.checkpoint
  have hback : (t.script.restore s.script.checkpoint).size = s.script.size := by
    rw [hsize]
    exact Nat.min_eq_left ht.1.size_le
  exact ⟨{
    symbols := ht.1.symbols
    blocks := ht.1.blocks
    nesting := ht.1.nesting
    function? := ht.1.function?
    size_le := le_trans hs.size_le (le_of_eq hback.symm)
    calls := fun hstrict => (ht.1.calls hstrict).restore rfl rfl (le_of_eq hsize.symm) },
    ht.2, hp⟩

end Gen.Safety
end AdventureScript
