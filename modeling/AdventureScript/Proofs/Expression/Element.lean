import AdventureScript.Proofs.Declaration.Basic
import AdventureScript.Proofs.Machine
import AdventureScript.Proofs.Symbols.Packing
import AdventureScript.Proofs.Trial.Basic

/-!
Elements of arrays that are stored in place. The code behind a variable with indices leaves in MAR the
address of the variable plus each index times the size of what it selects. An index out of bounds is
refused when it is known, and stops the machine when it is computed.
-/
namespace AdventureScript

/-! ## Loaded code -/

/-- Where a loader puts the data and finds the imports. -/
structure Loader where
  data : Int32
  imported : String → Int32

/-- What becomes of the word `w` at `p`. -/
structure Loader.Adjusts (load : Loader) (script : Script) (p : Nat) (w w' : Int32) : Prop where
  plain : (∀ f ∈ script.fixups.toList, f.offset ≠ p) → w' = w
  data : ⟨p, .globalData⟩ ∈ script.fixups.toList → w' = load.data + w
  imported : ∀ {slot name}, ⟨p, .imported⟩ ∈ script.fixups.toList → w = Int32.ofNat slot →
    script.imports[slot]? = some name → w' = load.imported name

/-- From `b` on, the code is that of the script once it is loaded. -/
def LoadedFrom (load : Loader) (script : Script) (b : Nat) (code : Array Int32) : Prop :=
  ∀ p w, b ≤ p → script.code[p]? = some w →
    ∃ w', code[p]? = some w' ∧ load.Adjusts script p w w'

variable {load : Loader} {script script1 script' : Script} {b i : Nat} {code : Array Int32}
  {kind : FixupKind} {w : Int32} {m m' : Machine} {op : Opcode} {ws operands : List Int32}
  {P P' : Machine → Prop} {a a' a'' v v' v'' : Machine → Int32}

lemma getElem?_mono {α : Type} {l l' : Array α} {x : α} (h : l.toList <+: l'.toList)
    (hx : l[i]? = some x) : l'[i]? = some x := by
  obtain ⟨more, h⟩ := h
  rw [← Array.getElem?_toList] at hx ⊢
  rw [← h, List.getElem?_append_left (List.getElem?_eq_some_iff.1 hx).1, hx]

lemma LoadedFrom.of_over (h : LoadedFrom load script' b code) (ho : script.Over script') :
    LoadedFrom load script b code := by
  intro p w hb hw
  obtain ⟨w', hw', ha⟩ := h p w hb (getElem?_mono ho.code hw)
  refine ⟨w', hw', fun hno => ha.plain fun f hf heq => ?_, fun hf => ha.data (ho.fixups.subset hf),
    fun hf hw hname => ha.imported (ho.fixups.subset hf) hw (getElem?_mono ho.imports hname)⟩
  rcases ho.fixups.mem hf with hf | hle
  · exact hno f hf heq
  · have := (Array.getElem?_eq_some_iff.1 hw).1
    simp only [Script.size] at hle
    omega

lemma LoadedFrom.added (h : LoadedFrom load script' b code) (hb : b ≤ script.size)
    (hcode : script'.code.toList = script.code.toList ++ ws) (hi : ws[i]? = some w) :
    ∃ w', code[script.size + i]? = some w' ∧ load.Adjusts script' (script.size + i) w w' :=
  h _ w (le_trans hb (Nat.le_add_right ..)) (wordsAt_of_append hcode i w hi)

abbrev Drives (code : Array Int32) (m m' : Machine) : Prop :=
  Travels code (fun _ => False) m m'

/-- AX and MAR are set, and the machine is else as it was. -/
structure Sets (a v : Machine → Int32) (m m' : Machine) : Prop where
  ax : m'.reg .ax = a m
  mar : m'.reg .mar = v m
  frame : SameFrame m m'
  mem : m'.mem = m.mem

/-- The code between two scripts, once loaded, sets AX and MAR in a machine that is as `P` says. -/
structure Does (load : Loader) (script script' : Script) (P : Machine → Prop)
    (a v : Machine → Int32) : Prop where
  grows : script.Over script'
  go : ∀ {b code m}, b ≤ script.size → LoadedFrom load script' b code → m.pc = script.size → P m →
    ∃ m', Drives code m m' ∧ m'.pc = script'.size ∧ Sets a v m m'

lemma Does.then (h : Does load script script1 P a v) (h' : Does load script1 script' P' a' v')
    (hP : ∀ {m m'}, Sets a v m m' → P m → P' m')
    (hR : ∀ {m m'}, Sets a v m m' → a' m' = a'' m ∧ v' m' = v'' m) :
    Does load script script' P a'' v'' where
  grows := h.grows.trans h'.grows
  go hb hload hpc hm := by
    obtain ⟨m1, hgo, hpc1, h1⟩ := h.go hb (hload.of_over h'.grows) hpc hm
    obtain ⟨m', hgo', hpc', h2⟩ := h'.go (le_trans hb h.grows.size_le) hload hpc1 (hP h1 hm)
    exact ⟨m', hgo.trans hgo', hpc', h2.ax.trans (hR h1).1, h2.mar.trans (hR h1).2,
      h1.frame.trans h2.frame, h2.mem.trans h1.mem⟩

lemma does_nothing (ho : script.Over script') (hsize : script'.size = script.size) :
    Does load script script' P (·.reg .ax) (·.reg .mar) :=
  ⟨ho, fun {_ _ m} _ _ hpc _ => ⟨m, .refl m, hpc.trans hsize.symm, rfl, rfl, ⟨rfl, rfl, rfl⟩, rfl⟩⟩

lemma mem_fixupLast : ⟨script.size + 2, kind⟩ ∈
    ((script.litToReg .mar w).fixupLast kind).fixups.toList := by
  simp [Script.fixupLast, Script.addFixup, Script.litToReg]

section

variable (hs : script.Bounded)
include hs

lemma wordsAt_write (hb : b ≤ script.size) (h : LoadedFrom load (script.write op operands) b code) :
    WordsAt code script.size (op.toWord :: operands) := by
  intro i w hi
  obtain ⟨w', hw', ha⟩ := h.added hb Script.toList_write hi
  rw [hw', ha.plain fun f hf => by have := hs.fixups f hf; omega]

lemma does_write (hop : op.isJump = false) (hl : operands.length = op.operandCount)
    (h : ∀ {m}, P m → ∃ m', (m.skip (op.operandCount + 1)).perform op operands = some m' ∧
      Sets a v m m') : Does load script (script.write op operands) P a v where
  grows := .write (.refl hs)
  go {b code m} hb hload hpc hm := by
    obtain ⟨m', he, hsets⟩ := h hm
    have hstep := (Machine.step_eq (hpc ▸ wordsAt_write hs hb hload) hl).trans he
    refine ⟨m', .step id hstep (.refl m'), ?_, hsets⟩
    rw [Machine.perform_pc hop he, Script.size_write, hl, ← hpc]
    rfl

lemma does_fixed (hv : ∀ {m w'}, load.Adjusts ((script.litToReg .mar w).fixupLast kind)
      (script.size + 2) w w' → w' = v m) :
    Does load script ((script.litToReg .mar w).fixupLast kind) P (·.reg .ax) v where
  grows := .fixupLast (.write (.refl hs)) (by simp [Script.litToReg])
  go {b code m} hb hload hpc _ := by
    have hload {i x} := hload.added (i := i) (w := x) hb Script.toList_write
    have hplain : ∀ i x, i < 2 → [Opcode.litToReg.toWord, Register.mar.toWord, w][i]? = some x →
        code[script.size + i]? = some x := fun i x hi hx => by
      obtain ⟨w', hw', ha⟩ := hload hx
      rw [hw', ha.plain fun f hf => ?_]
      have hf : f ∈ script.fixups.toList ∨ f = ⟨script.size + 2, kind⟩ := by
        simpa [Script.fixupLast, Script.addFixup, Script.litToReg] using hf
      rcases hf with hf | rfl
      · have := hs.fixups f hf
        omega
      · simp only
        omega
    have hwords : WordsAt code m.pc [Opcode.litToReg.toWord, Register.mar.toWord, v m] := by
      rw [hpc]
      rintro (_ | _ | _ | i) x hx
      · exact hplain 0 x (by omega) hx
      · exact hplain 1 x (by omega) hx
      · obtain ⟨_, h, ha⟩ := hload (i := 2) rfl
        exact (hv ha ▸ h).trans hx
      · cases hx
    refine ⟨_, .step id (Machine.step_eq hwords rfl) (.refl _), ?_, rfl, rfl, ⟨rfl, rfl, rfl⟩, rfl⟩
    change m.pc + 3 = (script.litToReg .mar w).size
    rw [hpc, Script.litToReg, Script.size_write]
    rfl

end

/-! ## Addresses -/

/-- The address of a place, at `depth` bytes above the local variables. -/
def Place.address (load : Loader) (symbols : Symbols) (depth : Int32) (place : Place) (m : Machine) :
    Int32 :=
  place.component.toInt32 + match place.anchor with
  | .global offset => load.data + offset.toInt32
  | .local offset => m.reg .sp - depth + offset
  | .imported id => load.imported ((symbols.globals[id.index]?.map (·.name)).getD "")
  | .this => m.reg .op
  | .mar => m.reg .mar

/-- There is an object where one is needed. -/
def Place.Held (place : Place) (m : Machine) : Prop :=
  place.anchor = .this → m.reg .op ≠ 0

variable {place place' : Place} {symbols : Symbols} {depth : Int32}

lemma Place.address_congr (h : SameFrame m m')
    (hmar : place.anchor = .mar → m'.reg .mar = m.reg .mar) :
    place.address load symbols depth m' = place.address load symbols depth m := by
  rcases place with ⟨_ | _ | _ | _ | _, _⟩ <;> simp_all [address, h.1, h.2.1]

lemma Place.address_plus {k : UInt32} : (place.plus k).address load symbols depth m =
    place.address load symbols depth m + k.toInt32 := by
  simp only [address, plus, UInt32.toInt32_add]
  grind

namespace Gen

variable {c : Context} {s s' t : State} {u : Unit} {bytes dim factor : Int32}

lemma does_addToMar (h : Does load script s.script P (·.reg .ax) v)
    (h' : Runs (addToMar bytes) c s u s') :
    Does load script s'.script P (·.reg .ax) fun m => bytes + v m := by
  have hadd : Does load s.script s'.script (fun _ => True) (·.reg .ax) fun m => bytes + m.reg .mar := by
    simp only [addToMar, runs_ite] at h'
    rcases h' with ⟨_, h'⟩ | ⟨hzero, h'⟩
    · obtain rfl := runs_emit.1 h'
      exact does_write h.grows.bounded rfl rfl fun _ =>
        ⟨_, rfl, rfl, Int32.add_comm .., ⟨rfl, rfl, rfl⟩, rfl⟩
    · obtain ⟨rfl, _⟩ := runs_pure.1 h'
      simp only [not_not.1 hzero, Int32.zero_add]
      exact does_nothing (.refl h.grows.bounded) rfl
  exact Does.then h hadd (fun _ _ => trivial) fun h => ⟨h.ax, by rw [h.mar]⟩

lemma does_loadAddress (hs : s.script.Bounded) (h : Runs (loadAddress place) c s u s') :
    Does load s.script s'.script place.Held (·.reg .ax)
      (place.address load s.symbols s.scope.offset) := by
  rcases place with ⟨offset | offset | id | _ | _, component⟩
  · simp only [loadAddress, runs_bind] at h
    obtain ⟨_, t, h, h'⟩ := h
    obtain ⟨_, rfl⟩ := runs_litToReg h
    obtain rfl := runs_fixupLast.1 h'
    refine does_fixed hs fun ha => (ha.data mem_fixupLast).trans ?_
    change load.data + (offset.toInt32 + component.toInt32) =
      component.toInt32 + (load.data + offset.toInt32)
    grind
  · simp [loadAddress, loadLocal, runs_emit, and_assoc] at h
    rw [h]
    refine does_write hs rfl rfl fun {m} _ => ⟨_, rfl, rfl, ?_, ⟨rfl, rfl, rfl⟩, rfl⟩
    change m.reg .sp - (s.scope.offset - (offset + component.toInt32)) =
      component.toInt32 + (m.reg .sp - s.scope.offset + offset)
    grind
  · simp only [loadAddress, importToReg, runs_bind, runs_globalAt, runs_updateScript] at h
    obtain ⟨v, s, ⟨rfl, hv⟩, _, t, ⟨slot, t1, ⟨rfl, rfl⟩, _, t2, h1, h2⟩, h3⟩ := h
    obtain ⟨_, rfl⟩ := runs_litToReg h1
    obtain rfl := runs_fixupLast.1 h2
    obtain ⟨imports, hsame⟩ := @addImport_same v.name s.script
    have hadd : s.script.Over (s.script.addImport v.name).2 := .addImport (.refl hs)
    have hname : (s.symbols.globals[id.index]?.map (·.name)).getD "" = v.name := by simp [hv]
    refine does_addToMar (v := fun _ => load.imported _) ?_ h3
    rw [hname]
    have hfixed : Does load _ _ (fun _ => True) _ _ := does_fixed hadd.bounded fun ha =>
      ha.imported mem_fixupLast rfl addImport_slot
    exact Does.then (does_nothing hadd (by rw [hsame]; rfl)) hfixed (fun _ _ => trivial) fun h => ⟨h.ax, rfl⟩
  · simp only [loadAddress, runs_bind, runs_emitRegs, runs_emit] at h
    obtain ⟨_, t1, rfl, _, t2, rfl, h⟩ := h
    have hregs : Does load s.script (s.script.write .regToReg [Register.op.toWord, Register.mar.toWord])
        (Place.Held ⟨.this, component⟩) (·.reg .ax) (·.reg .op) :=
      does_write hs rfl rfl fun _ => ⟨_, rfl, rfl, rfl, ⟨rfl, rfl, rfl⟩, rfl⟩
    have hnull : Does load _ (Script.write _ .checkNull []) (·.reg .mar ≠ 0) (·.reg .ax) (·.reg .mar) :=
      does_write hregs.grows.bounded rfl rfl fun hm => ⟨_, if_neg hm, rfl, rfl, ⟨rfl, rfl, rfl⟩, rfl⟩
    exact does_addToMar (Does.then hregs hnull (fun h hm => h.mar ▸ hm rfl) fun h => ⟨h.ax, h.mar⟩) h
  · exact does_addToMar (does_nothing (.refl hs) rfl) h

/-! ## One index -/

/-- Behind the code of an index, which is in AX, its element is looked up. -/
lemma does_addIndex {t1 t2 t3 : State} (hs : s.script.Bounded)
    (h1 : Runs (emit .checkBounds [Register.ax.toWord, dim]) c s u t1)
    (h2 : Runs (scaleAx factor) c t1 u t2) (h3 : Runs (loadAddress place) c t2 u t3)
    (h4 : Runs (emitRegs .addReg [.mar, .ax]) c t3 u s') :
    Does load s.script s'.script (fun m => (0 ≤ m.reg .ax ∧ m.reg .ax < dim) ∧ place.Held m)
        (fun m => m.reg .ax * factor)
        (fun m => place.address load s.symbols s.scope.offset m + m.reg .ax * factor) ∧
      (s.script.write .checkBounds [Register.ax.toWord, dim]).Over s'.script := by
  obtain rfl := runs_emit.1 h1
  obtain rfl := runs_emit.1 (runs_emitRegs.1 h4)
  have hcheck : Does load s.script (s.script.write .checkBounds [Register.ax.toWord, dim])
      (fun m => (0 ≤ m.reg .ax ∧ m.reg .ax < dim) ∧ place.Held m) (·.reg .ax) (·.reg .mar) :=
    does_write hs rfl rfl fun hm => ⟨_, if_pos hm.1, rfl, rfl, ⟨rfl, rfl, rfl⟩, rfl⟩
  obtain ⟨hscale, hsymbols, hoffset⟩ : Does load _ t2.script place.Held (fun m => m.reg .ax * factor)
      (·.reg .mar) ∧ t2.symbols = s.symbols ∧ t2.scope.offset = s.scope.offset := by
    simp only [scaleAx, runs_ite, runs_emit, runs_pure] at h2
    rcases h2 with ⟨_, rfl⟩ | ⟨hone, rfl, _⟩
    · exact ⟨does_write hcheck.grows.bounded rfl rfl fun _ => ⟨_, rfl, rfl, rfl, ⟨rfl, rfl, rfl⟩, rfl⟩,
        rfl, rfl⟩
    · simp only [not_not.1 hone, Int32.mul_one]
      exact ⟨does_nothing (.refl hcheck.grows.bounded) rfl, trivial, trivial⟩
  have hload : Does load _ _ _ _ _ := does_loadAddress hscale.grows.bounded h3
  have hadd : Does load t3.script (t3.script.write .addReg [Register.mar.toWord, Register.ax.toWord])
      (fun _ => True) (·.reg .ax) fun m => m.reg .mar + m.reg .ax :=
    does_write hload.grows.bounded rfl rfl fun _ => ⟨_, rfl, rfl, rfl, ⟨rfl, rfl, rfl⟩, rfl⟩
  rw [hsymbols, hoffset] at hload
  have hscaled := Does.then hcheck hscale (fun h hm hthis => h.frame.2.1 ▸ hm.2 hthis)
    fun h => ⟨congrArg (· * factor) h.ax, h.mar⟩
  have hplaced := Does.then hscaled hload (fun h hm hthis => h.frame.2.1 ▸ hm.2 hthis)
    fun h => ⟨h.ax, Place.address_congr h.frame fun _ => h.mar⟩
  exact ⟨Does.then hplaced hadd (fun _ _ => trivial) fun h => ⟨h.ax, by rw [h.mar, h.ax]⟩,
    hscale.grows.trans (hload.grows.trans hadd.grows)⟩

lemma Parses.offset_eq {q : Prop} {d : Int} {F : List Assembly.Node} (h : Parses q c d s s' F d)
    (hr : Ready q c d s) (hq : q) (hfits : Fits s') : s'.scope.offset = s.scope.offset :=
  (h.offset hq hfits).1.trans (hr.offset hq).1.symm

lemma Emits.over {q : Prop} {d e : Int} {F : List Assembly.Node} (h : Emits q c d s s' F e) (hs : Tidy s) :
    s.script.Over s'.script where
  code := ⟨_, h.code.symm⟩
  fixups := h.extends.fixups hs
  lines := grown_of_lined h.lines
  strings := h.stocks.strings
  imports := by
    obtain ⟨more, hmore, _⟩ := h.stocks.imports
    exact ⟨more, hmore.symm⟩
  globalData := h.stocks.globalData
  exports := h.stocks.exports
  sections := h.aside.sections.1
  bounded := h.tidy.within.script

/-- The code from `p` to `e` leaves `i` in AX, whatever the registers hold but SP and OP. -/
def Computes (code : Array Int32) (p e : Nat) (sp op : Int32) (mem : Int32 → Option UInt8) (i : Int32)
    (mem' : Int32 → Option UInt8) : Prop :=
  ∀ m : Machine, m.pc = p → m.reg .sp = sp → m.reg .op = op → m.mem = mem →
    ∃ m', Drives code m m' ∧ m'.pc = e ∧ m'.reg .ax = i ∧ SameFrame m m' ∧ m'.mem = mem'

/-- An index is known when it is compiled, or computed. -/
inductive Index where
  | known (i : Int32)
  | computed (i : Int32)

def Index.value : Index → Int32
  | known i | computed i => i

/-- What the index that is compiled from `s` on comes to. -/
inductive Evaluates (parts : Parts) (c : Context) (code : Array Int32) (sp op : Int32) (s : State)
    (mem : Int32 → Option UInt8) : Index → (Int32 → Option UInt8) → Prop
  | known {o t i} (h : Runs (indexOperand parts) c s o t) (hi : o.constant? = some (.int i)) :
    Evaluates parts c code sp op s mem (.known i) mem
  | computed {o t t' i mem'} (h : Runs (indexOperand parts) c s o t)
      (hno : ∀ i, o.constant? ≠ some (.int i)) (h' : Runs (indexToAx parts o) c t () t')
      (hcode : Computes code s.script.size t'.script.size sp op mem i mem') :
    Evaluates parts c code sp op s mem (.computed i) mem'

section

variable {q : Prop} {d : Int} {parts : Parts} {o : Operand} {t1 t2 : State} {i sp : Int32}
  {mem mem' : Int32 → Option UInt8} (hp : Sound parts) (hr : Ready q c d s)
include hp hr

lemma over_index (h1 : Runs (indexOperand parts) c s o t) (h2 : Runs (indexToAx parts o) c t () t1) :
    s.script.Over t1.script := by
  simp [indexOperand, Parts.whole, and_assoc] at h1
  obtain ⟨t', h, _, rfl⟩ := h1
  obtain ⟨F, hF, ho⟩ := hp.yields hr h
  have hr' := ready_pos (hF.ready hr) (c.tokens.after t'.pos)
  obtain ⟨G, hG⟩ := parses_indexToAx hp hr' (hF.aside.symbols ▸ ho.located) h2
  exact (hF.toEmits.over hr.tidy).trans (hG.toEmits.over hr'.tidy)

/-- The index comes into AX, and the machine is else as it was. -/
lemma goes_index (h1 : Runs (indexOperand parts) c (indexStart c place s) o t)
    (h2 : Runs (indexToAx parts o) c t () t1)
    (h3 : if place.anchor = .mar then Runs (popReg .mar) c t1 () t2 else t2 = t1)
    (hcode : Computes code (indexStart c place s).script.size t1.script.size
      (if place.anchor = .mar then m.reg .sp + 4 else m.reg .sp) (m.reg .op) m.mem i mem')
    (hload : LoadedFrom load t2.script b code) (hb : b ≤ s.script.size) (hpc : m.pc = s.script.size) :
    ∃ m', Drives code m m' ∧ m'.pc = t2.script.size ∧ m'.reg .ax = i ∧ SameFrame m m' ∧
      (place.anchor = .mar → m'.reg .mar = m.reg .mar) ∧ m'.mem = mem' := by
  by_cases hmar : place.anchor = .mar
  · have hr1 := (parses_pushReg (ready_pos hr _) (runs_indexStart hmar)).ready (ready_pos hr _)
    have hindex := over_index hp hr1 h1 h2
    have hscript : (indexStart c place s).script = s.script.write .pushReg [Register.mar.toWord] := by
      simp [indexStart, hmar]
    rw [if_pos hmar] at h3 hcode
    rw [hscript] at hindex hcode
    simp [popReg, runs_emitRegs, runs_emit, runs_adjustStack] at h3
    rw [h3] at hload ⊢
    have hs := hr.tidy.within.script
    have hb1 := le_trans hb ((Script.Over.write (.refl hs)).trans hindex).size_le
    have hpush := Machine.step_eq (hpc ▸ wordsAt_write hs hb
      (hload.of_over (hindex.trans (.write (.refl hindex.bounded))))) rfl
    obtain ⟨m2, hgo, hpc2, hax, hframe, hmem⟩ :=
      hcode ((m.skip 2).push (m.reg .mar)) (by rw [Script.size_write, ← hpc]; rfl) rfl rfl rfl
    have hpop := Machine.step_eq (hpc2 ▸ wordsAt_write hindex.bounded hb1 hload) rfl
    have hsp : m2.reg .sp - 4 = m.reg .sp := by
      rw [hframe.1]
      exact Int32.add_sub_cancel ..
    have hpopped : (m2.skip 2).pop .mar = some { ((m2.skip 2).set .sp (m2.reg .sp - 4)).set .mar
        (m.reg .mar) with stack := m.stack } := by
      simp only [Machine.pop, Machine.skip, hframe.2.2]
      rfl
    refine ⟨_, .step id hpush (hgo.trans (.step id (hpop.trans hpopped) (.refl _))), ?_, hax,
      ⟨hsp, hframe.2.1, rfl⟩, fun _ => rfl, hmem⟩
    rw [Script.size_write]
    exact congrArg (· + 2) hpc2
  · rw [if_neg hmar] at h3 hcode
    rw [indexStart, if_neg hmar] at h1 hcode
    obtain rfl := h3
    obtain ⟨m2, hgo, hpc, hax, hframe, hmem⟩ := hcode m hpc rfl rfl rfl
    exact ⟨m2, hgo, hpc, hax, hframe, fun h => absurd h hmar, hmem⟩

end

/-- The index is one of `dim` many. -/
def InRange (dim : UInt32) (i : Int32) : Prop :=
  0 ≤ i.toInt ∧ i.toInt < dim.toNat

lemma inRange_iff {dim : UInt32} (h : dim.toNat < 2 ^ 31) {i : Int32} :
    InRange dim i ↔ 0 ≤ i ∧ i < dim.toInt32 := by
  rw [Int32.le_iff_toInt_le, Int32.lt_iff_toInt_lt, toInt_toInt32 h]
  rfl

lemma inRange_of_lt {dim : UInt32} {i : Int32} (hlo : 0 ≤ i) (hlt : i.toUInt32 < dim) :
    InRange dim i := by
  have hlt := UInt32.lt_iff_toNat_lt.1 hlt
  have hlo' : 0 ≤ i.toInt := Int32.le_iff_toInt_le.1 hlo
  rw [Int32.toNat_toUInt32_of_le hlo, ← Int32.toNat_toInt] at hlt
  exact ⟨hlo', by omega⟩

/-- The machine stops at a check of `i` against `dim`. -/
def Refused (code : Array Int32) (m : Machine) (i dim : Int32) : Prop :=
  ∃ m', Drives code m m' ∧ m'.reg .ax = i ∧
    WordsAt code m'.pc [Opcode.checkBounds.toWord, Register.ax.toWord, dim] ∧ m'.step code = none

lemma Refused.after {i : Int32} (h : Drives code m m') (hr : Refused code m' i dim) :
    Refused code m i dim := by
  obtain ⟨m1, h', hend⟩ := hr
  exact ⟨m1, h.trans h', hend⟩

section

variable {q : Prop} {d : Int} {parts : Parts} {number : Nat} {dim factor : UInt32} {i : Index}
  {sp op : Int32} {mem mem' : Int32 → Option UInt8}

lemma indexStatic_known {o : Operand} {i : Int32}
    (h : Runs (indexStatic parts place dim factor number) c s place' s')
    (h' : Runs (indexOperand parts) c (indexStart c place s) o t) (hi : o.constant? = some (.int i)) :
    InRange dim i ∧ place' = place.plus (i.toUInt32 * factor) ∧
      if place.anchor = .mar then Runs (unsaveMar s.script.checkpoint) c t () s' else s' = t := by
  obtain ⟨o, t, h1, hcases⟩ := indexStatic_cases h
  obtain ⟨rfl, rfl⟩ := h1.unique h'
  obtain ⟨k, hk, hlo, hlt, hrest⟩ | ⟨hno, _⟩ := hcases
  · obtain rfl : k = i := by simpa [hk] using hi
    exact ⟨inRange_of_lt hlo hlt, hrest⟩
  · exact absurd hi (hno i)

/-- The code of one index adds it to the address, times the size of what it selects, or stops at it. -/
lemma goes_indexStatic (hp : Sound parts) (hr : Ready q c d s) (hq : q)
    (hk : (c.tokens.get s.pos).kind = .symbol .leftBracket) (hplace : place.Anchored s.symbols)
    (hdim : dim.toNat < 2 ^ 31)
    (h : Runs (indexStatic parts place dim factor number) c s place' s')
    (hi : Evaluates parts c code (if place.anchor = .mar then m.reg .sp + 4 else m.reg .sp) (m.reg .op)
      (indexStart c place s) m.mem i mem')
    (hfits : Fits s') (hload : LoadedFrom load s'.script b code) (hb : b ≤ s.script.size)
    (hpc : m.pc = s.script.size) (hheld : place.Held m) :
    (InRange dim i.value ∧ ∃ m', Drives code m m' ∧ m'.pc = s'.script.size ∧ SameFrame m m' ∧
      m'.mem = mem' ∧ place'.address load s.symbols s.scope.offset m' =
        place.address load s.symbols s.scope.offset m + i.value * factor.toInt32) ∨
    ∃ k, i = .computed k ∧ ¬InRange dim k ∧ Refused code m k dim.toInt32 := by
  cases hi with
  | known h' hi =>
    obtain ⟨hrange, rfl, h2⟩ := indexStatic_known h h' hi
    have hsize := (parses_knownIndex hp hr hk h' (by simp [hi]) h2).size_eq
    refine .inl ⟨hrange, m, .refl _, hpc.trans hsize.symm, ⟨rfl, rfl, rfl⟩, rfl, ?_⟩
    rw [Place.address_plus, UInt32.toInt32_mul, Int32.toInt32_toUInt32]
    rfl
  | @computed _ _ _ i _ h' hno h'' hcode =>
    obtain ⟨o, t, h1, hcases⟩ := indexStatic_cases h
    obtain ⟨rfl, rfl⟩ := h1.unique h'
    obtain ⟨k, hk', _⟩ | ⟨_, rfl, t1, t2, t3, t4, t5, h2, h3, h4, h5, h6, h7⟩ := hcases
    · exact absurd hk' (hno k)
    obtain ⟨_, rfl⟩ := h2.unique h''
    obtain ⟨G, hG⟩ := parses_computedIndex hp hr hk h1 h2 h3
    obtain ⟨H, hH⟩ := parses_addIndex (hG.ready hr) (hG.aside.symbols ▸ hplace) h4 h5 h6 h7
    obtain ⟨hadd : Does load _ _ _ _ _, hchecked⟩ := does_addIndex hG.tidy.within.script h4 h5 h6 h7
    obtain ⟨m1, hgo, hpc1, hax, hframe, hmar, hmem⟩ :=
      goes_index hp hr h1 h2 h3 hcode (hload.of_over hadd.grows) hb hpc
    have haddress : place.address load s.symbols s.scope.offset m1 =
      place.address load s.symbols s.scope.offset m := Place.address_congr hframe hmar
    have hb1 : b ≤ t2.script.size := by
      rw [hG.size_eq]
      omega
    rw [hG.aside.symbols, hG.offset_eq hr hq (hH.fits hfits)] at hadd
    by_cases hin : 0 ≤ i ∧ i < dim.toInt32
    · obtain ⟨m', hgo', hpc', hsets⟩ := hadd.go hb1 hload hpc1
        ⟨hax.symm ▸ hin, fun hthis => hframe.2.1 ▸ hheld hthis⟩
      refine .inl ⟨(inRange_iff hdim).2 hin, m', hgo.trans hgo', hpc', hframe.trans hsets.frame,
        hsets.mem.trans hmem, ?_⟩
      rw [← haddress, ← hax, Index.value, ← hsets.mar]
      exact Int32.zero_add _
    · have hcheck := wordsAt_write hG.tidy.within.script hb1 (hload.of_over hchecked)
      rw [← hpc1] at hcheck
      rw [← hax] at hin
      exact .inr ⟨i, rfl, fun h => hin (hax ▸ (inRange_iff hdim).1 h), m1, hgo, hax, hcheck,
        (Machine.step_eq hcheck rfl).trans (if_neg hin)⟩

end

end Gen

/-! ## Any number of indices -/

namespace Ty

variable {t : Ty} {types : TypeTable}

def dims (t : Ty) : List UInt32 :=
  match t.shape with
  | .static dims => dims
  | _ => []

lemma afterIndex_cons {dim : UInt32} {rest : List UInt32} (types : TypeTable) (h : t.dims = dim :: rest) :
    t.afterIndex.dims = rest ∧ t.afterIndex.elementSize types = t.elementSize types ∧
      t.afterIndex.bytes types = (t.elementSize types).toNat * (rest.map (·.toNat)).prod ∧
      t.bytes types = dim.toNat * t.afterIndex.bytes types := by
  have hshape : t.shape = .static (dim :: rest) := by
    unfold dims at h
    split at h <;> simp_all
  cases rest <;> simp [dims, bytes, afterIndex, hshape, element, elementSize, Nat.mul_comm, Nat.mul_assoc]

end Ty

/-- Each index counts the bytes of what it selects. -/
def elementOffset (size : Nat) : List UInt32 → List Int32 → Int
  | _ :: dims, i :: is => i.toInt * (size * (dims.map (·.toNat)).prod : Nat) + elementOffset size dims is
  | _, _ => 0

namespace Gen

/-- The indices are no more than the dimensions, and in range. -/
def InBounds : List UInt32 → List Int32 → Prop
  | _, [] => True
  | dim :: dims, i :: is => InRange dim i ∧ InBounds dims is
  | [], _ :: _ => False

/-- Indices are compiled one after the other, and come to what is listed. -/
inductive Indices (parts : Parts) (c : Context) (code : Array Int32) (sp op : Int32) :
    Operand → State → (Int32 → Option UInt8) → List Index → Operand → State → (Int32 → Option UInt8) → Prop
  | nil {o s mem} : Indices parts c code sp op o s mem [] o s mem
  | cons {o place dims number s mem i o1 t mem1 is o' s' mem'} (hv : o.value = .stored (.memory place))
      (hshape : o.ty.shape = .static dims) (hk : (c.tokens.get s.pos).kind = .symbol .leftBracket)
      (h : Runs (compileIndex parts o number) c s o1 t)
      (hi : Evaluates parts c code (if place.anchor = .mar then sp + 4 else sp) op (indexStart c place s)
        mem i mem1)
      (hrest : Indices parts c code sp op o1 t mem1 is o' s' mem') :
      Indices parts c code sp op o s mem (i :: is) o' s' mem'

variable {parts : Parts} {o o1 o' : Operand} {number : Nat} {dims : List UInt32} {is : List Index}
  {sp op : Int32} {mem mem' : Int32 → Option UInt8}

lemma compileIndex_static (hv : o.value = .stored (.memory place)) (hshape : o.ty.shape = .static dims)
    (h : Runs (compileIndex parts o number) c s o1 t) :
    ∃ dim place1, o.ty.dims = dim :: o1.ty.dims ∧ o1.ty = o.ty.afterIndex ∧
      o1.value = .stored (.memory place1) ∧
      Runs (indexStatic parts place dim (o1.ty.size s.symbols.types) number) c s place1 t := by
  simp only [compileIndex, hv, hshape] at h
  simp [and_assoc] at h
  obtain ⟨dim, hdim, place1, h, rfl⟩ := h
  have hdims : o.ty.dims = dim :: dims.tail := by
    cases dims <;> simp_all [Ty.dims]
  refine ⟨dim, place1, ?_, rfl, rfl, h⟩
  rw [hdims]
  exact congrArg _ (Ty.afterIndex_cons default hdims).1.symm

/-- A constant out of range is refused. -/
lemma Indices.known_inRange (h : Indices parts c code sp op o s mem is o' t mem') {k : Nat} {i : Int32}
    (hk : is[k]? = some (.known i)) : ∃ dim, o.ty.dims[k]? = some dim ∧ InRange dim i := by
  induction h generalizing k with
  | nil => simp at hk
  | cons hv hshape _ h hi _ ih =>
    obtain ⟨dim, place1, hdims, _, _, h⟩ := compileIndex_static hv hshape h
    rw [hdims]
    cases k with
    | zero =>
      obtain rfl : _ = Index.known i := by simpa using hk
      cases hi with
      | known h' hi => exact ⟨dim, rfl, (indexStatic_known h h' hi).1⟩
    | succ k => exact ih (by simpa using hk)

/-- The selected bytes are among those of the array. -/
lemma Indices.within (types : TypeTable) (h : Indices parts c code sp op o s mem is o' t mem')
    (hin : InBounds o.ty.dims (is.map Index.value)) :
    0 ≤ elementOffset (o.ty.elementSize types).toNat o.ty.dims (is.map Index.value) ∧
      elementOffset (o.ty.elementSize types).toNat o.ty.dims (is.map Index.value) +
        o'.ty.bytes types ≤ o.ty.bytes types := by
  induction h with
  | nil => simp [elementOffset]
  | @cons _ _ _ _ _ _ _ o1 _ _ _ _ _ _ hv hshape _ h _ _ ih =>
    obtain ⟨dim, place1, hdims, hty, _⟩ := compileIndex_static hv hshape h
    obtain ⟨_, hsize, hbytes, htotal⟩ := Ty.afterIndex_cons types hdims
    rw [hdims] at hin ⊢
    obtain ⟨⟨hlo, hlt⟩, hin⟩ := hin
    obtain ⟨ih1, ih2⟩ := ih hin
    rw [hty, hsize, ← hty] at ih1 ih2
    rw [← hty] at hbytes htotal
    have hlt := Int.mul_le_mul_of_nonneg_right hlt (Int.natCast_nonneg (o1.ty.bytes types))
    have hlo := Int.mul_nonneg hlo (Int.natCast_nonneg (o1.ty.bytes types))
    rw [Int.add_mul, Int.one_mul] at hlt
    rw [htotal, List.map_cons, elementOffset, ← hbytes, Int.natCast_mul]
    exact ⟨by omega, by omega⟩

section

variable {q : Prop} {d : Int} (hp : Sound parts)
include hp

lemma Indices.parses (h : Indices parts c code sp op o s mem is o' t mem') (hr : Ready q c d s)
    (ho : o.Located s.symbols) : ∃ F, Parses q c d s t F d := by
  induction h generalizing q with
  | nil => exact ⟨[], parses_nil hr⟩
  | cons _ _ hk h _ _ ih =>
    obtain ⟨⟨F, hF, ho1⟩, _⟩ := selects_compileIndex hp hr hk ho h
    obtain ⟨G, hG⟩ := ih (hF.ready hr) (hF.aside.symbols ▸ ho1.located)
    exact ⟨_, hF.trans hG⟩

lemma Indices.goes (h : Indices parts c code sp op o s mem is o' t mem') (hr : Ready q c d s) (hq : q)
    (ho : o.Located s.symbols) (hv : o.value = .stored (.memory place))
    (hdims : ∀ dim ∈ o.ty.dims, dim.toNat < 2 ^ 31) (hfits : Fits t) (hload : LoadedFrom load t.script b code)
    (hb : b ≤ s.script.size) (hpc : m.pc = s.script.size) (hsp : m.reg .sp = sp) (hop : m.reg .op = op)
    (hmem : m.mem = mem) (hheld : place.Held m) :
    (InBounds o.ty.dims (is.map Index.value) ∧ ∃ place' m', o'.value = .stored (.memory place') ∧
      place'.Held m' ∧ Drives code m m' ∧ m'.pc = t.script.size ∧ SameFrame m m' ∧ m'.mem = mem' ∧
      place'.address load s.symbols s.scope.offset m' = place.address load s.symbols s.scope.offset m +
        Int32.ofInt (elementOffset (o.ty.elementSize s.symbols.types).toNat o.ty.dims
          (is.map Index.value))) ∨
    ∃ (k : Nat) (i : Int32) (dim : UInt32), is[k]? = some (.computed i) ∧ o.ty.dims[k]? = some dim ∧
      ¬InRange dim i ∧ Refused code m i dim.toInt32 := by
  induction h generalizing q m place with
  | nil =>
    exact .inl ⟨by simp [InBounds], place, m, hv, hheld, .refl _, hpc, ⟨rfl, rfl, rfl⟩, hmem,
      by simp [elementOffset]⟩
  | @cons o _ dims number s _ i o1 t1 mem1 is o' s' mem' hv1 hshape hk h hi hrest ih =>
    obtain rfl : place = _ := by simpa [hv] using hv1
    obtain ⟨⟨F, hF, ho1⟩, _⟩ := selects_compileIndex hp hr hk ho h
    obtain ⟨dim, place1, hdims1, hty, hv1, hrun⟩ := compileIndex_static hv hshape h
    obtain ⟨_, hsize, hbytes, _⟩ := Ty.afterIndex_cons s.symbols.types hdims1
    have hsymbols := hF.aside.symbols
    have ho1 := hsymbols ▸ ho1.located
    obtain ⟨G, hG⟩ := hrest.parses hp (hF.ready hr) ho1
    have hload1 := hload.of_over (hG.toEmits.over hF.tidy)
    have hfits1 := hG.fits hfits
    have hanchored : place.Anchored s.symbols := by
      simp only [Operand.Located, hv] at ho
      exact ho.anchored
    obtain ⟨_, _, hplace1⟩ := parses_indexStatic hp hr hk hanchored hrun
    subst hsp hop hmem
    rw [hdims1] at hdims ⊢
    obtain ⟨hrange, m1, hgo1, hpc1, hframe1, hmem1, haddress1⟩ | ⟨k, rfl, hrange, hrefused⟩ :=
      goes_indexStatic hp hr hq hk hanchored (hdims dim (by simp)) hrun hi hfits1 hload1 hb hpc hheld
    · have hheld1 : place1.Held m1 := fun hthis => hframe1.2.1 ▸ by
        rcases hplace1 with hmar | ⟨k, _, rfl⟩
        · simp [hmar] at hthis
        · exact hheld hthis
      have hrest := ih (hF.ready hr) ⟨hq, hfits1⟩ ho1 hv1 (fun dim h => hdims dim (by simp [h])) hfits hload
        (by rw [hF.size_eq]; omega) hpc1 hframe1.1 hframe1.2.1 hmem1 hheld1
      rw [hsymbols, hF.offset_eq hr hq hfits1, hty, hsize, ← hty] at hrest
      obtain ⟨hin, place', m', hv', hheld', hgo', hpc', hframe', hmem', haddress'⟩ |
        ⟨k, j, dim', hj, hdim', hno, hrefused⟩ := hrest
      · refine .inl ⟨⟨hrange, hin⟩, place', m', hv', hheld', hgo1.trans hgo', hpc', hframe1.trans hframe',
          hmem', ?_⟩
        rw [haddress', haddress1, List.map_cons, elementOffset, ← hbytes, ← hty, Int32.ofInt_add,
          Int32.add_assoc, Ty.size_eq, UInt32.toInt32_ofNat', Int32.ofInt_mul, Int32.ofInt_toInt]
        rfl
      · exact .inr ⟨k + 1, j, dim', hj, hdim', hno, .after hgo1 hrefused⟩
    · exact .inr ⟨0, k, dim, rfl, rfl, hrange, hrefused⟩

end

end Gen
end AdventureScript
