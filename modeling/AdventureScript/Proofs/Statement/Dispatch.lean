import AdventureScript.Proofs.Declaration.Basic
import AdventureScript.Proofs.Machine

/-!
Where a switch goes. A machine that runs the code of a switch over integers with constant cases comes
first to the clause that is asked for, and from the end of the last clause behind the switch.
-/
namespace AdventureScript

variable {code code' : Array Int32} {js : Array PendingJump} {script : Script} {p : Nat}
  {ws : List Int32} {w w' : Int32} {clauses : Clauses} {ks : List Case}

lemma getElem?_landAllHere : (script.landAllHere js).code[p]? =
    if ⟨p⟩ ∈ js ∧ p < script.size then some (jumpDistance p script.size) else script.code[p]? := by
  simp only [Script.landAllHere, ← Array.foldl_toList, ← Array.mem_toList_iff]
  generalize js.toList = js
  induction js generalizing script with
  | nil => simp
  | cons j js ih =>
    have hj : (script.landHere j).code[p]? =
        if p = j.operand ∧ p < script.size then some (jumpDistance p script.size)
        else script.code[p]? := by
      simp only [Script.landHere, Script.land, Script.patch, Script.size, Array.getElem?_setIfInBounds]
      grind
    rw [List.foldl_cons, ih, Script.size_landHere, hj]
    rcases j with ⟨operand⟩
    grind

lemma WordsAt.spared (h : WordsAt script.code p ws)
    (hjs : ∀ j ∈ js, j.operand < p ∨ p + ws.length ≤ j.operand) :
    WordsAt (script.landAllHere js).code p ws :=
  h.of_eq fun i hi hlt => by
    rw [getElem?_landAllHere, if_neg]
    rintro ⟨hj, _⟩
    have := hjs _ hj
    simp only at this
    omega

lemma WordsAt.landed (h : WordsAt script.code p [w, w']) (hj : ⟨p + 1⟩ ∈ js) (hp : ⟨p⟩ ∉ js) :
    WordsAt (script.landAllHere js).code p [w, jumpDistance (p + 1) script.size] := by
  have hlt := (Array.getElem?_eq_some_iff.1 (h 1 w' rfl)).1
  rintro (_ | _ | i) x hx
  · rw [getElem?_landAllHere, if_neg fun h => hp h.1, ← hx]
    exact h 0 w rfl
  · rw [getElem?_landAllHere, if_pos ⟨hj, hlt⟩]
    exact hx
  · simp at hx

namespace Gen
open Assembly

variable {c : Context} {d : Int} {s s' t : State} {u : Unit} {Γ : Site} {stops : Nat → Prop}
  {m : Machine} {dest : Nat} {mark : List Int32} {k : Case}

/-! ## Comparisons -/

def CaseValue.word? : CaseValue → Option Int32
  | .const value => some value.toWord
  | .code _ _ => none

/-- Where a value leads: to the first case for it, else to the default, else to `stop`. -/
def Clauses.target (clauses : Clauses) (v : Int32) (stop : Nat) : Nat :=
  ((clauses.cases.toList.find? (CaseValue.word? ·.value = some v)).map Case.body).getD
    (clauses.default?.getD stop)

def comparison (p : Nat) (w : Int32) (dest : Nat) : List Int32 :=
  [Opcode.litToReg.toWord, Register.ax.toWord, w, Opcode.isEqual.toWord, Register.ax.toWord,
    Register.bx.toWord] ++ [Opcode.jnz.toWord, jumpDistance (p + 7) dest]

lemma code_compileComparison (hw : CaseValue.word? k.value = some w)
    (h : Runs (compileComparison .isEqual k) c s u s') :
    ∃ mark, (mark = [] ∨ ∃ line, mark = [Opcode.lineNum.toWord, line]) ∧
      s'.script.code.toList = s.script.code.toList ++
        (mark ++ comparison (s.script.size + mark.length) w k.body) := by
  rcases k with ⟨value | chunk, body, line⟩
  · obtain rfl : value.toWord = w := by simpa [CaseValue.word?] using hw
    simp only [compileComparison, caseToAx, forgetLine, runs_bind, runs_modify, exists_eq_left] at h
    obtain ⟨_, _, t1, h1, _, t2, h2, _, t3, h3, h4⟩ := h
    obtain ⟨_, rfl⟩ := runs_litToReg h2
    obtain rfl := runs_emit.1 (runs_emitRegs.1 h3)
    obtain rfl := runs_jumpTo.1 h4
    simp [markLine, and_assoc, runs_modifyScript] at h1
    rcases h1 with ⟨_, _, rfl⟩ | ⟨_, rfl⟩
    · simp [Script.litToReg, Script.write, Script.writeLine, Script.size, comparison, Nat.add_assoc]
    · simp [Script.litToReg, Script.write, Script.size, comparison, Nat.add_assoc]
  · cases hw

lemma travels_comparison (hmark : mark = [] ∨ ∃ line, mark = [Opcode.lineNum.toWord, line])
    (h : WordsAt code m.pc (mark ++ comparison (m.pc + mark.length) w dest))
    (hstops : ∀ i, m.pc ≤ i → i < m.pc + (mark.length + 8) → ¬stops i)
    (hsize : m.pc + (mark.length + 8) < 2 ^ 31) (hdest : dest < 2 ^ 31) :
    ∃ m', Travels code stops m m' ∧ m'.reg .bx = m.reg .bx ∧
      m'.pc = if w = m.reg .bx then dest else m.pc + (mark.length + 8) := by
  have hmarked : Travels code stops m (m.skip mark.length) := by
    rcases hmark with rfl | ⟨line, rfl⟩
    · exact .refl m
    · have hblock : ∀ i, m.pc ≤ i → i < m.pc + 2 → ¬stops i := fun i hi hlt =>
        hstops i hi (by omega)
      exact (travels_exec [(.lineNum, [line])] rfl h.left hblock rfl).1
  obtain ⟨m1, he, hax, hbx⟩ : ∃ m1, (m.skip mark.length).exec [(.litToReg, [Register.ax.toWord, w]),
      (.isEqual, [Register.ax.toWord, Register.bx.toWord])] = some m1 ∧
      m1.reg .ax = (if w = m.reg .bx then 1 else 0) ∧ m1.reg .bx = m.reg .bx := ⟨_, rfl, rfl, rfl⟩
  have hblock : ∀ i, m.pc + mark.length ≤ i → i < m.pc + mark.length + 6 → ¬stops i := fun i hi hlt =>
    hstops i (by omega) (by omega)
  obtain ⟨htested, hpc⟩ := travels_exec _ rfl h.right.left hblock he
  replace hpc : m1.pc = m.pc + mark.length + 6 := hpc
  have hjump : m1.step code = _ := Machine.step_jnz (by omega) hdest (by rw [hpc]; exact h.right.right)
  refine ⟨_, hmarked.trans (htested.trans (.step (hstops _ (by omega) (by omega)) hjump (.refl _))),
    hbx, ?_⟩
  by_cases hw : w = m.reg .bx <;> simp [hax, hw, hpc, Nat.add_assoc]

inductive Comparisons : Nat → List Case → List Int32 → Prop
  | nil {p : Nat} : Comparisons p [] []
  | cons {p : Nat} {k : Case} {ks : List Case} {w : Int32} {mark ws : List Int32}
      (hw : CaseValue.word? k.value = some w)
      (hmark : mark = [] ∨ ∃ line, mark = [Opcode.lineNum.toWord, line])
      (h : Comparisons (p + (mark.length + 8)) ks ws) :
      Comparisons p (k :: ks) (mark ++ comparison (p + mark.length) w k.body ++ ws)

lemma code_comparisons (hks : ∀ k ∈ ks, (CaseValue.word? k.value).isSome = true)
    (h : Runs (forM ks (compileComparison .isEqual)) c s u s') :
    ∃ ws, s'.script.code.toList = s.script.code.toList ++ ws ∧ Comparisons s.script.size ks ws := by
  induction ks generalizing s with
  | nil =>
    obtain rfl := runs_forM_nil.1 h
    exact ⟨[], by simp, .nil⟩
  | cons k ks ih =>
    obtain ⟨t, ht, h⟩ := runs_forM_cons.1 h
    obtain ⟨w, hw⟩ := Option.isSome_iff_exists.1 (hks k List.mem_cons_self)
    obtain ⟨mark, hmark, hcode⟩ := code_compileComparison hw ht
    obtain ⟨ws, hcode', hws⟩ := ih (fun k hk => hks k (List.mem_cons_of_mem _ hk)) h
    have hsize : t.script.size = s.script.size + (mark.length + 8) := by
      simpa [Script.size, comparison] using congrArg List.length hcode
    exact ⟨_, by rw [hcode', hcode, List.append_assoc], .cons hw hmark (hsize ▸ hws)⟩

lemma Comparisons.travels (h : Comparisons m.pc ks ws) (hcode : WordsAt code m.pc ws)
    (hstops : ∀ i, m.pc ≤ i → i < m.pc + ws.length → ¬stops i)
    (hsize : m.pc + ws.length < 2 ^ 31) (hbody : ∀ k ∈ ks, k.body < 2 ^ 31) :
    ∃ m', Travels code stops m m' ∧ m'.pc =
      ((ks.find? (CaseValue.word? ·.value = some (m.reg .bx))).map Case.body).getD
        (m.pc + ws.length) := by
  generalize hp : m.pc = p at h
  induction h generalizing m with
  | nil => exact ⟨m, .refl m, hp⟩
  | @cons p k ks w mark ws hw hmark h ih =>
    subst hp
    have hlength : (mark ++ comparison (m.pc + mark.length) w k.body).length = mark.length + 8 := by
      simp [comparison]
    rw [List.length_append, hlength] at hstops hsize ⊢
    obtain ⟨m1, hgo, hbx, hpc⟩ := travels_comparison hmark hcode.left
      (fun i hi hlt => hstops i hi (by omega)) (by omega) (hbody k List.mem_cons_self)
    by_cases hv : w = m.reg .bx
    · exact ⟨m1, hgo, by simp [hpc, hv, hw]⟩
    · rw [if_neg hv] at hpc
      have hrest := hcode.right
      rw [hlength, ← hpc] at hrest
      obtain ⟨m', hgo', hpc'⟩ := ih hrest (fun i hi hlt => hstops i (by omega) (by omega)) (by omega)
        (fun k hk => hbody k (List.mem_cons_of_mem _ hk)) hpc
      refine ⟨m', hgo.trans hgo', ?_⟩
      rw [hpc', hbx, List.find?_cons_of_neg (by simpa [hw] using hv), Nat.add_assoc]

/-! ## Switches -/

def otherwise (default? : Option Nat) (p : Nat) : List Int32 :=
  match default? with
  | some body => [Opcode.jmp.toWord, jumpDistance (p + 1) body]
  | none => []

lemma travels_otherwise {default? : Option Nat} (h : WordsAt code m.pc (otherwise default? m.pc))
    (hstops : ∀ i, m.pc ≤ i → i < m.pc + (otherwise default? m.pc).length → ¬stops i)
    (hsize : m.pc + (otherwise default? m.pc).length < 2 ^ 31)
    (hbody : ∀ body, default? = some body → body < 2 ^ 31) :
    ∃ m', Travels code stops m m' ∧
      m'.pc = default?.getD (m.pc + (otherwise default? m.pc).length) := by
  cases default? with
  | none => exact ⟨m, .refl m, rfl⟩
  | some body =>
    exact ⟨_, .step (hstops _ le_rfl (by simp [otherwise]))
      (Machine.step_jmp hsize (hbody body rfl) h) (.refl _), rfl⟩

lemma code_compileComparisons {ty : Ty} (hty : ty.isInteger = true)
    (hks : ∀ k ∈ clauses.cases.toList, (CaseValue.word? k.value).isSome = true)
    (h : Runs (compileComparisons ty clauses) c s u s') :
    ∃ ws, Comparisons s.script.size clauses.cases.toList ws ∧ s'.script.code.toList =
      s.script.code.toList ++ (ws ++ otherwise clauses.default? (s.script.size + ws.length)) := by
  have hno : ty.isAnyString s.symbols.types = false := by
    simp [Ty.isInteger, Ty.isAnyString, Ty.isOldString, Ty.isStringPointer, Ty.isPointer] at hty ⊢
    rcases ty with ⟨base, _⟩
    cases base <;> simp_all [Base.isInteger]
  simp only [compileComparisons, runs_bind, runs_getTypes, exists_eq_left, and_assoc, hno] at h
  obtain ⟨_, t, h1, h2⟩ := h
  have h1 : Runs (forM clauses.cases.toList (compileComparison .isEqual)) c s () t := by
    rcases clauses with ⟨⟨ks⟩, default?, start?⟩
    simpa using h1
  obtain ⟨ws, hcode, hws⟩ := code_comparisons hks h1
  have hsize : t.script.size = s.script.size + ws.length := by
    simpa [Script.size] using congrArg List.length hcode
  refine ⟨ws, hws, ?_⟩
  cases hdefault : clauses.default? with
  | none =>
    simp only [hdefault] at h2
    obtain ⟨rfl, _⟩ := runs_pure.1 h2
    simp [hcode, otherwise]
  | some body =>
    simp only [hdefault] at h2
    obtain rfl := runs_jumpTo.1 h2
    simp [Script.write, hcode, otherwise, hsize]

lemma code_skipNext {j? : Option PendingJump} (h : Runs skipNext c s j? s') :
    j? = (if s.isReachable then some ⟨s.script.size + 1⟩ else none) ∧ s'.script.code.toList =
      s.script.code.toList ++ if s.isReachable then [Opcode.jmp.toWord, 0] else [] := by
  simp only [skipNext, runs_bind, runs_isReachable, exists_eq_left, and_assoc, runs_ite, runs_map,
    runs_pure, runs_jump] at h
  rcases h with ⟨hr, _, rfl, rfl, rfl⟩ | ⟨hr, rfl, rfl⟩
  · simp [hr, Script.write]
  · simp [hr]

lemma script_landAllHere (h : Runs (landAllHere js) c s u s') :
    s'.script = s.script.landAllHere js := by
  by_cases hjs : js = #[]
  · simp [landAllHere, hjs] at h
    simp [h, hjs, Script.landAllHere]
  · simp [landAllHere, hjs, runs_modifyScript, runs_markJumpTarget] at h
    rw [h.2]

/-- The code of a switch whose value is in AX at `v` and whose clauses end at `e`: the jump over the
clauses leads to the comparisons `ws` from `start` on, and the jumps out of them to the end. -/
structure Switched (code before : Array Int32) (breaks : Array PendingJump) (clauses : Clauses)
    (v e start : Nat) (ws : List Int32) (ends : Bool) : Prop where
  keep : WordsAt code v [Opcode.regToReg.toWord, Register.ax.toWord, Register.bx.toWord]
  hop : WordsAt code (v + 3) [Opcode.jmp.toWord, jumpDistance (v + 4) start]
  comparisons : Comparisons start clauses.cases.toList ws
  chain : WordsAt code start (ws ++ otherwise clauses.default? (start + ws.length))
  size : code.size = start + ws.length + (otherwise clauses.default? (start + ws.length)).length
  start : start = e + if ends then 2 else 0
  last : ends = true → WordsAt code e [Opcode.jmp.toWord, jumpDistance (e + 1) code.size]
  inside : ∀ i, v + 5 ≤ i → i < e →
    code[i]? = if ⟨i⟩ ∈ breaks then some (jumpDistance i code.size) else before[i]?

lemma switched_switchEnd {ty : Ty} {f : Frame} {v : Nat} (hty : ty.isInteger = true)
    (hks : ∀ k ∈ clauses.cases.toList, (CaseValue.word? k.value).isSome = true)
    (hhead : WordsAt t.script.code v ([Opcode.regToReg.toWord, Register.ax.toWord, Register.bx.toWord] ++
      [Opcode.jmp.toWord, 0]))
    (hbreaks : ∀ j ∈ f.breaks, v + 5 ≤ j.operand ∧ j.operand < t.script.size)
    (h : Runs (switchEnd ty clauses f ⟨v + 4⟩) c t u s') :
    ∃ start ws, Switched s'.script.code t.script.code f.breaks clauses v t.script.size start ws
      t.isReachable := by
  simp only [switchEnd, runs_bind] at h
  obtain ⟨j?, t1, h1, _, t2, h2, _, t3, h3, h4⟩ := h
  obtain ⟨rfl, hcode1⟩ := code_skipNext h1
  have hscript2 : t2.script = t1.script.landAllHere #[⟨v + 4⟩] := by
    rw [(runs_landHere.1 h2).2]
    simp [Script.landAllHere]
  obtain ⟨ws, hws, hcode3⟩ := code_compileComparisons hty hks h3
  have hscript4 := script_landAllHere h4
  have hlt : v + 4 < t.script.size := (Array.getElem?_eq_some_iff.1 (hhead 4 0 rfl)).1
  have hsize1 : t1.script.size = t.script.size + if t.isReachable then 2 else 0 := by
    have := congrArg List.length hcode1
    simp only [Array.length_toList, List.length_append, apply_ite List.length] at this
    exact this
  have hsize2 : t2.script.size = t1.script.size := by rw [hscript2, Script.size_landAllHere]
  have hjs : ∀ j ∈ f.breaks ++ (if t.isReachable then some ⟨t.script.size + 1⟩ else none).toArray,
      v + 5 ≤ j.operand ∧ j.operand < t1.script.size := by
    intro j hj
    rcases Array.mem_append.1 hj with hj | hj
    · have := hbreaks j hj
      omega
    · split at hj <;> simp at hj
      simp_all
      omega
  have hbehind : ∀ {p : Nat} {ws : List Int32}, p + ws.length ≤ v + 5 →
      WordsAt t3.script.code p ws → WordsAt s'.script.code p ws := fun hle h => hscript4 ▸
    h.spared fun j hj => .inr (le_trans hle (hjs j hj).1)
  have hsize3 : t3.script.size = t2.script.size + ws.length +
      (otherwise clauses.default? (t2.script.size + ws.length)).length := by
    rw [Nat.add_assoc, ← List.length_append]
    simpa [Script.size] using congrArg List.length hcode3
  have hsize4 : s'.script.code.size = t3.script.size := by
    rw [hscript4]
    exact Script.size_landAllHere
  refine ⟨t2.script.size, ws, ?_, ?_, hws, ?_, hsize4.trans hsize3, hsize2.trans hsize1, fun hr => ?_, fun i hi hlt => ?_⟩
  · have hkeep : WordsAt t2.script.code v _ := hscript2 ▸ (hhead.left.append hcode1).spared (by simp)
    exact hbehind (by simp) (hkeep.append hcode3)
  · have hover : WordsAt t2.script.code (v + 3) _ := hscript2 ▸
      (hhead.right.append hcode1).landed (by simp) (by simp)
    exact hbehind (by simp) (hsize2 ▸ hover.append hcode3)
  · rw [hscript4]
    exact (wordsAt_of_append hcode3).spared fun j hj =>
      .inl (Nat.lt_of_lt_of_eq (hjs j hj).2 hsize2.symm)
  · rw [hsize4, hscript4]
    simp only [hr, if_true] at hcode1 ⊢
    have hlast : WordsAt t2.script.code t.script.size [Opcode.jmp.toWord, 0] := hscript2 ▸
      (wordsAt_of_append hcode1).spared fun j hj => .inl (by simp at hj; simp [hj]; exact hlt)
    refine (hlast.append hcode3).landed (by simp) fun hj => ?_
    rcases Array.mem_append.1 hj with hj | hj
    · exact Nat.lt_irrefl _ (hbreaks _ hj).2
    · simp at hj
  · have hbefore : t3.script.code[i]? = t.script.code[i]? := by
      rw [← Array.getElem?_toList, hcode3, List.getElem?_append_left, Array.getElem?_toList, hscript2,
        getElem?_landAllHere, if_neg, ← Array.getElem?_toList, hcode1, List.getElem?_append_left,
        Array.getElem?_toList]
      · exact hlt
      · simp; omega
      · change i < t2.script.size; omega
    rw [hsize4, hscript4, getElem?_landAllHere, hbefore]
    have hmem : i < t3.script.size := by omega
    have hne : i ≠ t.script.size + 1 := by omega
    split <;> simp_all

lemma Switched.travels {v e start : Nat} {ends : Bool}
    (h : Switched code code' js clauses v e start ws ends) (hsize : code.size < 2 ^ 31)
    (hstarts : ∀ p, Clauses.StartsAt clauses p → v + 5 ≤ p ∧ p ≤ e ∧ (p = e → ends = true))
    (hpc : m.pc = v) :
    ∃ m', Travels code (fun p => Clauses.StartsAt clauses p ∨ p = code.size) m m' ∧
      m'.pc = Clauses.target clauses (m.reg .ax) code.size := by
  subst hpc
  have hlt : m.pc + 4 < code.size := (Array.getElem?_eq_some_iff.1 (h.hop 1 _ rfl)).1
  have hstart := h.start
  have hend := h.size
  have hno : ∀ i, i < m.pc + 5 ∨ start ≤ i → i < code.size →
      ¬(Clauses.StartsAt clauses i ∨ i = code.size) := by
    rintro i hi hlt (hat | rfl)
    · obtain ⟨hlo, hle, hends⟩ := hstarts i hat
      have : i = e := by split at hstart <;> omega
      simp [hends this] at hstart
      omega
    · omega
  obtain ⟨m1, he, hbx⟩ : ∃ m1, m.exec [(.regToReg, [Register.ax.toWord, Register.bx.toWord])] = some m1 ∧
      m1.reg .bx = m.reg .ax := ⟨_, rfl, rfl⟩
  have hblock : ∀ i, m.pc ≤ i → i < m.pc + 3 → _ := fun i _ hi => hno i (.inl (by omega)) (by omega)
  obtain ⟨hkept, hpc⟩ := travels_exec _ rfl h.keep hblock he
  replace hpc : m1.pc = m.pc + 3 := hpc
  have hjump : m1.step code = some { m1 with pc := start } :=
    Machine.step_jmp (by omega) (by omega) (by rw [hpc]; exact h.hop)
  have hbody : ∀ k ∈ clauses.cases.toList, k.body < 2 ^ 31 := fun k hk => by
    have := (hstarts k.body (.inl ⟨k, hk, rfl⟩)).2.1
    split at hstart <;> omega
  obtain ⟨m3, h3, hpc3⟩ := h.comparisons.travels (m := { m1 with pc := start }) h.chain.left
    (fun i hi hlt => hno i (.inr hi) (by simp only at hlt; omega)) (by simp only; omega) hbody
  have hgo := hkept.trans (.step (hno _ (.inl (by omega)) (by omega)) hjump h3)
  simp only [hbx] at hpc3
  rw [Clauses.target]
  cases hfind : clauses.cases.toList.find? (CaseValue.word? ·.value = some (m.reg .ax)) with
  | some k => exact ⟨m3, hgo, by simpa [hfind] using hpc3⟩
  | none =>
    replace hpc3 : m3.pc = start + ws.length := by simpa [hfind] using hpc3
    have hchain := h.chain.right
    rw [← hpc3] at hchain hend
    obtain ⟨m', h4, hpc'⟩ := travels_otherwise hchain
      (fun i hi hlt => hno i (.inr (by omega)) (by omega)) (by omega) fun body hbody => by
        have := (hstarts body (.inr hbody)).2.1
        split at hstart <;> omega
    exact ⟨m', hgo.trans h4, by simpa [hend] using hpc'⟩

lemma code_switchHead {head : Ty × PendingJump} (h : Runs switchHead c s head s') :
    ∃ t, Runs switchValue c { s with pos := c.tokens.after s.pos } head.1 t ∧
      head.2 = ⟨t.script.size + 4⟩ ∧ s'.script.code.toList = t.script.code.toList ++
        ([Opcode.regToReg.toWord, Register.ax.toWord, Register.bx.toWord] ++
          [Opcode.jmp.toWord, 0]) := by
  simp only [switchHead, runs_bind, runs_advance, runs_expect, runs_pure, exists_eq_left,
    and_assoc] at h
  obtain ⟨ty, t, hvalue, _, t1, h1, j, t2, h2, _, _, _, rfl, rfl, rfl⟩ := h
  obtain rfl := runs_emit.1 (runs_emitRegs.1 h1)
  obtain ⟨rfl, rfl⟩ := runs_jump.1 h2
  exact ⟨t, hvalue, by simp, by simp [Script.write]⟩

/-- A switch that was compiled from `s` to `s'` runs as it is written. Its value is in AX at the end of
`t`, its clauses stand between `t1` and `t2`. -/
def Dispatches (c : Context) (s s' : State) : Prop :=
  ∃ ty t t1 t2 clauses f F,
    Runs switchValue c { s with pos := c.tokens.after s.pos } ty t ∧
    Runs (switchBody Gen.statement ty s.scope.depth) c t1 (clauses, f) t2 ∧
    (∃ t0 tₙ, t0.script = t1.script ∧ tₙ.script.code.toList <+: t2.script.code.toList ∧
      Listed Gen.statement c ty t1.scope.offset t0 clauses tₙ) ∧
    t2.script.code.toList = t1.script.code.toList ++ words t1.script.size F ∧
    (ty.isInteger = true → (∀ k ∈ clauses.cases.toList, (CaseValue.word? k.value).isSome = true) →
      (∀ i, t1.script.size ≤ i → i < t2.script.size → s'.script.code[i]? =
        if ⟨i⟩ ∈ f.breaks then some (jumpDistance i s'.script.size) else t2.script.code[i]?) ∧
      (∀ m : Machine, m.pc = t.script.size → ∃ m',
        Travels s'.script.code (fun p => Clauses.StartsAt clauses p ∨ p = s'.script.size) m m' ∧
        m'.pc = Clauses.target clauses (m.reg .ax) s'.script.size) ∧
      (Clauses.StartsAt clauses t2.script.size ∨ Ends False t1.script.size F → ∀ m : Machine,
        m.pc = t2.script.size → m.step s'.script.code = some { m with pc := s'.script.size }))

end Gen
end AdventureScript
