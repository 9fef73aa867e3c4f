import AdventureScript.Proofs.Code.Node

/-!
The machine that scripts run on, as far as the theorems about running code need it.
-/
namespace AdventureScript

structure Machine where
  pc : Nat
  reg : Register → Int32
  mem : Int32 → Option UInt8
  /-- The words that were pushed, latest first. -/
  stack : List Int32

namespace Machine

def skip (m : Machine) (n : Nat) : Machine :=
  { m with pc := m.pc + n }

def jump (m : Machine) (distance : Int32) : Machine :=
  { m with pc := (m.pc + distance.toInt).toNat }

def set (m : Machine) (r : Register) (w : Int32) : Machine :=
  { m with reg := fun r' => if r' = r then w else m.reg r' }

def alter (m : Machine) (f : Int32 → Int32 → Int32) (r : Register) (w : Int32) : Machine :=
  m.set r (f (m.reg r) w)

def push (m : Machine) (w : Int32) : Machine :=
  { m.set .sp (m.reg .sp + 4) with stack := w :: m.stack }

def pop (m : Machine) (r : Register) : Option Machine :=
  match m.stack with
  | w :: stack => some { (m.set .sp (m.reg .sp - 4)).set r w with stack }
  | [] => none

def poke (m : Machine) (a : Int32) (b : UInt8) : Option Machine :=
  if (m.mem a).isSome then some { m with mem := fun a' => if a' = a then some b else m.mem a' }
  else none

/-- What an instruction does once the program counter is behind it. Instructions that no theorem runs
are left out. -/
def perform (m : Machine) (op : Opcode) (operands : List Int32) : Option Machine := do
  let word (i : Nat) := operands[i]?
  let register (i : Nat) := (word i).bind Register.ofWord?
  match op with
  | .lineNum => return m
  | .litToReg => return m.set (← register 0) (← word 1)
  | .regToReg => return m.set (← register 1) (m.reg (← register 0))
  | .add => return m.alter (· + ·) (← register 0) (← word 1)
  | .sub => return m.alter (· - ·) (← register 0) (← word 1)
  | .mul => return m.alter (· * ·) (← register 0) (← word 1)
  | .addReg => return m.alter (· + ·) (← register 0) (m.reg (← register 1))
  | .isEqual => return m.alter (fun a b => if a = b then 1 else 0) (← register 0) (m.reg (← register 1))
  | .loadSpOffs => return m.set .mar (m.reg .sp - (← word 0))
  | .memReadB => return m.set (← register 0) (← m.mem (m.reg .mar)).toUInt32.toInt32
  | .memWriteB => m.poke (m.reg .mar) (m.reg (← register 0)).toUInt32.toUInt8
  | .pushReg => return m.push (m.reg (← register 0))
  | .popReg => m.pop (← register 0)
  | .checkBounds =>
    let i := m.reg (← register 0)
    if 0 ≤ i ∧ i < (← word 1) then return m else none
  | .checkNull => if m.reg .mar = 0 then none else return m
  | .jmp => return m.jump (← word 0)
  | .jz => if m.reg .ax = 0 then return m.jump (← word 0) else return m
  | .jnz => if m.reg .ax = 0 then return m else return m.jump (← word 0)
  | _ => none

def step (code : Array Int32) (m : Machine) : Option Machine := do
  let op ← code[m.pc]?.bind Opcode.ofWord?
  (m.skip (op.operandCount + 1)).perform op (code.toList.drop (m.pc + 1) |>.take op.operandCount)

def exec (m : Machine) : List (Opcode × List Int32) → Option Machine
  | [] => some m
  | (op, operands) :: rest => ((m.skip (op.operandCount + 1)).perform op operands).bind (exec · rest)

end Machine

/-- The machine runs from `m` to `m'`, and is at none of the `stops` before. -/
inductive Travels (code : Array Int32) (stops : Nat → Prop) : Machine → Machine → Prop
  | refl (m : Machine) : Travels code stops m m
  | step {m m1 m' : Machine} (hstop : ¬stops m.pc) (h : m.step code = some m1)
      (hrest : Travels code stops m1 m') : Travels code stops m m'

def WordsAt (code : Array Int32) (p : Nat) (ws : List Int32) : Prop :=
  ∀ i w, ws[i]? = some w → code[p + i]? = some w

def SameFrame (m m' : Machine) : Prop :=
  m'.reg .sp = m.reg .sp ∧ m'.reg .op = m.reg .op ∧ m'.stack = m.stack

def onRegs (op : Opcode) (regs : List Register) : Opcode × List Int32 :=
  (op, regs.map Register.toWord)

def encode (is : List (Opcode × List Int32)) : List Int32 :=
  is.flatMap fun i => i.1.toWord :: i.2

def isPlain (is : List (Opcode × List Int32)) : Bool :=
  is.all fun i => !i.1.isJump && i.2.length == i.1.operandCount

variable {code code' : Array Int32} {stops : Nat → Prop} {m m' m1 : Machine} {p dest : Nat}
  {ws ws' : List Int32} {w : Int32} {op : Opcode} {operands : List Int32}

lemma Travels.trans (h : Travels code stops m m1) (h' : Travels code stops m1 m') :
    Travels code stops m m' := by
  induction h with
  | refl => exact h'
  | step hstop hstep _ ih => exact .step hstop hstep (ih h')

lemma SameFrame.trans (h : SameFrame m m1) (h' : SameFrame m1 m') : SameFrame m m' :=
  ⟨h'.1.trans h.1, h'.2.1.trans h.2.1, h'.2.2.trans h.2.2⟩

namespace WordsAt

lemma head (h : WordsAt code p (w :: ws)) : code[p]? = some w :=
  h 0 w rfl

lemma left (h : WordsAt code p (ws ++ ws')) : WordsAt code p ws := fun i w hi =>
  h i w (by rw [List.getElem?_append_left (List.getElem?_eq_some_iff.1 hi).1, hi])

lemma right (h : WordsAt code p (ws ++ ws')) : WordsAt code (p + ws.length) ws' := fun i w hi => by
  rw [Nat.add_assoc]
  exact h _ w (by rw [List.getElem?_append_right (Nat.le_add_right ..), Nat.add_sub_cancel_left, hi])

lemma of_eq (h : WordsAt code p ws)
    (heq : ∀ i, p ≤ i → i < p + ws.length → code'[i]? = code[i]?) : WordsAt code' p ws := fun i w hi => by
  have := (List.getElem?_eq_some_iff.1 hi).1
  rw [heq _ (Nat.le_add_right ..) (by omega), h i w hi]

lemma append (h : WordsAt code p ws) (hcode : code'.toList = code.toList ++ ws') :
    WordsAt code' p ws := fun i w hi => by
  have := h i w hi
  rw [← Array.getElem?_toList] at this ⊢
  rw [hcode, List.getElem?_append_left (List.getElem?_eq_some_iff.1 this).1, this]

lemma take_drop (h : WordsAt code p ws) : (code.toList.drop p).take ws.length = ws := by
  refine List.ext_getElem? fun i => ?_
  rw [List.getElem?_take, List.getElem?_drop, Array.getElem?_toList]
  split
  · next hi => rw [h i _ (List.getElem?_eq_getElem hi), List.getElem?_eq_getElem hi]
  · next hi => rw [List.getElem?_eq_none (by omega)]

end WordsAt

lemma wordsAt_of_append (h : code'.toList = code.toList ++ ws) : WordsAt code' code.size ws :=
  fun i w hi => by
    rw [← Array.getElem?_toList, h, List.getElem?_append_right (by simp)]
    simpa using hi

namespace Machine

lemma perform_pc (hop : op.isJump = false) (h : m.perform op operands = some m') :
    m'.pc = m.pc := by
  simp only [perform] at h
  split at h
  all_goals
    simp [alter, set, push, poke, pop, Option.bind_eq_some_iff, Opcode.isJump] at h hop
    try grind

lemma step_eq (h : WordsAt code m.pc (op.toWord :: operands))
    (hl : operands.length = op.operandCount) :
    m.step code = (m.skip (op.operandCount + 1)).perform op operands := by
  have hrest : WordsAt code (m.pc + 1) operands := @WordsAt.right code m.pc [op.toWord] operands h
  simp [step, h.head, Opcode.ofWord?_toWord, ← hl, hrest.take_drop]

section

variable (hp : m.pc + 2 < 2 ^ 31) (hdest : dest < 2 ^ 31)
include hp hdest

lemma jump_jumpDistance :
    (m.skip 2).jump (jumpDistance (m.pc + 1) dest) = { m with pc := dest } := by
  simp only [jump, skip, jumpDistance, Int32.toInt_ofInt, Int.bmod_def, Int32.size]
  congr 1
  omega

lemma step_jmp (h : WordsAt code m.pc [Opcode.jmp.toWord, jumpDistance (m.pc + 1) dest]) :
    m.step code = some { m with pc := dest } := by
  rw [step_eq h rfl, ← jump_jumpDistance hp hdest]
  rfl

lemma step_jz (h : WordsAt code m.pc [Opcode.jz.toWord, jumpDistance (m.pc + 1) dest]) :
    m.step code = some { m with pc := if m.reg .ax = 0 then dest else m.pc + 2 } := by
  rw [step_eq h rfl]
  split
  · next hax => exact (if_pos hax).trans (congrArg some (jump_jumpDistance hp hdest))
  · next hax => exact if_neg hax

lemma step_jnz (h : WordsAt code m.pc [Opcode.jnz.toWord, jumpDistance (m.pc + 1) dest]) :
    m.step code = some { m with pc := if m.reg .ax = 0 then m.pc + 2 else dest } := by
  rw [step_eq h rfl]
  split
  · next hax => exact if_pos hax
  · next hax => exact (if_neg hax).trans (congrArg some (jump_jumpDistance hp hdest))

end

end Machine

lemma travels_exec (is : List (Opcode × List Int32)) (hplain : isPlain is = true)
    (h : WordsAt code m.pc (encode is))
    (hstops : ∀ p, m.pc ≤ p → p < m.pc + (encode is).length → ¬stops p)
    (he : m.exec is = some m') : Travels code stops m m' ∧ m'.pc = m.pc + (encode is).length := by
  induction is generalizing m with
  | nil =>
    obtain rfl := Option.some.inj he
    exact ⟨.refl m, rfl⟩
  | cons i is ih =>
    obtain ⟨m1, h1, h2⟩ := Option.bind_eq_some_iff.1 he
    simp only [isPlain, List.all_cons, Bool.and_eq_true, Bool.not_eq_true', beq_iff_eq] at hplain
    obtain ⟨⟨hjump, hlen⟩, hplain⟩ := hplain
    have hpc : m1.pc = m.pc + (i.2.length + 1) := by
      rw [Machine.perform_pc hjump h1, hlen]
      rfl
    have hrest : WordsAt code m1.pc (encode is) := hpc ▸ h.right
    have hlength : (encode (i :: is)).length = i.2.length + 1 + (encode is).length := by
      simp [encode]
      omega
    have hstep := (Machine.step_eq h.left hlen).trans h1
    obtain ⟨hgo, hend⟩ := ih hplain hrest (fun p hp hlt => hstops p (by omega) (by omega)) h2
    exact ⟨.step (hstops _ le_rfl (by omega)) hstep hgo, by omega⟩

end AdventureScript
