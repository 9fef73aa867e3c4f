import AdventureScript.Script.Jump
import Mathlib.Algebra.Group.Int.Defs
import Mathlib.Algebra.Group.Nat.Defs
import Mathlib.Order.Nat

/-!
Code as instructions. The words of a piece of code are told by the instructions in it, where a jump
knows its destination and every instruction the depth of the stack in front of it.
-/
namespace AdventureScript

namespace Opcode

variable {op : Opcode}

def isJump : Opcode → Bool
  | .jmp | .jz | .jnz => true
  | _ => false

def isCalm : Opcode → Bool
  | .jmp | .jz | .jnz | .call | .ret | .pushReg | .popReg | .add | .sub | .lineNum => false
  | _ => true

lemma isJump_of_isCalm (h : op.isCalm = true) : op.isJump = false := by
  revert h
  cases op <;> decide

lemma endsFlow_of_isCalm (h : op.isCalm = true) : op.endsFlow = false := by
  revert h
  cases op <;> decide

lemma ne_call_of_isCalm (h : op.isCalm = true) : op ≠ .call := by
  rintro rfl
  cases h

lemma ne_lineNum_of_isCalm (h : op.isCalm = true) : op ≠ .lineNum := by
  rintro rfl
  cases h

lemma ofWord?_toWord (op : Opcode) : ofWord? op.toWord = some op := by
  cases op <;> decide

lemma operandCount_of_isJump (h : op.isJump = true) : op.operandCount = 1 := by
  revert h
  cases op <;> decide

end Opcode

lemma Register.ofWord?_toWord (r : Register) : ofWord? r.toWord = some r := by
  cases r <;> decide

lemma Register.toWord_inj {r r' : Register} : r.toWord = r'.toWord ↔ r = r' := by
  constructor
  · intro h
    simpa [ofWord?_toWord] using congrArg ofWord? h
  · rintro rfl
    rfl

namespace Assembly

/-! ## Instructions -/

inductive Instr where
  | plain (op : Opcode) (operands : List Int32)
  | jump (op : Opcode) (dest? : Option Nat)
  deriving DecidableEq, Repr

namespace Instr

def op : Instr → Opcode
  | .plain op _ | .jump op _ => op

def size : Instr → Nat
  | .plain _ operands => operands.length + 1
  | .jump _ _ => 2

def words (p : Nat) : Instr → List Int32
  | .plain op operands => op.toWord :: operands
  | .jump op (some dest) => [op.toWord, jumpDistance (p + 1) dest]
  | .jump op none => [op.toWord, 0]

def WellFormed : Instr → Prop
  | .plain op operands =>
    op.isJump = false ∧ operands.length = op.operandCount ∧
      ∀ i w, operands[i]? = some w → op.isRegister i = true → (Register.ofWord? w).isSome
  | .jump op _ => op.isJump = true

def effect : Instr → Int
  | .plain .pushReg _ => 4
  | .plain .popReg _ => -4
  | .plain .add [r, n] => if r = Register.sp.toWord then n.toInt else 0
  | .plain .sub [r, n] => if r = Register.sp.toWord then -n.toInt else 0
  | _ => 0

@[simp] lemma length_words (p : Nat) (i : Instr) : (i.words p).length = i.size := by
  rcases i with ⟨op, operands⟩ | ⟨op, _ | dest⟩ <;> simp [words, size]

lemma size_pos (i : Instr) : 0 < i.size := by
  cases i <;> simp [size]

lemma words_zero (p : Nat) (i : Instr) : (i.words p)[0]? = some i.op.toWord := by
  rcases i with ⟨op, operands⟩ | ⟨op, _ | dest⟩ <;> rfl

lemma effect_of_isCalm {op : Opcode} {operands : List Int32} (h : op.isCalm = true) :
    (plain op operands).effect = 0 := by
  cases op <;> simp_all [effect, Opcode.isCalm]

lemma effect_add_of_ne {r : Register} {w : Int32} (h : r ≠ .sp) :
    (plain .add [r.toWord, w]).effect = 0 := by
  simp [effect, Register.toWord_inj, h]

lemma effect_sub_of_ne {r : Register} {w : Int32} (h : r ≠ .sp) :
    (plain .sub [r.toWord, w]).effect = 0 := by
  simp [effect, Register.toWord_inj, h]

@[simp] lemma effect_jump (op : Opcode) (dest? : Option Nat) : (jump op dest?).effect = 0 := rfl

end Instr

structure Node where
  instr : Instr
  depth : Int
  deriving DecidableEq, Repr

namespace Node

def size (n : Node) : Nat :=
  n.instr.size

def words (p : Nat) (n : Node) : List Int32 :=
  n.instr.words p

def depthAfter (n : Node) : Int :=
  n.depth + n.instr.effect

def land (n : Node) (dest : Nat) : Node :=
  match n.instr with
  | .plain _ _ => n
  | .jump op _ => { n with instr := .jump op (some dest) }

variable {dest : Nat}

@[simp] lemma length_words (p : Nat) (n : Node) : (n.words p).length = n.size :=
  n.instr.length_words p

lemma size_pos (n : Node) : 0 < n.size :=
  n.instr.size_pos

@[simp] lemma land_plain {op : Opcode} {operands : List Int32} {d : Int} :
    land ⟨.plain op operands, d⟩ dest = ⟨.plain op operands, d⟩ := rfl

@[simp] lemma land_jump {op : Opcode} {dest? : Option Nat} {d : Int} :
    land ⟨.jump op dest?, d⟩ dest = ⟨.jump op (some dest), d⟩ := rfl

@[simp] lemma land_wellFormed {n : Node} :
    (n.land dest).instr.WellFormed ↔ n.instr.WellFormed := by
  rcases n with ⟨_ | _, _⟩ <;> rfl

end Node

def width : List Node → Nat
  | [] => 0
  | n :: F => n.size + width F

def words (b : Nat) : List Node → List Int32
  | [] => []
  | n :: F => n.words b ++ words (b + n.size) F

def nodeAt (b : Nat) : List Node → Nat → Option Node
  | [], _ => none
  | n :: F, p => if p = b then some n else nodeAt (b + n.size) F p

variable {b p : Nat} {F G : List Node} {n : Node}

@[simp] lemma width_nil : width [] = 0 := rfl

@[simp] lemma width_cons : width (n :: F) = n.size + width F := rfl

@[simp] lemma width_append : width (F ++ G) = width F + width G := by
  induction F with
  | nil => simp
  | cons n F ih => simp [ih, Nat.add_assoc]

lemma width_pos (h : F ≠ []) : 0 < width F := by
  cases F with
  | nil => exact absurd rfl h
  | cons n F =>
    have := n.size_pos
    simp only [width_cons]
    omega

lemma width_eq_zero : width F = 0 ↔ F = [] := by
  constructor
  · intro h
    by_cases hF : F = []
    · exact hF
    · have := width_pos hF
      omega
  · rintro rfl
    rfl

@[simp] lemma words_nil : words b [] = [] := rfl

@[simp] lemma words_cons : words b (n :: F) = n.words b ++ words (b + n.size) F := rfl

@[simp] lemma words_append : words b (F ++ G) = words b F ++ words (b + width F) G := by
  induction F generalizing b with
  | nil => simp
  | cons n F ih => simp [ih, Nat.add_assoc]

@[simp] lemma length_words : (words b F).length = width F := by
  induction F generalizing b with
  | nil => rfl
  | cons n F ih => simp [ih]

/-! ## Instructions by position -/

@[simp] lemma nodeAt_nil : nodeAt b [] p = none := rfl

@[simp] lemma nodeAt_cons_self : nodeAt b (n :: F) b = some n := by
  simp [nodeAt]

lemma nodeAt_append_of_le (h : b + width F ≤ p) :
    nodeAt b (F ++ G) p = nodeAt (b + width F) G p := by
  induction F generalizing b with
  | nil => simp
  | cons m F ih =>
    have hm := m.size_pos
    simp only [width_cons] at h
    simp only [List.cons_append, nodeAt, show p ≠ b by omega, if_false, width_cons]
    rw [ih (by omega), Nat.add_assoc]

lemma nodeAt_middle : nodeAt b (F ++ n :: G) (b + width F) = some n := by
  rw [nodeAt_append_of_le le_rfl]
  simp [nodeAt]

lemma exists_nodeAt (h : n ∈ F) : ∃ p, nodeAt b F p = some n := by
  obtain ⟨G, H, rfl⟩ := List.append_of_mem h
  exact ⟨_, nodeAt_middle⟩

lemma nodeAt_append (h : nodeAt b (F ++ G) p = some n) :
    nodeAt b F p = some n ∨ nodeAt (b + width F) G p = some n := by
  induction F generalizing b with
  | nil => simpa using h
  | cons m F ih =>
    simp only [List.cons_append, nodeAt] at h
    simp only [nodeAt, width_cons, ← Nat.add_assoc]
    split at h
    · next hp => simp [hp, h]
    · next hp => simpa [hp] using ih h

section

variable (h : nodeAt b F p = some n)
include h

lemma split_of_nodeAt : ∃ G H, F = G ++ n :: H ∧ p = b + width G := by
  induction F generalizing b with
  | nil => cases h
  | cons m F ih =>
    simp only [nodeAt] at h
    split at h
    · next hp =>
      cases h
      exact ⟨[], F, rfl, hp⟩
    · obtain ⟨G, H, rfl, rfl⟩ := ih h
      exact ⟨m :: G, H, rfl, Nat.add_assoc ..⟩

lemma nodeAt_bounds : b ≤ p ∧ p + n.size ≤ b + width F := by
  obtain ⟨G, H, rfl, rfl⟩ := split_of_nodeAt h
  simp only [width_append, width_cons]
  omega

lemma nodeAt_mem : n ∈ F := by
  obtain ⟨G, H, rfl, -⟩ := split_of_nodeAt h
  simp

lemma nodeAt_append_left : nodeAt b (F ++ G) p = some n := by
  obtain ⟨H, K, rfl, rfl⟩ := split_of_nodeAt h
  rw [List.append_assoc]
  exact nodeAt_middle

lemma getLast?_of_nodeAt (he : p + n.size = b + width F) :
    F.getLast? = some n := by
  obtain ⟨G, H, rfl, rfl⟩ := split_of_nodeAt h
  simp only [width_append, width_cons] at he
  obtain rfl : H = [] := width_eq_zero.1 (by omega)
  simp

lemma getElem?_words {i : Nat} (hi : i < n.size) :
    (words b F)[p - b + i]? = (n.words p)[i]? := by
  obtain ⟨G, H, rfl, rfl⟩ := split_of_nodeAt h
  rw [words_append, words_cons, List.getElem?_append_right (by simp), Nat.add_sub_cancel_left,
    length_words, Nat.add_sub_cancel_left, List.getElem?_append_left (by simpa using hi)]

end

lemma nodeAt_append_right (h : nodeAt (b + width F) G p = some n) :
    nodeAt b (F ++ G) p = some n := by
  rw [nodeAt_append_of_le (nodeAt_bounds h).1, h]

lemma nodeAt_of_lt (h : p < b) : nodeAt b F p = none := by
  by_contra hne
  obtain ⟨n, hn⟩ := Option.ne_none_iff_exists'.1 hne
  have := (nodeAt_bounds hn).1
  omega

end Assembly
end AdventureScript
