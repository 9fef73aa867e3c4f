import AdventureScript.Proofs.Parallel.Copy
import Mathlib.Data.List.Induction

/-!
How operands that are joined by operators are grouped.
-/
namespace AdventureScript

open Gen

def Symbol.token (mark : Symbol) : Token :=
  ⟨.symbol mark, mark.spelling, ⟨0, 0, 0⟩, 0⟩

def BinaryOp.symbol : BinaryOp → Symbol
  | .mul => .star
  | .div => .slash
  | .mod => .percent
  | .add => .plus
  | .sub => .minus
  | .shl => .lessLess
  | .shr => .greaterGreater
  | .bitAnd => .amp
  | .bitOr => .pipe
  | .bitXor => .caret
  | .eq => .equalEqual
  | .ne => .bangEqual
  | .gt => .greater
  | .lt => .less
  | .ge => .greaterEqual
  | .le => .lessEqual
  | .and => .ampAmp
  | .or => .pipePipe

variable {first : Leaf} {rest : List (BinaryOp × Leaf)}

@[simp] lemma BinaryOp.ofSymbol?_symbol (op : BinaryOp) : ofSymbol? op.symbol = some op := by
  cases op <;> rfl

lemma BinaryOp.priority_lt (op : BinaryOp) : op.priority < ternaryPriority := by
  cases op <;> decide

lemma BinaryOp.priority_pos (op : BinaryOp) : 0 < op.priority := by
  cases op <;> decide

/-! ## Trees -/

structure Leaf where
  tokens : List Token
  isOperand : IsOperand tokens

inductive Tree where
  | operand (x : Leaf)
  | binary (op : BinaryOp) (l r : Tree)
  | choice (condition second third : Tree)
  | group (inner : Tree)

namespace Tree

def tokens : Tree → List Token
  | operand x => x.tokens
  | binary op l r => l.tokens ++ op.symbol.token :: r.tokens
  | choice condition second third => condition.tokens ++ Symbol.question.token ::
      (second.tokens ++ Symbol.colon.token :: third.tokens)
  | group inner => Symbol.leftParen.token :: (inner.tokens ++ [Symbol.rightParen.token])

/-- The priority of the outermost operator; what needs no grouping has none. -/
def level : Tree → Nat
  | operand _ | group _ => 0
  | binary op _ _ => op.priority
  | choice .. => ternaryPriority

lemma level_le (e : Tree) : e.level ≤ ternaryPriority := by
  cases e with
  | binary op => exact le_of_lt op.priority_lt
  | choice => exact le_rfl
  | _ => exact Nat.zero_le _

lemma length_binary {op : BinaryOp} {l r : Tree} : (binary op l r).tokens.length =
    l.tokens.length + 1 + r.tokens.length := by
  simp [tokens]
  omega

lemma length_choice {x y z : Tree} : (choice x y z).tokens.length =
    x.tokens.length + 1 + y.tokens.length + 1 + z.tokens.length := by
  simp [tokens]
  omega

lemma length_group {x : Tree} : (group x).tokens.length = x.tokens.length + 2 := by
  simp [tokens]

lemma kind_ne (e : Tree) : ∀ a ∈ e.tokens, a.kind ≠ .endOfInput := by
  induction e with
  | operand x => exact x.isOperand.balanced.kind_ne
  | binary op l r ihl ihr =>
    simp only [tokens, List.mem_append, List.mem_cons]
    rintro a (ha | rfl | ha)
    · exact ihl a ha
    · simp [Symbol.token]
    · exact ihr a ha
  | choice x y z ihx ihy ihz =>
    simp only [tokens, List.mem_append, List.mem_cons]
    rintro a (ha | rfl | ha | rfl | ha)
    · exact ihx a ha
    · simp [Symbol.token]
    · exact ihy a ha
    · simp [Symbol.token]
    · exact ihz a ha
  | group x ih =>
    simp only [tokens, List.mem_cons, List.mem_append, List.not_mem_nil, or_false]
    rintro a (rfl | ha | rfl)
    · simp [Symbol.token]
    · exact ih a ha
    · simp [Symbol.token]

/-- Operators group what binds tighter, those of equal priority from the left or from the right, and
the conditional operator binds loosest and groups to the right. -/
def WellGrouped (leftToRight : Bool) : Tree → Prop
  | operand _ => True
  | binary op l r => l.WellGrouped leftToRight ∧ r.WellGrouped leftToRight ∧
      (l.level < op.priority ∨ leftToRight = true ∧ l.level = op.priority) ∧
      (r.level < op.priority ∨ leftToRight = false ∧ r.level = op.priority)
  | choice condition second third => condition.WellGrouped leftToRight ∧
      second.WellGrouped leftToRight ∧ third.WellGrouped leftToRight ∧
      condition.level < ternaryPriority
  | group inner => inner.WellGrouped leftToRight

/-- The same expression with parentheses around every operator. -/
def parenthesized : Tree → Tree
  | operand x => operand x
  | binary op l r => group (binary op l.parenthesized r.parenthesized)
  | choice condition second third =>
    group (choice condition.parenthesized second.parenthesized third.parenthesized)
  | group inner => group inner.parenthesized

@[simp] lemma level_parenthesized (e : Tree) : e.parenthesized.level = 0 := by
  cases e <;> rfl

lemma wellGrouped_parenthesized {leftToRight : Bool} (e : Tree) :
    e.parenthesized.WellGrouped leftToRight := by
  induction e with
  | operand x => trivial
  | binary op l r ihl ihr => exact ⟨ihl, ihr, by simp [op.priority_pos], by simp [op.priority_pos]⟩
  | choice condition second third ihc ihs iht => exact ⟨ihc, ihs, iht, by simp [ternaryPriority]⟩
  | group inner ih => exact ih

inductive Similar : Tree → Tree → Prop
  | operand (x : Leaf) : Similar (operand x) (operand x)
  | binary (op : BinaryOp) {l l' r r' : Tree} (hl : Similar l l') (hr : Similar r r') :
    Similar (binary op l r) (binary op l' r')
  | choice {condition condition' second second' third third' : Tree}
    (hc : Similar condition condition') (hs : Similar second second') (ht : Similar third third') :
    Similar (choice condition second third) (choice condition' second' third')
  | left {e e' : Tree} (h : Similar e e') : Similar (group e) e'
  | right {e e' : Tree} (h : Similar e e') : Similar e (group e')

lemma Similar.symm {e e' : Tree} (h : Similar e e') : Similar e' e := by
  induction h with
  | operand x => exact .operand x
  | binary op _ _ ihl ihr => exact .binary op ihl ihr
  | choice _ _ _ ihc ihs iht => exact .choice ihc ihs iht
  | left _ ih => exact .right ih
  | right _ ih => exact .left ih

lemma similar_parenthesized (e : Tree) : Similar e e.parenthesized := by
  induction e with
  | operand x => exact .operand x
  | binary op l r ihl ihr => exact .right (.binary op ihl ihr)
  | choice condition second third ihc ihs iht => exact .right (.choice ihc ihs iht)
  | group inner ih => exact .right (.left ih)

lemma Similar.refl (e : Tree) : Similar e e := by
  induction e with
  | operand x => exact .operand x
  | binary op l r ihl ihr => exact .binary op ihl ihr
  | choice condition second third ihc ihs iht => exact .choice ihc ihs iht
  | group inner ih => exact .left (.right ih)

/-! ## Grouping a sequence -/

/-- Joins an operand to an expression: it goes to the right side of the last operators that do not
bind tighter. -/
def attach (leftToRight : Bool) (op : BinaryOp) (x : Leaf) : Tree → Tree
  | binary op' l r =>
    if op'.priority < op.priority ∨ leftToRight = true ∧ op'.priority = op.priority then
      binary op (binary op' l r) (operand x)
    else binary op' l (r.attach leftToRight op x)
  | e => binary op e (operand x)

def ofSequence (leftToRight : Bool) (first : Leaf) (rest : List (BinaryOp × Leaf)) : Tree :=
  rest.foldl (fun e (op, x) => e.attach leftToRight op x) (operand first)

variable {leftToRight : Bool} {op : BinaryOp} {x : Leaf}

@[simp] lemma tokens_attach (e : Tree) :
    (e.attach leftToRight op x).tokens = e.tokens ++ op.symbol.token :: x.tokens := by
  induction e with
  | binary op' l r _ ih =>
    simp only [attach]
    split
    · rfl
    · simp [tokens, ih]
  | _ => rfl

lemma level_attach (e : Tree) : (e.attach leftToRight op x).level = op.priority ∨
    (e.attach leftToRight op x).level = e.level := by
  cases e with
  | binary op' l r =>
    simp only [attach]
    split
    · exact .inl rfl
    · exact .inr rfl
  | _ => exact .inl rfl

lemma wellGrouped_attach {e : Tree} (h : e.WellGrouped leftToRight)
    (hlevel : e.level < ternaryPriority) : (e.attach leftToRight op x).WellGrouped leftToRight := by
  have hright : (operand x).level < op.priority := op.priority_pos
  induction e with
  | operand y => exact ⟨trivial, trivial, .inl op.priority_pos, .inl hright⟩
  | group inner => exact ⟨h, trivial, .inl op.priority_pos, .inl hright⟩
  | choice condition second third => exact absurd hlevel (Nat.lt_irrefl _)
  | binary op' l r _ ih =>
    simp only [attach]
    split
    · next htighter => exact ⟨h, trivial, htighter, .inl hright⟩
    · next hlooser =>
      obtain ⟨hl, hr, hleft, hfits⟩ := h
      have hlt := op'.priority_lt
      refine ⟨hl, ih hr (by omega), hleft, ?_⟩
      rcases @level_attach leftToRight op x r with heq | heq
      · cases leftToRight <;> simp at hlooser ⊢ <;> omega
      · rw [heq]
        exact hfits

lemma ofSequence_append :
    ofSequence leftToRight first (rest ++ [(op, x)]) =
      (ofSequence leftToRight first rest).attach leftToRight op x := by
  simp [ofSequence]

lemma wellGrouped_ofSequence :
    (ofSequence leftToRight first rest).WellGrouped leftToRight ∧
      (ofSequence leftToRight first rest).level < ternaryPriority := by
  induction rest using List.reverseRecOn with
  | nil => exact ⟨trivial, by simp [ofSequence, level, ternaryPriority]⟩
  | append_singleton rest step ih =>
    obtain ⟨op, x⟩ := step
    rw [ofSequence_append]
    refine ⟨wellGrouped_attach ih.1 ih.2, ?_⟩
    rcases @level_attach leftToRight op x (ofSequence leftToRight first rest) with heq | heq
    · rw [heq]
      exact op.priority_lt
    · rw [heq]
      exact ih.2

end Tree

inductive Flat where
  | sequence (first : Leaf) (rest : List (BinaryOp × Leaf))
  | choice (first : Leaf) (rest : List (BinaryOp × Leaf)) (second third : Flat)

namespace Flat

def joined (rest : List (BinaryOp × Leaf)) : List Token :=
  rest.flatMap fun (op, x) => op.symbol.token :: x.tokens

def tokens : Flat → List Token
  | sequence first rest => first.tokens ++ joined rest
  | choice first rest second third => first.tokens ++ joined rest ++ Symbol.question.token ::
      (second.tokens ++ Symbol.colon.token :: third.tokens)

def tree (leftToRight : Bool) : Flat → Tree
  | sequence first rest => .ofSequence leftToRight first rest
  | choice first rest second third =>
    .choice (.ofSequence leftToRight first rest) (second.tree leftToRight) (third.tree leftToRight)

variable {leftToRight : Bool}

lemma tokens_ofSequence :
    (Tree.ofSequence leftToRight first rest).tokens = first.tokens ++ joined rest := by
  induction rest using List.reverseRecOn with
  | nil => simp [Tree.ofSequence, Tree.tokens, joined]
  | append_singleton rest step ih =>
    rw [Tree.ofSequence_append, Tree.tokens_attach, ih]
    simp [joined]

lemma tokens_tree (e : Flat) : (e.tree leftToRight).tokens = e.tokens := by
  induction e with
  | sequence first rest => exact tokens_ofSequence
  | choice first rest second third ihs iht =>
    simp [tree, Tree.tokens, tokens, tokens_ofSequence, ihs, iht]

lemma wellGrouped_tree (e : Flat) : (e.tree leftToRight).WellGrouped leftToRight := by
  induction e with
  | sequence first rest => exact Tree.wellGrouped_ofSequence.1
  | choice first rest second third ihs iht =>
    exact ⟨Tree.wellGrouped_ofSequence.1, ihs, iht, Tree.wellGrouped_ofSequence.2⟩

end Flat
end AdventureScript
