import AdventureScript.Proofs.Code.Node

/-!
What changes code that is there already: a jump that finds its destination, a literal that gets
another value, and a piece of code that is cut out and put back elsewhere.
-/
namespace AdventureScript.Assembly

variable {b a p q k dest : Nat} {F G : List Node} {n m : Node} {op : Opcode} {dest? : Option Nat}
  {d : Int} {f g : Nat → Node → Node}

def lastOp? (F : List Node) : Option Opcode :=
  F.getLast?.map (·.instr.op)

namespace Node

def line? (n : Node) : Option Int32 :=
  match n.instr with
  | .plain .lineNum [w] => some w
  | _ => none

/-- Only what the instruction refers to differs. -/
structure Alike (n m : Node) : Prop where
  depth : m.depth = n.depth
  size : m.size = n.size
  op : m.instr.op = n.instr.op
  effect : m.instr.effect = n.instr.effect
  line? : m.line? = n.line?

lemma Alike.refl : n.Alike n :=
  ⟨rfl, rfl, rfl, rfl, rfl⟩

end Node

/-! ## Instructions that change with their position -/

def relabel (f : Nat → Node → Node) (b : Nat) : List Node → List Node
  | [] => []
  | n :: F => f b n :: relabel f (b + n.size) F

lemma relabel_append : relabel f b (F ++ G) = relabel f b F ++ relabel f (b + width F) G := by
  induction F generalizing b with
  | nil => rfl
  | cons n F ih => simp [relabel, ih, Nat.add_assoc]

lemma relabel_eq_self (h : ∀ q n, b ≤ q → q < b + width F → f q n = n) : relabel f b F = F := by
  induction F generalizing b with
  | nil => rfl
  | cons n F ih =>
    have hn := n.size_pos
    simp only [width_cons] at h
    rw [relabel, h b n le_rfl (by omega), ih fun q m hb hq => h q m (by omega) (by omega)]

lemma relabel_middle (h : ∀ q n, q ≠ b + width F → f q n = n) :
    relabel f b (F ++ n :: G) = F ++ f (b + width F) n :: G := by
  have hn := n.size_pos
  rw [relabel_append, relabel, relabel_eq_self fun q m _ hq => h q m (by omega),
    relabel_eq_self fun q m hq _ => h q m (by omega)]

lemma words_relabel {i : Nat} {w : Int32} (hn : nodeAt b F p = some n) (hi : i < n.size)
    (h : ∀ q n, q ≠ p → f q n = n) (hw : (f p n).words p = (n.words p).set i w) :
    words b (relabel f b F) = (words b F).set (p + i - b) w := by
  obtain ⟨G, H, rfl, rfl⟩ := split_of_nodeAt hn
  have hsize : (f (b + width G) n).size = n.size := by simpa using congrArg List.length hw
  have hpos : b + width G + i - b = (words b G).length + i := by
    rw [length_words]
    omega
  rw [relabel_middle h, words_append, words_append, words_cons, words_cons, hw, hsize, hpos,
    List.set_append_right _ _ (by omega), Nat.add_sub_cancel_left,
    List.set_append_left _ _ (by simpa using hi)]

class Relabels (f : Nat → Node → Node) : Prop where
  alike : ∀ p n, Node.Alike n (f p n)

def moved (b a t : Nat) : Nat :=
  a + (t - b)

lemma moved_add : moved b a (b + k) = a + k := by
  simp [moved]

lemma moved_self (h : b ≤ q) : moved b b q = q :=
  Nat.add_sub_of_le h

section

variable [hf : Relabels f]

@[simp] lemma width_relabel : width (relabel f b F) = width F := by
  induction F generalizing b with
  | nil => rfl
  | cons n F ih => simp [relabel, ih, (hf.alike b n).size]

@[simp] lemma relabel_eq_nil : relabel f b F = [] ↔ F = [] := by
  rw [← width_eq_zero, width_relabel, width_eq_zero]

lemma relabel_relabel : relabel g b (relabel f b F) = relabel (fun p n => g p (f p n)) b F := by
  induction F generalizing b with
  | nil => rfl
  | cons n F ih => simp [relabel, ih, (hf.alike b n).size]

lemma lastOp?_relabel : lastOp? (relabel f b F) = lastOp? F := by
  induction F generalizing b with
  | nil => rfl
  | cons n F ih =>
    cases F with
    | nil => simp [relabel, lastOp?, (hf.alike b n).op]
    | cons m F =>
      have := ih (b := b + n.size)
      exact this

lemma nodeAt_relabel :
    nodeAt a (relabel f b F) (a + k) = (nodeAt b F (b + k)).map (f (b + k)) := by
  induction F generalizing a b k with
  | nil => rfl
  | cons n F ih =>
    simp only [relabel, nodeAt, (hf.alike b n).size]
    by_cases hk : k = 0
    · simp [hk]
    · rw [if_neg (by omega), if_neg (by omega)]
      by_cases hle : n.size ≤ k
      · obtain ⟨k, rfl⟩ := Nat.exists_eq_add_of_le hle
        simpa only [Nat.add_assoc] using ih (a := a + n.size) (b := b + n.size) (k := k)
      · rw [nodeAt_of_lt (by omega), nodeAt_of_lt (by omega)]
        rfl

lemma nodeAt_relabel_self : nodeAt b (relabel f b F) p = (nodeAt b F p).map (f p) := by
  by_cases hp : b ≤ p
  · obtain ⟨k, rfl⟩ := Nat.exists_eq_add_of_le hp
    exact nodeAt_relabel
  · rw [nodeAt_of_lt (by omega), nodeAt_of_lt (by omega)]
    rfl

lemma nodeAt_moved (h : nodeAt b F q = some n) :
    nodeAt a (relabel f b F) (moved b a q) = some (f q n) := by
  obtain ⟨k, rfl⟩ := Nat.exists_eq_add_of_le (nodeAt_bounds h).1
  rw [moved_add, nodeAt_relabel, h]
  rfl

lemma exists_of_nodeAt_relabel (h : nodeAt a (relabel f b F) p = some m) :
    ∃ q n, nodeAt b F q = some n ∧ p = moved b a q ∧ m = f q n := by
  obtain ⟨k, rfl⟩ := Nat.exists_eq_add_of_le (nodeAt_bounds h).1
  rw [nodeAt_relabel, Option.map_eq_some_iff] at h
  obtain ⟨n, hn, rfl⟩ := h
  exact ⟨b + k, n, hn, moved_add.symm, rfl⟩

lemma mem_relabel (h : m ∈ relabel f b F) : ∃ q n, nodeAt b F q = some n ∧ m = f q n := by
  obtain ⟨p, hp⟩ := exists_nodeAt (b := b) h
  obtain ⟨q, n, hn, -, rfl⟩ := exists_of_nodeAt_relabel hp
  exact ⟨q, n, hn, rfl⟩

end

/-! ## Jumps that land -/

def landing (p dest q : Nat) (n : Node) : Node :=
  if q = p then n.land dest else n

instance : Relabels (landing p dest) where
  alike q n := by
    unfold landing
    split
    · rcases n with ⟨_ | _, _⟩ <;> exact ⟨rfl, rfl, rfl, rfl, rfl⟩
    · exact .refl

lemma landing_plain {operands : List Int32} (h : n.instr = .plain op operands) :
    landing p dest q n = n := by
  unfold landing
  split
  · simp [Node.land, h]
  · rfl

lemma landing_jump {t : Nat} (h : (landing p dest q n).instr = .jump op (some t)) :
    (q = p ∧ t = dest) ∨ n.instr = .jump op (some t) := by
  unfold landing at h
  split at h
  · next hq =>
    rcases n with ⟨_ | _, _⟩
    · cases h
    · cases h
      exact .inl ⟨hq, rfl⟩
  · exact .inr h

abbrev landAt (b : Nat) (F : List Node) (p dest : Nat) : List Node :=
  relabel (landing p dest) b F

lemma landAt_middle : landAt b (F ++ n :: G) (b + width F) dest = F ++ n.land dest :: G := by
  rw [landAt, relabel_middle (f := landing _ dest) fun q n h => if_neg h, landing, if_pos rfl]

lemma words_landAt (h : nodeAt b F p = some ⟨.jump op dest?, d⟩) :
    words b (landAt b F p dest) = (words b F).set (p + 1 - b) (jumpDistance (p + 1) dest) := by
  refine words_relabel h Nat.one_lt_two (fun q n hq => if_neg hq) ?_
  rw [landing, if_pos rfl]
  cases dest? <;> rfl

/-! ## Pieces that move -/

namespace Node

def move (n : Node) (b a : Nat) : Node :=
  match n.instr with
  | .plain _ _ => n
  | .jump op dest? => { n with instr := .jump op (dest?.map (moved b a)) }

lemma move_wellFormed : (n.move b a).instr.WellFormed ↔ n.instr.WellFormed := by
  rcases n with ⟨_ | _, _⟩ <;> rfl

lemma move_plain {operands : List Int32} (h : n.instr = .plain op operands) : n.move b a = n := by
  simp [move, h]

lemma move_jump (h : (n.move b a).instr = .jump op dest?) :
    ∃ t?, n.instr = .jump op t? ∧ dest? = t?.map (moved b a) := by
  rcases n with ⟨_ | ⟨op', t?⟩, _⟩
  · cases h
  · cases h
    exact ⟨t?, rfl, rfl⟩

lemma words_move (hp : b ≤ p) (hd : ∀ op t, n.instr = .jump op (some t) → b ≤ t) :
    (n.move b a).words (moved b a p) = n.words p := by
  rcases n with ⟨_ | ⟨op, _ | t⟩, d⟩
  · rfl
  · rfl
  · have := hd op t rfl
    simp only [move, words, Instr.words, Option.map_some, moved, jumpDistance]
    congr 3
    omega

end Node

instance : Relabels fun _ n => n.move b a where
  alike _ n := by rcases n with ⟨_ | _, _⟩ <;> exact ⟨rfl, rfl, rfl, rfl, rfl⟩

abbrev move (F : List Node) (b a : Nat) : List Node :=
  relabel (fun _ n => n.move b a) b F

lemma words_move (hd : ∀ n ∈ F, ∀ op t, n.instr = .jump op (some t) → b ≤ t) :
    words a (move F b a) = words b F := by
  suffices h : ∀ k, words (a + k) (relabel (fun _ n => n.move b a) (b + k) F) = words (b + k) F from
    h 0
  induction F with
  | nil => intro k; rfl
  | cons n F ih =>
    intro k
    have hsize : (n.move b a).size = n.size := by rcases n with ⟨_ | _, _⟩ <;> rfl
    rw [relabel, words_cons, words_cons, hsize, Nat.add_assoc, Nat.add_assoc,
      ih fun m hm => hd m (List.mem_cons_of_mem _ hm), ← moved_add (b := b),
      Node.words_move (Nat.le_add_right _ _) (hd n List.mem_cons_self)]

end AdventureScript.Assembly
