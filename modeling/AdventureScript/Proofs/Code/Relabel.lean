import AdventureScript.Proofs.Emission.Basic

/-!
Literals that change after they were written: the address of a function is put into the calls that
wait for it.
-/
namespace AdventureScript.Assembly

namespace Node

variable {n : Node} {f : Int32 → Int32}

def relit (n : Node) (f : Int32 → Int32) : Node :=
  match n.instr with
  | .plain .litToReg [r, w] => { n with instr := .plain .litToReg [r, f w] }
  | _ => n

lemma relit_cases : n.relit f = n ∨ ∃ r w, n.instr = .plain .litToReg [r, w] ∧
    n.relit f = { n with instr := .plain .litToReg [r, f w] } := by
  unfold relit
  split
  · next r w hi => exact .inr ⟨r, w, hi, rfl⟩
  · exact .inl rfl

lemma relit_alike : n.Alike (n.relit f) := by
  rcases relit_cases (n := n) (f := f) with h | ⟨r, w, hi, h⟩
  · rw [h]
    exact .refl
  · rcases n with ⟨_, d⟩
    obtain rfl := hi
    rw [h]
    exact ⟨rfl, rfl, rfl, rfl, rfl⟩

lemma relit_jump {op : Opcode} {dest? : Option Nat} :
    (n.relit f).instr = .jump op dest? ↔ n.instr = .jump op dest? := by
  rcases relit_cases (n := n) (f := f) with h | ⟨r, w, hi, h⟩
  · rw [h]
  · simp [h, hi]

lemma relit_literal {r w : Int32} (h : n.instr = .plain .litToReg [r, w]) :
    (n.relit f).instr = .plain .litToReg [r, f w] := by
  simp [relit, h]

lemma relit_of_ne (h : n.instr.op ≠ .litToReg) : n.relit f = n := by
  rcases relit_cases (n := n) (f := f) with h' | ⟨r, w, hi, _⟩
  · exact h'
  · exact absurd (by rw [hi]; rfl) h

lemma relit_id : n.relit id = n := by
  rcases relit_cases (n := n) (f := id) with h | ⟨r, w, hi, h⟩
  · exact h
  · rw [h]
    simp [← hi]

lemma relit_relit {g : Int32 → Int32} : (n.relit f).relit g = n.relit (g ∘ f) := by
  rcases n with ⟨⟨op, operands⟩ | _, d⟩
  · unfold relit
    split <;> split <;> simp_all
  · rfl

lemma wellFormed_relit (h : n.instr.WellFormed) : (n.relit f).instr.WellFormed := by
  rcases relit_cases (n := n) (f := f) with h' | ⟨r, w, hi, h'⟩
  · rwa [h']
  · rw [hi] at h
    rw [h']
    refine ⟨rfl, rfl, fun i v hv hr => ?_⟩
    match i with
    | 0 => exact h.2.2 0 v (by simpa using hv) hr
    | i + 1 => cases hr

end Node

/-! ## Pieces of code -/

variable {b p t : Nat} {F G : List Node} {n m : Node} {f g : Nat → Int32 → Int32} {d e : Int}
  {out : Outside}

def revised (f : Nat → Int32 → Int32) (p : Nat) (n : Node) : Node :=
  n.relit (f (p + 2))

instance : Relabels (revised f) where
  alike _ _ := Node.relit_alike

abbrev relit (f : Nat → Int32 → Int32) (b : Nat) (F : List Node) : List Node :=
  relabel (revised f) b F

lemma relit_relit : relit g b (relit f b F) = relit (fun p => g p ∘ f p) b F := by
  rw [relit, relit, relabel_relabel]
  congr 1
  funext p n
  exact Node.relit_relit

lemma words_relit_set {k : Nat} {r w v : Int32} (h : nodeAt b F k = some n)
    (hi : n.instr = .plain .litToReg [r, w]) :
    words b (relit (fun q x => if q = k + 2 then v else x) b F) =
      (words b F).set (k + 2 - b) v := by
  refine words_relabel h (by simp [Node.size, hi, Instr.size]) (fun q m hq => ?_) ?_
  · simp only [revised, Nat.add_right_cancel_iff, hq, if_false]
    exact Node.relit_id
  · rw [revised, Node.words, Node.relit_literal hi, Node.words, hi]
    simp [Instr.words]

lemma Linked.relit (h : Linked out b F) : Linked out b (relit f b F) := by
  intro m hm op t ht
  obtain ⟨q, n, hn, rfl⟩ := mem_relabel hm
  exact (h n (nodeAt_mem hn) op t (Node.relit_jump.1 ht)).imp_left Boundary.relabel_self

lemma Settled.relit (h : Settled F) : Settled (relit f b F) := by
  intro m hm op ht
  obtain ⟨q, n, hn, rfl⟩ := mem_relabel hm
  exact h n (nodeAt_mem hn) op (Node.relit_jump.1 ht)

lemma Paced.relit (h : Paced out b F d e) : Paced out b (relit f b F) d e :=
  h.relabel fun _ _ _ _ hn ht =>
    (h.jump (nodeAt_mem hn) (Node.relit_jump.1 ht)).imp_left Arrives.relabel_self

lemma Ends.of_relit {r : Prop} (h : Ends r b (relit f b F)) : Ends r b F := by
  cases h with
  | start hF hr =>
    refine .start ?_ hr
    simpa using hF
  | last n hn hop =>
    have hlast : lastOp? F = some n.instr.op := by
      rw [← lastOp?_relabel (f := revised f) (b := b), lastOp?, hn]
      rfl
    obtain ⟨m, hm, he⟩ := Option.map_eq_some_iff.1 hlast
    exact .last m hm (by rw [he, hop])
  | jump n hn op hi =>
    obtain ⟨q, m, hm, rfl⟩ := mem_relabel hn
    exact .jump m (nodeAt_mem hm) op (by simpa using Node.relit_jump.1 hi)

lemma OnLocal.relit {q : Prop} {u : Mark Int32} (h : OnLocal q b F u) :
    OnLocal q b (relit f b F) u :=
  h.relabel_self fun hi => Node.relit_of_ne (by simp [hi, Instr.op])

lemma OnLiteral.relit {P Q : Register → Int32 → Prop} (h : OnLiteral P b F p)
    (hP : ∀ {r w}, P r w → Q r (f p w)) : OnLiteral Q b (relit f b F) p := by
  obtain ⟨k, n, hn, r, w, rfl, hi, h⟩ := h
  exact ⟨k, _, by rw [nodeAt_relabel_self, hn]; rfl, r, f (k + 2) w, rfl, Node.relit_literal hi, hP h⟩

def revalue (positions : List Nat) (v : Int32) (p : Nat) (w : Int32) : Int32 :=
  if p ∈ positions then v else w

lemma words_revalue {positions : List Nat} {v : Int32}
    (h : ∀ p ∈ positions, OnLiteral (fun _ _ => True) b F p) :
    words b (relit (revalue positions v) b F) =
      positions.foldl (fun ws p => ws.set (p - b) v) (words b F) := by
  induction positions generalizing F with
  | nil =>
    have : revalue [] v = fun _ => id := by
      funext p w
      simp [revalue]
    rw [this, relit, relabel_eq_self (f := revised fun _ => id) fun _ _ _ _ => Node.relit_id]
    rfl
  | cons p positions ih =>
    obtain ⟨k, n, hn, r, w, rfl, hi, _⟩ := h p List.mem_cons_self
    rw [List.foldl_cons, ← words_relit_set hn hi,
      ← ih fun p hp => (h p (List.mem_cons_of_mem _ hp)).relit fun _ => trivial, relit_relit]
    congr 2
    funext q x
    by_cases hq : q ∈ positions <;> by_cases hk : q = k + 2 <;> simp [revalue, hq, hk]

end AdventureScript.Assembly
