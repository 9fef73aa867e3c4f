import AdventureScript.Proofs.Code.Landing

/-!
Where control goes in a piece of code, and the depth of the stack on the way.
-/
namespace AdventureScript.Assembly

variable {b a p t dest : Nat} {F G : List Node} {n : Node} {op : Opcode} {d e x : Int}
  {f : Nat → Node → Node} [hf : Relabels f]

/-- An instruction starts at `t`, or the code ends there. -/
def Boundary (b : Nat) (F : List Node) (t : Nat) : Prop :=
  t = b + width F ∨ ∃ n, nodeAt b F t = some n

/-- Who comes to `t` with the stack `x` deep is expected so; `e` is the depth at the end. -/
def Arrives (b : Nat) (F : List Node) (e : Int) (t : Nat) (x : Int) : Prop :=
  (t = b + width F ∧ x = e) ∨ ∃ n, nodeAt b F t = some n ∧ n.depth = x

lemma boundary_end : Boundary b F (b + width F) :=
  .inl rfl

lemma Boundary.start : Boundary b F b := by
  cases F with
  | nil => exact .inl rfl
  | cons n F => exact .inr ⟨n, by simp [nodeAt]⟩

lemma Boundary.bounds (h : Boundary b F t) : b ≤ t ∧ t ≤ b + width F := by
  rcases h with rfl | ⟨n, h⟩
  · omega
  · have := nodeAt_bounds h
    omega

lemma Boundary.append_left (h : Boundary b F t) : Boundary b (F ++ G) t := by
  rcases h with rfl | ⟨n, h⟩
  · rcases Boundary.start (b := b + width F) (F := G) with h | ⟨n, h⟩
    · exact .inl (by rw [width_append]; omega)
    · exact .inr ⟨n, nodeAt_append_right h⟩
  · exact .inr ⟨n, nodeAt_append_left h⟩

lemma Boundary.append_right (h : Boundary (b + width F) G t) : Boundary b (F ++ G) t := by
  rcases h with rfl | ⟨n, h⟩
  · exact .inl (by rw [width_append]; omega)
  · exact .inr ⟨n, nodeAt_append_right h⟩

lemma Boundary.relabel (h : Boundary b F t) : Boundary a (relabel f b F) (moved b a t) := by
  rcases h with rfl | ⟨n, h⟩
  · exact .inl (by rw [moved_add, width_relabel])
  · exact .inr ⟨_, nodeAt_moved h⟩

lemma Boundary.relabel_self (h : Boundary b F t) : Boundary b (Assembly.relabel f b F) t :=
  moved_self h.bounds.1 ▸ h.relabel

lemma arrives_end : Arrives b F e (b + width F) e :=
  .inl ⟨rfl, rfl⟩

lemma Arrives.append_right (h : Arrives (b + width F) G e t x) : Arrives b (F ++ G) e t x := by
  rcases h with ⟨rfl, rfl⟩ | ⟨n, h, hd⟩
  · exact .inl ⟨by rw [width_append]; omega, rfl⟩
  · exact .inr ⟨n, nodeAt_append_right h, hd⟩

lemma Arrives.append_left (h : Arrives b F d t x)
    (hG : Arrives (b + width F) G e (b + width F) d) : Arrives b (F ++ G) e t x := by
  rcases h with ⟨rfl, rfl⟩ | ⟨n, h, hd⟩
  · exact hG.append_right
  · exact .inr ⟨n, nodeAt_append_left h, hd⟩

lemma Arrives.relabel (h : Arrives b F e t x) : Arrives a (relabel f b F) e (moved b a t) x := by
  rcases h with ⟨rfl, rfl⟩ | ⟨n, h, hd⟩
  · exact .inl ⟨by rw [moved_add, width_relabel], rfl⟩
  · exact .inr ⟨_, nodeAt_moved h, (hf.alike t n).depth.trans hd⟩

lemma Arrives.le (h : Arrives b F e t x) : b ≤ t := by
  rcases h with ⟨rfl, -⟩ | ⟨n, h, -⟩
  · exact Nat.le_add_right _ _
  · exact (nodeAt_bounds h).1

lemma Arrives.relabel_self (h : Arrives b F e t x) : Arrives b (Assembly.relabel f b F) e t x :=
  moved_self h.le ▸ h.relabel

abbrev Outside := Nat → Int → Prop

def nowhere : Outside :=
  fun _ _ => False

variable {out out' : Outside}

def Linked (out : Outside) (b : Nat) (F : List Node) : Prop :=
  ∀ n ∈ F, ∀ op t, n.instr = .jump op (some t) → Boundary b F t ∨ ∃ x, out t x

def Settled (F : List Node) : Prop :=
  ∀ n ∈ F, ∀ op, n.instr ≠ .jump op none

lemma Linked.nil : Linked out b [] :=
  List.forall_mem_nil _

lemma Linked.within (hF : Linked out b F)
    (h : ∀ t x, out t x → Boundary b F t ∨ ∃ x, out' t x) : Linked out' b F := by
  intro n hn op t ht
  rcases hF n hn op t ht with ht | ⟨x, ht⟩
  · exact .inl ht
  · exact h t x ht

lemma Linked.boundary (hF : Linked nowhere b F) (hn : n ∈ F)
    (hi : n.instr = .jump op (some t)) : Boundary b F t :=
  (hF n hn op t hi).resolve_right fun ⟨_, h⟩ => h

lemma Linked.append (hF : Linked out b F) (hG : Linked out (b + width F) G) :
    Linked out b (F ++ G) := by
  intro n hn op t ht
  rcases List.mem_append.1 hn with hn | hn
  · exact (hF n hn op t ht).imp_left Boundary.append_left
  · exact (hG n hn op t ht).imp_left Boundary.append_right

lemma Linked.concat (hF : Linked out b F)
    (hn : ∀ op t, n.instr = .jump op (some t) → Boundary b (F ++ [n]) t ∨ ∃ x, out t x) :
    Linked out b (F ++ [n]) :=
  List.forall_mem_append.2 ⟨fun m hm op t ht => (hF m hm op t ht).imp_left Boundary.append_left,
    List.forall_mem_singleton.2 hn⟩

lemma Linked.landAt (hF : Linked out b F) (hdest : Boundary b F dest) :
    Linked out b (landAt b F p dest) := by
  intro m hm op t ht
  obtain ⟨q, n, hn, rfl⟩ := mem_relabel hm
  rcases landing_jump ht with ⟨-, rfl⟩ | ht
  · exact .inl hdest.relabel_self
  · exact (hF n (nodeAt_mem hn) op t ht).imp_left Boundary.relabel_self

lemma Linked.move (hF : Linked nowhere b F) : Linked out a (move F b a) := by
  intro m hm op t ht
  obtain ⟨q, n, hn, rfl⟩ := mem_relabel hm
  obtain ⟨_ | t', hi, ht⟩ := Node.move_jump ht
  · cases ht
  · cases ht
    exact .inl (hF.boundary (nodeAt_mem hn) hi).relabel

lemma Linked.words_move (hF : Linked nowhere b F) : words a (Assembly.move F b a) = words b F :=
  Assembly.words_move fun _ hn _ _ ht => (hF.boundary hn ht).bounds.1

lemma Settled.nil : Settled [] :=
  List.forall_mem_nil _

lemma Settled.append (hF : Settled F) (hG : Settled G) : Settled (F ++ G) :=
  List.forall_mem_append.2 ⟨hF, hG⟩

lemma Settled.move (hF : Settled F) : Settled (move F b a) := by
  intro m hm op ht
  obtain ⟨q, n, hn, rfl⟩ := mem_relabel hm
  obtain ⟨_ | t', hi, ht⟩ := Node.move_jump ht
  · exact hF n (nodeAt_mem hn) op hi
  · cases ht

/-! ## Depths -/

/-- All ways through the code agree on the depth of the stack: it is `d` at the start, what each
instruction says in front of that, and `e` at the end. A function is left with an empty stack. -/
structure Paced (out : Outside) (b : Nat) (F : List Node) (d e : Int) : Prop where
  entry : Arrives b F e b d
  next : ∀ {p n}, nodeAt b F p = some n → n.instr.op.endsFlow = false →
    Arrives b F e (p + n.size) n.depthAfter
  jump : ∀ {n}, n ∈ F → ∀ {op t}, n.instr = .jump op (some t) →
    Arrives b F e t n.depth ∨ out t n.depth
  nonneg : ∀ {n}, n ∈ F → 0 ≤ n.depth
  ret : ∀ {n}, n ∈ F → n.instr.op = .ret → n.depth = 0

lemma Paced.nil : Paced out b [] d d where
  entry := arrives_end
  next h := by cases h
  jump h := by cases h
  nonneg h := by cases h
  ret h := by cases h

lemma Paced.within (hF : Paced out b F d e)
    (h : ∀ t x, out t x → Arrives b F e t x ∨ out' t x) : Paced out' b F d e :=
  { hF with jump := fun hn _ _ ht => (hF.jump hn ht).elim .inl (h _ _) }

lemma Paced.append (hF : Paced out b F d x) (hG : Paced out (b + width F) G x e) :
    Paced out b (F ++ G) d e where
  entry := hF.entry.append_left hG.entry
  next hp hf := by
    rcases nodeAt_append hp with hp | hp
    · exact (hF.next hp hf).append_left hG.entry
    · exact (hG.next hp hf).append_right
  jump hn op t ht := by
    rcases List.mem_append.1 hn with hn | hn
    · exact (hF.jump hn ht).imp_left fun h => h.append_left hG.entry
    · exact (hG.jump hn ht).imp_left Arrives.append_right
  nonneg hn := by
    rcases List.mem_append.1 hn with hn | hn
    · exact hF.nonneg hn
    · exact hG.nonneg hn
  ret hn := by
    rcases List.mem_append.1 hn with hn | hn
    · exact hF.ret hn
    · exact hG.ret hn

lemma Paced.concat (hF : Paced out b F d n.depth)
    (hnext : n.instr.op.endsFlow = false → e = n.depthAfter)
    (hjump : ∀ op t, n.instr = .jump op (some t) → Arrives b (F ++ [n]) e t n.depth ∨ out t n.depth)
    (hnonneg : 0 ≤ n.depth) (hret : n.instr.op = .ret → n.depth = 0) :
    Paced out b (F ++ [n]) d e := by
  -- The last instruction alone may jump to all that it may reach in the whole code.
  have hn : Paced (fun t x => Arrives b (F ++ [n]) e t x ∨ out t x) (b + width F) [n] n.depth e := {
    entry := .inr ⟨n, by simp [nodeAt], rfl⟩
    next := fun {p m} hp hf => by
      obtain ⟨rfl, rfl⟩ : p = b + width F ∧ n = m := by simpa [nodeAt] using hp
      exact .inl ⟨rfl, (hnext hf).symm⟩
    jump := fun hm _ _ ht => by
      obtain rfl := List.mem_singleton.1 hm
      exact .inr (hjump _ _ ht)
    nonneg := by simpa using hnonneg
    ret := by simpa using hret }
  exact ((hF.within fun _ _ h => .inr (.inr h)).append hn).within fun _ _ => id

lemma Paced.jumpTo (h : Paced out b F d e) (hj : op.isJump = true)
    (he : 0 ≤ e) (ha : Arrives b F e p e ∨ out p e) :
    Paced out b (F ++ [⟨.jump op (some p), e⟩]) d e := by
  refine Paced.concat (n := ⟨.jump op (some p), e⟩) h ?_ ?_ he ?_
  · simp [Node.depthAfter]
  · intro op' t' ht'
    cases ht'
    exact ha.imp_left fun ha => ha.append_left (.inr ⟨_, nodeAt_cons_self, rfl⟩)
  · intro hop
    obtain rfl : op = .ret := hop
    simp [Opcode.isJump] at hj

lemma Paced.relabel (hF : Paced out b F d e)
    (h : ∀ q n op t, nodeAt b F q = some n → (f q n).instr = .jump op (some t) →
      Arrives a (relabel f b F) e t n.depth ∨ out' t n.depth) :
    Paced out' a (relabel f b F) d e where
  entry := by simpa [moved] using hF.entry.relabel (f := f) (a := a)
  next hp hflow := by
    obtain ⟨q, n, hn, rfl, rfl⟩ := exists_of_nodeAt_relabel hp
    obtain ⟨hdepth, hsize, hop, heffect, -⟩ := hf.alike q n
    have hmoved : moved b a (q + n.size) = moved b a q + n.size := by
      have := (nodeAt_bounds hn).1
      simp only [moved]
      omega
    rw [Node.depthAfter, hdepth, hsize, heffect, ← hmoved]
    exact (hF.next hn (hop ▸ hflow)).relabel
  jump hm op t ht := by
    obtain ⟨q, n, hn, rfl⟩ := mem_relabel hm
    rw [(hf.alike q n).depth]
    exact h q n op t hn ht
  nonneg hm := by
    obtain ⟨q, n, hn, rfl⟩ := mem_relabel hm
    exact (hf.alike q n).depth ▸ hF.nonneg (nodeAt_mem hn)
  ret hm hop := by
    obtain ⟨q, n, hn, rfl⟩ := mem_relabel hm
    exact (hf.alike q n).depth ▸ hF.ret (nodeAt_mem hn) ((hf.alike q n).op ▸ hop)

lemma Paced.landAt (hF : Paced out b F d e)
    (hdest : ∀ n, nodeAt b F p = some n → Arrives b F e dest n.depth) :
    Paced out b (landAt b F p dest) d e := by
  refine hF.relabel fun q n op t hn ht => ?_
  rcases landing_jump ht with ⟨rfl, rfl⟩ | ht
  · exact .inl (hdest n hn).relabel_self
  · exact (hF.jump (nodeAt_mem hn) ht).imp_left Arrives.relabel_self

lemma Paced.move (hF : Paced nowhere b F d e) : Paced out a (move F b a) d e := by
  refine hF.relabel fun q n op t hn ht => ?_
  obtain ⟨_ | t', hi, ht⟩ := Node.move_jump ht
  · cases ht
  · cases ht
    exact .inl ((hF.jump (nodeAt_mem hn) hi).resolve_right id).relabel

/-- Control comes to the end of the code. If there is no code, `r` says whether it comes to the
start. -/
inductive Ends (r : Prop) (b : Nat) (F : List Node) : Prop where
  | start (hF : F = []) (hr : r)
  | last (n : Node) (hn : F.getLast? = some n) (hop : n.instr.op.endsFlow = false)
  | jump (n : Node) (hn : n ∈ F) (op : Opcode) (hi : n.instr = .jump op (some (b + width F)))

lemma Ends.imp {r r' : Prop} (h : Ends r b F) (hr : r → r') : Ends r' b F := by
  cases h with
  | start hF h => exact .start hF (hr h)
  | last n hn hop => exact .last n hn hop
  | jump n hn op hi => exact .jump n hn op hi

lemma Ends.of_append {r : Prop} (hF : Linked out b F)
    (hout : ∀ {t x}, out t x → t ≤ b + width F) (h : Ends r b (F ++ G)) :
    (G = [] ∧ Ends r b F) ∨ (G ≠ [] ∧ Ends False (b + width F) G) := by
  by_cases hG : G = []
  · subst hG
    exact .inl ⟨rfl, by simpa using h⟩
  · refine .inr ⟨hG, ?_⟩
    have hpos := width_pos hG
    cases h with
    | start hnil _ => exact absurd (List.append_eq_nil_iff.1 hnil).2 hG
    | last n hn hop =>
      refine .last n ?_ hop
      simpa [List.getLast?_eq_some_getLast hG] using hn
    | jump n hn op hi =>
      rcases List.mem_append.1 hn with hn | hn
      · rw [width_append] at hi
        rcases hF n hn op _ hi with ht | ⟨x, ht⟩
        · have := ht.bounds
          omega
        · have := hout ht
          omega
      · exact .jump n hn op (by rw [hi, width_append, Nat.add_assoc])

lemma Paced.of_not_ends {r : Prop} (hF : Paced out b F d e) (hne : F ≠ []) (h : ¬Ends r b F)
    (e' : Int) : Paced out b F d e' where
  entry := by
    rcases hF.entry with ⟨h, _⟩ | h
    · have := width_pos hne
      omega
    · exact .inr h
  next hp hf := by
    rcases hF.next hp hf with ⟨hend, _⟩ | h'
    · exact absurd (.last _ (getLast?_of_nodeAt hp hend) hf) h
    · exact .inr h'
  jump hn op t ht := by
    rcases hF.jump hn ht with (⟨rfl, _⟩ | h') | h'
    · exact absurd (.jump _ hn _ ht) h
    · exact .inl (.inr h')
    · exact .inr h'
  nonneg := hF.nonneg
  ret := hF.ret

end AdventureScript.Assembly
