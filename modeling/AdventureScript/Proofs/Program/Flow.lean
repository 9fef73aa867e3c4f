import AdventureScript.Proofs.Code.Decode
import AdventureScript.Proofs.Program.Basic

/-!
The code of a compiled script: it splits into instructions, each function is a stretch of them that
no jump leaves, and in a function of plain forms control comes to its instructions only, with the
stack as deep on all ways.
-/
namespace AdventureScript

open Assembly

/-- The bodies lie one behind the other, from `start` to `stop`. -/
def Tiles (stop : Nat) : Nat → List Body → Prop
  | start, [] => start = stop
  | start, b :: bodies => b.start = start ∧ b.start < b.stop ∧ Tiles stop b.stop bodies

lemma Tiles.concat {start mid : Nat} {bodies : List Body} {b : Body} (h : Tiles mid start bodies)
    (hstart : b.start = mid) (hlt : b.start < b.stop) : Tiles b.stop start (bodies ++ [b]) := by
  induction bodies generalizing start with
  | nil => exact ⟨hstart.trans h.symm, hlt, rfl⟩
  | cons a bodies ih => exact ⟨h.1, h.2.1, ih h.2.2⟩

lemma Tiles.le {stop start : Nat} {bodies : List Body} (h : Tiles stop start bodies) :
    start ≤ stop := by
  induction bodies generalizing start with
  | nil => exact le_of_eq h
  | cons a bodies ih =>
    obtain ⟨rfl, hlt, h⟩ := h
    exact le_trans (le_of_lt hlt) (ih h)

lemma Tiles.start_lt {stop start : Nat} {bodies : List Body} {b : Body}
    (h : Tiles stop start bodies) (hb : b ∈ bodies) : b.start < stop := by
  induction bodies generalizing start with
  | nil => cases hb
  | cons a bodies ih =>
    obtain ⟨_, hlt, h⟩ := h
    cases hb with
    | head => exact lt_of_lt_of_le hlt h.le
    | tail _ hb => exact ih h hb

variable {tokens : Stream} {uses : List (Mark Int32)} {bodies : List Body} {b : Body}
  {A B F G : List Node} {n : Node} {p q t : Nat} {op : Opcode}

namespace Body.Piece

variable (h : b.Piece tokens uses G)
include h

lemma ne_nil : G ≠ [] := by
  rintro rfl
  cases h.head?

lemma start_lt : b.start < b.stop := by
  have := width_pos h.ne_nil
  have := h.stop_eq
  omega

lemma nodeAt_start :
    nodeAt b.start G b.start = some ⟨.plain .thisBase [Int32.ofNat b.start], 0⟩ := by
  have hhead := h.head?
  cases G with
  | nil => cases hhead
  | cons n G =>
    cases hhead
    exact nodeAt_cons_self

omit h in
lemma exists_of_arrives {e x : Int} (harrives : Arrives b.start G e t x)
    (hend : t ≠ b.start + width G) : ∃ n, nodeAt b.start G t = some n ∧ n.depth = x :=
  harrives.resolve_left fun h => hend h.1

lemma next (hb : b.Bounded tokens)
    (hn : nodeAt b.start G p = some n) (hop : n.instr.op.endsFlow = false) :
    ∃ m, nodeAt b.start G (p + n.size) = some m ∧ m.depth = n.depthAfter := by
  obtain ⟨e, he⟩ := h.paced hb
  refine exists_of_arrives (he.next hn hop) fun hend => h.closed hb ?_
  exact .last n (getLast?_of_nodeAt hn hend) hop

lemma jump (hb : b.Bounded tokens) (hn : n ∈ G)
    (hi : n.instr = .jump op (some t)) :
    ∃ m, nodeAt b.start G t = some m ∧ m.depth = n.depth := by
  obtain ⟨e, he⟩ := h.paced hb
  refine exists_of_arrives ((he.jump hn hi).resolve_right id) ?_
  rintro rfl
  exact h.closed hb (.jump n hn op hi)

end Body.Piece

namespace Assembled

lemma tiles (h : Assembled tokens uses bodies F) : Tiles (width F) 0 bodies := by
  induction h with
  | nil => rfl
  | concat _ hstart hb ih =>
    have := ih.concat hstart hb.start_lt
    rwa [hb.stop_eq, hstart, ← width_append] at this

lemma exists_of_nodeAt (h : Assembled tokens uses bodies F) (hn : nodeAt 0 F p = some n) :
    ∃ b ∈ bodies, ∃ A G B, F = A ++ G ++ B ∧ b.start = width A ∧ b.Piece tokens uses G ∧
      nodeAt b.start G p = some n := by
  induction h with
  | nil => cases hn
  | @concat bodies F b G h hstart hb ih =>
    rcases nodeAt_append hn with hn | hn
    · obtain ⟨b', hb', A, H, B, rfl, hA, hH, hn⟩ := ih hn
      exact ⟨b', by simp [hb'], A, H, B ++ G, by simp, hA, hH, hn⟩
    · exact ⟨b, by simp, F, G, [], by simp, hstart, hb, by rwa [hstart, ← Nat.zero_add (width F)]⟩

end Assembled

lemma Assembly.nodeAt_within (hA : q = width A) (h : nodeAt q G p = some n) :
    nodeAt 0 (A ++ G ++ B) p = some n := by
  refine nodeAt_append_left (nodeAt_append_right ?_)
  rwa [Nat.zero_add, ← hA]

lemma Assembly.Boundary.within (hA : q = width A) (h : Boundary q G t) :
    Boundary 0 (A ++ G ++ B) t := by
  refine (Boundary.append_right ?_).append_left
  rwa [Nat.zero_add, ← hA]

def Assembly.destAt (F : List Node) (p : Nat) : Nat :=
  match nodeAt 0 F p with
  | some ⟨.jump _ (some t), _⟩ => t
  | _ => 0

def Assembly.depthAt (F : List Node) (p : Nat) : Int :=
  (nodeAt 0 F p).elim 0 (·.depth)

lemma Assembly.depthAt_eq (h : nodeAt 0 F p = some n) : depthAt F p = n.depth := by
  simp [depthAt, h]

lemma Assembly.destAt_eq (h : nodeAt 0 F p = some n) (hi : n.instr = .jump op (some t)) :
    destAt F p = t := by
  obtain ⟨_, d⟩ := n
  cases hi
  simp [destAt, h]

lemma Assembly.Instr.WellFormed.eq_jump {i : Instr} (h : i.WellFormed) (hop : i.op.isJump = true) :
    ∃ dest?, i = .jump i.op dest? := by
  rcases i with ⟨op, operands⟩ | ⟨op, dest?⟩
  · cases hop.symm.trans h.1
  · exact ⟨dest?, rfl⟩

namespace Gen

variable {c : Context} {s : State} {i : Instruction}

/-! ## Functions -/

lemma Holds.decode_eq (h : Holds c s F) : decode 0 s.script.code.toList = some (readings 0 F) := by
  rw [h.code, decode_words h.wellFormed]

lemma exists_dest (hF : Assembled tokens uses bodies F) (hwf : ∀ {n}, n ∈ F → n.instr.WellFormed)
    (hi : i ∈ readings 0 F) (hop : i.op.isJump = true) :
    ∃ b ∈ bodies, (b.start ≤ i.position ∧ i.position < b.stop) ∧ i.Leads (destAt F i.position) ∧
      (b.start ≤ destAt F i.position ∧ destAt F i.position ≤ b.stop) ∧
      Boundary 0 F (destAt F i.position) := by
  obtain ⟨n, hn, hread⟩ := mem_readings.1 hi
  rw [hread, Node.op_read] at hop
  obtain ⟨b, hb, A, G, B, rfl, hA, hG, hnode⟩ := hF.exists_of_nodeAt hn
  obtain ⟨dest?, hjump⟩ := (hwf (nodeAt_mem hn)).eq_jump hop
  obtain ⟨t, rfl⟩ : ∃ t, dest? = some t := by
    refine Option.ne_none_iff_exists'.1 fun hnone => ?_
    exact hG.settled n (nodeAt_mem hnode) _ (hnone ▸ hjump)
  have hbounds := nodeAt_bounds hnode
  have hsize := n.size_pos
  have ht := hG.linked.boundary (nodeAt_mem hnode) hjump
  rw [destAt_eq hn hjump]
  refine ⟨b, hb, ⟨hbounds.1, ?_⟩, ?_, ?_, ht.within hA⟩
  · rw [hG.stop_eq]
    omega
  · rw [hread]
    exact Node.leads_read hjump
  · rw [hG.stop_eq]
    exact ht.bounds

variable (hpiece : b.Piece tokens uses G) (hb : b.Bounded tokens) (hA : b.start = width A)
  (hwf : ∀ {n}, n ∈ A ++ G ++ B → n.instr.WellFormed)
include hpiece hb hA hwf

lemma flows_within (hn : nodeAt b.start G i.position = some n) (hi : i ∈ readings 0 (A ++ G ++ B))
    (hp : i.Flows (destAt (A ++ G ++ B)) p) :
    ∃ m, nodeAt b.start G p = some m ∧ m.depth = n.depth + i.effect := by
  have hnode := nodeAt_within (B := B) hA hn
  have hn' := hwf (nodeAt_mem hnode)
  obtain ⟨k, hk, hread⟩ := mem_readings.1 hi
  obtain rfl : n = k := Option.some.inj (hnode.symm.trans hk)
  have hsame : i.op = n.instr.op := congrArg Instruction.op hread
  cases hp with
  | on hop =>
    rw [hread, Node.next_read, hn'.effect_read]
    exact hpiece.next hb hn (hsame ▸ hop)
  | jump hop =>
    obtain ⟨dest?, hjump⟩ := hn'.eq_jump (hsame ▸ hop)
    cases dest? with
    | none => exact absurd hjump (hpiece.settled n (nodeAt_mem hn) _)
    | some t =>
      rw [destAt_eq hnode hjump]
      obtain ⟨m, hm, hdepth⟩ := hpiece.jump hb (nodeAt_mem hn) hjump
      refine ⟨m, hm, ?_⟩
      rw [hdepth, hread, hn'.effect_read, hjump, Instr.effect_jump, Int.add_zero]

lemma exists_of_reached
    (h : Reached (readings 0 (A ++ G ++ B)) (destAt (A ++ G ++ B)) b.start p) :
    ∃ n, nodeAt b.start G p = some n := by
  induction h with
  | start => exact ⟨_, hpiece.nodeAt_start⟩
  | step hi _ hp ih =>
    obtain ⟨n, hn⟩ := ih
    obtain ⟨m, hm, _⟩ := flows_within hpiece hb hA hwf hn hi hp
    exact ⟨m, hm⟩

lemma disciplined : Disciplined (readings 0 (A ++ G ++ B)) (destAt (A ++ G ++ B)) uses b.start
      (depthAt (A ++ G ++ B)) := by
  obtain ⟨e, hpaced⟩ := hpiece.paced hb
  have hreach := fun {p} => exists_of_reached (p := p) hpiece hb hA hwf
  have hdepth : ∀ {p n}, nodeAt b.start G p = some n → depthAt (A ++ G ++ B) p = n.depth :=
    fun hn => depthAt_eq (nodeAt_within hA hn)
  exact {
    entry := hdepth hpiece.nodeAt_start
    flows := fun i hi h p hp => by
      obtain ⟨n, hn⟩ := hreach h
      obtain ⟨m, hm, hnext⟩ := flows_within hpiece hb hA hwf hn hi hp
      rw [hdepth hm, hdepth hn, hnext]
    nonneg := fun p h => by
      obtain ⟨n, hn⟩ := hreach h
      rw [hdepth hn]
      exact hpaced.nonneg (nodeAt_mem hn)
    ret := fun i hi h hop => by
      obtain ⟨n, hn⟩ := hreach h
      obtain ⟨k, hk, hread⟩ := mem_readings.1 hi
      obtain rfl : n = k := Option.some.inj ((nodeAt_within hA hn).symm.trans hk)
      rw [hdepth hn]
      exact hpaced.ret (nodeAt_mem hn) ((congrArg Instruction.op hread).symm.trans hop)
    uses := fun u hu h => by
      obtain ⟨n, hn⟩ := hreach h
      have hbounds := nodeAt_bounds hn
      have hsize := n.size_pos
      have hstop := hpiece.stop_eq
      obtain ⟨_, k, hk, rfl, w, hload, hw⟩ := hpiece.uses u hu hbounds.1 (by omega)
      have hmem := read_mem_readings (nodeAt_within (B := B) hA hk)
      rw [hdepth hk, ← hw hb]
      simpa [Node.read, Node.words, Instr.words, hload, Instr.op] using hmem }

end Gen

/-! ## Compiled scripts -/

variable {source : String} {options : Options} {s : State} {script : Script}

structure State.Ordered (s : State) (code : List Instruction) : Prop where
  tiles : Tiles s.script.size 0 s.bodies.toList
  starts : ∀ b ∈ s.bodies, ⟨b.start, .thisBase, [Int32.ofNat b.start]⟩ ∈ code
  functions : ∀ f ∈ s.symbols.functions, f.hasBody = true →
    ∃ b ∈ s.bodies, s.symbols.functions[b.function.index]? = some f ∧ f.codeOffset = some b.start
  jumps : ∀ i ∈ code, i.op.isJump = true → ∃ b ∈ s.bodies, ∃ w t, i.operands = [w] ∧
    (b.start ≤ i.position ∧ i.position < b.stop) ∧ i.Leads t ∧
    (s.script.size < 2 ^ 31 → (t : Int) = i.position + 2 + w.toInt) ∧
    (b.start ≤ t ∧ t ≤ b.stop) ∧ (t = s.script.size ∨ ∃ j ∈ code, j.position = t)

namespace Gen.Complete

variable {c : Context}

lemma functions_started (h : Complete c s) {f : FuncDef} (hf : f ∈ s.symbols.functions)
    (hbody : f.hasBody = true) :
    ∃ b ∈ s.bodies, s.symbols.functions[b.function.index]? = some f ∧
      f.codeOffset = some b.start := by
  obtain ⟨k, hk⟩ := Array.mem_iff_getElem?.1 hf
  have hsome := @Coherent.hasBody _ _ _ _ h.toCoherent ⟨k⟩ f hk
  rw [hbody] at hsome
  obtain ⟨o, ho⟩ := Option.isSome_iff_exists.1 hsome.symm
  obtain ⟨b, hb, hid, rfl⟩ := @Coherent.started _ _ _ _ h.toCoherent ⟨k⟩ f o hk ho
  exact ⟨b, hb, by rw [hid]; exact hk, ho⟩

lemma ordered (h : Complete c s) (hF : Holds c s F)
    (hassembled : Assembled c.tokens uses s.bodies.toList F) : s.Ordered (readings 0 F) where
  tiles := hF.size_eq ▸ hassembled.tiles
  starts b hb := by
    obtain ⟨A, G, B, rfl, hA, hG⟩ := hassembled.mem (Array.mem_toList_iff.2 hb)
    exact read_mem_readings (nodeAt_within hA hG.nodeAt_start)
  functions f hf hbody := h.functions_started hf hbody
  jumps i hi hop := by
    obtain ⟨b, hb, hwithin, hleads, hbounds, hboundary⟩ :=
      exists_dest hassembled hF.wellFormed hi hop
    have ⟨w, hw, _⟩ := hleads
    have hnext : i.next = i.position + 2 := by simp [Instruction.next, hw]
    obtain ⟨n, hn, hread⟩ := mem_readings.1 hi
    have hle : i.next ≤ s.script.size := by
      have := (nodeAt_bounds hn).2
      rw [hread, Node.next_read, hF.size_eq]
      omega
    have hend := hboundary.bounds.2
    rw [Nat.zero_add, ← hF.size_eq] at hend
    refine ⟨b, by simpa using hb, w, _, hw, hwithin, hleads, fun hsize => ?_, hbounds, ?_⟩
    · have := hleads.eq hw (by omega) (by omega)
      rw [this, hnext]
      simp
    · rcases hboundary with ht | ⟨m, hm⟩
      · exact .inl (by rw [ht, hF.size_eq, Nat.zero_add])
      · exact .inr ⟨m.read _, read_mem_readings hm, rfl⟩

end Gen.Complete

/-- The code of a compiled script splits into complete instructions. Each function starts with its
own address, and no jump leads out of its function. -/
theorem compile_ordered (h : (compile source options).result = .ok script) :
    ∃ tokens s code, Compiles source options tokens s ∧ s.script = script ∧
      decode 0 script.code.toList = some code ∧ s.Ordered code := by
  obtain ⟨tokens, s, hs, rfl⟩ := compile_eq_ok_iff.1 h
  obtain ⟨F, hF, hassembled⟩ := hs.complete.code
  exact ⟨tokens, s, _, hs, rfl, hF.decode_eq, hs.complete.ordered hF hassembled⟩

theorem compile_ordered_loop :
    let source := "int f(int n) \x7b while (n) \x7b if (n > 9) break; n--; \x7d return n; \x7d void g() \x7b f(3); \x7d"
    ∃ script tokens s code, (compile source {}).result = .ok script ∧
      Compiles source {} tokens s ∧ s.script = script ∧
      decode 0 script.code.toList = some code ∧
      (code.filter (·.op.isJump)).length = 4 ∧ s.Ordered code := by
  intro source
  have hrun : (compiled? source {}).any (fun x => (decode 0 x.2.script.code.toList).any fun code =>
      (code.filter (·.op.isJump)).length = 4) = true := by decide +kernel
  obtain ⟨script, h⟩ := exists_script_of_any hrun
  obtain ⟨tokens, s, code, hs, rfl, hcode, hordered⟩ := compile_ordered h
  exact ⟨s.script, tokens, s, code, h, hs, rfl, hcode, by simpa [hcode] using hs.of_any hrun,
    hordered⟩

/-- In such a function control never comes to the end. -/
theorem compile_closed (h : (compile source options).result = .ok script) :
    ∃ tokens s code dest, Compiles source options tokens s ∧ s.script = script ∧
      decode 0 script.code.toList = some code ∧
      (∀ i ∈ code, i.op.isJump = true → i.Leads (dest i.position)) ∧
      ∀ b ∈ s.bodies, tokens.Plain b.tokens.start b.tokens.stop → b.localBytes < 2 ^ 31 →
        b.callBytes < 2 ^ 31 →
        ∀ p, Reached code dest b.start p → b.start ≤ p ∧ p < b.stop := by
  obtain ⟨tokens, s, hs, rfl⟩ := compile_eq_ok_iff.1 h
  obtain ⟨F, hF, hassembled⟩ := hs.complete.code
  refine ⟨tokens, s, _, destAt F, hs, rfl, hF.decode_eq, fun i hi hop => ?_,
    fun b hb hplain hlocals hcalls p hp => ?_⟩
  · obtain ⟨_, _, _, hleads, _⟩ := Gen.exists_dest hassembled hF.wellFormed hi hop
    exact hleads
  · obtain ⟨A, G, B, rfl, hA, hG⟩ := hassembled.mem (Array.mem_toList_iff.2 hb)
    obtain ⟨n, hn⟩ := Gen.exists_of_reached hG ⟨hplain, hcalls, hlocals⟩ hA hF.wellFormed hp
    have hbounds := nodeAt_bounds hn
    have hsize := n.size_pos
    have hstop := hG.stop_eq
    omega

theorem compile_closed_loop :
    let source := "void f(int n) \x7b while (1) \x7b if (n > 9) return; n++; \x7d \x7d"
    ∃ script tokens s code dest, (compile source {}).result = .ok script ∧
      Compiles source {} tokens s ∧ s.script = script ∧
      decode 0 script.code.toList = some code ∧
      (∀ i ∈ code, i.op.isJump = true → i.Leads (dest i.position)) ∧
      ∃ b ∈ s.bodies, ∀ p, Reached code dest b.start p → b.start ≤ p ∧ p < b.stop := by
  intro source
  have hrun : (compiled? source {}).any (fun x => x.2.bodies.any fun b =>
      x.1.Plain b.tokens.start b.tokens.stop ∧ b.localBytes < 2 ^ 31 ∧ b.callBytes < 2 ^ 31) =
      true := by
    decide +kernel
  obtain ⟨script, h⟩ := exists_script_of_any hrun
  obtain ⟨tokens, s, code, dest, hs, rfl, hcode, hleads, hclosed⟩ := compile_closed h
  obtain ⟨b, hb, hbounds⟩ := Array.any_eq_true'.1 (hs.of_any hrun)
  obtain ⟨hplain, hlocals, hcalls⟩ := of_decide_eq_true hbounds
  exact ⟨s.script, tokens, s, code, dest, h, hs, rfl, hcode, hleads, b, hb,
    hclosed b hb hplain hlocals hcalls⟩

end AdventureScript
