import AdventureScript.Proofs.Expression.Basic

/-!
The constructs and blocks around a statement.
-/
namespace AdventureScript

variable {F' : List Node}

def Frame.target? (f : Frame) : Option Nat :=
  match f.construct with
  | .loop target _ => target
  | .switch _ => none

lemma Frame.continues_of_not_isLoop {f : Frame} (h : f.isLoop = false) : f.continues = #[] := by
  unfold isLoop at h
  unfold continues
  split at h
  · cases h
  · rfl

namespace Assembly

variable {g g' : Prop} {b dest p : Nat} {F G : List Node} {x : Int} {xs : List Int}
  {j : PendingJump} {f f' f'' : Frame} {n n' n'' : Nesting}

def JumpAt (g : Prop) (b : Nat) (F : List Node) (x : Int) (j : PendingJump) : Prop :=
  Contains (fun p n => j = ⟨p + 1⟩ ∧ ∃ op dest?, n.instr = .jump op dest? ∧ (g → n.depth = x)) b F

lemma JumpAt.imp (h : JumpAt g b F x j) (hg : g' → g) : JumpAt g' b F x j := by
  obtain ⟨p, n, hn, hj, op, dest?, hi, hd⟩ := h
  exact ⟨p, n, hn, hj, op, dest?, hi, hd ∘ hg⟩

lemma JumpAt.landAt (h : JumpAt g b F x j) : JumpAt g b (landAt b F p dest) x j := by
  refine Contains.landAt h fun k n hn => ?_
  obtain ⟨hj, op, dest?, hi, hd⟩ := hn
  rw [(Relabels.alike k n).depth, landing]
  split
  · exact ⟨hj, op, some dest, by simp [Node.land, hi], hd⟩
  · exact ⟨hj, op, dest?, hi, hd⟩

/-- The code `F` became `G` when jumps landed and code was added at the end. What is known of `G` if
`g'` holds was known of `F` if `g` holds. -/
structure Becomes (g g' : Prop) (b : Nat) (F : List Node) (d : Int) (G : List Node) (e : Int) :
    Prop where
  imp : g' → g
  boundary : ∀ {t}, Boundary b F t → Boundary b G t
  arrives : g' → ∀ {t x}, Arrives b F d t x → Arrives b G e t x
  jump : ∀ {x j}, JumpAt g b F x j → JumpAt g' b G x j

lemma Becomes.refl {d : Int} : Becomes g g b F d F d :=
  ⟨id, id, fun _ _ _ => id, id⟩

lemma Becomes.trans {g'' : Prop} {H : List Node} {d e k : Int} (h : Becomes g g' b F d G e)
    (h' : Becomes g' g'' b G e H k) : Becomes g g'' b F d H k where
  imp := h.imp ∘ h'.imp
  boundary := h'.boundary ∘ h.boundary
  arrives hg _ _ ha := h'.arrives hg (h.arrives (h'.imp hg) ha)
  jump := h'.jump ∘ h.jump

lemma becomes_landAt {e : Int} (hg : g' → g) : Becomes g g' b F e (Assembly.landAt b F p dest) e where
  imp := hg
  boundary := Boundary.relabel_self
  arrives _ _ _ := Arrives.relabel_self
  jump hj := hj.landAt.imp hg

lemma becomes_append {d e : Int} (hg : g' → g)
    (hG : g' → Arrives (b + width F) G e (b + width F) d) : Becomes g g' b F d (F ++ G) e where
  imp := hg
  boundary := Boundary.append_left
  arrives hg' _ _ ha := ha.append_left (hG hg')
  jump hj := (hj.imp hg).append_left

/-! ## Frames -/

structure Gains (g : Prop) (b : Nat) (F : List Node) (x : Int) (f f' : Frame) : Prop where
  depth : f'.depth = f.depth
  isLoop : f'.isLoop = f.isLoop
  target? : f'.target? = f.target?
  breaks : Grown (JumpAt g b F x) f.breaks.toList f'.breaks.toList
  continues : Grown (JumpAt g b F x) f.continues.toList f'.continues.toList
  direct : f.target?.isSome = true → f'.continues = f.continues

lemma Gains.refl : Gains g b F x f f :=
  ⟨rfl, rfl, rfl, .refl, .refl, fun _ => rfl⟩

lemma Gains.trans (h : Gains g b F x f f') (h' : Gains g b F x f' f'') : Gains g b F x f f'' where
  depth := h'.depth.trans h.depth
  isLoop := h'.isLoop.trans h.isLoop
  target? := h'.target?.trans h.target?
  breaks := h.breaks.trans h'.breaks
  continues := h.continues.trans h'.continues
  direct ht := (h'.direct (h.target? ▸ ht)).trans (h.direct ht)

lemma gains_addBreak (hj : JumpAt g b F x j) :
    Gains g b F x f (f.addBreak j) ∧ j ∈ (f.addBreak j).breaks.toList := by
  refine ⟨{ Gains.refl (f := f) with breaks := ?_ }, by simp [Frame.addBreak]⟩
  simp only [Frame.addBreak, Array.toList_push]
  exact .concat hj

lemma gains_addContinue (hf : f.isLoop = true) (htarget : f.target? = none)
    (hj : JumpAt g b F x j) :
    Gains g b F x f (f.addContinue j) ∧ j ∈ (f.addContinue j).continues.toList := by
  rcases f with ⟨⟨target, js⟩ | _, depth, breaks⟩
  · obtain rfl : target = none := htarget
    refine ⟨⟨rfl, rfl, rfl, .refl, ?_, fun h => by cases h⟩, by simp [Frame.addContinue, Frame.continues]⟩
    simp only [Frame.continues, Frame.addContinue, Array.toList_push]
    exact .concat hj
  · cases hf

lemma Gains.mono {b' : Nat} (h : Gains g b F x f f')
    (hj : ∀ j, JumpAt g b F x j → JumpAt g' b' F' x j) : Gains g' b' F' x f f' :=
  { h with
    breaks := h.breaks.mono hj
    continues := h.continues.mono hj }

inductive Held (g : Prop) (b : Nat) (F : List Node) : List Int → Nesting → Nesting → Prop where
  | nil : Held g b F [] [] []
  | cons {x : Int} {xs : List Int} {f f' : Frame} {n n' : Nesting} (hf : Gains g b F x f f')
      (h : Held g b F xs n n') : Held g b F (x :: xs) (f :: n) (f' :: n')

lemma Held.refl (h : xs.length = n.length) : Held g b F xs n n := by
  induction xs generalizing n with
  | nil =>
    obtain rfl := List.length_eq_zero_iff.1 h.symm
    exact .nil
  | cons x xs ih =>
    cases n with
    | nil => cases h
    | cons f n => exact .cons .refl (ih (by simpa using h))

lemma Held.trans (h : Held g b F xs n n') (h' : Held g b F xs n' n'') : Held g b F xs n n'' := by
  induction h generalizing n'' with
  | nil => exact h'
  | cons hf _ ih =>
    cases h' with
    | cons hf' h' => exact .cons (hf.trans hf') (ih h')

lemma Held.mono {b' : Nat} (h : Held g b F xs n n')
    (hj : ∀ x j, JumpAt g b F x j → JumpAt g' b' F' x j) : Held g' b' F' xs n n' := by
  induction h with
  | nil => exact .nil
  | cons hf _ ih => exact .cons (hf.mono (hj _)) ih

lemma Held.nil_inv (h : Held g b F [] [] n) : n = [] := by
  cases h
  rfl

lemma Held.cons_inv (h : Held g b F (x :: xs) (f :: n) n') :
    ∃ f' outer, n' = f' :: outer ∧ Gains g b F x f f' ∧ Held g b F xs n outer := by
  cases h with
  | cons hf h => exact ⟨_, _, rfl, hf, h⟩

lemma Held.markSwitch {marked : Bool} (h : xs.length = n.length) :
    Held g b F xs n (n.markSwitch marked) := by
  match xs, n with
  | [], [] => exact .nil
  | x :: xs, ⟨.loop _ _, _, _⟩ :: n => exact .refl h
  | x :: xs, ⟨.switch _, _, _⟩ :: n =>
    exact .cons ⟨rfl, rfl, rfl, .refl, .refl, fun h => by cases h⟩ (.refl (by simpa using h))

def Waits (n : Nesting) (j : PendingJump) : Prop :=
  ∃ f ∈ n, j ∈ f.breaks.toList ∨ j ∈ f.continues.toList

lemma waits_cons : Waits (f :: n) j ↔ Waits [f] j ∨ Waits n j := by
  simp [Waits]

lemma Gains.jumpAt (h : Gains g b F x f f') (hbreaks : f.breaks = #[])
    (hcontinues : f.continues = #[]) (hj : Waits [f'] j) : JumpAt g b F x j := by
  obtain ⟨_, hf, hj⟩ := hj
  obtain rfl := List.mem_singleton.1 hf
  rcases hj with hj | hj
  · exact (h.breaks.mem hj).resolve_left (by simp [hbreaks])
  · exact (h.continues.mem hj).resolve_left (by simp [hcontinues])

lemma Held.waits (h : Held g b F xs n n') (hj : Waits n j) : Waits n' j := by
  obtain ⟨f, hf, hj⟩ := hj
  induction h with
  | nil => cases hf
  | cons hg _ ih =>
    rcases List.mem_cons.1 hf with rfl | hf
    · refine ⟨_, List.mem_cons_self, hj.imp ?_ ?_⟩
      · obtain ⟨l, hl, _⟩ := hg.breaks
        exact fun h => by simp [hl, h]
      · obtain ⟨l, hl, _⟩ := hg.continues
        exact fun h => by simp [hl, h]
    · obtain ⟨k, hk, hj⟩ := ih hf
      exact ⟨k, List.mem_cons_of_mem _ hk, hj⟩

end Assembly

def Scope.starts (s : Scope) : List Int32 :=
  s.blocks.map (·.start)

lemma Scope.sizeFrom_eq {s : Scope} {depth : Nat} {start : Int32}
    (h : s.starts.reverse[depth]? = some start) : s.sizeFrom (depth + 1) = s.offset - start := by
  rw [starts, ← List.map_reverse, List.getElem?_map, Option.map_eq_some_iff] at h
  obtain ⟨block, hb, rfl⟩ := h
  simp [sizeFrom, hb]

open Assembly in
/-- The constructs around lie within the open blocks: the block of each was opened on a stack as
deep as the stack is outside of it, and so it is where the construct goes back to. -/
inductive Framed (q : Prop) (starts : List Int32) (out : Outside) : List Int → Nesting → Prop where
  | nil : Framed q starts out [] []
  | cons {x : Int} {xs : List Int} {f : Frame} {n : Nesting}
      (hstart : q → starts.reverse[f.depth]? = some (Int32.ofInt x))
      (hback : ∀ t, f.target? = some t → out t x)
      (h : Framed q starts out xs n) : Framed q starts out (x :: xs) (f :: n)

namespace Framed

open Assembly

variable {q r : Prop} {starts : List Int32} {out : Outside} {xs : List Int} {n n' : Nesting}

variable (h : Framed q starts out xs n)
include h

lemma length_eq : xs.length = n.length := by
  induction h with
  | nil => rfl
  | cons _ _ _ ih => simp [ih]

lemma held {g : Prop} {b : Nat} {F : List Node}
    (hh : Held g b F xs n n') (hr : r → q) : Framed r starts out xs n' := by
  induction hh with
  | nil => exact .nil
  | cons hf _ ih =>
    cases h with
    | cons hstart hback h =>
      refine .cons (fun hr' => ?_) (fun t ht => hback t (hf.target? ▸ ht)) (ih h)
      rw [hf.depth]
      exact hstart (hr hr')

lemma addBreak {f : Frame} (hf : n.head? = some f) :
    ∃ x ∈ xs, (q → starts.reverse[f.depth]? = some (Int32.ofInt x)) ∧
      ∀ {g b F j}, JumpAt g b F x j → Held g b F xs n (n.modifyHead (·.addBreak j)) ∧
        Waits (n.modifyHead (·.addBreak j)) j := by
  cases h with
  | nil => cases hf
  | cons hstart hback h =>
    cases hf
    refine ⟨_, List.mem_cons_self, hstart, fun hj => ?_⟩
    obtain ⟨hgains, hmem⟩ := gains_addBreak hj
    exact ⟨.cons hgains (.refl h.length_eq), _, List.mem_cons_self, .inl hmem⟩

lemma addContinue {f : Frame} (hf : n.loop? = some f) :
    ∃ x ∈ xs, (q → starts.reverse[f.depth]? = some (Int32.ofInt x)) ∧
      (∀ t, f.target? = some t → out t x) ∧
      (f.target? = none → ∀ {g b F j}, JumpAt g b F x j →
        Held g b F xs n (n.modifyLoop (·.addContinue j)) ∧
          Waits (n.modifyLoop (·.addContinue j)) j) := by
  induction h with
  | nil => cases hf
  | @cons x xs f' n hstart hback h ih =>
    cases hloop : f'.isLoop with
    | true =>
      obtain rfl : f' = f := by simpa [Nesting.loop?, hloop] using hf
      refine ⟨x, List.mem_cons_self, hstart, hback, fun htarget {g b F j} hj => ?_⟩
      obtain ⟨hgains, hmem⟩ := gains_addContinue hloop htarget hj
      simp only [Nesting.modifyLoop, hloop, if_true]
      exact ⟨.cons hgains (.refl h.length_eq), _, List.mem_cons_self, .inr hmem⟩
    | false =>
      have hf' : n.loop? = some f := by simpa [Nesting.loop?, hloop] using hf
      obtain ⟨y, hy, hstart', hback', hadd⟩ := ih hf'
      refine ⟨y, List.mem_cons_of_mem _ hy, hstart', hback', fun htarget {g b F j} hj => ?_⟩
      obtain ⟨hheld, hwaits⟩ := hadd htarget hj
      simp only [Nesting.modifyLoop, hloop, Bool.false_eq_true, if_false]
      exact ⟨.cons .refl hheld, waits_cons.2 (.inr hwaits)⟩

end Framed
end AdventureScript
