import AdventureScript.Proofs.Safety.Assignment
import AdventureScript.Proofs.Safety.Block

/-!
The constructs around a statement. They are as many behind it as before it, and the jumps that wait
in them are in the code, so that all of them can land.
-/
namespace AdventureScript

variable {f : Frame} {js : Array PendingJump}

def Frame.JumpsBelow (n : Nat) (f : Frame) : Prop :=
  (∀ j ∈ f.breaks, j.operand < n) ∧ ∀ j ∈ f.continues, j.operand < n

lemma Frame.JumpsBelow.mono {n n' : Nat} (h : f.JumpsBelow n) (hle : n ≤ n') : f.JumpsBelow n' :=
  ⟨fun j hj => lt_of_lt_of_le (h.1 j hj) hle, fun j hj => lt_of_lt_of_le (h.2 j hj) hle⟩

namespace Nesting

variable {nesting : Nesting} {change : Frame → Frame}

lemma length_modifyHead : (nesting.modifyHead change).length = nesting.length := by
  cases nesting <;> rfl

lemma length_modifyLoop : (nesting.modifyLoop change).length = nesting.length := by
  induction nesting with
  | nil => rfl
  | cons f nesting ih =>
    simp only [modifyLoop]
    split
    · rfl
    · simp [ih]

lemma mem_modifyHead (h : f ∈ nesting.modifyHead change) :
    f ∈ nesting ∨ ∃ g ∈ nesting, f = change g := by
  cases nesting with
  | nil => cases h
  | cons g nesting =>
    rcases List.mem_cons.1 h with rfl | h
    · exact .inr ⟨g, List.mem_cons_self, rfl⟩
    · exact .inl (List.mem_cons_of_mem _ h)

lemma mem_modifyLoop (h : f ∈ nesting.modifyLoop change) :
    f ∈ nesting ∨ ∃ g ∈ nesting, f = change g := by
  induction nesting with
  | nil => cases h
  | cons g nesting ih =>
    simp only [modifyLoop] at h
    split at h
    · rcases List.mem_cons.1 h with rfl | h
      · exact .inr ⟨g, List.mem_cons_self, rfl⟩
      · exact .inl (List.mem_cons_of_mem _ h)
    · rcases List.mem_cons.1 h with rfl | h
      · exact .inl List.mem_cons_self
      · exact (ih h).imp (List.mem_cons_of_mem _) fun ⟨g', hg', he⟩ =>
          ⟨g', List.mem_cons_of_mem _ hg', he⟩

end Nesting

lemma Frame.JumpsBelow.addBreak {n : Nat} {j : PendingJump} (h : f.JumpsBelow n)
    (hj : j.operand < n) : (f.addBreak j).JumpsBelow n := by
  refine ⟨fun k hk => ?_, h.2⟩
  rcases Array.mem_push.1 hk with hk | rfl
  · exact h.1 k hk
  · exact hj

lemma Frame.JumpsBelow.addContinue {n : Nat} {j : PendingJump} (h : f.JumpsBelow n)
    (hj : j.operand < n) : (f.addContinue j).JumpsBelow n := by
  rcases f with ⟨⟨target, js⟩ | _, depth, breaks⟩
  · refine ⟨h.1, fun k hk => ?_⟩
    rcases Array.mem_push.1 hk with hk | rfl
    · exact h.2 k hk
    · exact hj
  · exact h

namespace Gen.Safety

variable {α β : Type} {m : Mode} {base s s' : State} {n depth p : Nat} {strict : Prop}
  {x : Gen α} {Q : α → Nat → Prop} {T : β → Nat → Prop}

/-! ## What stays -/

/-- What a statement finds within `depth` constructs. -/
structure Settled (strict : Prop) (base : State) (depth n : Nat) (s : State) : Prop where
  symbols : s.symbols = base.symbols
  function? : s.function? = base.function?
  size_le : n ≤ s.script.size
  calls : strict → s.CallsWithin
  scope : strict → s.scope.Proper
  nesting : strict → s.nesting.length = depth
  jumps : strict → ∀ f ∈ s.nesting, f.JumpsBelow s.script.size

instance : Placeless (Settled strict base depth n) where
  setPos h := { h with calls := fun hs => (h.calls hs).grow rfl rfl le_rfl }

instance : Growing (Settled strict base depth) where
  size_le h := h.size_le
  mono h hn := { h with size_le := hn }
  write h hle := { h with
    size_le := le_trans h.size_le hle
    calls := fun hs => (h.calls hs).grow rfl rfl hle
    jumps := fun hs f hf => (h.jumps hs f hf).mono hle }

lemma Settled.still (h : Settled strict base depth n s) : Still strict s s.script.size s :=
  ⟨rfl, rfl, rfl, le_rfl, h.calls, h.scope⟩

lemma Still.settled {k : Nat} (h : Still strict s k s') (hs : Settled strict base depth n s)
    (hn : n ≤ k) (hk : strict → ∀ f ∈ s.nesting, f.JumpsBelow k) :
    Settled strict base depth n s' where
  symbols := h.symbols.trans hs.symbols
  function? := h.function?.trans hs.function?
  size_le := le_trans hn h.size_le
  calls := h.calls
  scope := h.scope
  nesting hstrict := h.nesting ▸ hs.nesting hstrict
  jumps hstrict f hf := (hk hstrict f (h.nesting ▸ hf)).mono h.size_le

abbrev Settles (m : Mode) (base : State) (depth n p : Nat) (x : Gen α) (Q : α → Nat → Prop) : Prop :=
  Sure m (Settled m.strict base depth n) (Settled m.strict base depth n) p x Q

lemma settles_of_still (hg : Ground m base)
    (h : ∀ s n', n ≤ n' → s.symbols = base.symbols → Ground m s →
      Sure m (Still m.strict s n') (Still m.strict s n') p x Q) : Settles m base depth n p x Q :=
  ⟨fun s hs hp => ((h s s.script.size hs.size_le hs.symbols
    (hg.of_eq hs.symbols hs.function?)).run s hs.still hp).mono fun h' =>
      ⟨h'.1.settled hs hs.size_le hs.jumps, h'.2⟩⟩

lemma settles_of_calmly (hg : Ground m base)
    (h : ∀ s n', n ≤ n' → s.symbols = base.symbols → Fit m s → Calmly m s n' p x Q) :
    Settles m base depth n p x Q :=
  settles_of_still hg fun _ n' hn hs hg' => still_of_calmly hg' fun s' hs' hf =>
    h s' n' hn (hs'.trans hs) hf

lemma settles_of_quiet (hg : Ground m base) (h : ∀ {s n}, Calmly m s n p x Q) :
    Settles m base depth n p x Q :=
  settles_of_calmly hg fun _ _ _ _ _ => h

lemma settles_modifyNesting {f : Nesting → Nesting}
    (hlength : ∀ {nesting : Nesting}, (f nesting).length = nesting.length)
    (hjumps : m.strict → ∀ {nesting : Nesting} {size}, n ≤ size → (∀ g ∈ nesting, g.JumpsBelow size) →
      ∀ g ∈ f nesting, g.JumpsBelow size) :
    Settles m base depth n p (modify fun s => { s with nesting := f s.nesting }) fun _ q => q = p :=
  ⟨fun _ hs hp => ⟨{ hs with
    calls := fun h => (hs.calls h).grow rfl rfl le_rfl
    nesting := fun h => hlength.trans (hs.nesting h)
    jumps := fun h => hjumps h hs.size_le (hs.jumps h) }, hp⟩⟩

lemma settles_landHere (hg : Ground m base) {j : PendingJump} (hj : j.operand < n) :
    Settles m base depth n p (landHere j) fun _ q => q = p :=
  settles_of_calmly hg fun _ _ hn _ _ => calmly_landHere (lt_of_lt_of_le hj hn)

lemma settles_landOptional (hg : Ground m base) {j? : Option PendingJump}
    (hj : ∀ j ∈ j?, j.operand < n) : Settles m base depth n p (landOptional j?) fun _ q =>
      q = p := by
  cases j? with
  | none => exact .ret rfl
  | some j => exact settles_landHere hg (hj j rfl)

lemma calmly_landAllHere (hj : m.strict → ∀ j ∈ js, j.operand < n) :
    Quiet m base n p (landAllHere js) := by
  refine .ite (.codeSize fun size hsize => .dite (fun h => ?_) fun _ => ?_) <| .ret rfl
  · refine Sure.bind (Q := fun _ _ => False) (J := Calm m.strict base size)
      ⟨fun _ _ _ hs => ?_⟩ fun _ _ => False.elim
    obtain ⟨j, hmem, hle⟩ := Array.any_eq_true'.1 h
    have := hj hs j hmem
    have : size ≤ j.operand := by simpa using hle
    omega
  · exact (calmly_modifyScript fun s => by simp).then calmly_markJumpTarget

lemma settles_landAllHere (hg : Ground m base) (hj : m.strict → ∀ j ∈ js, j.operand < n) :
    Settles m base depth n p (landAllHere js) fun _ q => q = p :=
  settles_of_calmly hg fun _ _ hn _ _ => calmly_landAllHere fun hs j hmem =>
    lt_of_lt_of_le (hj hs j hmem) hn

lemma Sure.skipNext (hg : Ground m base) {f : Option PendingJump → Gen β}
    (h : ∀ j? n', (∀ j ∈ j?, j.operand < n') → n ≤ n' → Settles m base depth n' p (f j?) T) :
    Settles m base depth n p (skipNext >>= f) T := by
  unfold Gen.skipNext
  simp only [bind_assoc]
  refine (settles_of_quiet hg calmly_isReachable).then @fun b => ?_
  cases b with
  | false => exact h none n (by simp) (le_refl n)
  | true =>
    exact .jump fun j n' hj hn => h (some j) n' (by simpa using hj) hn

lemma Sure.within {construct : Construct} {k : Nat} {f : α × Frame → Gen β}
    (hnew : Frame.JumpsBelow 0 ⟨construct, k, #[]⟩)
    (h : Settles m base (depth + 1) n p x Q)
    (hf : ∀ a frame n' q, Q a q → n ≤ n' → (m.strict → frame.JumpsBelow n') →
      Settles m base depth n' q (f (a, frame)) T) :
    Settles m base depth n p (within construct k x >>= f) T := by
  refine ⟨fun s hs hp => ?_⟩
  unfold Gen.within
  simp only [bind_assoc, meets_bind, meets_modify]
  have hin : Settled m.strict base (depth + 1) n
      { s with nesting := ⟨construct, k, #[]⟩ :: s.nesting } :=
    { hs with
      calls := fun h => (hs.calls h).grow rfl rfl le_rfl
      nesting := fun h => by simp [hs.nesting h]
      jumps := fun h => List.forall_mem_cons.2 ⟨hnew.mono (Nat.zero_le _), hs.jumps h⟩ }
  refine (h.run _ hin hp).mono fun {a t} h => ?_
  obtain ⟨ht, hq⟩ := h
  simp only [meets_get]
  cases hnesting : t.nesting with
  | nil =>
    refine fun hstrict => ?_
    have := ht.nesting hstrict
    simp [hnesting] at this
  | cons frame outer =>
    have hmem : frame ∈ t.nesting := by simp [hnesting]
    have hout : Settled m.strict base depth t.script.size { t with nesting := outer } :=
      { ht with
        size_le := le_rfl
        calls := fun h => (ht.calls h).grow rfl rfl le_rfl
        nesting := fun h => by simpa [hnesting] using ht.nesting h
        jumps := fun h g hg => ht.jumps h g (by simp [hnesting, List.mem_cons_of_mem _ hg]) }
    refine ((hf a frame t.script.size t.pos hq ht.size_le fun h => ht.jumps h frame hmem).run _ hout
      rfl).mono fun h' => ⟨?_, h'.2⟩
    exact Growing.mono h'.1 (le_trans ht.size_le h'.1.size_le)

end Gen.Safety
end AdventureScript
