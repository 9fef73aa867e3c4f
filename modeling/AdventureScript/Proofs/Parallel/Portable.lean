import AdventureScript.Proofs.Parallel.Part

/-!
Steps of expressions whose outcome depends on the tokens, the symbols and the open blocks only.
-/
namespace AdventureScript.Gen

variable {α : Type} {c : Context} {s s' t t' : State} {p q : Nat} {x : Gen α} {a : α}

structure Portable (c : Context) (x : Gen α) : Prop where
  run : ∀ {s t a s'}, Stays s t → t.pos = s.pos → Runs x c s a s' →
    ∃ t', Runs x c t a t' ∧ t'.pos = s'.pos ∧ Stays s s'
  le : ∀ {s a s'}, Runs x c s a s' → s.pos ≤ s'.pos

structure Stationary (c : Context) (x : Gen α) : Prop where
  run : ∀ {s t a s'}, Stays s t → Runs x c s a s' →
    s'.pos = s.pos ∧ Stays s s' ∧ ∃ t', Runs x c t a t'

/-- From the token at `p` on, the step gives `a` and ends at the token at `q`. -/
def Leads (c : Context) (s : State) (x : Gen α) (p : Nat) (a : α) (q : Nat) : Prop :=
  ∃ t, Runs x c { s with pos := p } a t ∧ t.pos = q

/-- From the state `t`, the step gives `a` and ends at the token at `q`; the symbols and blocks are
those of `s`. -/
def Completes (c : Context) (s t : State) (x : Gen α) (a : α) (q : Nat) : Prop :=
  ∃ t', Runs x c t a t' ∧ t'.pos = q ∧ Stays s t'

lemma Completes.bind {β : Type} {f : α → Gen β} {b : β} (hx : Runs x c t a t')
    (hf : Completes c s t' (f a) b q) : Completes c s t (x >>= f) b q := by
  obtain ⟨u, h, hpos, hst⟩ := hf
  exact ⟨u, runs_bind.2 ⟨a, t', hx, h⟩, hpos, hst⟩

lemma Stays.symm (h : Stays s t) : Stays t s :=
  ⟨h.symbols.symm, h.blocks.symm, h.function?.symm⟩

lemma stays_pos : Stays s { s with pos := p } :=
  ⟨rfl, rfl, rfl⟩

namespace Portable

lemma stays (hx : Portable c x) (h : Stays s t) (hrun : Runs x c t a t') : Stays s t' := by
  obtain ⟨_, _, _, ht⟩ := hx.run .refl rfl hrun
  exact h.trans ht

lemma leads (hx : Portable c x) (h : Stays s t) (hrun : Runs x c t a t') :
    Leads c s x t.pos a t'.pos := by
  obtain ⟨s', hrun', hpos, _⟩ := hx.run (h.symm.trans stays_pos) rfl hrun
  exact ⟨s', hrun', hpos⟩

lemma completes (hx : Portable c x) (h : Stays s t) (hleads : Leads c s x t.pos a q) :
    Completes c s t x a q := by
  obtain ⟨s', hrun, rfl⟩ := hleads
  obtain ⟨t', hrun', hpos, _⟩ := hx.run (stays_pos.symm.trans h) rfl hrun
  exact ⟨t', hrun', hpos, hx.stays h hrun'⟩

end Portable

lemma Stationary.completes (hx : Stationary c x) (h : Stays s t) (hrun : Runs x c s a s') :
    Completes c s t x a t.pos := by
  obtain ⟨_, _, t', hrun'⟩ := hx.run h hrun
  obtain ⟨hpos, hst, _⟩ := hx.run .refl hrun'
  exact ⟨t', hrun', hpos, h.trans hst⟩

abbrev Pair.loose (c : Context) (base : State) (size size' : Nat) : Pair :=
  ⟨c, c, base, False, False, size, size', False⟩

lemma alike_loose {P : Nat → Nat → Prop} (h : Stays s t) (hpos : P s.pos t.pos) :
    Alike (.loose c s s.script.size t.script.size) P s t :=
  ⟨hpos, .refl, h, Nat.add_comm .., False.elim, False.elim, False.elim⟩

lemma portable_of_agree (h : ∀ base size size' n, Agree (.loose c base size size')
    (fun p p' => p' = p ∧ n ≤ p') (Same fun p p' => p' = p ∧ n ≤ p') x x) : Portable c x := by
  refine ⟨fun {s t a s'} hst hpos hrun => ?_, fun {s a s'} hrun => ?_⟩
  · obtain ⟨_, t', hrun', ht⟩ := (h _ _ _ 0).run (alike_loose hst ⟨hpos, Nat.zero_le _⟩) hrun
    obtain ⟨rfl, hpos', _⟩ := ht.pos
    exact ⟨t', hrun', hpos', ht.left⟩
  · obtain ⟨_, t', _, ht⟩ := (h _ _ _ s.pos).run (alike_loose .refl ⟨rfl, le_rfl⟩) hrun
    obtain ⟨_, hpos, hle⟩ := ht.pos
    exact hpos ▸ hle

lemma stationary_of_agree (h : ∀ base size size' (P : Nat → Nat → Prop),
    Agree (.loose c base size size') P (Same P) x x) : Stationary c x := by
  refine ⟨fun {s t a s'} hst hrun => ?_⟩
  obtain ⟨_, t', hrun', ht⟩ := (h _ _ _ fun p _ => p = s.pos).run (alike_loose hst rfl) hrun
  obtain ⟨rfl, hpos⟩ := ht.pos
  exact ⟨hpos, ht.left, t', hrun'⟩

def partsOf (c : Context) : Parts :=
  compilePart (c.tokens.size + 1)

lemma runs_withParts {f : Parts → Gen α} :
    Runs (withParts f) c s a t ↔ Runs (f (partsOf c)) c s a t := by
  simp [withParts, partsOf, and_assoc]

abbrev still (c : Context) (base : State) (size size' : Nat) :
    Alignment (.loose c base size size') :=
  .refl _ rfl

lemma respects_partsOf {base : State} {size size' : Nat} :
    (still c base size size').Respects (partsOf c) (partsOf c) :=
  respects_compilePart le_rfl

lemma portable_operand {x : Gen Operand} (h : ∀ base size size' n,
    Agree (.loose c base size size') ((still c base size size').From () n)
      (With (Moved (still c base size size').Span) ((still c base size size').From () n)) x x) :
    Portable c x :=
  portable_of_agree fun base size size' n => (h base size size' n).behind
    fun hp => ⟨hp.1.eq_of_refl, hp.2⟩

section

variable {o : Operand} {id : FuncId} {owner : TypeId} {component : Component}
  {object : Option Place} {name : String}

lemma portable_whole : Portable c (partsOf c).whole :=
  portable_operand fun _ _ _ _ => respects_partsOf.upTo

lemma portable_compileCall : Portable c (compileCall (partsOf c) id object) :=
  portable_operand fun _ _ _ _ => agree_compileCall Alignment.suffixed_from respects_partsOf.loads

lemma portable_compileComponent :
    Portable c (compileComponent (partsOf c) owner component object name) :=
  portable_operand fun _ _ _ _ =>
    agree_compileComponent Alignment.suffixed_from respects_partsOf.loads

lemma stationary_loadToAx : Stationary c (loadToAx (partsOf c) o) :=
  stationary_of_agree fun _ _ _ _ => agree_loadToAx respects_partsOf.loads (moved_refl o)

end

end AdventureScript.Gen
