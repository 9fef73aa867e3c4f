import AdventureScript.Proofs.Grouping.Walk

/-!
A flat expression compiles like the same expression with parentheses around every operator.
-/
namespace AdventureScript.Gen

variable {c c' : Context} {s s' t t' : State} {o o' : Operand}

def SameTokens (t t' : Stream) (r r' : Stretch) : Prop :=
  ∃ lo lo' ts, Reads t lo ts ∧ Reads t' lo' ts ∧
    ∃ i ≤ ts.length, ∃ j ≤ ts.length, r = ⟨lo + i, lo + j⟩ ∧ r' = ⟨lo' + i, lo' + j⟩

lemma sameTokens_of_shared {k : Pair} {start : Nat} {r r' : Stretch} (h : Shared k start r r') :
    SameTokens k.c.tokens k.c'.tokens r r' := by
  obtain ⟨lo, lo', ts, hcopy, _, ⟨_, hwithin⟩, j, hj, hstop, hstop'⟩ := h
  obtain ⟨i, hi, hstart, hstart'⟩ := hcopy.alignment.shift_of_within hwithin
  exact ⟨lo, lo', ts, hcopy.reads, hcopy.reads', i, hi, j, hj, by rw [← hstart, ← hstop],
    by rw [← hstart', ← hstop']⟩

structure Alone (t : Stream) (p : Nat) (ts : List Token) : Prop where
  reads : Reads t p ts
  ends : NoSuffix t (p + ts.length)
  stops : Stops t ternaryPriority (p + ts.length)

lemma reads_drop {t : Stream} {p : Nat} : Reads t p (t.body.toList.drop p) := by
  by_cases hp : p < t.body.toList.length
  · rw [List.drop_eq_getElem_cons hp]
    have hget : t.get p = t.body.toList[p] := by
      simp only [Array.length_toList] at hp
      simp [Stream.get, hp]
    exact ⟨⟨by rw [hget], by rw [hget]⟩, reads_drop⟩
  · rw [List.drop_of_length_le (Nat.le_of_not_lt hp)]
    trivial
termination_by t.body.size - p
decreasing_by simp at hp; omega

lemma alone_body {t : Stream} (hs : t.Sealed) : Alone t 0 t.body.toList := by
  have hend : (t.get (0 + t.body.toList.length)).kind = .endOfInput := by
    simpa [Stream.get, Stream.Sealed] using hs
  refine ⟨by simpa using reads_drop (p := 0), noSuffix_of_kind hend (by simp), ?_, ?_⟩
  · rw [hend]
    rfl
  · rw [hend]
    rfl

lemma Alone.delimited {p : Nat} {e : Tree} (h : Alone c.tokens p e.tokens)
    (hgrouped : e.WellGrouped c.options.leftToRight) : Delimited c p e :=
  ⟨⟨h.reads, h.ends⟩, hgrouped, h.stops.mono (le_trans e.reach_le_level e.level_le)⟩

lemma runs_expression_similar {e e' : Tree} (h : Tree.Similar e e')
    (hoptions : c'.options = c.options) (hs : c.tokens.Sealed) (hs' : c'.tokens.Sealed)
    (hgrouped : e.WellGrouped c.options.leftToRight)
    (hgrouped' : e'.WellGrouped c.options.leftToRight) (he : Alone c.tokens s.pos e.tokens)
    (he' : Alone c'.tokens t.pos e'.tokens) (ht : t = { s with pos := t.pos })
    (hrun : Runs expression c s o s') :
    (∃ o', Runs expression c' t o' { s' with pos := t.pos + e'.tokens.length } ∧
      Moved (SameTokens c.tokens c'.tokens) o o' ∧ s'.pos = s.pos + e.tokens.length) ∨
    Stuck c.tokens s.pos (s.pos + e.tokens.length) s'.pos := by
  rw [← hoptions] at hgrouped'
  refine (Walks.whole (walks hs e) hs (he.delimited hgrouped) e.level_le he.stops le_rfl
    rfl (runs_expression.1 hrun)).imp_left fun heval => ?_
  obtain ⟨o', t', heval', hst⟩ := (agree_eval (k := ⟨c, c', s, True, True, 0, 0, True⟩) h hoptions hs hs'
    (he.delimited hgrouped).placed (he'.delimited hgrouped').placed le_rfl).run
    (s := s) (t := t) ⟨⟨rfl, rfl⟩, .refl, ht ▸ ⟨rfl, rfl, rfl⟩, ht ▸ rfl, fun _ => by rw [ht],
      fun _ _ => by rw [ht], fun _ => by rw [ht]⟩ heval
  obtain ⟨ho, hpos, hpos'⟩ := hst.pos
  have hstate : t' = { s' with pos := t.pos + e'.tokens.length } := by
    rw [hst.rest trivial, hst.landed trivial trivial, hst.flag trivial, hpos']
  subst hstate
  refine ⟨o', runs_expression.2 ?_, ho.mono sameTokens_of_shared, hpos⟩
  exact Follows.whole (follows hs' e') hs' (he'.delimited hgrouped') e'.level_le he'.stops
    le_rfl rfl heval'

/-- Operators group what binds tighter, those of equal priority from the left or from the right as
the options say, and the conditional operator binds loosest and groups to the right: the expression
with parentheses around every operator leaves the same state and the same operand behind. A run that
does not get behind the last token has ended at the parenthesis of a call to something that is no
function. -/
theorem runs_expression_grouped (e : Flat) (hoptions : c'.options = c.options)
    (hs : c.tokens.Sealed) (hs' : c'.tokens.Sealed) (he : Alone c.tokens s.pos e.tokens)
    (he' : Alone c'.tokens t.pos (e.tree c.options.leftToRight).parenthesized.tokens)
    (ht : t = { s with pos := t.pos }) :
    let tree := e.tree c.options.leftToRight
    let stop := s.pos + e.tokens.length
    let stop' := t.pos + tree.parenthesized.tokens.length
    tree.WellGrouped c.options.leftToRight ∧ tree.tokens = e.tokens ∧
    (∀ {o s'}, Runs expression c s o s' →
      (∃ o', Runs expression c' t o' { s' with pos := stop' } ∧
        Moved (SameTokens c.tokens c'.tokens) o o' ∧ s'.pos = stop) ∨
      Stuck c.tokens s.pos stop s'.pos) ∧
    ∀ {o' t'}, Runs expression c' t o' t' →
      (∃ o, Runs expression c s o { t' with pos := stop } ∧
        Moved (SameTokens c'.tokens c.tokens) o' o ∧ t'.pos = stop') ∨
      Stuck c'.tokens t.pos stop' t'.pos := by
  rw [← e.tokens_tree] at he ⊢
  refine ⟨e.wellGrouped_tree, rfl, ?_, ?_⟩
  · exact fun hrun => runs_expression_similar (Tree.similar_parenthesized _) hoptions hs hs'
      e.wellGrouped_tree (Tree.wellGrouped_parenthesized _) he he' ht hrun
  · exact fun hrun => runs_expression_similar (Tree.similar_parenthesized _).symm hoptions.symm
      hs' hs (Tree.wellGrouped_parenthesized _) (hoptions ▸ e.wellGrouped_tree) he' he
      (by rw [ht]) hrun

theorem runs_expression_grouped_texts :
    let text (byte : UInt8) : Leaf := ⟨[⟨.string [byte], "", .point 0 0, 0⟩], .literal (.inl rfl)⟩
    let e : Flat := .sequence (text 97) [(.eq, text 98), (.and, text 99), (.eq, text 100)]
    let tokens := (e.tree false).parenthesized.tokens
    let c : Context := ⟨.ofTokens e.tokens.toArray #[], {}⟩
    let c' : Context := ⟨.ofTokens tokens.toArray #[], {}⟩
    e.tokens.length = 7 ∧ tokens.length = 13 ∧ ∃ o o' s', Runs expression c {} o s' ∧
      s'.script.code.size = 44 ∧ s'.pos = 7 ∧ Runs expression c' {} o' { s' with pos := 13 } := by
  intro text e tokens c c'
  obtain ⟨o, s', hrun, hs'⟩ := exists_runs_of_any (x := expression) (c := c) (s := {})
    (p := fun _ s => s.script.code.size = 44 ∧ s.pos = 7) (by decide +kernel)
  obtain ⟨hsize, hpos⟩ := of_decide_eq_true hs'
  have he : Alone c.tokens 0 e.tokens := alone_body rfl
  have he' : Alone c'.tokens 0 tokens := alone_body rfl
  have hoptions : c'.options = c.options := rfl
  obtain ⟨_, _, hgroup, _⟩ :=
    runs_expression_grouped (s := {}) (t := {}) e hoptions rfl rfl he he' rfl
  rcases hgroup hrun with ⟨o', hrun', _⟩ | hstuck
  · exact ⟨rfl, rfl, o, o', s', hrun, hsize, hpos, hrun'⟩
  · have hlt : s'.pos < 7 := hstuck.2.1
    omega

end AdventureScript.Gen
