import AdventureScript.Proofs.Protection.Step

/-!
The links of chains. A link can be put to a chain exactly if what it selects is accessible, and what
must not be written is passed on to what it holds by value, from link to link.
-/
namespace AdventureScript.Chain
open Gen

variable {c : Context} {s t t' : State} {p q n n' : Nat} {owner : TypeId} {object : Option Place}
  {component : Component} {place : Place} {sel : Selection} {v v' : Value} {ty ty' : Ty} {l : Link}
  {links : List Link} {o o' : Operand} {symbols : Symbols}

lemma value_compileCall {id : FuncId} {parts : Parts}
    (h : Runs (compileCall parts id object) c t o t') : o.value = .ax := by
  simp only [compileCall, emitCall, runs_bind, runs_pure] at h
  grind [Operand.inAx]

lemma rootedValue_ax : RootedValue symbols .ax :=
  fun _ h => nomatch h

lemma Picks.rooted (h : Picks c s owner object p component sel v ty q)
    (hobject : ∀ place ∈ object, Rooted s.symbols place) : RootedValue s.symbols v := by
  cases h with
  | @field f place hplace =>
    rintro _ ⟨⟩
    exact hobject place hplace
  | «attribute» => exact fun _ h => nomatch h
  | indexed => exact fun _ h => nomatch h
  | function _ _ _ hcall =>
    obtain ⟨u, hu, _⟩ := hcall
    rw [value_compileCall (runs_withParts.1 hu)]
    exact rootedValue_ax

lemma rooted_pointee : Rooted symbols (pointee v) := by
  cases v <;> exact fun _ h => nomatch h

lemma rooted_mar : Rooted symbols ⟨.mar, 0⟩ :=
  fun _ h => nomatch h

lemma Selects.rooted (h : Selects c s v ty p l v' ty' q) (hroot : RootedValue s.symbols v) :
    RootedValue s.symbols v' := by
  cases h with
  | member _ _ _ _ hplace _ hpicks =>
    refine hpicks.rooted ?_
    rintro _ ⟨⟩
    unfold ObjectAt at hplace
    split at hplace
    · obtain ⟨_, rfl⟩ := hplace
      exact rooted_pointee
    · exact hroot _ hplace
  | @static dims dim place i? q _ _ _ hplace =>
    rintro _ ⟨⟩
    cases i? with
    | none => exact rooted_mar
    | some i => exact hroot place hplace
  | dynamic =>
    rintro _ ⟨⟩
    exact rooted_mar

lemma Picks.le (h : Picks c s owner object p component sel v ty q) : p ≤ q := by
  cases h with
  | field | «attribute» => exact le_refl p
  | indexed _ _ _ hq =>
    have := @Stream.le_findAtDepthZero c.tokens (p + 1) (· = .symbol .rightBracket)
    omega
  | function _ _ _ hcall =>
    obtain ⟨u, hu, rfl⟩ := hcall
    exact portable_compileCall.le (runs_withParts.1 hu)

lemma IndexAt.le {fits : Int32 → Prop} {i? : Option Int32} (h : IndexAt c s fits p i? q) : p ≤ q := by
  obtain ⟨_, _, ⟨u, hu, rfl⟩, _⟩ := h
  exact portable_whole.le (runs_withParts.1 hu)

lemma Selects.lt (h : Selects c s v ty p l v' ty' q) : p < q := by
  cases h with
  | member _ _ _ _ _ _ hpicks =>
    have := hpicks.le
    omega
  | static _ _ _ _ hindex =>
    have := hindex.le
    omega
  | dynamic _ _ _ hindex =>
    have := hindex.le
    omega

/-! ## One link -/

def chainRound (parts : Parts) : Operand × Nat → Gen (Round (Operand × Nat) Operand) :=
  fun (o, indices) => do
    if ← eat .dot then
      return .again (← compileMember parts o, 0)
    else if ← check .leftBracket then
      return .again (← compileIndex parts o (indices + 1), indices + 1)
    else
      return .done o

lemma stands_objectPlace (name : String) (hst : Stays s t) (hroot : RootedValue s.symbols o.value)
    (hplace : ObjectAt c s o.value o.ty place) :
    Stands c t (objectPlace (partsOf c) o name) place := by
  unfold ObjectAt at hplace
  unfold objectPlace
  split at hplace
  · next hpointer =>
    obtain ⟨hfollow, rfl⟩ := hplace
    rw [if_pos hpointer]
    exact stands_dereference hst hroot hfollow
  · next hpointer =>
    rw [if_neg hpointer, hplace]
    exact .pure

lemma runs_objectPlace {name : String} (hst : Stays s t) (hroot : RootedValue s.symbols o.value)
    (h : Runs (objectPlace (partsOf c) o name) c t place t') :
    ObjectAt c s o.value o.ty place ∧ t'.pos = t.pos ∧ Stays s t' := by
  unfold objectPlace at h
  split at h
  · next hpointer =>
    have hfollow := canFollow_of_runs hst h
    obtain ⟨rfl, hpos, hst'⟩ := (stands_dereference hst hroot hfollow).runs h
    exact ⟨by simp [ObjectAt, hpointer, hfollow], hpos, hst.trans hst'⟩
  · next hpointer =>
    split at h
    · next place' hvalue =>
      obtain ⟨rfl, rfl⟩ := runs_pure.1 h
      exact ⟨by simp [ObjectAt, hpointer, hvalue], rfl, hst⟩
    · exact absurd h runs_fail

lemma completes_round_member (hdot : (c.tokens.get t.pos).kind = .symbol .dot)
    (h : Completes c s { t with pos := t.pos + 1 } (compileMember (partsOf c) o) o' q) :
    Completes c s t (chainRound (partsOf c) (o, n)) (.again (o', 0)) q := by
  obtain ⟨t', h, hpos, hst⟩ := h
  rw [← Alignment.after_of_symbol hdot] at h
  exact .bind (runs_eat.2 (.inl ⟨hdot, rfl, rfl⟩)) (.bind h (Stands.pure.completes hst hpos))

lemma completes_round_index (hopen : (c.tokens.get t.pos).kind = .symbol .leftBracket)
    (h : Completes c s t (compileIndex (partsOf c) o (n + 1)) o' q) :
    Completes c s t (chainRound (partsOf c) (o, n)) (.again (o', n + 1)) q := by
  obtain ⟨t', h, hpos, hst⟩ := h
  refine .bind (runs_eat.2 (.inr ⟨by simp [hopen], rfl, rfl⟩)) (.bind (runs_check.2 ⟨rfl, rfl⟩) ?_)
  simp only [hopen, decide_true, if_true]
  exact .bind h (Stands.pure.completes hst hpos)

lemma completes_compileMember {id : TypeId} (hst : Stays s t)
    (hfunction : ∀ id ∈ s.function?, id.index < s.symbols.functions.size)
    (hroot : RootedValue s.symbols o.value) (hname : (c.tokens.get t.pos).kind = .identifier)
    (hscalar : o.ty.isScalar = true) (hid : o.ty.structId? = some id)
    (hplace : ObjectAt c s o.value o.ty place)
    (hcomponent : s.symbols.types.findComponent? id (c.tokens.get t.pos).lexeme =
      some (owner, component))
    (hpicks : Picks c s owner (some place) (t.pos + 1) component sel v' ty' q)
    (hbarred : sel.barred s.inside = false) :
    ∃ fault, Completes c s t (compileMember (partsOf c) o) ⟨v', ty', fault⟩ q ∧
      fault.isSome = Link.frozen s.inside o.writeFault.isSome ⟨o.ty.pointer, sel⟩ := by
  have hnext : c.tokens.after t.pos = t.pos + 1 := Stream.after_of_ne (by simp [hname])
  have hst1 : Stays s { t with pos := c.tokens.after t.pos } := hst.trans stays_pos
  obtain ⟨t2, h2, hpos2, hst2⟩ :=
    stands_objectPlace (c.tokens.get t.pos).lexeme hst1 hroot hplace
  replace hst2 := hst1.trans hst2
  rw [← hnext, ← show t2.pos = c.tokens.after t.pos from hpos2] at hpicks
  obtain ⟨fault, ⟨t3, h3, hpos3, hst3⟩, hfault⟩ :=
    hpicks.completes (c.tokens.get t.pos).lexeme hst2 hfunction hbarred
  refine ⟨fault.or (if o.ty.pointer then none else o.writeFault), ?_, ?_⟩
  · refine .bind (runs_expectIdentifier.2 ⟨hname, rfl, rfl⟩) (.bind (runs_textOf.2 ⟨rfl, rfl⟩)
      (.bind (a := id) (runs_orFail.2 ⟨rfl, ?_⟩) (.bind h2 (.bind (a := (owner, component))
        (runs_findComponent.2 ⟨rfl, ?_⟩) ?_))))
    · simp [hid, hscalar]
    · rw [hst2.symbols]
      exact hcomponent
    · exact .bind h3 ⟨t3, runs_pure.2 ⟨rfl, rfl⟩, hpos3, hst3⟩
  · simp only [Link.frozen, ← hfault]
    cases o.ty.pointer <;> cases fault <;> simp

lemma Selects.completes (h : Selects c s o.value o.ty t.pos l v' ty' q) (hst : Stays s t)
    (hfunction : ∀ id ∈ s.function?, id.index < s.symbols.functions.size)
    (hroot : RootedValue s.symbols o.value) (hbarred : l.selection.barred s.inside = false) :
    ∃ fault n', Completes c s t (chainRound (partsOf c) (o, n)) (.again (⟨v', ty', fault⟩, n')) q ∧
      fault.isSome = l.frozen s.inside o.writeFault.isSome := by
  cases h with
  | @member id owner component place sel v' ty' q hdot hname hscalar hid hplace hcomponent hpicks =>
    obtain ⟨fault, hcompletes, hfault⟩ := completes_compileMember (hst.trans (stays_pos (p := t.pos + 1)))
      hfunction hroot hname hscalar hid hplace hcomponent hpicks hbarred
    exact ⟨fault, 0, completes_round_member hdot hcompletes, hfault⟩
  | @static dims dim place i? q hopen hshape hdim hplace hindex =>
    refine ⟨o.writeFault, n + 1, completes_round_index hopen ?_, by simp [Link.frozen, Selection.frozen]⟩
    obtain ⟨t1, h1, hpos1, hst1⟩ := completes_indexStatic hst hopen (hroot place hplace) hindex
    simp only [compileIndex, hshape, hplace]
    refine .bind (runs_orFail.2 ⟨rfl, hdim⟩) (.bind (runs_getTypes.2 ⟨rfl, rfl⟩) (.bind ?_
      (Stands.pure.completes hst1 hpos1)))
    rw [hst.symbols]
    exact h1
  | @dynamic i? q hopen hshape hfollow hindex =>
    refine ⟨none, n + 1, completes_round_index hopen ?_, rfl⟩
    obtain ⟨t1, h1, hpos1, hst1⟩ := stands_dereference hst hroot hfollow
    replace hst1 := hst.trans hst1
    rw [← hpos1] at hopen hindex
    have helement : Completes c s t1 (indexDynamic (partsOf c)
        (o.ty.element.size t.symbols.types).toInt32 (n + 1)) ⟨.mar, 0⟩ (q + 1) :=
      completes_indexDynamic hst1 hopen hindex
    obtain ⟨t2, h2, hpos2, hst2⟩ := helement
    simp only [compileIndex, hshape]
    exact .bind (runs_getTypes.2 ⟨rfl, rfl⟩) (.bind h1 (.bind h2 (Stands.pure.completes hst2 hpos2)))

lemma runs_round {round : Round (Operand × Nat) Operand}
    (h : Runs (chainRound (partsOf c) (o, n)) c t round t') :
    ((c.tokens.get t.pos).kind = .symbol .dot ∧
      ∃ o', Runs (compileMember (partsOf c) o) c { t with pos := t.pos + 1 } o' t' ∧
        round = .again (o', 0)) ∨
    ((c.tokens.get t.pos).kind = .symbol .leftBracket ∧
      ∃ o', Runs (compileIndex (partsOf c) o (n + 1)) c t o' t' ∧ round = .again (o', n + 1)) ∨
    (c.tokens.get t.pos).kind ≠ .symbol .dot ∧
      (c.tokens.get t.pos).kind ≠ .symbol .leftBracket ∧ t' = t ∧ round = .done o := by
  obtain ⟨b, t1, h1, h⟩ := runs_bind.1 h
  rcases runs_eat.1 h1 with ⟨hdot, rfl, rfl⟩ | ⟨hdot, rfl, rfl⟩
  · obtain ⟨o', t2, h2, h⟩ := runs_bind.1 h
    obtain ⟨rfl, rfl⟩ := runs_pure.1 h
    rw [Alignment.after_of_symbol hdot] at h2
    exact .inl ⟨hdot, o', h2, rfl⟩
  · obtain ⟨b, _, h2, h⟩ := runs_bind.1 h
    obtain ⟨rfl, rfl⟩ := runs_check.1 h2
    split at h
    · next hopen =>
      obtain ⟨o', t2, h2, h⟩ := runs_bind.1 h
      obtain ⟨rfl, rfl⟩ := runs_pure.1 h
      exact .inr (.inl ⟨by simpa using hopen, o', h2, rfl⟩)
    · next hopen =>
      obtain ⟨rfl, rfl⟩ := runs_pure.1 h
      exact .inr (.inr ⟨hdot, by simpa using hopen, rfl, rfl⟩)

/-- One link leads from the operand `o` to `o'`. -/
abbrev Follows (c : Context) (s : State) (o : Operand) (t : State) (o' : Operand) (t' : State) : Prop :=
  ∃ l, Selects c s o.value o.ty t.pos l o'.value o'.ty t'.pos ∧ l.selection.barred s.inside = false ∧
    o'.writeFault.isSome = l.frozen s.inside o.writeFault.isSome ∧ Stays s t'

variable (hst : Stays s t) (hroot : RootedValue s.symbols o.value)
include hst hroot

lemma follows_compileMember (hdot : (c.tokens.get t.pos).kind = .symbol .dot)
    (h : Runs (compileMember (partsOf c) o) c { t with pos := t.pos + 1 } o' t') :
    Follows c s o t o' t' := by
  simp [compileMember, and_assoc] at h
  obtain ⟨hname, id, hid, hscalar, place, t1, h1, owner, component, hcomponent, selected, h2, rfl⟩ := h
  obtain ⟨hplace, hpos, hst1⟩ := runs_objectPlace (hst.trans stays_pos) hroot h1
  obtain ⟨sel, hpicks, hbarred, hfault⟩ := exists_picks hst1 h2
  rw [hpos.trans (Stream.after_of_ne (by simp [hname]))] at hpicks
  rw [hst1.symbols] at hcomponent
  refine ⟨_, .member hdot hname hscalar hid hplace hcomponent hpicks, hbarred, ?_,
    portable_compileComponent.stays hst1 h2⟩
  simp only [Link.frozen, ← hfault]
  cases o.ty.pointer <;> cases selected.writeFault <;> simp

lemma follows_compileIndex (hopen : (c.tokens.get t.pos).kind = .symbol .leftBracket)
    (h : Runs (compileIndex (partsOf c) o n) c t o' t') : Follows c s o t o' t' := by
  unfold compileIndex at h
  split at h
  · next dims place hshape hvalue =>
    simp only [runs_bind, runs_orFail, runs_getTypes, runs_pure] at h
    obtain ⟨dim, _, ⟨rfl, hdim⟩, _, _, ⟨rfl, rfl⟩, place', t1, h1, rfl, rfl⟩ := h
    obtain ⟨i?, q, hindex, hpos, rfl, hst'⟩ := runs_indexStatic hst hopen (hroot place hvalue) h1
    rw [Follows, hpos, hst.symbols]
    exact ⟨_, .static hopen hshape hdim hvalue hindex, rfl,
      by simp [Link.frozen, Selection.frozen, Operand.memory], hst'⟩
  · exact absurd h runs_fail
  · next hshape =>
    simp only [runs_bind, runs_getTypes, runs_pure] at h
    obtain ⟨_, _, ⟨rfl, rfl⟩, place, t1, h1, place', t2, h2, rfl, rfl⟩ := h
    have hfollow := canFollow_of_runs hst h1
    obtain ⟨rfl, hpos1, hst1⟩ := (stands_dereference hst hroot hfollow).runs h1
    obtain ⟨i?, q, hindex, hpos, rfl, hst'⟩ :=
      runs_indexDynamic (hst.trans hst1) (hpos1 ▸ hopen) h2
    rw [Follows, hpos]
    exact ⟨_, .dynamic hopen hshape hfollow (hpos1 ▸ hindex), rfl, rfl, hst'⟩
  · simp at h

lemma follows_round (hrun : Runs (chainRound (partsOf c) (o, n)) c t (.again (o', n')) t') :
    Follows c s o t o' t' := by
  rcases runs_round hrun with ⟨hdot, _, h, heq⟩ | ⟨hopen, _, h, heq⟩ | ⟨_, _, _, heq⟩
  · cases heq
    exact follows_compileMember hst hroot hdot h
  · cases heq
    exact follows_compileIndex hst hroot hopen h
  · cases heq

omit hst hroot in
lemma runs_round_done (hdot : (c.tokens.get t.pos).kind ≠ .symbol .dot)
    (hbracket : (c.tokens.get t.pos).kind ≠ .symbol .leftBracket) :
    Runs (chainRound (partsOf c) (o, n)) c t (.done o) t := by
  refine runs_bind.2 ⟨false, t, runs_eat.2 (.inr ⟨hdot, rfl, rfl⟩), ?_⟩
  refine runs_bind.2 ⟨false, t, runs_check.2 ⟨rfl, by simp [hbracket]⟩, ?_⟩
  exact runs_pure.2 ⟨rfl, rfl⟩

omit hst hroot in
lemma Selects.lt_size (h : Selects c s v ty p l v' ty' q) (hsealed : c.tokens.Sealed) :
    p + 1 < c.tokens.size := by
  have hkind : (c.tokens.get p).kind ≠ .endOfInput := by
    rcases h.opens with hdot | hopen <;> simp [*]
  have := hsealed.lt_size hkind
  simp only [Stream.size]
  omega

omit hst hroot in
lemma Extends.completes (h : Extends c s v ty p links v' ty' q) (limit : Nat)
    (hsealed : c.tokens.Sealed)
    (hfunction : ∀ id ∈ s.function?, id.index < s.symbols.functions.size)
    (hbarred : ∀ l ∈ links, l.selection.barred s.inside = false) (hlimit : 0 < limit)
    (hsize : c.tokens.size < limit + p) (hst : Stays s t) (hpos : t.pos = p)
    (hvalue : o.value = v) (hty : o.ty = ty) (hroot : RootedValue s.symbols v) :
    ∃ fault, Completes c s t (roundsWithin (chainRound (partsOf c)) limit (o, n)) ⟨v', ty', fault⟩ q ∧
      fault.isSome = links.foldl (Link.frozen s.inside) o.writeFault.isSome := by
  induction h generalizing t o n limit with
  | nil hdot hbracket =>
    obtain ⟨limit, rfl⟩ := Nat.exists_eq_add_one_of_ne_zero (Nat.ne_of_gt hlimit)
    subst hpos hvalue hty
    exact ⟨o.writeFault, .bind (runs_round_done hdot hbracket) (Stands.pure.completes hst rfl), rfl⟩
  | cons hlink _ ih =>
    obtain ⟨limit, rfl⟩ := Nat.exists_eq_add_one_of_ne_zero (Nat.ne_of_gt hlimit)
    subst hpos hvalue hty
    obtain ⟨hl, hbarred⟩ := List.forall_mem_cons.1 hbarred
    obtain ⟨fault, n', ⟨t1, h1, hpos1, hst1⟩, hfault⟩ := hlink.completes (n := n) hst hfunction hroot hl
    have hlt := hlink.lt
    have hlast := hlink.lt_size hsealed
    obtain ⟨fault', hcompletes, hfault'⟩ := ih (o := ⟨_, _, fault⟩) (n := n') limit hbarred
      (by omega) (by omega) hst1 hpos1 rfl rfl (hlink.rooted hroot)
    exact ⟨fault', .bind h1 hcompletes, by rw [hfault', List.foldl_cons, hfault]⟩

lemma exists_extends {limit : Nat}
    (h : Runs (roundsWithin (chainRound (partsOf c)) limit (o, n)) c t o' t') :
    ∃ links, Extends c s o.value o.ty t.pos links o'.value o'.ty t'.pos ∧
      (∀ l ∈ links, l.selection.barred s.inside = false) ∧
      o'.writeFault.isSome = links.foldl (Link.frozen s.inside) o.writeFault.isSome := by
  induction limit generalizing t o n with
  | zero => exact absurd h runs_fail
  | succ limit ih =>
    obtain ⟨round, t1, h1, h⟩ := runs_bind.1 h
    cases round with
    | again next =>
      obtain ⟨l, hlink, hl, hfault, hst1⟩ := follows_round hst hroot h1
      obtain ⟨links, hlinks, hbarred, hfault'⟩ := ih hst1 (hlink.rooted hroot) h
      refine ⟨l :: links, .cons hlink hlinks, List.forall_mem_cons.2 ⟨hl, hbarred⟩, ?_⟩
      rw [hfault', List.foldl_cons, hfault]
    | done result =>
      obtain ⟨rfl, rfl⟩ := runs_pure.1 h
      rcases runs_round h1 with ⟨_, _, _, heq⟩ | ⟨_, _, _, heq⟩ | ⟨hdot, hbracket, rfl, heq⟩
      · cases heq
      · cases heq
      · cases heq
        exact ⟨[], .nil hdot hbracket, by simp, rfl⟩

end AdventureScript.Chain
