import AdventureScript.Proofs.Protection.Links

/-!
Targets of assignments. A chain can be assigned to exactly if all that it selects is accessible, and
nothing behind the last handle that it follows must not be written.
-/
namespace AdventureScript.Chain
open Gen

variable {c : Context} {s t t' : State} {p q stop : Nat} {sel : Selection} {v : Value} {ty : Ty}
  {chain : List Link} {links : List Link} {o : Operand} {m : Meaning} {name : String}

/-! ## Names -/

lemma runs_compileName : Runs (compileName (partsOf c)) c s o t ↔
    (c.tokens.get s.pos).kind = .identifier ∧
      ((∃ v, IsLocal c s v ∧ Runs (compileLocal v) c { s with pos := s.pos + 1 } o t) ∨
        (∀ v, ¬IsLocal c s v) ∧ (∀ id ∈ s.function?, id.index < s.symbols.functions.size) ∧
          match s.struct?.bind (s.symbols.types.findComponent? · (c.tokens.get s.pos).lexeme) with
          | some (owner, component) =>
            Runs (compileComponent (partsOf c) owner component
              (if s.hasThis then some ⟨.this, 0⟩ else none) (c.tokens.get s.pos).lexeme)
              c { s with pos := s.pos + 1 } o t
          | none => Runs (compileMeaning (partsOf c) (c.tokens.get s.pos).lexeme)
              c { s with pos := s.pos + 1 } o t) := by
  by_cases hname : (c.tokens.get s.pos).kind = .identifier
  · have hnext : c.tokens.after s.pos = s.pos + 1 := Stream.after_of_ne (by simp [hname])
    simp only [compileName, runs_bind, runs_expectIdentifier, hname, true_and, and_assoc,
      exists_eq_left, runs_check, runs_get, hnext]
    split
    · next v hv hcall =>
      have hlocal : IsLocal c s v := ⟨hv, by simpa using hcall⟩
      have hunique {v' : Variable} (h : IsLocal c s v') : v' = v :=
        Option.some.inj (h.1.symm.trans hv)
      constructor
      · exact fun h => .inl ⟨v, hlocal, h⟩
      · rintro (⟨v', hv', h⟩ | ⟨hnone, _⟩)
        · exact hunique hv' ▸ h
        · exact absurd hlocal (hnone v)
    · next hlocal =>
      have hnone (v : Variable) : ¬IsLocal c s v := fun h => hlocal v h.1 (by simpa using h.2)
      simp only [hnone, false_and, exists_false, false_or, not_false_eq_true, implies_true, true_and,
        runs_bind, runs_getTypes, runs_currentStruct?, and_assoc, exists_eq_left]
      refine and_congr_right fun hfunction => ?_
      unfold State.struct?
      split
      · next owner component heq =>
        simp only [heq, runs_bind, runs_hasThis, and_assoc, exists_eq_left]
        exact and_iff_right hfunction
      · next heq => simp only [heq]
  · simp [compileName, hname]

lemma isSome_variableWriteFault {readOnly : Bool} :
    (variableWriteFault readOnly name).isSome = readOnly := by
  cases readOnly <;> rfl

lemma stands_compileLocal {v : Variable} :
    Stands c t (compileLocal v) ⟨.stored (.memory
        ⟨if v.isParam && v.ty.isOldString then .mar else .local v.offset, 0⟩), v.ty,
      variableWriteFault v.readOnly v.name⟩ := by
  unfold compileLocal
  split
  · exact stands_loadLocal.then <| stands_emit.then .pure
  · exact .pure

lemma runs_compileMeaning : t.symbols.find? name = some m →
    (Runs (compileMeaning (partsOf c) name) c t o t' ↔
      match m with
      | .variable id => ∃ v, t.symbols.globals[id.index]? = some v ∧ t' = t ∧
        o = match v.value?.filter fun _ => v.readOnly with
          | some value => .constant value v.ty
          | none => .memory ⟨if v.isImport then .imported id else .global v.offset, 0⟩ v.ty
              (variableWriteFault v.readOnly v.name)
      | .constant value enum => t' = t ∧ o = .constant (.int value) { base := .enum enum }
      | .function id => (c.tokens.get t.pos).kind = .symbol .leftParen ∧
        Runs (compileCall (partsOf c) id none) c t o t'
      | .type id => (c.tokens.get t.pos).kind = .symbol .dot ∧
        (c.tokens.get (t.pos + 1)).kind = .identifier ∧ ∃ owner component,
          t.symbols.types.findComponent? id (c.tokens.get (t.pos + 1)).lexeme =
            some (owner, component) ∧
          Runs (compileComponent (partsOf c) owner component none
            (c.tokens.get (t.pos + 1)).lexeme) c { t with pos := t.pos + 2 } o t') := by
  intro hm
  simp only [compileMeaning, runs_bind, runs_getSymbols, and_assoc, exists_eq_left, hm]
  cases m with
  | «variable» id =>
    simp only [compileGlobal, runs_bind, runs_globalAt, and_assoc, exists_eq_left]
    refine exists_congr fun v => and_congr_right fun _ => ?_
    split
    · next heq => simp only [heq, runs_pure]
    · next heq => simp only [heq, runs_pure]
  | constant value enum => simp only [runs_pure]
  | function id =>
    by_cases hopen : (c.tokens.get t.pos).kind = .symbol .leftParen
    · simp [hopen]
    · simp [hopen]
  | type id =>
    by_cases hdot : (c.tokens.get t.pos).kind = .symbol .dot
    · have hnext : c.tokens.after t.pos = t.pos + 1 := Alignment.after_of_symbol hdot
      by_cases hname : (c.tokens.get (t.pos + 1)).kind = .identifier
      · have hlast : c.tokens.after (t.pos + 1) = t.pos + 2 := Stream.after_of_ne (by simp [hname])
        simp [compileStatic, hdot, hnext, hname, hlast]
      · simp [compileStatic, hdot, hnext, hname]
    · simp [compileStatic, hdot]

/-! ## Starts of chains -/

def chainStart (parts : Parts) : Gen Operand := do
  if ← checkWord .kwThis then compileThis else compileName parts

lemma runs_compileAccess : Runs (compileAccess (partsOf c)) c s o t ↔
    ∃ start t1, Runs (chainStart (partsOf c)) c s start t1 ∧
      Runs (compileChain (partsOf c) start) c t1 o t := by
  simp only [compileAccess, chainStart, runs_bind, runs_checkWord, and_assoc, exists_eq_left]
  split <;> simp only [runs_bind]

lemma runs_compileThis (hthis : (c.tokens.get s.pos).kind = .keyword .kwThis) :
    Runs compileThis c s o t ↔
      (∀ id ∈ s.function?, id.index < s.symbols.functions.size) ∧ s.hasThis = true ∧
        t = { s with pos := s.pos + 1 } ∧
          ∃ id, s.struct? = some id ∧ o = ⟨.this, .pointerTo id, some .writeToThis⟩ := by
  have hnext : c.tokens.after s.pos = s.pos + 1 := Stream.after_of_ne (by simp [hthis])
  simp [compileThis, hnext, and_assoc, State.hasThis, State.struct?]
  tauto

lemma runs_chainStart : Runs (chainStart (partsOf c)) c s o t ↔
    if (c.tokens.get s.pos).kind = .keyword .kwThis then Runs compileThis c s o t
    else Runs (compileName (partsOf c)) c s o t := by
  simp only [chainStart, runs_bind, runs_checkWord, and_assoc, exists_eq_left, decide_eq_true_eq]
  split <;> rfl

lemma Denotes.completes (h : Denotes c s m sel v ty q)
    (hm : s.symbols.find? (c.tokens.get s.pos).lexeme = some m)
    (hfunction : ∀ id ∈ s.function?, id.index < s.symbols.functions.size)
    (hbarred : sel.barred s.inside = false) :
    ∃ fault, Completes c s { s with pos := s.pos + 1 }
        (compileMeaning (partsOf c) (c.tokens.get s.pos).lexeme) ⟨v, ty, fault⟩ q ∧
      ((∀ value, v ≠ .const value) → fault.isSome = sel.frozen s.inside) := by
  have hruns {o : Operand} {t : State} : Runs (compileMeaning (partsOf c)
      (c.tokens.get s.pos).lexeme) c { s with pos := s.pos + 1 } o t ↔ _ :=
    runs_compileMeaning (t := { s with pos := s.pos + 1 }) hm
  cases h with
  | @global id v hv hvalue =>
    have hnone : v.value?.filter (fun _ => v.readOnly) = none := by
      rcases hvalue with hvalue | hvalue <;> simp [hvalue]
    refine ⟨variableWriteFault v.readOnly v.name, ⟨_, hruns.2 ⟨v, hv, rfl, ?_⟩, rfl, stays_pos⟩,
      fun _ => isSome_variableWriteFault⟩
    rw [hnone]
    rfl
  | @known id v value hv hvalue hread =>
    refine ⟨none, ⟨_, hruns.2 ⟨v, hv, rfl, ?_⟩, rfl, stays_pos⟩, fun h => absurd rfl (h value)⟩
    rw [hvalue, Option.filter_some, if_pos hread]
    rfl
  | @constant value enum =>
    exact ⟨none, ⟨_, hruns.2 ⟨rfl, rfl⟩, rfl, stays_pos⟩, fun _ => rfl⟩
  | @function id o q hopen hcall =>
    obtain ⟨u, hu, hpos⟩ := hcall
    rw [runs_withParts] at hu
    refine ⟨o.writeFault, ⟨u, hruns.2 ⟨hopen, hu⟩, hpos, portable_compileCall.stays stays_pos hu⟩,
      fun _ => ?_⟩
    rw [writeFault_compileCall hu]
    rfl
  | @static id owner component sel v ty q hdot hmember hcomponent hpicks =>
    obtain ⟨fault, ⟨t, h, hpos, hst⟩, hfault⟩ :=
      hpicks.completes (t := { s with pos := s.pos + 3 }) (c.tokens.get (s.pos + 2)).lexeme stays_pos
        hfunction hbarred
    exact ⟨fault, ⟨t, hruns.2 ⟨hdot, hmember, owner, component, hcomponent, h⟩, hpos, hst⟩,
      fun _ => hfault⟩

lemma exists_denotes (h : Runs (compileMeaning (partsOf c) (c.tokens.get s.pos).lexeme) c
    { s with pos := s.pos + 1 } o t) :
    ∃ m sel, s.symbols.find? (c.tokens.get s.pos).lexeme = some m ∧
      Denotes c s m sel o.value o.ty t.pos ∧ sel.barred s.inside = false ∧
      ((∀ value, o.value ≠ .const value) → o.writeFault.isSome = sel.frozen s.inside) ∧
      Stays s t := by
  cases hm : s.symbols.find? (c.tokens.get s.pos).lexeme with
  | none => simp [compileMeaning, hm] at h
  | some m =>
    rw [runs_compileMeaning (t := { s with pos := s.pos + 1 }) hm] at h
    cases m with
    | «variable» id =>
      obtain ⟨v, hv, rfl, rfl⟩ := h
      cases hvalue : v.value?.filter fun _ => v.readOnly with
      | some value =>
        rw [Option.filter_eq_some_iff] at hvalue
        exact ⟨_, _, rfl, .known hv hvalue.1 hvalue.2, rfl, fun h => absurd rfl (h value), stays_pos⟩
      | none =>
        refine ⟨_, _, rfl, .global hv ?_, rfl, fun _ => isSome_variableWriteFault, stays_pos⟩
        cases hknown : v.value? with
        | none => exact .inl rfl
        | some value => exact .inr (by simpa [hknown] using hvalue)
    | constant value enum =>
      obtain ⟨rfl, rfl⟩ := h
      exact ⟨_, _, rfl, .constant, rfl, fun _ => rfl, stays_pos⟩
    | function id =>
      obtain ⟨hopen, h⟩ := h
      obtain ⟨u, hu, hpos⟩ := portable_compileCall.leads stays_pos h
      refine ⟨_, _, rfl, .function hopen ⟨u, runs_withParts.2 hu, hpos⟩, rfl, fun _ => ?_,
        portable_compileCall.stays stays_pos h⟩
      rw [writeFault_compileCall h]
      rfl
    | type id =>
      obtain ⟨hdot, hmember, owner, component, hcomponent, h⟩ := h
      obtain ⟨sel, hpicks, hbarred, hfault⟩ := exists_picks (s := s) stays_pos h
      exact ⟨_, sel, rfl, .static hdot hmember hcomponent hpicks, hbarred, fun _ => hfault,
        portable_compileComponent.stays stays_pos h⟩

lemma Starts.completes (h : Starts c s sel v ty q)
    (hfunction : ∀ id ∈ s.function?, id.index < s.symbols.functions.size)
    (hbarred : sel.barred s.inside = false) :
    ∃ fault, Completes c s s (chainStart (partsOf c)) ⟨v, ty, fault⟩ q ∧
      ((∀ value, v ≠ .const value) → fault.isSome = sel.frozen s.inside) := by
  cases h with
  | this hthis hobject hid =>
    refine ⟨some .writeToThis, ⟨_, runs_chainStart.2 ?_, rfl, stays_pos⟩, fun _ => rfl⟩
    rw [if_pos hthis]
    exact (runs_compileThis hthis).2 ⟨hfunction, hobject, rfl, _, hid, rfl⟩
  | @«local» v hname hv =>
    obtain ⟨t, h, hpos, hst⟩ := @stands_compileLocal c { s with pos := s.pos + 1 } v
    refine ⟨variableWriteFault v.readOnly v.name, ⟨t, runs_chainStart.2 ?_, hpos,
      stays_pos.trans hst⟩, fun _ => isSome_variableWriteFault⟩
    rw [if_neg (by simp [hname])]
    exact runs_compileName.2 ⟨hname, .inl ⟨v, hv, h⟩⟩
  | member hname hlocal hcomponent hpicks =>
    obtain ⟨fault, ⟨t, h, hpos, hst⟩, hfault⟩ :=
      hpicks.completes (c.tokens.get s.pos).lexeme stays_pos hfunction hbarred
    refine ⟨fault, ⟨t, runs_chainStart.2 ?_, hpos, hst⟩, fun _ => hfault⟩
    rw [if_neg (by simp [hname])]
    refine runs_compileName.2 ⟨hname, .inr ⟨hlocal, hfunction, ?_⟩⟩
    rw [hcomponent]
    exact h
  | named hname hlocal hcomponent hm hdenotes =>
    obtain ⟨fault, ⟨t, h, hpos, hst⟩, hfault⟩ := hdenotes.completes hm hfunction hbarred
    refine ⟨fault, ⟨t, runs_chainStart.2 ?_, hpos, hst⟩, hfault⟩
    rw [if_neg (by simp [hname])]
    refine runs_compileName.2 ⟨hname, .inr ⟨hlocal, hfunction, ?_⟩⟩
    rw [hcomponent]
    exact h

lemma exists_starts (hrun : Runs (chainStart (partsOf c)) c s o t) :
    ∃ sel, Starts c s sel o.value o.ty t.pos ∧ sel.barred s.inside = false ∧
      ((∀ value, o.value ≠ .const value) → o.writeFault.isSome = sel.frozen s.inside) ∧
      Stays s t := by
  rw [runs_chainStart] at hrun
  split at hrun
  · next hthis =>
    obtain ⟨_, hobject, rfl, id, hid, rfl⟩ := (runs_compileThis hthis).1 hrun
    exact ⟨_, .this hthis hobject hid, rfl, fun _ => rfl, stays_pos⟩
  · obtain ⟨hname, ⟨v, hv, h⟩ | ⟨hlocal, _, h⟩⟩ := runs_compileName.1 hrun
    · obtain ⟨rfl, hpos, hst⟩ := stands_compileLocal.runs h
      rw [hpos]
      exact ⟨_, .local hname hv, rfl, fun _ => isSome_variableWriteFault, stays_pos.trans hst⟩
    · split at h
      · next owner component hcomponent =>
        obtain ⟨sel, hpicks, hbarred, hfault⟩ := exists_picks stays_pos h
        exact ⟨sel, .member hname hlocal hcomponent hpicks, hbarred, fun _ => hfault,
          portable_compileComponent.stays stays_pos h⟩
      · next hcomponent =>
        obtain ⟨m, sel, hm, hdenotes, h⟩ := exists_denotes h
        exact ⟨sel, .named hname hlocal hcomponent hm hdenotes, h⟩

lemma Denotes.rooted (h : Denotes c s m sel v ty q) : RootedValue s.symbols v := by
  cases h with
  | @global id v hv =>
    rintro _ ⟨⟩ id' hid
    split at hid <;> cases hid
    simp [hv]
  | known => exact fun _ h => nomatch h
  | constant => exact fun _ h => nomatch h
  | function _ hcall =>
    obtain ⟨u, hu, _⟩ := hcall
    rw [value_compileCall (runs_withParts.1 hu)]
    exact rootedValue_ax
  | static _ _ _ hpicks => exact hpicks.rooted fun _ h => nomatch h

lemma Starts.rooted (h : Starts c s sel v ty q) : RootedValue s.symbols v := by
  cases h with
  | this => exact fun _ h => nomatch h
  | «local» =>
    rintro _ ⟨⟩ id hid
    split at hid <;> cases hid
  | member _ _ _ hpicks =>
    refine hpicks.rooted fun place hplace => ?_
    split at hplace
    · cases hplace
      exact fun _ h => nomatch h
    · cases hplace
  | named _ _ _ _ hdenotes => exact hdenotes.rooted

lemma Selects.ne_const {l : Link} (h : Selects c s v ty p l v' ty' q) {value : Constant} :
    v ≠ .const value := by
  rintro rfl
  cases h with
  | member _ _ _ _ hplace =>
    unfold ObjectAt at hplace
    split at hplace
    · exact hplace.1
    · cases hplace
  | static _ _ _ hplace => cases hplace
  | dynamic _ _ hfollow => exact hfollow

lemma Extends.ne_const (h : Extends c s v ty p links v' ty' q)
    (hv' : ∀ value, v' ≠ .const value) (value : Constant) : v ≠ .const value := by
  cases h with
  | nil => exact hv' value
  | cons hlink => exact hlink.ne_const

lemma Reads.completes (h : Reads c s chain v ty stop) (hsealed : c.tokens.Sealed)
    (hfunction : ∀ id ∈ s.function?, id.index < s.symbols.functions.size)
    (hbarred : ∀ l ∈ chain, l.selection.barred s.inside = false)
    (hv : ∀ value, v ≠ .const value) :
    ∃ fault, Completes c s s (compileAccess (partsOf c)) ⟨v, ty, fault⟩ stop ∧
      fault.isSome = chain.foldl (Link.frozen s.inside) false := by
  obtain ⟨sel, links, v0, ty0, q, rfl, hstart, hlinks⟩ := h
  obtain ⟨hsel, hbarred⟩ := List.forall_mem_cons.1 hbarred
  obtain ⟨fault1, ⟨t1, h1, hpos1, hst1⟩, hfault1⟩ := hstart.completes hfunction hsel
  obtain ⟨fault, ⟨t2, h2, hpos2, hst2⟩, hfault⟩ :=
    hlinks.completes (o := ⟨v0, ty0, fault1⟩) (n := 0) (c.tokens.size + 1) hsealed hfunction
      hbarred (by omega) (by omega) hst1 hpos1 rfl rfl hstart.rooted
  refine ⟨fault, ⟨t2, runs_compileAccess.2 ⟨_, t1, h1, ?_⟩, hpos2, hst2⟩, ?_⟩
  · exact runs_bind.2 ⟨_, t1, runs_tokenCount.2 ⟨rfl, rfl⟩, h2⟩
  · rw [hfault, hfault1 (hlinks.ne_const hv)]
    simp [Link.frozen]

lemma exists_reads (hrun : Runs (compileAccess (partsOf c)) c s o t)
    (hv : ∀ value, o.value ≠ .const value) :
    ∃ chain, Reads c s chain o.value o.ty t.pos ∧
      (∀ l ∈ chain, l.selection.barred s.inside = false) ∧
      o.writeFault.isSome = chain.foldl (Link.frozen s.inside) false := by
  obtain ⟨start, t1, h1, h⟩ := runs_compileAccess.1 hrun
  obtain ⟨sel, hstart, hsel, hfault1, hst1⟩ := exists_starts h1
  obtain ⟨_, _, h2, h⟩ := runs_bind.1 h
  obtain ⟨rfl, rfl⟩ := runs_tokenCount.1 h2
  obtain ⟨links, hlinks, hbarred, hfault⟩ := exists_extends hst1 hstart.rooted h
  refine ⟨⟨false, sel⟩ :: links, ⟨sel, links, _, _, _, rfl, hstart, hlinks⟩,
    List.forall_mem_cons.2 ⟨hsel, hbarred⟩, ?_⟩
  rw [hfault, hfault1 (hlinks.ne_const hv)]
  simp [Link.frozen]

/-! ## Targets -/

lemma kind_of_runs_compileAccess (h : Runs (compileAccess (partsOf c)) c s o t) :
    (c.tokens.get s.pos).kind = .identifier ∨ (c.tokens.get s.pos).kind = .keyword .kwThis := by
  obtain ⟨start, t1, h1, _⟩ := runs_compileAccess.1 h
  rw [runs_chainStart] at h1
  split at h1
  · next hthis => exact .inr hthis
  · exact .inl (runs_compileName.1 h1).1

lemma runs_compileTarget {r : Target × Ty} : Runs (compileTarget stop) c s r t ↔
    Runs (compileAccess (partsOf c)) c s ⟨.stored r.1, r.2, none⟩ t ∧ t.pos = stop ∧
      r.2.isStaticArray = false ∧ r.2.isStructValue = false := by
  simp [compileTarget, runs_withParts, and_assoc]
  constructor
  · rintro ⟨_, ⟨value, ty, fault⟩, t1, h1, hpos, h⟩
    cases value with
    | stored target =>
      cases fault with
      | none =>
        simp at h
        obtain ⟨harray, hstruct, rfl, rfl⟩ := h
        exact ⟨h1, hpos, harray, hstruct⟩
      | some fault => simp at h
    | _ => simp at h
  · rintro ⟨h, hpos, harray, hstruct⟩
    exact ⟨(kind_of_runs_compileAccess h).resolve_left, _, t, h, hpos, by simp [harray, hstruct]⟩

/-- Write protection. A target that is forbidden is refused, one that is not is taken if it can be
stored to as a whole, and whatever is taken is a chain that is not forbidden. -/
theorem compileTarget_protects (c : Context) (s : State) (stop : Nat) :
    (∀ chain v ty, Reads c s chain v ty stop → Forbidden s.inside chain →
      ∃ failure, compileTarget stop c s = .error failure) ∧
    (c.tokens.Sealed → (∀ id ∈ s.function?, id.index < s.symbols.functions.size) →
      ∀ chain target ty, Reads c s chain (.stored target) ty stop → ¬Forbidden s.inside chain →
        ty.isStaticArray = false → ty.isStructValue = false →
        ∃ t, Runs (compileTarget stop) c s (target, ty) t) ∧
    ∀ r t, Runs (compileTarget stop) c s r t →
      ∃ chain, Reads c s chain (.stored r.1) r.2 stop ∧ ¬Forbidden s.inside chain := by
  have htaken {r : Target × Ty} {t : State} (h : Runs (compileTarget stop) c s r t) :
      ∃ chain, Reads c s chain (.stored r.1) r.2 stop ∧ ¬Forbidden s.inside chain := by
    obtain ⟨haccess, rfl, _⟩ := runs_compileTarget.1 h
    obtain ⟨chain, hreads, hbarred, hfault⟩ := exists_reads haccess fun _ => nofun
    exact ⟨chain, hreads, not_forbidden.2 ⟨hbarred, hfault.symm⟩⟩
  refine ⟨fun chain v ty hreads hforbidden => ?_, fun hsealed hfunction chain target ty hreads
    hforbidden harray hstruct => ?_, fun r t h => htaken h⟩
  · cases h : compileTarget stop c s with
    | error failure => exact ⟨failure, rfl⟩
    | ok r =>
      obtain ⟨chain', hreads', hallowed⟩ := htaken (r := r.1) (t := r.2) h
      obtain ⟨rfl, _⟩ := hreads.unique hreads'
      exact absurd hforbidden hallowed
  · obtain ⟨hbarred, hfrozen⟩ := not_forbidden.1 hforbidden
    obtain ⟨fault, ⟨t, h, hpos, _⟩, hfault⟩ :=
      hreads.completes hsealed hfunction hbarred fun _ => nofun
    obtain rfl : fault = none := by simpa [hfrozen] using hfault
    exact ⟨t, runs_compileTarget.2 ⟨h, hpos, harray, hstruct⟩⟩

theorem compileTarget_protects_handle :
    let token (kind : Token.Kind) (lexeme : String) : Token := ⟨kind, lexeme, .point 0 0, 0⟩
    let handle := [token .identifier "box", token (.symbol .dot) ".", token .identifier "next"]
    let next : Field := ⟨.pointerTo ⟨1⟩, 4, .unrestricted⟩
    let box : StructDef := { name := "Box", managed := false, members := #[⟨"next", .field next⟩] }
    let node : StructDef := { box with name := "Node", managed := true }
    let v : GlobalVar := { name := "box", ty := { base := .struct ⟨0⟩ }, readOnly := true }
    let s : State := { symbols := { types := ⟨#[.struct box, .struct node]⟩, globals := #[v],
                                    names := [("box", .variable ⟨0⟩)] } }
    let c : Context := ⟨.ofTokens handle.toArray #[], {}⟩
    let c' : Context := ⟨.ofTokens (handle ++
      [token (.symbol .dot) ".", token .identifier "next"]).toArray #[], {}⟩
    let chain := [⟨false, .variable true⟩, ⟨false, .field ⟨0⟩ next⟩]
    (Reads c s chain (.stored (.memory ⟨.global 0, 4⟩)) next.ty 3 ∧ Forbidden s.inside chain ∧
      ∃ failure, compileTarget 3 c s = .error failure) ∧
    ∃ chain' t, Reads c' s chain' (.stored (.memory ⟨.mar, 4⟩)) next.ty 5 ∧
      ¬Forbidden s.inside chain' ∧
      Runs (compileTarget 5) c' s (.memory ⟨.mar, 4⟩, next.ty) t := by
  intro token handle next box node v s c c' chain
  have hstart {c : Context} (hbox : c.tokens.get 0 = token .identifier "box") : Starts c s
      (.variable true) (.stored (.memory ⟨.global 0, 0⟩)) { base := .struct ⟨0⟩ } 1 := by
    have hkind : (c.tokens.get s.pos).kind = .identifier := congrArg Token.kind hbox
    have hmeaning : s.symbols.find? (c.tokens.get s.pos).lexeme = some (.variable ⟨0⟩) :=
      (congrArg (fun t => s.symbols.find? t.lexeme) hbox).trans (by decide)
    exact .named hkind (fun _ h => by cases h.1) rfl hmeaning (@Denotes.global c s ⟨0⟩ v rfl (.inl rfl))
  have hreads : Reads c s chain (.stored (.memory ⟨.global 0, 4⟩)) next.ty 3 :=
    ⟨_, _, _, _, _, rfl, hstart rfl, .cons (.member rfl rfl rfl rfl rfl rfl (.field rfl))
      (.nil (by decide) (by decide))⟩
  have hforbidden : Forbidden s.inside chain :=
    .inr ⟨[], _, _, rfl, rfl, by simp⟩
  have hreads' : Reads c' s (chain ++ [⟨true, .field ⟨1⟩ next⟩]) (.stored (.memory ⟨.mar, 4⟩)) next.ty 5 :=
    ⟨_, _, _, _, _, rfl, hstart rfl, .cons (.member rfl rfl rfl rfl rfl rfl (.field rfl))
      (.cons (.member rfl rfl rfl rfl ⟨trivial, rfl⟩ rfl (.field rfl))
        (.nil (by decide) (by decide)))⟩
  have hallowed : ¬Forbidden s.inside (chain ++ [⟨true, .field ⟨1⟩ next⟩]) :=
    not_forbidden.2 ⟨by simp [chain, next, Selection.barred], rfl⟩
  obtain ⟨t, ht⟩ := (compileTarget_protects c' s 5).2.1 rfl (fun _ h => by cases h) _ _ _ hreads'
    hallowed rfl rfl
  exact ⟨⟨hreads, hforbidden, (compileTarget_protects c s 3).1 _ _ _ hreads hforbidden⟩, _, t, hreads',
    hallowed, ht⟩

end AdventureScript.Chain
