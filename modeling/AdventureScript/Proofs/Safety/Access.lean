import AdventureScript.Proofs.Safety.Expression

/-!
Names, members and elements: whatever is selected is in range, and a chain of selections ends behind
balanced brackets.
-/
namespace AdventureScript

variable {factor : Int32}

namespace Gen.Safety

variable {m : Mode} {base : State} {n p start : Nat} {parts : Parts} {place : Place} {o : Operand}
  {id : FuncId} {owner struct : TypeId} {name : String} {object : Option Place} {number : Nat}

lemma left_of_le {q r : Nat} (hs : m.c.tokens.Sealed) (hq : p ≤ q)
    (hk : (m.c.tokens.get q).kind ≠ .endOfInput) (hr : q < r) :
    m.c.tokens.size - r < m.c.tokens.size - p := by
  have := hs.lt_size hk
  rw [Stream.size]
  omega

lemma lt_after (hk : (m.c.tokens.get p).kind ≠ .endOfInput) : p < m.c.tokens.after p := by
  rw [Stream.after_of_ne hk]
  omega

/-! ## Indices -/

lemma calmly_dereference (hf : Fit m base) (hr : Reliable m base start parts)
    (ho : m.strict → o.Fits base.symbols start) :
    Calmly m base n p (dereference parts o) fun place q =>
      (∀ symbols, place.InRange symbols) ∧ q = p := by
  have hend : Calmly m base n p (do emit .checkNull []; return (⟨.mar, 0⟩ : Place)) fun place q =>
      (∀ symbols, place.InRange symbols) ∧ q = p :=
    calmly_emit.then <| .ret ⟨fun _ => Place.inRange_of_ne nofun, rfl⟩
  unfold dereference
  cases hv : o.value with
  | const value => exact .fail_bind nofun
  | ax => exact calmly_emitRegs.then hend
  | this => exact .ret ⟨fun _ => Place.inRange_of_ne nofun, rfl⟩
  | stored target =>
    cases target with
    | memory place =>
      exact (calmly_loadAddress fun hs => (ho hs).stored _ hv).then <|
        Sure.then calmly_emitRegs hend
    | «attribute» use =>
      exact (calmly_loadToAx hf hr ho).with fun _ _ => calmly_emitRegs.then hend

lemma calmly_saveMar : Calmly m base n p saveMar fun saved q => n ≤ saved.codeSize ∧ q = p :=
  .checkpoint fun _ hk => calmly_pushReg.then <| .ret ⟨hk, rfl⟩

lemma calmly_unsaveMar {saved : Checkpoint} (h : n ≤ saved.codeSize) :
    Quiet m base n p (unsaveMar saved) :=
  (calmly_restore h).then calmly_adjustStack

lemma calmly_indexToAx (hf : Fit m base) (hr : Reliable m base start parts)
    (ho : m.strict → o.Fits base.symbols start) :
    Quiet m base n p (indexToAx parts o) :=
  (calmly_loadToAx hf hr ho).with fun _ _ => .ite (sure_textOf.then <| .fail nofun) <| .ret rfl

lemma calmly_scaleAx : Quiet m base n p (scaleAx factor) :=
  .ite calmly_emit <| .ret rfl

variable (hf : Fit m base) (hr : Reliable m base start parts) (hle : m.strict → start ≤ p)
include hf hr hle

section

variable (hk : (m.c.tokens.get p).kind = .symbol .leftBracket)
include hk

lemma calmly_indexOperand : Calmly m base n (m.c.tokens.after p) (indexOperand parts) fun o q =>
      Gives m base start p o q ∧ p < q := by
  have hlt : p < m.c.tokens.after p := lt_after (by simp [hk])
  refine (hr fun hs => lt_of_le_of_lt (hle hs) hlt).bind fun o q ho => .expect fun hclose => ?_
  exact .ret ⟨⟨.group hf.closed hk rfl ho.1 hclose rfl, ho.2⟩,
    lt_of_lt_of_le hlt (le_trans ho.1.1 Stream.le_after)⟩

def Located (m : Mode) (base : State) (p : Nat) (place : Place) (q : Nat) : Prop :=
  m.c.tokens.Nested p q ∧ p < q ∧ (m.strict → place.InRange base.symbols)

lemma calmly_indexStatic (hplace : m.strict → place.InRange base.symbols) {dim factor : UInt32} :
    Calmly m base n p (indexStatic parts place dim factor number) (Located m base p) := by
  refine .advance (.ite_bind
    (Q := fun saved q => (∀ k ∈ saved, n ≤ k.codeSize) ∧ q = m.c.tokens.after p)
    (fun _ => .map (calmly_saveMar.mono fun h => ⟨by simpa using h.1, h.2⟩))
    (fun _ => .ret ⟨by simp, rfl⟩) fun saved _ ⟨hsaved, hq⟩ => hq ▸ ?_)
  refine (calmly_indexOperand hf hr hle hk).bind fun index q ⟨hindex, hlt⟩ => ?_
  split
  · refine .unless nofun <| .unless nofun ?_
    cases saved with
    | none => exact .ret ⟨hindex.1, hlt, hplace⟩
    | some k =>
      exact (calmly_unsaveMar (hsaved k rfl)).then <| .ret ⟨hindex.1, hlt, hplace⟩
  · refine (calmly_indexToAx hf hr hindex.2).then @fun _ => ?_
    extract_lets rest
    have hrest : Calmly m base n q (rest ()) (Located m base p) :=
      calmly_emit.then <| calmly_scaleAx.then <|
        (calmly_loadAddress hplace).then <| calmly_emitRegs.then <|
          .ret ⟨hindex.1, hlt, fun _ => Place.inRange_of_ne nofun⟩
    exact .ite (calmly_popReg.then hrest) hrest

lemma calmly_indexDynamic :
    Calmly m base n p (indexDynamic parts factor number) (Located m base p) := by
  refine .advance (calmly_saveMar.with fun saved hsaved => ?_)
  refine (calmly_indexOperand hf hr hle hk).bind fun index q ⟨hindex, hlt⟩ => ?_
  extract_lets rest
  have hrest : Calmly m base n q (rest ()) (Located m base p) :=
    calmly_emitRegs.then <| calmly_emitRegs.then <|
      .ret ⟨hindex.1, hlt, fun _ => Place.inRange_of_ne nofun⟩
  split
  · exact .unless nofun <| (calmly_unsaveMar hsaved).then <| Sure.then calmly_litToReg hrest
  · exact (calmly_indexToAx hf hr hindex.2).then <| calmly_popReg.then <| calmly_scaleAx.then hrest

lemma calmly_compileIndex (ho : m.strict → o.Fits base.symbols start) :
    Calmly m base n p (compileIndex parts o number) fun o q =>
      Gives m base start p o q ∧ p < q := by
  unfold compileIndex
  cases hshape : o.ty.shape with
  | scalar => exact sure_textOf.then <| .fail nofun
  | dynamic =>
    exact .getTypes ((calmly_dereference hf hr ho).with fun _ _ =>
      (calmly_indexDynamic hf hr hle hk).bind fun _ _ h => .ret ⟨⟨h.1, fun hs =>
        Operand.fits_memory nofun (h.2.2 hs) (by simp)⟩, h.2.1⟩)
  | static dims =>
    have harray (hs : m.strict) := (ho hs).array (by simp [Ty.isStaticArray, hshape])
    cases hv : o.value with
    | stored target =>
      cases target with
      | memory place =>
        refine (sure_orFail_of_isSome fun hs => ?_).with fun dim _ => .getTypes ?_
        · cases dims with
          | nil => exact absurd hshape (harray hs).1
          | cons d ds => rfl
        · exact (calmly_indexStatic hf hr hle hk fun hs => (ho hs).stored _ hv).bind fun _ _ h =>
            .ret ⟨⟨h.1, fun hs => Operand.fits_memory .afterIndex (h.2.2 hs) (ho hs).fault⟩, h.2.1⟩
      | «attribute» use =>
        exact ⟨fun _ _ _ hs => by simpa [hv] using (harray hs).2⟩
    | _ => exact ⟨fun _ _ _ hs => by simpa [hv] using (harray hs).2⟩

end

omit hf hr hle in
lemma calmly_isInside (hf : Fit m base) : Quiet m base n p (isInside owner) :=
  .getTypes ((calmly_currentStruct? hf).with fun _ _ => .ret rfl)

omit hf hr hle in
lemma kind_ne_of_fieldWriteFault {access : Access} {inside : Bool} :
    ∀ fault ∈ fieldWriteFault access inside name, fault.kind ≠ .internal := by
  cases access <;> cases inside <;> simp [fieldWriteFault, Fault.kind]

omit hf hr hle in
lemma calmly_compileField (hf : Fit m base) {f : Field} (hty : m.strict → f.ty.Proper)
    (hobject : m.strict → ∀ place ∈ object, place.InRange base.symbols) :
    Calmly m base n p (compileField owner f object name) (Gives m base start p) :=
  (sure_orFail (by nofun)).with fun place hp => (calmly_isInside hf).then <| .unless nofun <|
    .ret ⟨.refl, fun hs => Operand.fits_memory (hty hs) (hobject hs place hp)
      kind_ne_of_fieldWriteFault⟩

omit hf hr hle in
lemma calmly_bracketed (hf : Fit m base) :
    Calmly m base n p bracketed fun stretch q => m.c.tokens.Nested p q ∧ p < stretch.start := by
  refine .expect fun hk => .getPos (.findAtDepthZero (.setPos (.expect fun hclose => .ret ?_)))
  refine ⟨.group hf.closed hk rfl (Stream.nested_findAtDepthZero hf.closed ?_)
    hclose rfl, lt_after (by simp [hk])⟩
  simp [hclose]

omit hf hr hle in
lemma calmly_compileAttribute (hf : Fit m base) {attr : Attribute}
    (hattr : m.strict → base.symbols.Offers (.attribute attr)) (hle : m.strict → start ≤ p)
    (hobject : m.strict → ∀ place ∈ object, place.InRange base.symbols) :
    Calmly m base n p (compileAttribute attr object name) (Gives m base start p) := by
  refine .require nofun fun hneeds => .ite_bind
    (Q := fun index q => m.c.tokens.Nested p q ∧ ∀ stretch ∈ index, p < stretch.start)
    (fun _ => .map ((calmly_bracketed hf).mono fun h => ⟨h.1, by simpa using h.2⟩))
    (fun _ => .ret ⟨.refl, by simp⟩) fun index q h => .ret ⟨h.1, fun hs => ?_⟩
  obtain ⟨hty, hget, hset⟩ := hattr hs
  have hreach (hstatic : attr.isStatic = false) :
      (if attr.isStatic then none else object).isSome = true := by
    cases object <;> simp_all
  refine ⟨fun harray => by simp [hty] at harray, fun target ht => ?_, fun fault hfault => ?_⟩
  case refine_2 =>
    cases hsetter : attr.setter <;> simp [hsetter] at hfault
    cases hfault
    nofun
  cases ht
  refine ⟨hget.mono hreach, fun id hid => (hset id hid).mono hreach, fun place hp => ?_,
    fun stretch hstretch => lt_of_le_of_lt (hle hs) (h.2 stretch hstretch)⟩
  simp only at hp
  split at hp
  · cases hp
  · exact hobject hs place hp

/-! ## Arguments of calls -/

omit hf hr hle in
lemma calmly_scanArguments (hf : Fit m base) :
    Calmly m base n p scanArguments fun given q =>
      m.c.tokens.Nested p q ∧ ∀ a ∈ given, a.Behind p := by
  refine .expect fun hk => ?_
  have hlt : p < m.c.tokens.after p := lt_after (by simp [hk])
  refine .eat (fun hclose => .ret ⟨.group hf.closed hk rfl .refl hclose rfl, by simp⟩) fun _ => ?_
  refine Sure.bind (Q := fun given q => m.c.tokens.Nested p q ∧ ∀ a ∈ given.toList, a.Behind p)
    (sure_rounds (P := fun (given : Array Argument) q =>
      m.c.tokens.Nested (m.c.tokens.after p) q ∧ ∀ a ∈ given.toList, a.Behind p)
      (fun given q hq => ?_) ⟨.refl, by simp⟩) fun given q h => .ret h
  refine .getPos (.findAtDepthZero (.unless nofun <| .setPos ?_))
  have hpush : ∀ a ∈ (given.push (.tokens ⟨q, m.c.tokens.findAtDepthZero q
      (· = .symbol .comma)⟩)).toList, a.Behind p := by
    intro a ha
    rcases Array.mem_push.1 (Array.mem_toList_iff.1 ha) with ha | rfl
    · exact hq.2 a (Array.mem_toList_iff.2 ha)
    · exact lt_of_lt_of_le hlt hq.1.1
  have hstop {mark : Symbol} (hk : (m.c.tokens.get (m.c.tokens.findAtDepthZero q
      (· = .symbol .comma))).kind = .symbol mark) :=
    Stream.nested_findAtDepthZero hf.closed (t := m.c.tokens) (i := q) (by rw [hk]; simp)
  refine .eat (fun hcomma => .ret ?_) fun _ => .expect fun hclose => .ret ?_
  · have hend := hstop hcomma
    exact ⟨left_of_le hf.closed hend.1 (by simp [hcomma]) (lt_after (by simp [hcomma])),
      hq.1.trans (hend.trans (.token hf.closed hcomma rfl rfl)), hpush⟩
  · exact ⟨.group hf.closed hk rfl (hq.1.trans (hstop hclose)) hclose rfl, hpush⟩

lemma calmly_compileCall (hid : m.strict → base.symbols.Callable id (object.isSome = true))
    (hobject : m.strict → ∀ place ∈ object, place.InRange base.symbols) :
    Calmly m base n p (compileCall parts id object) (Gives m base start p) := by
  refine (calmly_scanArguments hf).bind fun given q h => ?_
  have hgiven (hs : m.strict) : ∀ a ∈ given, a.Behind start := fun a ha => by
    have hbehind := h.2 a ha
    cases a with
    | tokens stretch => exact lt_of_le_of_lt (hle hs) hbehind
    | _ => trivial
  exact (calmly_emitCall hf hr hid hobject hgiven).mono fun ho => ⟨ho.2 ▸ h.1, ho.1 start⟩

lemma calmly_compileMemberCall (hid : m.strict → id.index < base.symbols.functions.size)
    (hobject : m.strict → ∀ place ∈ object, place.InRange base.symbols) :
    Calmly m base n p (compileMemberCall parts owner id object name) (Gives m base start p) := by
  refine .check (fun _ => ?_) fun _ => .fail_bind nofun
  refine (calmly_functionAt hid).with fun f hfunc => (calmly_isInside hf).then <|
    .unless nofun <| .require nofun fun hneeds =>
      calmly_compileCall hf hr hle (fun _ => ⟨f, hfunc, fun hn => ?_⟩) fun hs place hp => ?_
  · cases object <;> simp_all
  · split at hp
    · exact hobject hs place hp
    · cases hp

lemma calmly_compileComponent {c : Component} (hc : m.strict → base.symbols.Offers c)
    (hobject : m.strict → ∀ place ∈ object, place.InRange base.symbols) :
    Calmly m base n p (compileComponent parts owner c object name) (Gives m base start p) := by
  cases c with
  | field f => exact calmly_compileField hf hc hobject
  | «attribute» attr => exact calmly_compileAttribute hf hc hle hobject
  | function id => exact calmly_compileMemberCall hf hr hle hc hobject

omit hf hr hle in
lemma calmly_findComponent (hf : Fit m base) :
    Calmly m base n p (findComponent struct name) fun r q =>
      (m.strict → base.symbols.Offers r.2) ∧ q = p :=
  .getTypes ((sure_orFail (by nofun)).mono fun h => ⟨fun hs => (hf.symbols hs).offers h.1, h.2⟩)

omit hf hr hle in
lemma calmly_objectPlace (hf : Fit m base) (hr : Reliable m base start parts)
    (ho : m.strict → o.Fits base.symbols start) :
    Calmly m base n p (objectPlace parts o name) fun place q =>
      (m.strict → place.InRange base.symbols) ∧ q = p := by
  refine .ite ((calmly_dereference hf hr ho).mono fun h => ⟨fun _ => h.1 _, h.2⟩) ?_
  split
  · next place hv => exact .ret ⟨fun hs => (ho hs).stored _ hv, rfl⟩
  · exact .fail nofun

omit hf hr hle in
lemma nested_identifier (hs : m.c.tokens.Sealed) (hk : (m.c.tokens.get p).kind = .identifier) :
    m.c.tokens.Nested p (m.c.tokens.after p) :=
  .token hs hk rfl rfl

lemma calmly_compileMember (ho : m.strict → o.Fits base.symbols start) :
    Calmly m base n p (compileMember parts o) (Gives m base start p) := by
  refine .expectIdentifier fun hk => sure_textOf.then <| (sure_orFail (by nofun)).with
    fun _ _ => (calmly_objectPlace hf hr ho).with fun place hplace =>
      (calmly_findComponent hf).with fun (owner, c) hc => ?_
  have hname := nested_identifier hf.closed hk
  refine (calmly_compileComponent hf hr (fun hs => le_trans (hle hs) hname.1) hc
    (by simpa using hplace)).bind fun selected _ h =>
      .ret ⟨hname.trans h.1, fun hs => (h.2 hs).withFault fun fault hfault => ?_⟩
  rcases Option.or_eq_some_iff.1 hfault with hfault | ⟨_, hfault⟩
  · exact (h.2 hs).fault fault hfault
  · split at hfault
    · cases hfault
    · exact (ho hs).fault fault hfault

lemma calmly_compileChain (ho : m.strict → o.Fits base.symbols start) :
    Calmly m base n p (compileChain parts o) (Gives m base start p) := by
  refine sure_rounds (P := fun (a : Operand × Nat) => Gives m base start p a.1)
    (fun (o, indices) q h => ?_) ⟨.refl, ho⟩
  have hstart (hs : m.strict) : start ≤ q := le_trans (hle hs) h.1.1
  refine .eat (fun hk => ?_) fun _ => .check (fun hk => ?_) fun _ => .ret h
  · have hdot := Stream.Nested.token hf.closed hk rfl rfl
    refine (calmly_compileMember hf hr (fun hs => le_trans (hstart hs) hdot.1) h.2).bind
      fun o' r h' => .ret ⟨left_of_le hf.closed (le_refl q) (by simp [hk]) ?_,
        h.1.trans (hdot.trans h'.1), h'.2⟩
    exact lt_of_lt_of_le (lt_after (by simp [hk])) h'.1.1
  · exact (calmly_compileIndex hf hr hstart hk h.2).bind fun o' r ⟨h', hlt⟩ =>
      .ret ⟨left_of_le hf.closed (le_refl q) (by simp [hk]) hlt, h.1.trans h'.1, h'.2⟩

/-! ## Names -/

omit hf hr hle in
lemma kind_ne_of_variableWriteFault {readOnly : Bool} :
    ∀ fault ∈ variableWriteFault readOnly name, fault.kind ≠ .internal := by
  cases readOnly <;> simp [variableWriteFault, Fault.kind]

omit hf hr hle in
lemma calmly_compileLocal {v : Variable} (hv : m.strict → v.ty.Proper) :
    Calmly m base n p (compileLocal v) (Gives m base start p) := by
  refine .ite ?_ ?_
  · exact calmly_loadLocal.then <| calmly_emitRegs.then <| .ret ⟨.refl, fun hs =>
      Operand.fits_memory (hv hs) (Place.inRange_of_ne nofun) kind_ne_of_variableWriteFault⟩
  · exact .ret ⟨.refl, fun hs =>
      Operand.fits_memory (hv hs) (Place.inRange_of_ne nofun) kind_ne_of_variableWriteFault⟩

omit hf hr hle in
lemma calmly_compileGlobal (hf : Fit m base) {id : GlobalId}
    (hid : m.strict → id.index < base.symbols.globals.size) :
    Calmly m base n p (compileGlobal id) (Gives m base start p) := by
  refine (calmly_globalAt hid).with fun v hv => ?_
  have hrange (hs : m.strict) := (hf.symbols hs).globals v (Array.mem_of_getElem? hv)
  split
  · next value hvalue =>
    refine .ret ⟨.refl, fun hs => Operand.fits_constant ?_⟩
    exact Ty.not_static_of_isScalar
      ((hrange hs).2 (Option.isSome_of_mem (Option.filter_eq_some_iff.1 hvalue).1))
  · refine .ret ⟨.refl, fun hs => Operand.fits_memory (hrange hs).1 (fun id' hid' => ?_)
      kind_ne_of_variableWriteFault⟩
    simp only at hid'
    split at hid'
    · cases hid'
      exact hid hs
    · cases hid'

lemma calmly_compileStatic :
    Calmly m base n p (compileStatic parts struct) (Gives m base start p) := by
  refine .eat (fun hdot => ?_) fun _ => .getTypes (.fail_bind nofun)
  refine .expectIdentifier fun hk => (calmly_findComponent hf).with fun (owner, c) hc => ?_
  have hname := (Stream.Nested.token hf.closed hdot rfl rfl).trans (nested_identifier hf.closed hk)
  exact (calmly_compileComponent hf hr (fun hs => le_trans (hle hs) hname.1) hc
    (by simp)).mono fun h => ⟨hname.trans h.1, h.2⟩

lemma calmly_compileMeaning (hname : m.strict → ':' ∉ name.toList) :
    Calmly m base n p (compileMeaning parts name) (Gives m base start p) := by
  refine .getSymbols ?_
  have hmeans {meaning : Meaning} (hfind : base.symbols.find? name = some meaning)
      (hs : m.strict) := (hf.symbols hs).resolves hfind
  split
  · next id hfind => exact calmly_compileGlobal hf (hmeans hfind)
  · exact .ret ⟨.refl, fun _ => Operand.fits_constant rfl⟩
  · next id hfind =>
    exact .check (fun _ => calmly_compileCall hf hr hle
      (fun hs => (hmeans hfind hs).mono fun h => absurd h (hname hs)) (by simp)) fun _ =>
        .fail_bind nofun
  · exact calmly_compileStatic hf hr hle
  · exact .fail nofun

omit hf hr hle in
lemma mem_of_scope_get? {scope : Scope} {v : Variable} (h : scope.get? name = some v) :
    ∃ b ∈ scope.blocks, v ∈ b.vars := by
  obtain ⟨b, hb, hv⟩ := List.exists_of_findSome?_eq_some h
  exact ⟨b, hb, List.mem_of_find?_eq_some hv⟩

lemma calmly_compileName : Calmly m base n p (compileName parts) (Gives m base start p) := by
  refine .expectIdentifier fun hk => ?_
  have hname := nested_identifier hf.closed hk
  have hle' (hs : m.strict) := le_trans (hle hs) hname.1
  refine .seeKind fun isCall _ => Sure.mono (Q := Gives m base start (m.c.tokens.after p)) ?_
    fun h => ⟨hname.trans h.1, h.2⟩
  refine .get fun s hs => ?_
  split
  · next v hv _ =>
    obtain ⟨b, hb, hvb⟩ := mem_of_scope_get? hv
    exact calmly_compileLocal fun h => hf.scope h b (hs.blocks ▸ hb) v hvb
  · refine .getTypes ((calmly_currentStruct? hf).with fun struct _ => ?_)
    split
    · next owner c hc =>
      obtain ⟨id, _, hc⟩ := Option.bind_eq_some_iff.1 hc
      refine (calmly_hasThis hf).with fun b _ =>
        calmly_compileComponent hf hr hle' (fun h => (hf.symbols h).offers hc) fun _ place hp => ?_
      cases b
      · cases hp
      · cases hp
        exact Place.inRange_of_ne (by simp)
    · exact calmly_compileMeaning hf hr hle' fun h => hf.words h p hk

omit hf hr hle in
lemma calmly_compileThis (hf : Fit m base) (hk : (m.c.tokens.get p).kind = .keyword .kwThis) :
    Calmly m base n p compileThis (Gives m base start p) := by
  refine .advance ((calmly_hasThis hf).with fun b hb => ?_)
  refine .require nofun fun hthis => (calmly_currentStruct? hf).with fun struct hstruct => ?_
  refine (sure_orFail_of_isSome fun _ => ?_).with fun id _ => .ret ⟨?_, fun _ => ?_⟩
  · rw [hstruct]
    cases hfun : base.function?.map base.symbols.function <;>
      simp_all [FuncDef.needsObject, Option.isSome_iff_ne_none]
  · exact .token hf.closed hk rfl rfl
  · exact Operand.fits_of_value rfl (fun _ h => by cases h) (by simp [Fault.kind])

lemma calmly_compileAccess : Calmly m base n p (compileAccess parts) (Gives m base start p) := by
  have hchain (o : Operand) (q : Nat) (h : Gives m base start p o q) :
      Calmly m base n q (compileChain parts o) (Gives m base start p) :=
    (calmly_compileChain hf hr (fun hs => le_trans (hle hs) h.1.1) h.2).mono fun h' =>
      ⟨h.1.trans h'.1, h'.2⟩
  exact .checkWord (fun hk => (calmly_compileThis hf hk).bind hchain) fun _ =>
    (calmly_compileName hf hr hle).bind hchain

end Gen.Safety
end AdventureScript
