import AdventureScript.Proofs.Safety.Statement

/-!
Declarations. The symbol table stays in range while it grows, and every call that waits for a
function stays where it is.
-/
namespace AdventureScript

variable {symbols : Symbols}

structure ParamList.Fits (symbols : Symbols) (list : ParamList) : Prop where
  params : ∀ p ∈ list.params, p.ty.Proper
  extended : ∀ e ∈ list.extended?, (symbols.types.struct? e.struct).isSome = true

namespace Gen.Safety

variable {α β : Type} {m : Mode} {base : Symbols} {s s' : State} {n p : Nat} {strict : Prop}
  {x : Gen α} {Q : α → Nat → Prop} {T : β → Nat → Prop} {ty : Ty} {name : String} {q : Qualifiers}
  {I : State → Prop}

/-! ## What stays -/

/-- What a declaration finds, behind declarations that brought what is in `base`. -/
structure Outside (strict : Prop) (base : Symbols) (s : State) : Prop where
  ranged : strict → s.symbols.Ranged
  grown : strict → base.Extends s.symbols
  calls : strict → s.CallsWithin
  scope : strict → s.scope.Proper
  function? : strict → s.function? = none

instance : Placeless (Outside strict base) where
  setPos h := { h with calls := fun hs => (h.calls hs).grow rfl rfl le_rfl }

abbrev Declares (m : Mode) (base : Symbols) (p : Nat) (x : Gen α) (Q : α → Nat → Prop) : Prop :=
  Sure m (Outside m.strict base) (Outside m.strict base) p x Q

lemma Outside.fit (h : Outside m.strict base s) (ht : Lexical m) : Fit m s where
  toLexical := ht
  symbols := h.ranged
  function? hs := by simp [h.function? hs]
  scope := h.scope

lemma Outside.calm (h : Outside strict base s) : Calm strict s 0 s :=
  ⟨rfl, rfl, rfl, rfl, Nat.zero_le _, h.calls⟩

lemma Calm.outside (h : Calm strict s n s') (hs : Outside strict base s) :
    Outside strict base s' where
  ranged hstrict := h.symbols ▸ hs.ranged hstrict
  grown hstrict := h.symbols ▸ hs.grown hstrict
  calls := h.calls
  scope hstrict := by
    rw [Scope.Proper, h.blocks]
    exact hs.scope hstrict
  function? hstrict := h.function?.trans (hs.function? hstrict)

lemma declares_of_calm (ht : Lexical m)
    (h : ∀ s, Outside m.strict base s → Fit m s →
      Sure m (Calm m.strict s 0) (Outside m.strict base) p x Q) : Declares m base p x Q :=
  ⟨fun s hs hp => (h s hs (hs.fit ht)).run s hs.calm hp⟩

lemma declares_of_calmly (ht : Lexical m)
    (h : ∀ s, Outside m.strict base s → Fit m s → Calmly m s 0 p x Q) : Declares m base p x Q :=
  declares_of_calm ht fun s hs hf => ⟨fun s1 hs1 hp =>
    ((h s hs hf).run s1 hs1 hp).mono fun h' => ⟨h'.1.outside hs, h'.2⟩⟩

lemma Outside.declare (h : Outside strict base s)
    (hranged : strict → symbols.Ranged) (hgrown : strict → s.symbols.Extends symbols) :
    Outside strict base { s with symbols } where
  ranged := hranged
  grown hs := (h.grown hs).trans (hgrown hs)
  calls hs k hk := ⟨(h.calls hs k hk).1, (hgrown hs).lt_size (h.calls hs k hk).2⟩
  scope := h.scope
  function? := h.function?

lemma sure_getSymbols : Sure m I I p getSymbols fun _ q => q = p :=
  ⟨fun _ hs hp => ⟨hs, hp⟩⟩

lemma sure_getTypes : Sure m I I p getTypes fun _ q => q = p :=
  ⟨fun _ hs hp => ⟨hs, hp⟩⟩

lemma declares_modifySymbols {f : Symbols → Symbols}
    (h : m.strict → ∀ {symbols}, base.Extends symbols → symbols.Ranged →
      (f symbols).Ranged ∧ symbols.Extends (f symbols)) :
    Declares m base p (modifySymbols f) fun _ q => q = p :=
  ⟨fun _ hs hp => ⟨hs.declare (fun hstrict => (h hstrict (hs.grown hstrict) (hs.ranged hstrict)).1)
    fun hstrict => (h hstrict (hs.grown hstrict) (hs.ranged hstrict)).2, hp⟩⟩

lemma Outside.restart (h : Outside strict base s) : Outside strict s.symbols s :=
  { h with grown := fun _ => .refl }

lemma Sure.onward (hgrown : m.strict → base.Extends symbols)
    (h : Declares m symbols p x Q) : Sure m (Outside m.strict symbols) (Outside m.strict base) p x Q :=
  h.weaken id fun h' => { h' with grown := fun hs => (hgrown hs).trans (h'.grown hs) }

lemma Sure.resume (hs : Outside m.strict base s) (h : Declares m s.symbols p x Q) :
    Sure m (Calm m.strict s n) (Outside m.strict base) p x Q := by
  refine ⟨fun s1 hs1 hp => ?_⟩
  have hout := (hs1.outside hs).restart
  rw [hs1.symbols] at hout
  exact (h.onward hs.grown).run s1 hout hp

lemma Sure.setSymbols {f : Unit → Gen β} (hs : Outside m.strict base s)
    (hranged : m.strict → symbols.Ranged) (hgrown : m.strict → s.symbols.Extends symbols)
    (h : Declares m symbols p (f ()) T) :
    Sure m (Calm m.strict s n) (Outside m.strict base) p (modifySymbols (fun _ =>
      symbols) >>= f) T := by
  refine ⟨fun s1 hs1 hp => ?_⟩
  have hout := ((hs1.outside hs).declare hranged (hs1.symbols ▸ hgrown)).restart
  exact (h.onward fun hstrict => (hs.grown hstrict).trans (hgrown hstrict)).run _ hout hp

lemma turns_comma {P : α → Nat → Prop} {Q : β → Nat → Prop} {q r : Nat} {a : α}
    (hs : m.c.tokens.Sealed) (hr : q ≤ r) (hk : (m.c.tokens.get r).kind = .symbol .comma)
    (hP : P a (m.c.tokens.after r)) : Turns m q P Q (.again a) (m.c.tokens.after r) :=
  ⟨left_of_le hs hr (by simp [hk]) (lt_after (by simp [hk])), hP⟩

lemma sure_qualifiers [Placeless I] (hs : m.c.tokens.Sealed) :
    Sure m I I p qualifiers fun _ q => m.c.tokens.Nested p q := by
  refine sure_rounds (P := fun _ q => m.c.tokens.Nested p q) (fun words q hq => .peek ?_) .refl
  split <;> rename_i hk
  · refine .ite (.ret hq) <| .advance (.unless nofun <| .ret ⟨?_, ?_⟩)
    · exact left_of_le hs (le_refl q) (by simp [hk]) (lt_after (by simp [hk]))
    · exact hq.trans (Stream.nested_keyword hs hk)
  · exact .ret hq

lemma calmly_checkNewName {base : State} : Quiet m base n p (checkNewName name) := by
  refine .getSymbols ?_
  split
  · exact .fail nofun
  · exact .ret rfl

lemma passes_identifier (hs : m.c.tokens.Sealed) (hk : (m.c.tokens.get p).kind = .identifier) :
    Passes m p (m.c.tokens.after p) :=
  ⟨nested_identifier hs hk, lt_after (by simp [hk])⟩

lemma declares_declareEnumValue (ht : Lexical m) {enum : TypeId} {next : Int32} :
    Declares m base p (declareEnumValue enum next) fun _ => Passes m p := by
  refine .expectIdentifier fun hk => ?_
  have hname := passes_identifier ht.closed hk
  have hadd {q : Nat} {value : Int32} (hq : Passes m p q) :
      Declares m base q (do
        modifySymbols (·.addConstant (m.c.tokens.get p).lexeme value enum)
        return value) fun _ => Passes m p :=
    (declares_modifySymbols fun _ _ _ h =>
      ⟨h.addConstant, ⟨fun hf => ⟨_, hf, rfl⟩, le_rfl, id⟩⟩).then <| .ret hq
  refine (declares_of_calmly ht fun _ _ _ => calmly_checkNewName).then <| .eat (fun he => ?_)
    fun _ => hadd hname
  refine (declares_of_calmly ht fun _ _ hf => calmly_constantExpression? hf).bind fun r q h => ?_
  split
  · exact hadd ((hname.trans (.token ht.closed he rfl rfl)).trans (h rfl))
  · exact .fail_bind nofun

lemma declares_compileEnum (ht : Lexical m)
    (hk : (m.c.tokens.get p).kind = .keyword .kwEnum) :
    Declares m base p (compileEnum q) fun _ => Passes m p := by
  have hword := passes_keyword ht.closed hk
  refine .unless nofun <| .advance (.expectIdentifier fun hname => ?_)
  have hhead := hword.trans (nested_identifier ht.closed hname)
  refine (declares_of_calmly ht fun _ _ _ => calmly_checkNewName).then ?_
  refine declares_of_calm ht fun s hs _ => .getSymbols (.setSymbols hs (fun hstrict =>
    (hs.ranged hstrict).addType (by simp)) (fun _ => Symbols.extends_addType) (.expect fun ho =>
      ?_))
  generalize hstart : m.c.tokens.after (m.c.tokens.after (m.c.tokens.after p)) = start
  refine Sure.bind (Q := fun _ => m.c.tokens.Nested start) (sure_rounds
    (P := fun _ => m.c.tokens.Nested start) (fun next q hq => .check (fun _ => .ret hq) fun _ =>
      (declares_declareEnumValue ht).bind fun value r h => .eat (fun hcomma => .ret ?_)
        fun _ => .ret (hq.trans h.1)) .refl) fun _ q hq => .expect fun hclose => ?_
  · exact turns_comma ht.closed h.1.1 hcomma (hq.trans (h.1.trans (.token ht.closed hcomma rfl rfl)))
  · subst hstart
    have hbody := (Stream.Ends.intro hq hclose).group ht.closed ho rfl rfl
    exact sure_expect.mono fun h => passes_semicolon ht.closed (hhead.trans hbody).1 h.1 h.2

lemma declares_compileExport (ht : Lexical m)
    (hk : (m.c.tokens.get p).kind = .keyword .kwExport) :
    Declares m base p (compileExport q) fun _ => Passes m p := by
  have hword := passes_keyword ht.closed hk
  refine .unless nofun <| .advance ?_
  refine Sure.bind (sure_repeatWhile (P := m.c.tokens.Nested p) (Q := m.c.tokens.Nested p)
    (fun q hq => .peek (.expectIdentifier fun hname => ?_)) hword.1) fun _ q hq =>
      sure_expect.mono fun h => passes_semicolon ht.closed hq h.1 h.2
  have hitem := hq.trans (nested_identifier ht.closed hname)
  refine Sure.then (declares_of_calmly ht fun _ _ _ => calmly_modify
    fun _ => ⟨rfl, rfl, rfl, rfl, rfl, le_rfl, rfl⟩) <|
    sure_eat (fun hk => ⟨?_, hitem.trans (.token ht.closed hk rfl rfl)⟩) fun _ => hitem
  exact left_of_le ht.closed Stream.le_after (by simp [hk]) (lt_after (by simp [hk]))

/-! ## Parameters -/

section

variable {base : State} {number : Nat}

lemma calmly_parseDefault (hf : Fit m base) :
    Calmly m base n p (parseDefault ty number) fun _ q => m.c.tokens.Nested p q := by
  refine .peek ?_
  split <;> rename_i hk
  · refine .advance (.unless nofun ?_)
    exact .ret (Stream.nested_keyword hf.closed hk)
  · refine .getTypes (.unless nofun <| .advance ?_)
    exact .ret (.token hf.closed hk rfl rfl)
  · refine (calmly_constantExpression? hf).bind fun r q h => sure_textOf.then ?_
    refine (sure_orFail (by nofun)).mono fun ⟨hvalue, hq⟩ => hq ▸ h ?_
    cases r with
    | none => cases hvalue
    | some r => rfl

lemma sure_checkParamType : Sure m I I p (checkParamType ty number) fun _ q => q = p := by
  refine .unless nofun <| .unless nofun ?_
  exact .ite (.fail nofun) <| .ret rfl

lemma calmly_parseParam (hf : Fit m base) :
    Calmly m base n p (parseParam number) fun param q =>
      m.c.tokens.Nested p q ∧ param.ty.Proper := by
  refine (sure_eatWord hf.closed).bind fun isConst q1 h1 => ?_
  refine (calmly_parseType hf.closed).bind fun ty q2 h2 => ?_
  have htype := h1.trans h2.1
  refine .seeKind fun named hnamed => .ite_bind (Q := fun _ => m.c.tokens.Nested p) (fun h => .map
    (sure_expectIdentifier.mono fun hq => ?_)) (fun _ => .ret htype) fun name? q hq => ?_
  · exact hq.2 ▸ htype.trans (nested_identifier hf.closed (hnamed.1 h))
  refine (calmly_arraySuffix hf h2.2).bind fun ty r hr => sure_checkParamType.then ?_
  refine .eat (fun he => ?_) fun _ => .ret ⟨hq.trans hr.1, hr.2⟩
  have hequal := (hq.trans hr.1).trans (.token hf.closed he rfl rfl)
  exact Sure.bind (.map (calmly_parseDefault hf)) fun _ _ h => .ret ⟨hequal.trans h, hr.2⟩

lemma calmly_structNamed : Calmly m base n p (structNamed name) fun id q =>
    (base.symbols.types.struct? id).isSome = true ∧ q = p := by
  refine .getSymbols ((sure_orFail (by nofun)).mono fun h => ⟨?_, h.2⟩)
  exact (Option.filter_eq_some_iff.1 h.1).2

lemma calmly_parseExtended (hf : Fit m base) :
    Calmly m base n p parseExtended fun e? q =>
      m.c.tokens.Nested p q ∧ ∀ e ∈ e?, (base.symbols.types.struct? e.struct).isSome = true := by
  refine .seeKind fun isStatic hstatic => .seeKind fun isThis hthis =>
    .dite (fun _ => .ret ⟨.refl, by simp⟩) fun hone => ?_
  have hword : m.c.tokens.Nested p (m.c.tokens.after p) := by
    cases isStatic with
    | true => exact Stream.nested_keyword hf.closed (hstatic.1 rfl)
    | false => exact Stream.nested_keyword hf.closed (hthis.1 (by simpa using hone))
  refine .advance (.expectIdentifier fun hk => calmly_structNamed.with fun struct hs => ?_)
  have hname := hword.trans (nested_identifier hf.closed hk)
  refine .ite (.expect fun hstar => .ret ⟨?_, by simpa using hs⟩) <| .ret ⟨hname, by simpa using hs⟩
  exact hname.trans (.token hf.closed hstar rfl rfl)

lemma calmly_parseParamsFrom (hf : Fit m base) {extended? : Option Extended}
    (he : ∀ e ∈ extended?, (base.symbols.types.struct? e.struct).isSome = true) :
    Calmly m base n p (parseParamsFrom extended?) fun list q =>
      m.c.tokens.Ends .rightParen p q ∧ list.Fits base.symbols := by
  refine sure_rounds (P := fun (params : Array Param) q => m.c.tokens.Nested p q ∧
    ∀ param ∈ params, param.ty.Proper) (fun params q hq => ?_) ⟨.refl, by simp⟩
  refine .eat (fun hdots => .expect fun hc => .ret ?_) fun _ => ?_
  · exact ⟨.intro (hq.1.trans (.token hf.closed hdots rfl rfl)) hc, by simpa using hq.2, he⟩
  · refine (calmly_parseParam hf).bind fun param r h => ?_
    have hparams : ∀ param' ∈ params.push param, param'.ty.Proper := fun param' hmem => by
      rcases Array.mem_push.1 hmem with hmem | rfl
      · exact hq.2 param' hmem
      · exact h.2
    refine .eat (fun hcomma => .ret ?_) fun _ => .expect fun hc => .ret ?_
    · exact turns_comma hf.closed h.1.1 hcomma
        ⟨(hq.1.trans h.1).trans (.token hf.closed hcomma rfl rfl), hparams⟩
    · exact ⟨.intro (hq.1.trans h.1) hc, by simpa using hparams, he⟩

lemma calmly_parseParams (hf : Fit m base) {allowExtended : Bool} :
    Calmly m base n p (parseParams allowExtended) fun list q =>
      Passes m p q ∧ list.Fits base.symbols := by
  refine .expect fun ho => ?_
  have hgroup {q : Nat} (h : m.c.tokens.Ends .rightParen (m.c.tokens.after p) q) : Passes m p q :=
    ⟨h.group hf.closed ho rfl rfl, lt_trans (lt_after (by simp [ho])) h.lt⟩
  have hmore {q : Nat} (hq : m.c.tokens.Nested (m.c.tokens.after p) q) {extended? : Option Extended}
      (he : ∀ e ∈ extended?, (base.symbols.types.struct? e.struct).isSome = true) :
      Calmly m base n q (do
        if ← eat .rightParen then return { extended? : ParamList }
        parseParamsFrom extended?) fun list q => Passes m p q ∧ list.Fits base.symbols :=
    .eat (fun hc => .ret ⟨hgroup (.intro hq hc), by simp, he⟩) fun _ =>
      (calmly_parseParamsFrom hf he).mono fun h => ⟨hgroup (h.1.behind hq), h.2⟩
  refine .ite_bind (Q := fun e? q => m.c.tokens.Nested (m.c.tokens.after p) q ∧
    ∀ e ∈ e?, (base.symbols.types.struct? (Extended.struct e)).isSome = true)
    (fun _ => calmly_parseExtended hf) (fun _ => .ret ⟨.refl, by simp⟩) fun e? q ⟨hq, he⟩ => ?_
  cases e? with
  | none => exact hmore hq he
  | some extended =>
    refine .eat (fun hcomma => ?_) fun _ => .expect fun hc =>
      .ret ⟨hgroup (.intro hq hc), by simp, he⟩
    exact hmore (hq.trans (.token hf.closed hcomma rfl rfl)) he

lemma sure_currentLine : Sure m I I p currentLine fun _ q => q = p :=
  ⟨fun _ hs hp => ⟨hs, hp⟩⟩

lemma sure_currentSection : Sure m I I p currentSection fun _ q => q = p :=
  ⟨fun _ hs hp => ⟨hs, hp⟩⟩

lemma calmly_checkGlobalName (hf : Fit m base) {imported : Bool} :
    Quiet m base n p (checkGlobalName name ty imported) := by
  refine .getSymbols ?_
  split
  · exact .ret rfl
  · next id hid =>
    refine (calmly_globalAt fun hs => (hf.symbols hs).resolves hid).with fun v _ => ?_
    refine .unless nofun <| .get fun _ _ => .unless nofun ?_
    exact .getOptions (.ite (.fail nofun) <| .ret rfl)
  · exact .fail nofun

lemma sure_initialText [Placeless I] (hs : m.c.tokens.Sealed) :
    Sure m I I p (initialText name) fun _ q => m.c.tokens.Nested p q := by
  refine .peek ?_
  split <;> rename_i hk
  · refine .advance (.unless nofun ?_)
    exact .ret (.token hs hk rfl rfl)
  · exact .fail nofun

lemma calmly_initialNumber (hf : Fit m base) :
    Calmly m base n p (initialNumber ty name) fun _ q => m.c.tokens.Nested p q := by
  refine (calmly_constantExpression? hf).bind fun r q h => ?_
  refine (sure_orFail (by nofun)).with fun (value, _) hvalue => ?_
  have hend := h (by simp [hvalue])
  dsimp only
  split
  · exact .ret hend
  · exact .fail nofun
  · refine .ite (sure_textOf.then <| .fail_bind nofun) ?_
    exact .getTypes (.ret hend)
  · exact sure_textOf.then <| .fail nofun

lemma calmly_initialValue (hf : Fit m base) :
    Calmly m base n p (initialValue ty name) fun r q =>
      m.c.tokens.Nested p q ∧ (r.2.isSome = true → ty.isScalar = true) := by
  refine .unless nofun <| .require nofun fun hscalar => .ite ?_ ?_
  · exact (sure_initialText hf.closed).bind fun _ _ h => .ret ⟨h, by simp⟩
  · exact (calmly_initialNumber hf).bind fun _ _ h => .ret ⟨h, fun _ => by simp_all⟩

end

lemma declares_declareGlobal (ht : Lexical m) (hty : ty.Proper) :
    Declares m base p (declareGlobal q ty name) fun _ q => m.c.tokens.Nested p q := by
  have hadd {p : Nat} {v : GlobalVar} (hv : v.ty = ty)
      (hvalue : v.value?.isSome = true → ty.isScalar = true) :
      Declares m base p (modifySymbols (·.addGlobal v)) fun _ q => q = p :=
    declares_modifySymbols fun _ _ _ h =>
      ⟨h.addGlobal (hv ▸ hty) (hv ▸ hvalue), Symbols.extends_addGlobal⟩
  refine (declares_of_calmly ht fun _ _ _ => calmly_checkVariableType).then <|
    sure_currentLine.then @fun line => ?_
  refine (declares_of_calmly ht fun _ _ hf => calmly_checkGlobalName hf).then ?_
  refine .ite (.check (fun _ => .fail_bind nofun) fun _ => ?_) ?_
  · exact (hadd rfl (by simp)).mono fun h => h ▸ .refl
  · refine sure_getTypes.then @fun types => Sure.eat_bind (Q := fun r q =>
      m.c.tokens.Nested p q ∧ (r.2.isSome = true → ty.isScalar = true)) (fun he => ?_)
      (fun _ => .ret ⟨.refl, by simp⟩) fun r q h => ?_
    · refine (declares_of_calmly ht fun _ _ hf => calmly_initialValue hf).mono fun h => ⟨?_, h.2⟩
      exact (Stream.Nested.token ht.closed he rfl rfl).trans h.1
    · refine (declares_of_calmly ht fun _ _ _ => calmly_updateScript fun _ => le_rfl).then ?_
      exact (hadd rfl fun hv => h.2 (Option.isSome_of_isSome_filter _ _ hv)).mono fun hq => hq ▸ h.1

end Gen.Safety
end AdventureScript
