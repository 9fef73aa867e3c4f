import AdventureScript.Proofs.Safety.Declaration

/-!
Structs. What is changed is a struct, as structs are never taken away.
-/
namespace AdventureScript.Gen.Safety

variable {β : Type} {m : Mode} {base symbols : Symbols} {n p : Nat} {T : β → Nat → Prop} {ty : Ty}
  {name member : String} {q : Qualifiers} {struct : TypeId} {f : FuncDef} {k : FuncId → Gen β}

def IsStruct (m : Mode) (symbols : Symbols) (struct : TypeId) : Prop :=
  m.strict → (symbols.types.struct? struct).isSome = true

lemma IsStruct.extend (h : IsStruct m base struct)
    (he : m.strict → base.Extends symbols) : IsStruct m symbols struct :=
  fun hs => (he hs).isStruct (h hs)

lemma declares_changeStruct (hstruct : IsStruct m base struct) {change : String}
    {f : StructDef → StructDef} (hflags : ∀ d, (f d).flags = d.flags)
    (hmembers : m.strict → ∀ {symbols}, base.Extends symbols → ∀ d, ∀ c ∈ (f d).members,
      c ∈ d.members ∨ symbols.Offers c.component) :
    Declares m base p (changeStruct struct change f) fun _ q => q = p := by
  refine ⟨fun s hs hp => ?_⟩
  rw [changeStruct, meets_bind, meets_of_runs (runs_getTypes.2 ⟨rfl, rfl⟩)]
  by_cases hnone : (s.symbols.types.struct? struct).isNone = true
  · rw [if_pos hnone, meets_bind]
    refine fun hstrict => ?_
    have := (hs.grown hstrict).isStruct (hstruct hstrict)
    simp_all
  · rw [if_neg hnone]
    exact (declares_modifySymbols fun hstrict _ hgrown h =>
      ⟨h.modifyStruct hflags (hmembers hstrict hgrown), Symbols.extends_modifyStruct hflags⟩).run s
        hs hp

/-! ## Members -/

lemma calmly_checkNewComponent {base : State} :
    Quiet m base n p (checkNewComponent struct member) := by
  refine .getTypes ?_
  split
  · exact .fail nofun
  · exact .ret rfl

section

variable (ht : Lexical m) (hstruct : IsStruct m base struct)
include ht hstruct

lemma Sure.addMemberFunction (hf : f.Proper)
    (hname : m.strict → f.shortName = member) (hobject : f.needsObject = true → ':' ∈ f.name.toList)
    (h : ∀ id symbols, (m.strict → base.Extends symbols ∧ symbols.Callable id (f.needsObject = true)) →
      Declares m symbols p (k id) T) :
    Declares m base p (addMemberFunction struct member f >>= k) T := by
  unfold Gen.addMemberFunction
  simp only [bind_assoc]
  refine (declares_of_calmly ht fun _ _ _ => calmly_checkNewComponent).then ?_
  refine declares_of_calm ht fun s hs hfit => .getSymbols ?_
  split
  · exact .fail_bind nofun
  · split
    · next hmember =>
      exact .bind (Q := fun _ _ => False) (J := Outside m.strict base)
        ⟨fun _ _ _ hstrict => absurd (hname hstrict).symm hmember⟩ fun _ _ => False.elim
    · simp only [bind_assoc, pure_bind]
      have hgrown (hstrict : m.strict) : base.Extends (s.symbols.addFunction f).2 :=
        (hs.grown hstrict).trans Symbols.extends_addFunction
      refine .setSymbols hs (fun hstrict => (hs.ranged hstrict).addFunction hf hobject)
        (fun _ => Symbols.extends_addFunction) ?_
      refine (declares_changeStruct (hstruct.extend hgrown) (fun _ => by rfl) fun _ _ he d =>
        Symbols.offers_add ?_).then <|
        h _ _ fun hstrict => ⟨hgrown hstrict, Symbols.callable_addFunction⟩
      exact he.lt_size Symbols.callable_addFunction.lt_size

lemma declares_addMemberFunction (hf : f.Proper)
    (hname : m.strict → f.shortName = member) (hobject : f.needsObject = true → ':' ∈ f.name.toList) :
    Declares m base p (addMemberFunction struct member f) fun _ q => q = p := by
  have hrun : Declares m base p (addMemberFunction struct member f >>= pure) fun _ q => q = p :=
    .addMemberFunction ht hstruct hf hname hobject fun _ _ _ => .ret rfl
  simpa using hrun

omit ht hstruct in
lemma calmly_checkFieldType {base : State} : Quiet m base n p (checkFieldType ty name) := by
  refine .unless nofun ?_
  refine .ite (calmly_structOf?.then @fun s => ?_) <| .ret rfl
  split
  · refine .unless nofun ?_
    exact .ite (.fail nofun) <| .ret rfl
  · exact .ret rfl

omit ht hstruct in
lemma offers_addField {d : StructDef} {size : UInt32} {access : Access}
    (hty : ty.Proper) : ∀ e ∈ (d.addField member ty size access).members,
      e ∈ d.members ∨ symbols.Offers e.component :=
  Symbols.offers_add (d := { d with size := d.size + size }) (c := .field ⟨ty, d.size, access⟩) hty

section

variable (hty : ty.isStaticArray = false)
include hty

lemma declares_declareField :
    Declares m base p (declareField struct q ty name) fun _ q => m.c.tokens.Nested p q := by
  refine .unless nofun <| .unless nofun ?_
  refine (declares_of_calmly ht fun _ _ hf => calmly_arraySuffix hf hty).bind fun ty r h => ?_
  refine (declares_of_calmly ht fun _ _ _ => calmly_checkFieldType).then <| sure_getTypes.then ?_
  exact (declares_changeStruct hstruct (fun _ => by rfl) fun _ _ _ _ => offers_addField h.2).mono
    fun hq => hq ▸ h.1

lemma declares_declareMemberFunction (hname : m.strict → ':' ∉ name.toList) :
    Declares m base p (declareMemberFunction struct q ty name) fun _ => Passes m p := by
  refine .unless nofun <| sure_currentLine.then @fun line => ?_
  refine (declares_of_calmly (Q := fun list q => Passes m p q ∧ ∀ param ∈ ParamList.params list,
    param.ty.Proper) ht fun _ _ hf => (calmly_parseParams hf).mono fun h => ⟨h.1, h.2.params⟩).bind
      fun list r h => sure_getTypes.then @fun types => sure_currentSection.then ?_
  refine (declares_addMemberFunction ht hstruct ⟨hty, h.2⟩ (fun hs => ?_) fun _ => ?_).then <|
    sure_expect.mono fun h' => passes_semicolon ht.closed h.1.1 h'.1 h'.2
  · exact FuncDef.shortName_eq rfl (hname hs)
  · simp

lemma Sure.addAccessor {isStatic : Bool}
    {params : List Ty} (hparams : ∀ t ∈ params, t.Proper)
    (hname : m.strict → ':' ∉ member.toList)
    (h : ∀ id symbols, (m.strict → base.Extends symbols ∧ symbols.Callable id (isStatic = false)) →
      Declares m symbols p (k id) T) :
    Declares m base p (addAccessor struct isStatic member ty params >>= k) T := by
  unfold Gen.addAccessor
  simp only [bind_assoc]
  refine sure_getTypes.then @fun types => sure_currentLine.then @fun line =>
    sure_currentSection.then <| .addMemberFunction ht hstruct ⟨hty, ?_⟩ (fun hs => ?_)
      (fun _ => ?_) fun id symbols hsymbols => h id symbols fun hs => ?_
  · simpa using hparams
  · exact FuncDef.shortName_eq rfl (hname hs)
  · simp
  · exact ⟨(hsymbols hs).1, (hsymbols hs).2.mono fun hobject =>
      by simpa [FuncDef.needsObject] using hobject⟩

lemma declares_declareAttribute (hname : m.strict → ':' ∉ name.toList) :
    Declares m base p (declareAttribute struct q ty name) fun _ q => m.c.tokens.Nested p q := by
  refine .unless nofun <| .unless nofun <| .atEmptyBrackets fun indexed hempty => ?_
  extract_lets -underBinder rest
  have hrest {r : Nat} : Declares m base r (rest ()) fun _ q => q = r := by
    have hindex : ∀ t ∈ (if indexed then [Ty.int] else []), t.Proper := by
      cases indexed <;> simp [Ty.Proper, Ty.int]
    have haccessor {verb : String} (hverb : ':' ∉ verb.toList) (hs : m.strict) :
        ':' ∉ ((if indexed then verb ++ "i_" else verb ++ "_") ++ name).toList := by
      cases indexed <;> simp [hverb, hname hs]
    refine .addAccessor ht hstruct hty hindex (haccessor (by decide)) fun getter symbols hgetter => ?_
    have hstruct' := hstruct.extend fun hs => (hgetter hs).1
    split
    · refine declares_changeStruct hstruct' (fun _ => by rfl) fun hs _ he _ =>
        Symbols.offers_add ⟨hty, ?_, by simp⟩
      exact (hgetter hs).2.extend he
    · simp only [bind_map_left]
      refine .addAccessor ht hstruct' rfl (fun t hmem => ?_) (haccessor (by decide))
        fun setter symbols' hsetter => ?_
      · rcases List.mem_append.1 hmem with hmem | hmem
        · exact hindex t hmem
        · exact List.mem_singleton.1 hmem ▸ .of_not_static hty
      · refine declares_changeStruct (hstruct'.extend fun hs => (hsetter hs).1) (fun _ => by rfl)
          fun hs _ he _ => Symbols.offers_add ⟨hty, ((hgetter hs).2.extend (hsetter hs).1).extend he, ?_⟩
        simpa using (hsetter hs).2.extend he
  refine .dite (fun h => .advance (.advance (hrest.mono fun hq => hq ▸ ?_))) fun _ =>
    hrest.mono fun h => h ▸ .refl
  exact .emptyBrackets ht.closed (hempty h).1 (hempty h).2

end

omit ht hstruct in
lemma sure_checkMemberQualifiers {I : State → Prop} :
    Sure m I I p (checkMemberQualifiers q) fun _ q => q = p := by
  unfold checkMemberQualifiers
  cases q.structOnly? with
  | some word => exact .fail_bind nofun
  | none =>
    refine .unless nofun ?_
    exact .ite (.fail nofun) <| .ret rfl

lemma declares_declareMembers :
    Declares m base p (declareMembers struct) fun _ => Passes m p := by
  refine (sure_qualifiers ht.closed).bind fun words q1 h1 => sure_checkMemberQualifiers.then ?_
  refine (declares_of_calmly ht fun _ _ _ => calmly_parseType ht.closed).bind fun ty q2 h2 => ?_
  refine Sure.bind (Q := fun closed q => m.c.tokens.Nested p q ∧ (closed = true → p < q))
    (sure_rounds (P := fun _ => m.c.tokens.Nested p) (fun _ r hr => .expectIdentifier fun hk => ?_)
      (h1.trans h2.1)) fun closed r h => ?_
  · have hname := passes_identifier ht.closed hk
    have hplain (hs : m.strict) := ht.words hs r hk
    have hnext {r' : Nat} (h : m.c.tokens.Nested (m.c.tokens.after r) r') :
        Declares m base r' (do return if ← eat .comma then .again () else .done false)
          (Turns m r (fun _ => m.c.tokens.Nested p) fun closed q =>
            m.c.tokens.Nested p q ∧ (closed = true → p < q)) := by
      have hend := hr.trans (hname.trans h).1
      refine .eat (fun hcomma => .ret ?_) fun _ => .ret ⟨hend, by simp⟩
      exact turns_comma ht.closed (hname.trans h).1.1 hcomma
        (hend.trans (.token ht.closed hcomma rfl rfl))
    refine (declares_of_calmly ht fun _ _ _ => calmly_checkNewComponent).then <|
      .check (fun _ => ?_) fun _ => ?_
    · refine .unless nofun ?_
      refine (declares_declareMemberFunction ht hstruct h2.2 hplain).bind fun _ r' h => .ret ?_
      exact ⟨hr.trans (hname.trans h.1).1, fun _ => lt_of_le_of_lt hr.1 (hname.trans h.1).2⟩
    · exact .ite_bind (fun _ => declares_declareAttribute ht hstruct h2.2 hplain)
        (fun _ => declares_declareField ht hstruct h2.2) fun _ _ h => hnext h
  · cases closed with
    | true => exact .ret ⟨h.1, h.2 rfl⟩
    | false => exact sure_expect.mono fun h' => passes_semicolon ht.closed h.1 h'.1 h'.2

omit ht hstruct in
lemma Sure.openStruct (ht : Lexical m) {k : TypeId → Gen β}
    (h : ∀ id symbols, (m.strict → base.Extends symbols) → IsStruct m symbols id →
      Declares m symbols p (k id) T) :
    Declares m base p (openStruct q name >>= k) T := by
  refine declares_of_calm ht fun s hs _ => ?_
  unfold Gen.openStruct
  simp only [bind_assoc]
  refine .getSymbols ?_
  split
  · next id hid =>
    cases hd : s.symbols.types.struct? id with
    | none => exact .fail_bind nofun
    | some d =>
      dsimp only
      split
      · rw [bind_assoc]
        exact .fail_bind nofun
      · split
        · rw [bind_assoc]
          exact .fail_bind nofun
        · exact .resume hs (h id s.symbols hs.grown fun _ => by simp [hd])
  · exact .fail_bind nofun
  · simp only [bind_assoc, pure_bind]
    refine .setSymbols hs (fun hstrict => (hs.ranged hstrict).addType ?_)
      (fun _ => Symbols.extends_addType) (h _ _ (fun hstrict => ?_) fun _ => ?_)
    · rintro _ ⟨⟩
      rfl
    · exact (hs.grown hstrict).trans Symbols.extends_addType
    · exact Option.isSome_iff_exists.2 ⟨_, TypeTable.struct?_add_self⟩

lemma declares_extendStruct {managed : Bool} :
    Declares m base p (extendStruct struct name managed) fun _ => Passes m p := by
  refine .expectIdentifier fun hk => sure_getSymbols.then @fun symbols => ?_
  refine (sure_orFail (by nofun)).with fun (parent, d) _ => .unless nofun <| .unless nofun ?_
  refine (declares_changeStruct hstruct (fun _ => by rfl) ?_).mono fun h => h ▸ passes_identifier ht.closed hk
  exact fun _ _ _ _ _ => .inl

lemma declares_structBody : Declares m base p (structBody struct name) fun _ => Passes m p := by
  refine .expect fun ho => ?_
  refine Sure.bind (Q := fun _ =>
    m.c.tokens.Ends .rightBrace (m.c.tokens.after p)) (sure_repeatWhile
    (P := m.c.tokens.Nested (m.c.tokens.after p)) (fun r hr => .eat (fun hc => .ret ?_) fun _ =>
      .atEnd (fun _ => .fail_bind nofun) fun hend => ?_) .refl) fun _ r hr => ?_
  · exact .intro hr hc
  · refine (declares_declareMembers ht hstruct).bind fun _ r' h => .ret ⟨?_, hr.trans h.1⟩
    exact left_of_le ht.closed (le_refl r) hend h.2
  · refine .expect fun hsemicolon => ?_
    have hgroup := hr.group ht.closed ho rfl rfl
    refine (declares_modifySymbols fun _ _ _ h =>
      ⟨h.modifyStruct (fun _ => by rfl) ?_, Symbols.extends_modifyStruct fun _ => by rfl⟩).mono fun h =>
        passes_semicolon ht.closed hgroup hsemicolon h
    exact fun _ _ => .inl

end

lemma declares_compileStruct (ht : Lexical m)
    (hk : (m.c.tokens.get p).kind = .keyword .kwStruct) :
    Declares m base p (compileStruct q) fun _ => Passes m p := by
  have hword := passes_keyword ht.closed hk
  unfold compileStruct
  cases q.notOnStruct? with
  | some word => exact .fail_bind nofun
  | none =>
    refine .unless nofun <| .advance (.expectIdentifier fun hname => ?_)
    have hhead := hword.trans (nested_identifier ht.closed hname)
    refine .openStruct ht fun id symbols _ hstruct => .eat (fun hsemicolon => ?_) fun _ => ?_
    · rw [if_pos rfl]
      refine .ite (.fail nofun) <| .ret ?_
      exact passes_semicolon ht.closed hhead.1 hsemicolon rfl
    · refine .eatWord (fun hextends => ?_) fun _ =>
        (declares_structBody ht hstruct).mono fun h => hhead.trans h.1
      refine (declares_extendStruct ht hstruct).bind fun _ _ h => ?_
      refine (declares_structBody ht hstruct).mono fun h' => ?_
      exact ((hhead.trans (Stream.nested_keyword ht.closed hextends)).trans h.1).trans h'.1

end AdventureScript.Gen.Safety
