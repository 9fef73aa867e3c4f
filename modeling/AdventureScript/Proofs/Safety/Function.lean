import AdventureScript.Proofs.Safety.Declaration

/-!
Functions. A later declaration of a function changes nothing that calls of it rely on.
-/
namespace AdventureScript

variable {I : State → Prop} {struct? : Option TypeId}

lemma Gen.inheritFrom_proper {earlier f : FuncDef} {membership : Membership}
    (h : ∀ p ∈ f.params, p.ty.Proper) :
    ∀ p ∈ (inheritFrom earlier f membership).params, p.ty.Proper := by
  intro p hp
  obtain ⟨p', hp', hty⟩ : ∃ p' ∈ f.params, p'.ty = p.ty := by
    obtain ⟨⟨p', k⟩, hmem, rfl⟩ : ∃ e ∈ f.params.zipIdx, { e.1 with
        default? := e.1.default?.or (earlier.params[e.2]?.bind (·.default?)) } = p := by
      cases membership <;> exact List.mem_map.1 hp
    exact ⟨p', List.fst_mem_of_mem_zipIdx hmem, rfl⟩
  exact hty ▸ h p' hp'

lemma PendingCalls.size_resolve {calls : PendingCalls} {callee : FuncId} {address : Nat}
    {script : Script} : (calls.resolve callee address script).2.size = script.size := by
  rw [resolve, ← Array.foldl_toList]
  generalize (calls.entries.filter (·.value = callee)).toList = marks
  induction marks generalizing script with
  | nil => rfl
  | cons k marks ih => exact ih.trans (by simp [Script.patch, Script.size])

namespace Gen.Safety

variable {β : Type} {m : Mode} {base : Symbols} {n p : Nat} {T : β → Nat → Prop} {ty : Ty}
  {name : String} {q : Qualifiers} {f : FuncDef} {id : FuncId}

/-! ## Declarations -/

lemma sure_qualifiedName :
    Sure m I I p (qualifiedName struct? name) fun r q =>
      (struct?.isSome = true → ':' ∈ r.toList) ∧ q = p := by
  cases struct? with
  | none => exact .ret ⟨nofun, rfl⟩
  | some id => exact sure_getTypes.then @fun types => .ret ⟨fun _ => by simp, rfl⟩

def Known (m : Mode) (base symbols : Symbols) (id : FuncId) : Prop :=
  m.strict → base.Extends symbols ∧ id.index < symbols.functions.size

section

variable (ht : Lexical m) (hf : f.Proper) (hobject : f.needsObject = true → ':' ∈ f.name.toList)
  {membership : Membership} {hasBody : Bool}
include ht hf hobject

lemma Sure.addFunction {k : FuncId → Gen β}
    (h : ∀ id symbols, Known m base symbols id → Declares m symbols p (k id) T) :
    Declares m base p (addFunction f name >>= k) T := by
  unfold Gen.addFunction
  simp only [bind_assoc, pure_bind]
  refine declares_of_calm ht fun s hs _ => .getSymbols ?_
  have hranged (hstrict : m.strict) := (hs.ranged hstrict).addFunction hf hobject
  have hlt := (@Symbols.callable_addFunction s.symbols f).lt_size
  cases f.structOf with
  | none =>
    refine .setSymbols hs hranged (fun _ => Symbols.extends_addFunction) (h _ _ fun hstrict => ?_)
    exact ⟨(hs.grown hstrict).trans Symbols.extends_addFunction, hlt⟩
  | some struct =>
    have hgrown := (@Symbols.extends_addFunction s.symbols f).trans
      (@Symbols.extends_modifyStruct struct _ (·.add name (.function (s.symbols.addFunction f).1))
        fun _ => rfl)
    refine .setSymbols hs (fun hstrict => (hranged hstrict).modifyStruct (fun _ => rfl) fun d =>
      Symbols.offers_add hlt)
      (fun _ => hgrown) (h _ _ fun hstrict => ⟨(hs.grown hstrict).trans hgrown, hlt⟩)

lemma Sure.declareNew {k : FuncId → Gen β}
    (h : ∀ id symbols, Known m base symbols id → Declares m symbols p (k id) T) :
    Declares m base p (declareNew f membership name >>= k) T := by
  unfold Gen.declareNew
  simp only [bind_assoc]
  refine sure_getTypes.then @fun types => ?_
  cases membership with
  | member struct => exact .fail_bind nofun
  | extender struct isStatic =>
    dsimp only
    split
    · rw [bind_assoc]
      exact .fail_bind nofun
    · exact .addFunction ht hf hobject h
  | free => exact .addFunction ht hf hobject h

omit ht hf hobject in
lemma calmly_checkRedeclared {base : State} {earlier : FuncDef} :
    Quiet m base n p (checkRedeclared earlier f hasBody) := by
  refine .ite ?_ <| .ite (.fail nofun) <| .ret rfl
  refine .unless nofun <| .getOptions ?_
  refine .unless nofun <| .get fun _ _ => ?_
  exact .ite (.fail nofun) <| .ret rfl

omit ht hf hobject in
lemma declares_declareAgain (ht : Lexical m) (hf : f.Proper)
    (hid : m.strict → id.index < base.functions.size) :
    Declares m base p (declareAgain id f hasBody membership) fun _ q => q = p := by
  refine (declares_of_calmly ht fun s hs _ => (calmly_functionAt fun hstrict =>
    (hs.grown hstrict).lt_size (hid hstrict)).mono And.right).then @fun earlier =>
      sure_getTypes.then @fun types => ?_
  have hparams := @inheritFrom_proper earlier f membership hf.params
  dsimp only
  split
  · exact .fail_bind nofun
  · refine (declares_of_calmly ht fun _ _ _ => calmly_checkRedeclared).then <|
      declares_modifySymbols fun _ _ _ h => ⟨(h.modifyFunction ?_ fun g hg => ?_).noteImport,
        .trans (Symbols.extends_modifyFunction ?_) Symbols.extends_noteImport⟩
    · exact fun _ => rfl
    · refine ⟨hg.result, ?_⟩
      cases hasBody with
      | true => exact hparams
      | false => exact hg.params
    · exact fun _ => rfl

lemma Sure.declareFunction {k : FuncId → Gen β}
    (h : ∀ id symbols, Known m base symbols id → Declares m symbols p (k id) T) :
    Declares m base p (declareFunction f hasBody membership name >>= k) T := by
  unfold Gen.declareFunction
  simp only [bind_assoc]
  refine declares_of_calm ht fun s hs _ => .getSymbols ?_
  split
  · exact .resume hs (.declareNew ht hf hobject fun id symbols hid => h id symbols fun hstrict =>
      ⟨(hs.grown hstrict).trans (hid hstrict).1, (hid hstrict).2⟩)
  · next id hid =>
    simp only [bind_assoc, pure_bind]
    have hlt (hstrict : m.strict) := ((hs.ranged hstrict).resolves hid).lt_size
    exact .resume hs ((declares_declareAgain ht hf hlt).then <| h id s.symbols fun hstrict =>
      ⟨hs.grown hstrict, hlt hstrict⟩)
  · exact .fail_bind nofun

end

/-! ## Bodies -/

lemma Sure.startFunction (ht : Lexical m) (hid : m.strict → id.index < base.functions.size)
    {k : FuncDef → Gen β}
    (h : ∀ t f, Inside m t → (m.strict → base.Extends t.symbols) → (m.strict → f.Proper) →
      Sure m (Settled m.strict t 0 0) (Outside m.strict base) p (k f) T) :
    Declares m base p (startFunction id >>= k) T := by
  refine ⟨fun s hs hp => ?_⟩
  unfold Gen.startFunction
  simp only [bind_assoc, meets_bind]
  rw [meets_of_runs (runs_codeSize.2 ⟨rfl, rfl⟩), modifySymbols, meets_modify, meets_get]
  have hs1 : Outside m.strict base { s with symbols := s.symbols.modifyFunction id fun f =>
      { f with hasBody := true, isImport := false, codeOffset := some s.script.size } } :=
    hs.declare (fun hstrict => (hs.ranged hstrict).modifyFunction (fun _ => rfl) fun _ hf =>
      ⟨hf.result, hf.params⟩) fun _ => Symbols.extends_modifyFunction fun _ => rfl
  generalize hchange : ({ s with symbols := s.symbols.modifyFunction id _ } : State) = s1 at hs1 ⊢
  have hsize : s1.script.size = s.script.size := by rw [← hchange]
  have hlt (hstrict : m.strict) := (hs1.grown hstrict).lt_size (hid hstrict)
  split
  · next hcalls =>
    refine fun hstrict => absurd hcalls ?_
    have hwithin : s1.calls.areWithin id s.script.size = true := by
      simp only [PendingCalls.areWithin, Array.all_eq_true_iff_forall_mem, Bool.or_eq_true]
      exact fun k hk => .inr (decide_eq_true (hsize ▸ (hs1.calls hstrict k hk).1))
    simp [hwithin]
  · rw [meets_bind, meets_modify]
    generalize hstart : ({ s1 with
      calls := (s1.calls.resolve id s.script.size s1.script).1
      script := (s1.calls.resolve id s.script.size s1.script).2
      function? := some id, scope := {}, nesting := [], localBytes := 0, callBytes := 0 } : State) = t
    have hsymbols : t.symbols = s1.symbols := by rw [← hstart]
    have hpos : t.pos = p := by rw [← hstart, ← hchange, ← hp]
    have hi : Inside m t := {
      toLexical := ht
      symbols := fun hstrict => hsymbols ▸ hs1.ranged hstrict
      function? := fun hstrict => by
        rw [hsymbols, ← hstart]
        simpa using hlt hstrict
      running := fun _ => by rw [← hstart]; rfl }
    have hsettled : Settled m.strict t 0 0 t := {
      symbols := rfl
      function? := rfl
      size_le := Nat.zero_le _
      calls := fun hstrict k hk => by
        rw [← hstart] at hk ⊢
        have hmem : k ∈ s1.calls.entries := (Array.mem_filter.1 hk).1
        exact ⟨PendingCalls.size_resolve.symm ▸ (hs1.calls hstrict k hmem).1,
          (hs1.calls hstrict k hmem).2⟩
      scope := fun _ => by
        rw [← hstart]
        simp [Scope.Proper]
      nesting := fun _ => by rw [← hstart]; rfl
      jumps := fun _ => by
        rw [← hstart]
        simp }
    have hgrown (hstrict : m.strict) := hsymbols ▸ hs1.grown hstrict
    have hemit {op : Opcode} {operands : List Int32} : Settles m t 0 0 p (emit op operands) fun _ q => q = p :=
      settles_of_quiet hi.toGround calmly_emit
    rw [← meets_bind]
    refine Sure.run (I := Settled m.strict t 0 0) ?_ t hsettled hpos
    simp only [bind_assoc]
    refine Sure.with (V := fun f => m.strict → f.Proper) (settles_of_calmly hi.toGround
      fun t' _ _ ht' _ => (calmly_functionAt fun hstrict => ?_).mono fun h => ⟨fun hstrict =>
        ?_, h.2⟩)
      fun f hf => ?_
    · rw [ht', hsymbols]
      exact hlt hstrict
    · exact (hi.symbols hstrict).functions _ (Array.mem_of_getElem? (ht' ▸ h.1))
    · refine hemit.then @fun _ => ?_
      split
      · exact hemit.then <| h t f hi hgrown hf
      · exact h t f hi hgrown hf

lemma settles_declareParam {base : State} {depth : Nat} (hg : Ground m base) {param : Param}
    {index : Nat} (hty : m.strict → param.ty.Proper) :
    Settles m base depth n p (declareParam param index) fun _ q => q = p := by
  unfold declareParam
  extract_lets offset rest
  have hname : Settles m base depth n p (rest ()) fun _ q => q = p := by
    dsimp only [rest]
    cases param.name with
    | none => exact .ret rfl
    | some name =>
      refine .get fun s hs => ?_
      unfold Scope.declare
      split
      · next scope heq =>
        split at heq
        · cases heq
        · cases heq
          exact settles_of_still hg fun _ _ _ _ _ => ⟨fun t ht hp => ⟨{ ht with
            calls := fun h => (ht.calls h).grow rfl rfl le_rfl
            scope := fun h => (hs.scope h).add (hty h) }, hp⟩⟩
      · exact .fail nofun
  have hcalm {x : Gen Unit} (h : ∀ s n, Quiet m s n p x) :
      Settles m base depth n p x fun _ q => q = p :=
    settles_of_calmly hg fun _ _ _ _ _ => h _ _
  refine .ite ?_ hname
  exact (hcalm fun _ _ => calmly_loadLocal).then <| (hcalm fun _ _ => calmly_emitRegs).then
    <| (hcalm fun _ _ => calmly_emitRegs).then hname

lemma calmly_endFunction {base : State} : Quiet m base n p (endFunction ty) := by
  refine calmly_releaseHandles.then <| .get fun _ _ => calmly_release.then ?_
  exact .ite (calmly_litToReg.then calmly_emit) calmly_emit

lemma declares_compileBody (ht : Lexical m) (hid : m.strict → id.index < base.functions.size)
    (hk : (m.c.tokens.get p).kind = .symbol .leftBrace) :
    Declares m base p (compileBody id) fun _ => Passes m p := by
  refine .getPos (sure_codeSize.then @fun start => .startFunction ht hid fun t f hi hgrown hf => ?_)
  have hg := hi.toGround
  have hblock {r : Nat} : Settles m t 0 0 r enterBlock fun _ q => q = r :=
    settles_of_still hg fun _ _ _ _ _ => still_enterBlock
  refine hblock.then <| Sure.then (sure_forM (P := (· = p)) (fun (param, index) hmem r hr =>
    ?_) rfl)
    <| hblock.then ?_
  · exact (settles_declareParam hg fun hstrict => (hf hstrict).params param
      (List.fst_mem_of_mem_zipIdx hmem)).mono fun h => h.trans hr
  refine (settles_of_quiet hg calmly_forgetLine).then <| .expect fun _ => ?_
  have hopen : p < m.c.tokens.after p := lt_after (by simp [hk])
  have hst : Steady m t p statement := fun _ => settles_statement hi
  refine (settles_compileUntilBrace hg hst (fun _ => hopen) (by nofun)).bind fun _ r h => ?_
  have hpasses : Passes m p r := ⟨h.group hg.closed hk rfl rfl, lt_trans hopen h.lt⟩
  have hend {f : State → Array Body} : Sure m (Settled m.strict t 0 0) (Outside m.strict base) r
      (modify fun s => { s with function? := none, scope := {}, bodies := f s }) fun _ =>
        Passes m p :=
    ⟨fun s hs hp => ⟨{
      ranged := fun hstrict => hs.symbols ▸ hi.symbols hstrict
      grown := fun hstrict => hs.symbols ▸ hgrown hstrict
      calls := fun hstrict => (hs.calls hstrict).grow rfl rfl le_rfl
      scope := fun _ => by simp [Scope.Proper]
      function? := fun _ => rfl }, hp ▸ hpasses⟩⟩
  have hcalm {x : Gen Unit} (h : ∀ s n, Calmly m s n r x fun _ q => q = r) :
      Settles m t 0 0 r x fun _ q => q = r :=
    settles_of_calmly hg fun _ _ _ _ _ => h _ _
  refine (settles_of_quiet hg calmly_isReachable).then @fun reachable => ?_
  refine .ite (.ite ?_ ?_) hend
  · exact (hcalm fun _ _ => calmly_warn).then <| (hcalm fun _ _ => calmly_endFunction).then hend
  · exact (hcalm fun _ _ => calmly_endFunction).then hend

lemma sure_checkReturnType :
    Sure m I I p (checkReturnType ty name) fun _ q => ty.isStaticArray = false ∧ q = p := by
  refine .unless nofun ?_
  refine .dite (fun _ => .fail nofun) fun h => .ret ⟨?_, rfl⟩
  simpa using h

lemma declares_compileFunction (ht : Lexical m) :
    Declares m base p (compileFunction q ty name struct?) fun _ => Passes m p := by
  refine sure_currentLine.then @fun line => sure_checkReturnType.with fun _ hty => ?_
  refine (declares_of_calmly (Q := fun list q => Passes m p q ∧ ∀ param ∈ ParamList.params list,
    param.ty.Proper) ht fun _ _ hf => (calmly_parseParams hf).mono fun h => ⟨h.1, h.2.params⟩).bind
      fun list r h => ?_
  refine sure_qualifiedName.with fun fullName hname => sure_currentSection.then @fun _ => ?_
  have hobject {f : FuncDef} (h : f.needsObject = true) : f.structOf.isSome = true := by
    simp_all [FuncDef.needsObject]
  refine .seeKind fun hasBody hbrace => .unless (by rintro ⟨⟩) <| .unless (by rintro ⟨⟩) <|
    .declareFunction ht ⟨hty, h.2⟩ (fun h => hname (hobject h)) fun id symbols hid =>
      .dite (fun hb => ?_) fun _ => ?_
  · exact (declares_compileBody ht (fun hstrict => (hid hstrict).2) (hbrace.1 hb)).mono fun h' =>
      h.1.trans h'.1
  · exact sure_expect.mono fun h' => passes_semicolon ht.closed h.1.1 h'.1 h'.2

end Gen.Safety
end AdventureScript
