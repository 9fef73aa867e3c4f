import AdventureScript.Proofs.Program.Basic
import AdventureScript.Proofs.Safety.Function
import AdventureScript.Proofs.Safety.Struct

/-!
Whole programs. Every declaration ends behind its start, so that a program is compiled to its end, and
no error is one of the compiler itself.
-/
namespace AdventureScript.Gen.Safety

variable {β : Type} {m : Mode} {base : Symbols} {n p : Nat} {name source : String} {q : Qualifiers}
  {tag offset : UInt32} {tokens : Stream}

/-! ## Declarations -/

lemma declares_compileTyped (ht : Lexical m) :
    Declares m base p (compileTyped q) fun _ => Passes m p := by
  refine (declares_of_calmly ht fun _ _ _ => calmly_parseType ht.closed).bind fun ty q1 h1 => ?_
  refine Sure.bind (Q := fun closed q => m.c.tokens.Nested p q ∧ (closed = true → p < q))
    (sure_rounds (P := fun _ => m.c.tokens.Nested p) (fun _ r hr => .expectIdentifier fun hk => ?_)
      h1.1) fun closed r h => ?_
  · have hname := passes_identifier ht.closed hk
    have hfunction {r' : Nat} (h : m.c.tokens.Nested r r') {member : String} {struct? : Option TypeId} :
        Declares m base r' (compileFunction q ty member struct?) fun _ => Passes m p :=
      (declares_compileFunction ht).mono fun h' => ⟨hr.trans (h.trans h'.1),
        lt_of_le_of_lt (le_trans hr.1 h.1) h'.2⟩
    refine .eat (fun hscope => .expectIdentifier fun hmember => ?_) fun _ => .check (fun _ =>
      ?_) fun _ => ?_
    · refine (declares_of_calmly ht fun _ _ _ => calmly_structNamed.mono And.right).then <|
        (hfunction ?_).bind fun _ _ h => .ret ⟨h.1, fun _ => h.2⟩
      exact hname.1.trans ((Stream.Nested.token ht.closed hscope rfl rfl).trans
        (nested_identifier ht.closed hmember))
    · exact (hfunction hname.1).bind fun _ _ h => .ret ⟨h.1, fun _ => h.2⟩
    · refine .unless nofun ?_
      refine (declares_of_calmly ht fun _ _ hf =>
        calmly_arraySuffix hf h1.2).bind fun ty' r1 h2 => ?_
      refine (declares_declareGlobal ht h2.2).bind fun _ r2 h3 => ?_
      have hitem := hname.trans (h2.1.trans h3)
      refine .eat (fun hcomma => .ret ?_) fun _ => .ret ⟨hr.trans hitem.1, by simp⟩
      exact turns_comma ht.closed hitem.1.1 hcomma
        (hr.trans (hitem.1.trans (.token ht.closed hcomma rfl rfl)))
  · cases closed with
    | true => exact .ret ⟨h.1, h.2 rfl⟩
    | false => exact sure_expect.mono fun h' => passes_semicolon ht.closed h.1 h'.1 h'.2

lemma declares_compileQualified (ht : Lexical m) :
    Declares m base p (compileQualified q) fun _ => Passes m p := by
  refine .checkWord (fun hk => declares_compileStruct ht hk) fun _ => ?_
  cases q.structOnly? with
  | some word => exact .fail_bind nofun
  | none =>
    cases q.memberOnly? with
    | some word => exact .fail_bind nofun
    | none =>
      exact .checkWord (fun hk => declares_compileEnum ht hk) fun _ =>
        .checkWord (fun hk => declares_compileExport ht hk) fun _ => declares_compileTyped ht

lemma declares_compileDeclaration (ht : Lexical m) :
    Declares m base p compileDeclaration fun _ => Passes m p := by
  refine .eat (fun hk => .ret (passes_semicolon ht.closed .refl hk rfl)) fun _ => ?_
  exact (sure_qualifiers ht.closed).bind fun _ _ h => (declares_compileQualified ht).mono fun h' =>
    ⟨h.trans h'.1, lt_of_le_of_lt h.1 h'.2⟩

lemma declares_noteSection (ht : Lexical m) :
    Declares m base p noteSection fun _ q => q = p := by
  refine declares_of_calmly ht fun _ _ _ => .peek (.get fun _ _ => .ite ?_ <| .ret rfl)
  exact .look_at (fun _ => runs_read.2 ⟨rfl, rfl⟩)
    (calmly_modify fun _ => ⟨rfl, rfl, rfl, rfl, rfl, le_rfl, rfl⟩)

lemma declares_compileDeclarations (ht : Lexical m) :
    Declares m base p compileDeclarations fun _ _ => True := by
  refine sure_repeatWhile (P := fun _ => True) (fun r _ => .atEnd (fun _ => .ret trivial)
    fun hend => ?_) trivial
  refine (declares_noteSection ht).then <| (declares_compileDeclaration ht).bind fun _ _ h =>
    .ret ⟨left_of_le ht.closed (le_refl r) hend h.2, trivial⟩

lemma size_addExport {script script' : Script}
    (h : script.addExport name tag offset = .ok script') : script'.size = script.size := by
  unfold Script.addExport at h
  repeat' split at h
  all_goals cases h
  all_goals rfl

lemma kind_addExport {script : Script} {e : ScriptError}
    (h : script.addExport name tag offset = .error e) : (Fault.script e).kind ≠ .internal := by
  unfold Script.addExport at h
  repeat' split at h
  all_goals cases h
  nofun

lemma calmly_publish {base : State} {sectionIndex : UInt16} {line : Nat} :
    Quiet m base n p (publish name tag offset sectionIndex line) := by
  refine ⟨fun s hs hp => ?_⟩
  rw [publish, meets_bind, meets_get]
  cases hadd : s.script.addExport name tag offset with
  | ok script =>
    exact ⟨hs.write rfl rfl rfl rfl rfl (le_of_eq (size_addExport hadd).symm), hp⟩
  | error e => exact meets_failAt (kind_addExport hadd)

lemma calmly_exportFunctions {base : State} : Quiet m base n p exportFunctions := by
  refine .getSymbols (sure_forM_array (P := (· = p)) (fun f _ q hq => ?_) rfl)
  refine .ite ?_ <| .ret hq
  split
  · exact calmly_publish.mono fun h => h.trans hq
  · exact .ret hq

lemma kind_exported {symbols : Symbols} {fault : Fault} (hranged : symbols.Ranged)
    (h : exported symbols name = .error fault) : fault.kind ≠ .internal := by
  unfold exported at h
  split at h
  · next id hid =>
    have hlt := (hranged.resolves hid).lt_size
    rw [Array.getElem?_eq_getElem hlt] at h
    dsimp only at h
    split at h <;> cases h
    nofun
  · next id hid =>
    have hlt : id.index < symbols.globals.size := hranged.resolves hid
    rw [Array.getElem?_eq_getElem hlt] at h
    dsimp only at h
    split at h <;> cases h
    nofun
  · cases h
    nofun
  · cases h
    nofun

lemma calmly_exportRequested {base : State} (hf : Fit m base) {r : ExportRequest} :
    Quiet m base n p (exportRequested r) := by
  refine .getSymbols ?_
  cases hexported : exported base.symbols r.name with
  | ok e => exact calmly_publish
  | error fault => exact ⟨fun _ _ _ hs => kind_exported (hf.symbols hs) hexported⟩

lemma declares_finish (ht : Lexical m) : Declares m base p finish fun _ q => q = p := by
  refine declares_of_calmly ht fun s hs hf => .get fun s1 hs1 => ?_
  have hrequests : Quiet m s 0 p (s1.exportRequests.forM exportRequested) :=
    sure_forM_array (P := (· = p)) (fun _ _ _ hq =>
      (calmly_exportRequested hf).mono fun h => h.trans hq) rfl
  cases hfirst : s1.calls.firstUnresolved? with
  | none =>
    exact .getOptions (.ite (calmly_exportFunctions.then hrequests) hrequests)
  | some callee =>
    have hlt (hstrict : m.strict) : callee.index < s.symbols.functions.size := by
      obtain ⟨k, hk, rfl⟩ := Option.map_eq_some_iff.1 hfirst
      exact hs1.symbols ▸ (hs1.calls hstrict k (Array.mem_of_getElem? hk)).2
    refine (calmly_functionAt hlt).with fun f _ => ?_
    exact .bind (Q := fun _ _ => False) (J := Calm m.strict s 0) ⟨fun _ _ _ => meets_failAt nofun⟩
      fun _ _ => False.elim

lemma declares_compileProgram (ht : Lexical m) :
    Declares m base p compileProgram fun _ _ => True :=
  (declares_compileDeclarations ht).bind fun _ _ _ => (declares_finish ht).mono fun _ => trivial

lemma outside_empty {strict : Prop} : Outside strict {} {} where
  ranged _ := Symbols.ranged_empty
  grown _ := .refl
  calls _ k hk := by simp at hk
  scope _ b hb := by cases hb
  function? _ := rfl

lemma lexical_tokens (h : Scan.tokens source = .ok tokens)
    (strict : Prop) (options : Options) : Lexical ⟨strict, { tokens, options }⟩ where
  closed := Scan.sealed_tokens h
  words _ _ hi hd := by simpa [Scan.isWordChar] using Scan.isWordChar_tokens h hi hd

lemma kind_compileTokens {options : Options}
    {error : CompileError} (h : Scan.tokens source = .ok tokens)
    (herror : (compileTokens tokens options).result = .error error) : error.kind ≠ .internal := by
  have hrun := (declares_compileProgram (lexical_tokens h True options)).run {} outside_empty rfl
  unfold compileTokens at herror
  split at herror
  · cases herror
  · next failure hfailure =>
    cases herror
    exact hrun.kind_ne trivial hfailure

end AdventureScript.Gen.Safety

namespace AdventureScript

variable {source : String} {tokens : Stream} {options : Options}

lemma kind_compile {error : CompileError} (h : (compile source options).result = .error error) :
    error.kind ≠ .internal := by
  unfold compile at h
  split at h
  · next tokens htokens => exact Gen.Safety.kind_compileTokens htokens h
  · next e he =>
    cases h
    simp only [Scan.tokens] at he
    split at he <;> cases he
    simp

/-- A compilation ends with a script or with a fault of the text. A look into a table of the compiler
at a number without an entry would be an error of the compiler itself, and the tables of tokens and
section names have an entry for every number that is used. -/
theorem compile_faultless (source : String) (options : Options) :
    ((∃ script, (compile source options).result = .ok script) ∨
      ∃ error, (compile source options).result = .error error ∧
        (error.kind = .lexical ∨ error.kind = .syntactic ∨ error.kind = .semantic)) ∧
    ∀ tokens, Scan.tokens source = .ok tokens → ∀ i,
      (tokens.get i).sectionIndex.toNat < tokens.sections.size := by
  refine ⟨?_, fun tokens h => Scan.sectionIndex_lt_tokens h⟩
  cases hresult : (compile source options).result with
  | ok script => exact .inl ⟨script, rfl⟩
  | error error =>
    refine .inr ⟨error, rfl, ?_⟩
    have hkind := kind_compile hresult
    cases h : error.kind <;> simp_all

/-! ## Progress -/

/-- The bracket that closes the group around the token `i`, or the end of the input. -/
def Stream.groupEnd (t : Stream) (i : Nat) : Nat :=
  t.findAtDepthZero i fun _ => false

lemma Stream.Nested.le_groupEnd {t : Stream} {i j : Nat} (h : t.Nested i j) : j ≤ t.groupEnd i := by
  rw [groupEnd, findAtDepthZero, h.2 _ 0 (.inr fun _ hstop => absurd hstop Bool.false_ne_true)]
  exact le_findFrom

namespace Gen.Safety

variable {m : Mode} {s s' : State}

lemma Passes.bounds {p q : Nat} (h : Passes m p q) : p < q ∧ q ≤ m.c.tokens.groupEnd p :=
  ⟨h.2, h.1.le_groupEnd⟩

-- Nothing has to hold of the state where a step starts, as long as its errors are not looked at.
lemma runs_compileDeclaration_passes (hl : Lexical m) (hm : ¬m.strict)
    (h : Runs compileDeclaration m.c s () s') : Passes m s.pos s'.pos := by
  have hs : Outside m.strict {} s :=
    ⟨fun h => absurd h hm, fun h => absurd h hm, fun h => absurd h hm, fun h => absurd h hm,
      fun h => absurd h hm⟩
  exact (((declares_compileDeclaration hl).run s hs rfl).runs h).2

lemma runs_statement_passes (hl : Lexical m) (hm : ¬m.strict) (h : Runs statement m.c s () s') :
    Passes m s.pos s'.pos := by
  have hi : Inside m s :=
    { hl with
      symbols := fun h => absurd h hm
      function? := fun h => absurd h hm
      running := fun h => absurd h hm }
  have hs : Settled m.strict s 0 0 s :=
    { symbols := rfl
      function? := rfl
      size_le := Nat.zero_le _
      calls := fun h => absurd h hm
      scope := fun h => absurd h hm
      nesting := fun h => absurd h hm
      jumps := fun h => absurd h hm }
  exact (((settles_statement hi).run s hs rfl).runs h).2

end Gen.Safety

/-- There are no more tokens than characters; the bounds on repetition and on nesting are never
reached; and what is compiled as a declaration or a statement, wherever that is, ends behind its start
and within the group around it. -/
theorem compile_advances (source : String) (tokens : Stream) (options : Options)
    (h : Scan.tokens source = .ok tokens) :
    tokens.body.size ≤ source.length ∧
    (∀ error, (compileTokens tokens options).result = .error error →
      error.kind ≠ Fault.stalled.kind ∧ error.kind ≠ Fault.tooDeep.kind) ∧
    (∀ s s', Gen.Runs Gen.compileDeclaration { tokens, options } s () s' →
      s.pos < s'.pos ∧ s'.pos ≤ tokens.groupEnd s.pos) ∧
    ∀ s s', Gen.Runs Gen.statement { tokens, options } s () s' →
      s.pos < s'.pos ∧ s'.pos ≤ tokens.groupEnd s.pos := by
  have hl := Gen.Safety.lexical_tokens h False options
  refine ⟨Scan.size_tokens h, fun error herror => ?_, fun s s' hrun => ?_, fun s s' hrun => ?_⟩
  · have hkind := Gen.Safety.kind_compileTokens h herror
    exact ⟨hkind, hkind⟩
  · exact (Gen.Safety.runs_compileDeclaration_passes hl id hrun).bounds
  · exact (Gen.Safety.runs_statement_passes hl id hrun).bounds

theorem compile_advances_nested :
    let source := "void f(int x) \x7b if (x) \x7b x--; \x7d \x7d int g;"
    ∃ tokens s, Scan.tokens source = .ok tokens ∧
      Gen.Runs Gen.compileDeclaration { tokens, options := {} } {} () s ∧
      0 < s.pos ∧ s.pos ≤ tokens.groupEnd 0 ∧ tokens.groupEnd 0 = tokens.body.size := by
  intro source
  have hran : (ran? Gen.compileDeclaration source {}).any (fun x =>
      x.1.groupEnd 0 = x.1.body.size) = true := by decide +kernel
  cases hrun : ran? Gen.compileDeclaration source {} with
  | none => simp [hrun] at hran
  | some x =>
    obtain ⟨htokens, hdeclared⟩ := ran?_eq_some_iff.1 hrun
    obtain ⟨hlt, hle⟩ := (compile_advances source x.1 {} htokens).2.2.1 {} x.2 hdeclared
    exact ⟨x.1, x.2, htokens, hdeclared, hlt, hle, by simpa [hrun] using hran⟩

lemma Gen.Safety.Outside.declares {m : Mode} {base : Symbols} {s s' : State} (ht : Lexical m)
    (h : Outside m.strict base s) (hrun : Gen.Declares m.c s s') : Outside m.strict base s' := by
  induction hrun with
  | refl => exact h
  | next _ hsection hrun _ ih =>
    have hnoted := ((declares_noteSection ht).run _ h rfl).runs hsection
    exact ih (((declares_compileDeclaration ht).run _ hnoted.1 rfl).runs hrun).1

end AdventureScript
