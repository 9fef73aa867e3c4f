import AdventureScript.Proofs.Safety.Switch

/-!
Statements fail by a fault of the program only.
-/
namespace AdventureScript.Gen.Safety

variable {m : Mode} {base : State} {n depth p start : Nat} {statement : Gen Unit}

lemma settles_compileUntilBrace (hg : Ground m base) (hst : Steady m base start statement)
    (hlt : m.strict → start < p) {fault : Fault} (hfault : fault.kind ≠ .internal) :
    Settles m base depth n p (compileUntilBrace statement fault) fun _ =>
      m.c.tokens.Ends .rightBrace p := by
  refine Sure.bind (Q := fun _ q => m.c.tokens.Nested p q ∧
    (m.c.tokens.get q).kind = .symbol .rightBrace) (sure_repeatWhile (P := m.c.tokens.Nested p)
      (fun q hq => .check (fun hk => .ret ⟨hq, hk⟩) fun _ => ?_) .refl) fun _ q ⟨h, hk⟩ =>
        .advance (.ret (.intro h hk))
  refine .atEnd (fun _ => .fail_bind hfault) fun hopen => ?_
  refine (hst fun hs => lt_of_lt_of_le (hlt hs) hq.1).bind fun _ r hr => .ret ⟨?_, hq.trans hr.1⟩
  exact left_of_le hg.closed (le_refl q) hopen hr.2

lemma settles_compileBlock (hg : Ground m base) (hst : Steady m base p statement)
    (hk : (m.c.tokens.get p).kind = .symbol .leftBrace) :
    Settles m base depth n p (compileBlock statement) fun _ => Passes m p := by
  have hopen : p < m.c.tokens.after p := lt_after (by simp [hk])
  refine .expect fun _ => (settles_of_still hg fun _ _ _ _ _ => still_enterBlock).then ?_
  refine (settles_compileUntilBrace hg hst (fun _ => hopen) (by nofun)).bind fun _ q h =>
    (settles_of_still hg fun _ _ _ _ hg' => still_exitBlock hg').mono fun hq => hq ▸ ?_
  exact ⟨h.group hg.closed hk rfl rfl, lt_trans hopen h.lt⟩

lemma settles_compileMarked (hi : Inside m base)
    (hst : (m.c.tokens.get p).kind ≠ .endOfInput → Steady m base p statement) :
    Settles m base depth n p (compileMarked statement (m.c.tokens.get p).kind) fun _ =>
      Passes m p := by
  have hg := hi.toGround
  unfold compileMarked
  split <;> rename_i hk
  · exact settles_compileIf hg (hst (by simp [hk])) hk
  · exact settles_compileWhile hg (hst (by simp [hk])) hk
  · exact settles_compileDo hg (hst (by simp [hk])) hk
  · exact settles_compileFor hg (hst (by simp [hk])) hk
  · exact settles_compileSwitch hg (hst (by simp [hk])) hk
  · exact settles_compileReturn hi hk
  · exact settles_compileBreak hg hk
  · exact settles_compileContinue hg hk
  · exact settles_compileFallthrough hg hk
  · exact .fail nofun
  · exact .fail nofun
  · exact .fail nofun
  · exact settles_compilePlain hg

lemma settles_compileStatement (hi : Inside m base)
    (hst : (m.c.tokens.get p).kind ≠ .endOfInput → Steady m base p statement) :
    Settles m base depth n p (compileStatement statement) fun _ => Passes m p := by
  have hg := hi.toGround
  refine .peek ((settles_of_quiet hg calmly_isReachable).then @fun b => ?_)
  extract_lets rest
  have hbody : Settles m base depth n p (rest ()) fun _ => Passes m p := by
    dsimp only [rest]
    split <;> rename_i hk
    · exact settles_compileBlock hg (hst (by simp [hk])) hk
    · exact .advance (.ret (passes_semicolon hg.closed .refl hk rfl))
    · exact (settles_of_quiet hg calmly_markLine).then <|
        settles_compileMarked hi hst
  cases b with
  | true => exact hbody
  | false => exact (settles_of_quiet hg calmly_warnAt).then hbody

lemma settles_statementWithin (hi : Inside m base) {levels : Nat}
    (hlevels : m.strict → m.c.tokens.size - p < levels) :
    Settles m base depth n p (statementWithin levels) fun _ => Passes m p := by
  induction levels generalizing depth n p with
  | zero => exact ⟨fun _ _ _ hs => absurd (hlevels hs) (Nat.not_lt_zero _)⟩
  | succ levels ih =>
    refine settles_compileStatement hi fun hk _ _ q hq => ih fun hs => ?_
    have hlt := hi.closed.lt_size hk
    have hsize : m.c.tokens.size = m.c.tokens.body.size + 1 := rfl
    have := hlevels hs
    have := hq hs
    omega

lemma settles_statement (hi : Inside m base) :
    Settles m base depth n p Gen.statement fun _ => Passes m p :=
  .tokenCount (settles_statementWithin hi fun _ => by omega)

end AdventureScript.Gen.Safety
