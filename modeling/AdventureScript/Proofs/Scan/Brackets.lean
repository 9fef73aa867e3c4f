import AdventureScript.Proofs.Scan.Sections

/-!
Brackets. The scanner keeps the brackets that are open and asks of every closing one that it match
the innermost of them.
-/
namespace AdventureScript

def Token.Kind.bracket? : Token.Kind → Option Symbol
  | .symbol mark => if mark.isOpener || mark.isCloser then some mark else none
  | _ => none

def brackets (ts : List Token) : List Symbol :=
  ts.filterMap (·.kind.bracket?)

/-- Every opening bracket is followed by well-nested ones and then by the one that closes it. -/
inductive WellNested : List Symbol → Prop
  | nil : WellNested []
  | group {opener closer : Symbol} {inner rest : List Symbol} (h : opener.closer? = some closer)
    (hinner : WellNested inner) (hrest : WellNested rest) :
    WellNested (opener :: (inner ++ closer :: rest))

lemma WellNested.append {marks rest : List Symbol} (h : WellNested marks) (h' : WellNested rest) :
    WellNested (marks ++ rest) := by
  induction h with
  | nil => exact h'
  | group h hinner _ _ ih => simpa using .group h hinner ih

namespace Scan

variable {ts us : List Token} {t : Token} {bs : List OpenBracket} {b : OpenBracket}
  {sections : Array String} {e : Error} {s s1 : State} {cs : List Char} {source : String}

/-- Tokens that leave brackets open, the innermost first. What stands behind each of them is well
nested. -/
inductive Leaves : List Token → List OpenBracket → Prop
  | nested {ts : List Token} (h : WellNested (brackets ts)) : Leaves ts []
  | opened {ts inside : List Token} {bs : List OpenBracket} {t : Token} {opener : Symbol}
    (h : Leaves ts bs) (ht : t.kind = .symbol opener) (hopener : opener.isOpener = true)
    (hinside : WellNested (brackets inside)) :
    Leaves (ts ++ t :: inside) (⟨opener, t.line, t.sectionIndex⟩ :: bs)

/-- What is wrong with brackets that are not well nested: the first one that does not close the
innermost open one, or the innermost of those that stay open. -/
inductive Broken : List Token → Error → Prop
  | unmatched {ts us : List Token} {t : Token} {closer : Symbol} (h : Leaves ts [])
    (ht : t.kind = .symbol closer) (hcloser : closer.isCloser = true) :
    Broken (ts ++ t :: us) ⟨.unmatchedCloser closer, t.span⟩
  | mismatched {ts us : List Token} {t : Token} {b : OpenBracket} {bs : List OpenBracket}
    {closer : Symbol} {place : OpenerPlace} (h : Leaves ts (b :: bs))
    (ht : t.kind = .symbol closer) (hcloser : closer.isCloser = true)
    (hne : b.opener.closer? ≠ some closer) :
    Broken (ts ++ t :: us) ⟨.mismatchedCloser closer b.opener place, t.span⟩
  | unclosed {ts : List Token} {b : OpenBracket} {bs : List OpenBracket} (h : Leaves ts (b :: bs)) :
    Broken ts ⟨.unclosedOpener b.opener, .point b.line 0⟩

lemma Leaves.append (h : Leaves ts bs) (hus : WellNested (brackets us)) : Leaves (ts ++ us) bs := by
  cases h with
  | nested h => exact .nested (by rw [brackets, List.filterMap_append]; exact h.append hus)
  | opened h ht hopener hinside =>
    rw [List.append_assoc, List.cons_append]
    exact .opened h ht hopener (by rw [brackets, List.filterMap_append]; exact hinside.append hus)

lemma Leaves.close {closer : Symbol} (h : Leaves ts (b :: bs)) (ht : t.kind = .symbol closer)
    (hcloser : b.opener.closer? = some closer) : Leaves (ts ++ [t]) bs := by
  cases h with
  | @opened ts inside _ o opener h ho hopener hinside =>
    have hgroup : brackets (o :: (inside ++ [t])) = opener :: (brackets inside ++ [closer]) := by
      cases opener <;> cases hcloser <;> simp [brackets, ho, ht, Token.Kind.bracket?,
        Symbol.isOpener, Symbol.isCloser]
    rw [List.append_assoc, List.cons_append]
    exact h.append (hgroup ▸ .group hcloser hinside .nil)

lemma Leaves.of_nest {bs' : List OpenBracket} (h : Leaves ts bs)
    (hnest : nest bs t sections = .ok bs') : Leaves (ts ++ [t]) bs' := by
  have hplain : t.kind.bracket? = none → Leaves (ts ++ [t]) bs := fun ht =>
    h.append (by simpa [brackets, ht] using .nil)
  unfold nest at hnest
  split at hnest
  · next mark hmark =>
    split_ifs at hnest with hopener hcloser
    · cases hnest
      exact .opened h hmark hopener .nil
    · split at hnest
      · cases hnest
      · split_ifs at hnest with hmatch
        cases hnest
        exact h.close hmark hmatch
    · cases hnest
      exact hplain (by simp [hmark, Token.Kind.bracket?, hopener, hcloser])
  · next hmark =>
    cases hnest
    refine hplain ?_
    unfold Token.Kind.bracket?
    split
    · next mark hkind => exact absurd hkind (hmark mark)
    · rfl

lemma Leaves.broken_of_nest (h : Leaves ts bs) (hnest : nest bs t sections = .error e) :
    Broken (ts ++ t :: us) e := by
  unfold nest at hnest
  split at hnest
  · next mark hmark =>
    split_ifs at hnest with hopener hcloser
    split at hnest
    · cases hnest
      exact .unmatched h hmark hcloser
    · split_ifs at hnest with hmatch
      cases hnest
      exact .mismatched h hmark hcloser hmatch
  · cases hnest

def Judges (ts : List Token) : Except Error Token → Prop
  | .ok _ => WellNested (brackets ts)
  | .error e => Broken ts e

lemma judges_run (h : read s cs = .ok s1) (opened : List OpenBracket)
    (hs : Leaves s.tokens.toList opened) :
    Judges s1.tokens.toList (run { s with opened } cs).finish := by
  fun_induction read s cs generalizing opened with
  | case1 s =>
    cases h
    rw [run, State.close]
    generalize s1.tokens.toList = ts at hs
    cases hs with
    | nested h => exact h
    | opened h ht hopener hinside => exact .unclosed (.opened h ht hopener hinside)
  | case2 s c cs r text f hf => cases h
  | case3 s c cs r text i hi ih =>
    rw [run]
    simp only [hi, r]
    have hadd : ∀ opened', State.add { s with opened } i text opened' =
        { s.add i text s.opened with opened := opened' } := by
      cases i <;> exact fun _ => rfl
    cases i with
    | token kind =>
      have htokens : (s.add (.token kind) text s.opened).tokens.toList =
          s.tokens.toList ++ [s.token kind text] := by simp [State.add]
      split
      · next e he =>
        obtain ⟨us, hus⟩ := (prefix_read h).1
        rw [← hus, htokens, List.append_assoc]
        exact hs.broken_of_nest he
      · next opened' hnest =>
        rw [hadd]
        exact ih h opened' (htokens ▸ hs.of_nest hnest)
    | gap => exact ih h opened hs
    | marker name => exact ih h opened hs

/-! ## From the grammar to the scanner -/

def openAfter (opened : List Symbol) (mark : Symbol) : Option (List Symbol) :=
  if mark.isOpener then some (mark :: opened)
  else
    match opened with
    | opener :: outer => if opener.closer? = some mark then some outer else none
    | [] => none

lemma foldlM_wellNested {marks : List Symbol} (h : WellNested marks) (opened : List Symbol) :
    marks.foldlM openAfter opened = some opened := by
  induction h generalizing opened with
  | nil => rfl
  | @group opener closer _ _ h _ _ ihinner ih =>
    have hpair : openAfter opened opener = some (opener :: opened) ∧
        openAfter (opener :: opened) closer = some opened := by
      cases opener <;> cases h <;> exact ⟨rfl, rfl⟩
    simp [hpair.1, hpair.2, ihinner, ih]

lemma foldlM_leaves (h : Leaves ts bs) :
    (brackets ts).foldlM openAfter [] = some (bs.map (·.opener)) := by
  induction h with
  | nested h => exact foldlM_wellNested h []
  | @opened ts inside bs t opener h ht hopener hinside ih =>
    have hbracket : t.kind.bracket? = some opener := by simp [ht, Token.Kind.bracket?, hopener]
    have hinside := foldlM_wellNested hinside (opener :: bs.map (·.opener))
    simp only [brackets] at ih hinside ⊢
    simp [hbracket, ih, openAfter, hopener, hinside]

lemma foldlM_closer {closer : Symbol} (h : Leaves ts bs) (ht : t.kind = .symbol closer)
    (hcloser : closer.isCloser = true) (hne : ∀ b ∈ bs.head?, b.opener.closer? ≠ some closer) :
    (brackets (ts ++ t :: us)).foldlM openAfter [] = none := by
  have hbracket : t.kind.bracket? = some closer := by simp [ht, Token.Kind.bracket?, hcloser]
  have hopener : closer.isOpener = false := by cases closer <;> first | rfl | cases hcloser
  have hleaves := foldlM_leaves h
  simp only [brackets] at hleaves ⊢
  cases bs with
  | nil => simp [hbracket, hleaves, openAfter, hopener]
  | cons b bs => simp [hbracket, hleaves, openAfter, hopener, hne b rfl]

lemma Broken.not_wellNested (h : Broken ts e) : ¬ WellNested (brackets ts) := by
  intro hts
  have hall := foldlM_wellNested hts []
  cases h with
  | unmatched h ht hcloser => simp [foldlM_closer h ht hcloser (by simp)] at hall
  | mismatched h ht hcloser hne => simp [foldlM_closer h ht hcloser (by simpa using hne)] at hall
  | unclosed h => simp [foldlM_leaves h] at hall

lemma judges_scan (h : read {} source.toList = .ok s1) :
    Judges s1.tokens.toList (scan source).finish :=
  judges_run h [] (.nested .nil)

lemma exists_tokens_iff (h : read {} source.toList = .ok s1) :
    (∃ stream, tokens source = .ok stream) ↔ WellNested (brackets s1.tokens.toList) := by
  have hjudges := judges_scan h
  cases hfinish : (scan source).finish with
  | ok last =>
    rw [hfinish] at hjudges
    exact iff_of_true (by simp [tokens, hfinish]) hjudges
  | error e =>
    rw [hfinish] at hjudges
    exact iff_of_false (by simp [tokens, hfinish]) hjudges.not_wellNested

/-- A text of which all characters form tokens is scanned exactly when the brackets among them are
well nested. Otherwise the error is told for the first closing bracket that does not close the
innermost open one, or else for the innermost bracket that stays open. -/
theorem scan_iff_wellNested (h : read {} source.toList = .ok s1) :
    ((∃ stream, tokens source = .ok stream) ↔ WellNested (brackets s1.tokens.toList)) ∧
      ∀ e, (scan source).finish = .error e → Broken s1.tokens.toList e := by
  refine ⟨exists_tokens_iff h, fun e he => ?_⟩
  have hjudges := judges_scan h
  rwa [he] at hjudges

theorem scan_iff_wellNested_marked :
    ∃ s1, read {} "f(\x7b \")\" /* ] */ \"__NEWSCRIPTSTART_b\" [x] \x7d".toList = .ok s1 ∧
      ¬ WellNested (brackets s1.tokens.toList) := by
  have hok : (read {} "f(\x7b \")\" /* ] */ \"__NEWSCRIPTSTART_b\" [x] \x7d".toList).toOption.isSome ∧
      (tokens "f(\x7b \")\" /* ] */ \"__NEWSCRIPTSTART_b\" [x] \x7d").toOption.isNone := by
    decide +kernel
  cases hread : read {} "f(\x7b \")\" /* ] */ \"__NEWSCRIPTSTART_b\" [x] \x7d".toList with
  | error e =>
    rw [hread] at hok
    cases hok.1
  | ok s1 =>
    refine ⟨s1, rfl, fun hnested => ?_⟩
    obtain ⟨stream, hstream⟩ := (scan_iff_wellNested hread).1.2 hnested
    rw [hstream] at hok
    cases hok.2

end Scan
end AdventureScript
