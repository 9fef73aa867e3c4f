import AdventureScript.Proofs.Scan
import AdventureScript.Proofs.Scan.Brackets

/-!
Spaces between tokens. A token ends where its own characters say it does, so the tokens of a text
are read again when single spaces stand between them.
-/
namespace AdventureScript

def Token.content (t : Token) : Token.Kind × String :=
  (t.kind, t.lexeme)

namespace Scan

variable {s : State} {cs text rest : List Char} {kind : Token.Kind} {ws : List (Token.Kind × String)}
  {last : Token} {source : String} {stream : Stream}

lemma read_of_run (h : (run s cs).finish = .ok last) (opened : List OpenBracket) :
    read { s with opened } cs = .ok { (run s cs).state with opened } := by
  fun_induction run s cs with
  | case1 s => rw [read]
  | case2 s c cs r text f hf => cases h
  | case3 s c cs r text i hi e he => cases h
  | case4 s c cs r text i hi opened' ho ih =>
    have hadd : State.add { s with opened } i text opened =
        { s.add i text opened' with opened } := by
      cases i <;> rfl
    rw [read_item (Reading.eq_ok_iff.2 ⟨hi, rfl⟩)]
    exact (congrArg (read · _) hadd).trans (ih h)

lemma wellNested_tokens (h : tokens source = .ok stream) :
    WellNested (brackets stream.body.toList) := by
  obtain ⟨last, hlast, rfl⟩ := tokens_eq_ok h
  exact (exists_tokens_iff (read_of_run hlast [])).1 ⟨_, h⟩

lemma content_last (h : (scan source).finish = .ok last) : last.content = (.endOfInput, "") :=
  Prod.ext (finish_run h).1 (finish_run h).2.1

/-! ## Texts with single spaces -/

lemma read_whole (h : Whole kind text) (hrest : Alike ' ' 0 [] rest) :
    read s (text ++ rest) = read (s.add (.token kind) text s.opened) rest := by
  cases text with
  | nil => exact h.elim
  | cons c cs =>
    have halike : Alike ' ' cs.length cs (cs ++ rest) := by
      simpa using alike_take (le_refl cs.length) (by simpa using hrest)
    rw [List.cons_append, read_item ((settles_token h).2 _ halike), List.take_left, List.drop_left]

lemma read_spaced (hws : ∀ w ∈ ws, Whole w.1 w.2.toList) :
    ∃ s1, read s ([' '].intercalate (ws.map (·.2.toList))) = .ok s1 ∧
      s1.tokens.toList.map Token.content = s.tokens.toList.map Token.content ++ ws := by
  induction ws generalizing s with
  | nil => exact ⟨s, by simp [read], by simp⟩
  | cons w ws ih =>
    obtain ⟨hw, hrest⟩ := List.forall_mem_cons.1 hws
    have htoken {s1 : State} : (s1.token w.1 w.2.toList).content = w := by
      simp [State.token, Token.content]
    cases ws with
    | nil =>
      have hread := read_whole (s := s) hw .nil
      rw [List.append_nil, read] at hread
      exact ⟨_, by simpa using hread, by simp [State.add, htoken]⟩
    | cons v ws =>
      obtain ⟨s1, hread, htokens⟩ := @ih ((s.add (.token w.1) w.2.toList s.opened).step ' ') hrest
      refine ⟨s1, ?_, by simpa [State.add, State.step, htoken] using htokens⟩
      rw [List.map_cons, List.map_cons, List.intercalate_cons_cons, List.append_assoc,
        List.singleton_append, read_whole hw .stop, read_blank rfl]
      exact hread

lemma tokens_spaced (hws : ∀ w ∈ ws, Whole w.1 w.2.toList)
    (hnested : WellNested (ws.filterMap (·.1.bracket?))) :
    ∃ stream, tokens (" ".intercalate (ws.map (·.2))) = .ok stream ∧
      stream.toList.map Token.content = ws ++ [(.endOfInput, "")] := by
  obtain ⟨s1, hread, htokens⟩ := @read_spaced {} ws hws
  have htext : (" ".intercalate (ws.map (·.2))).toList =
      [' '].intercalate (ws.map (·.2.toList)) := by
    rw [String.toList_intercalate, List.map_map]
    rfl
  rw [← htext] at hread
  have hbrackets : brackets s1.tokens.toList = ws.filterMap (·.1.bracket?) := by
    rw [show ws = s1.tokens.toList.map Token.content by simpa using htokens.symm,
      List.filterMap_map]
    rfl
  obtain ⟨stream, hstream⟩ := (exists_tokens_iff hread).2 (hbrackets ▸ hnested)
  refine ⟨stream, hstream, ?_⟩
  obtain ⟨last, hlast, rfl⟩ := tokens_eq_ok hstream
  rw [Stream.toList, List.map_append, ((follows_scan hread).all last hlast).1, htokens,
    List.map_singleton, content_last hlast]
  rfl

lemma whole_text (h : (∃ word, kind = .keyword word) ∨ ∃ mark, kind = .symbol mark) :
    Whole kind kind.text.toList := by
  rcases h with ⟨word, rfl⟩ | ⟨mark, rfl⟩
  · cases word <;> rfl
  · cases mark <;> rfl

/-- The tokens of an accepted text with single spaces between them are accepted and are the same
tokens again. So are all keywords, operators and punctuation marks, as long as the brackets among
them are well nested. -/
theorem scan_respaced :
    (∀ source stream, tokens source = .ok stream → ∃ again,
      tokens (" ".intercalate (stream.body.toList.map (·.lexeme))) = .ok again ∧
        again.toList.map Token.content = stream.toList.map Token.content) ∧
    ∀ kinds : List Token.Kind,
      (∀ kind ∈ kinds, (∃ word, kind = .keyword word) ∨ ∃ mark, kind = .symbol mark) →
      WellNested (kinds.filterMap Token.Kind.bracket?) →
      ∃ stream, tokens (" ".intercalate (kinds.map Token.Kind.text)) = .ok stream ∧
        stream.toList.map Token.content =
          kinds.map (fun kind => (kind, kind.text)) ++ [(.endOfInput, "")] := by
  refine ⟨fun source stream h => ?_, fun kinds hkinds hnested => ?_⟩
  · have hwhole : ∀ t ∈ stream.body.toList, Whole t.kind t.lexeme.toList := by
      obtain ⟨last, -, rfl⟩ := tokens_eq_ok h
      simpa using sound_scan.whole
    obtain ⟨again, hagain, hcontent⟩ := @tokens_spaced (stream.body.toList.map Token.content)
      (List.forall_mem_map.2 hwhole) (by rw [List.filterMap_map]; exact wellNested_tokens h)
    refine ⟨again, by rwa [List.map_map] at hagain, ?_⟩
    obtain ⟨last, hlast, rfl⟩ := tokens_eq_ok h
    rw [hcontent, Stream.toList, List.map_append, List.map_singleton, content_last hlast]
  · obtain ⟨stream, hstream, hcontent⟩ := @tokens_spaced (kinds.map fun kind => (kind, kind.text))
      (List.forall_mem_map.2 fun kind hkind => whole_text (hkinds kind hkind))
      (by rwa [List.filterMap_map])
    exact ⟨stream, by rwa [List.map_map] at hstream, hcontent⟩

end Scan
end AdventureScript
