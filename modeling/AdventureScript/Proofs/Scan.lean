import AdventureScript.Proofs.Program.Coherent
import AdventureScript.Proofs.Scan.Locality

/-!
What the scanner tells of the items of a text and of its tokens.
-/
namespace AdventureScript.Scan

variable {c : Char} {cs text : List Char} {s : State} {kind : Token.Kind} {i : Item} {m n : Nat}

lemma isWordChar_of_isWordStart (h : isWordStart c = true) : isWordChar c = true := by
  simp only [isWordStart, isWordChar, Bool.or_eq_true, Char.isAlphanum] at h ⊢
  exact h.imp_left .inl

lemma numberKind_ne_identifier {isFloat : Bool} (h : numberKind text isFloat = .ok kind) :
    kind ≠ .identifier := by
  rintro rfl
  simp only [numberKind] at h
  repeat' split at h
  all_goals cases h

lemma symbolToken_ne_identifier (h : (symbolToken c cs).outcome = .ok kind) :
    kind ≠ .identifier := by
  unfold symbolToken at h
  rintro rfl
  repeat' split at h
  all_goals cases h

lemma take_takeWhile {p : Char → Bool} :
    cs.take (cs.takeWhile p).length = cs.takeWhile p ∧
      cs.drop (cs.takeWhile p).length = cs.dropWhile p := by
  induction cs with
  | nil => simp
  | cons c cs ih => by_cases hc : p c <;> simp [hc, ih]

lemma isWordChar_word (h : isWordStart c = true) :
    ∀ d ∈ c :: cs.take (word c cs).used, isWordChar d = true := by
  simp only [word, Reading.ok, take_takeWhile.1]
  exact List.forall_mem_cons.2 ⟨isWordChar_of_isWordStart h, fun d hd => List.mem_takeWhile_imp hd⟩

/-! ## Items -/

/-- White space, a comment up to the end of its line, or one up to the first mark that closes it. -/
inductive Separates (rest : List Char) : List Char → Prop
  | blanks {cs : List Char} (h : ∀ c ∈ cs, isBlank c = true) : Separates rest cs
  | line {cs : List Char} (h : '\n' ∉ cs) (hrest : ∀ c ∈ rest.head?, c = '\n') :
    Separates rest ('/' :: '/' :: cs)
  | block {cs : List Char} (h : ¬ ['*', '/'] <:+: cs ++ ['*']) :
    Separates rest ('/' :: '*' :: (cs ++ ['*', '/']))

/-- What the text of an item tells of it, with the text after it. -/
def Item.Fits (text rest : List Char) : Item → Prop
  | gap => Separates rest text
  | marker name => ∃ body bytes, text = '"' :: body ∧
    stringLiteral (body ++ rest) = .ok bytes body.length ∧ ofString bytes = marker name
  | token kind => kind = .identifier → ∀ c ∈ text, isWordChar c = true

lemma blockCommentEnd_text (h : blockCommentEnd cs n = .ok () m) : ∃ body rest,
    cs = body ++ ['*', '/'] ++ rest ∧ m = n + (body ++ ['*', '/']).length ∧
      ¬ ['*', '/'] <:+: body ++ ['*'] := by
  fun_induction blockCommentEnd cs n with
  | case1 cs n => exact ⟨[], cs, rfl, (Reading.ok_inj.1 h).2.symm, by decide⟩
  | case2 c cs n hne ih =>
    obtain ⟨body, rest, rfl, rfl, hbody⟩ := ih h
    refine ⟨c :: body, rest, rfl, by rw [List.cons_append, List.length_cons]; omega, fun hin => ?_⟩
    rcases List.infix_cons_iff.1 hin with hpre | hin
    · cases body with
      | nil => simp at hpre
      | cons d body =>
        obtain ⟨hc, hd⟩ := List.cons_prefix_cons.1 hpre
        exact hne _ hc.symm (congrArg (· :: _) (List.cons_prefix_cons.1 hd).1.symm)
    · exact hbody hin
  | case3 n => simp at h

lemma fits_item (h : item c cs = .ok i n) : i.Fits (c :: cs.take n) (cs.drop n) := by
  unfold item at h
  split_ifs at h with hblank hline hblock hstring hchar hnumber hword
  · obtain ⟨rfl, rfl⟩ := Reading.ok_inj.1 h
    refine .blanks (List.forall_mem_cons.2 ⟨hblank, fun d hd => ?_⟩)
    rw [take_takeWhile.1] at hd
    exact List.mem_takeWhile_imp hd
  · obtain ⟨rfl, rfl⟩ := Reading.ok_inj.1 h
    simp only [Bool.and_eq_true, decide_eq_true_eq, List.head?_eq_some_iff] at hline
    obtain ⟨rfl, cs, rfl⟩ := hline
    rw [lineComment, take_takeWhile.1, take_takeWhile.2]
    refine .line (fun hn => ?_) fun d hd => ?_
    · simpa using List.mem_takeWhile_imp hn
    · have hstop := List.head?_dropWhile_not (· ≠ '\n') ('/' :: cs)
      rw [hd] at hstop
      simpa using hstop
  · obtain ⟨_, hend, rfl⟩ := Reading.map_eq_ok.1 h
    simp only [Bool.and_eq_true, decide_eq_true_eq, List.head?_eq_some_iff] at hblock
    obtain ⟨rfl, cs, rfl⟩ := hblock
    obtain ⟨body, rest, rfl, rfl, hbody⟩ := blockCommentEnd_text hend
    rw [Nat.add_comm, List.take_succ_cons, List.take_left]
    exact .block hbody
  · obtain ⟨bytes, hbytes, rfl⟩ := Reading.map_eq_ok.1 h
    have hle := (@settles_stringLiteral '\n' _ (by decide) bytes n hbytes).1
    unfold Item.ofString
    split
    · next name hname =>
      refine ⟨cs.take n, bytes, by rw [hstring], ?_, by rw [Item.ofString, hname]⟩
      rwa [List.take_append_drop, List.length_take_of_le hle]
    · rintro ⟨⟩
  · obtain ⟨kind, -, rfl⟩ := Reading.map_eq_ok.1 h
    rintro ⟨⟩
  · obtain ⟨kind, hk, rfl⟩ := Reading.map_eq_ok.1 h
    exact fun hid => absurd hid (numberKind_ne_identifier (Reading.eq_ok_iff.1 hk).1)
  · obtain ⟨kind, hk, rfl⟩ := Reading.map_eq_ok.1 h
    rw [← (Reading.eq_ok_iff.1 hk).2]
    exact fun _ => isWordChar_word hword
  · obtain ⟨kind, hk, rfl⟩ := Reading.map_eq_ok.1 h
    exact fun hid => absurd hid (symbolToken_ne_identifier (Reading.eq_ok_iff.1 hk).1)

def Whole (kind : Token.Kind) : List Char → Prop
  | [] => False
  | c :: cs => item c cs = .ok (.token kind) cs.length

lemma settles_token (h : item c cs = .ok (.token kind) n) :
    n ≤ cs.length ∧ ∀ cs', Alike ' ' n cs cs' → item c cs' = .ok (.token kind) n := by
  refine settles_item rfl (Bool.eq_false_iff.2 fun hc => ?_) (fun hc hcs => ?_) _ _ h
  · simp [item, hc] at h
  · simp [item, hc, hcs, isBlank] at h

lemma whole_item (h : item c cs = .ok (.token kind) n) : Whole kind (c :: cs.take n) := by
  obtain ⟨hle, hcs⟩ := settles_token h
  have hown := hcs _ (alike_take hle .nil)
  rw [Whole, List.length_take_of_le hle]
  rwa [List.append_nil] at hown

lemma Whole.isWordChar (h : Whole .identifier text) : ∀ d ∈ text, isWordChar d = true := by
  cases text with
  | nil => exact h.elim
  | cons c cs => simpa using fits_item h rfl

structure State.Sound (s : State) : Prop where
  sections : 0 < s.sections.size
  whole : ∀ t ∈ s.tokens, Whole t.kind t.lexeme.toList
  within : ∀ t ∈ s.tokens, t.sectionIndex.toNat < s.sections.size

lemma State.toNat_sectionIndex_lt (h : 0 < s.sections.size) :
    s.sectionIndex.toNat < s.sections.size := by
  simp only [State.sectionIndex, Nat.toUInt16, UInt16.toNat_ofNat']
  omega

lemma State.Sound.add {i : Item} {opened : List OpenBracket} (h : s.Sound)
    (hi : ∀ kind, i = .token kind → Whole kind text) : (s.add i text opened).Sound := by
  cases i with
  | gap => exact ⟨h.sections, h.whole, h.within⟩
  | marker name =>
    have hsize : (s.sections.push name).size = s.sections.size + 1 := Array.size_push name
    refine ⟨?_, h.whole, fun t ht => ?_⟩
    · exact hsize ▸ Nat.succ_pos _
    · exact hsize ▸ Nat.lt_succ_of_lt (h.within t ht)
  | token kind =>
    refine ⟨h.sections, fun t ht => ?_, fun t ht => ?_⟩
    · rcases Array.mem_push.1 ht with ht | rfl
      · exact h.whole t ht
      · simpa [State.token] using hi kind rfl
    · rcases Array.mem_push.1 ht with ht | rfl
      · exact h.within t ht
      · exact State.toNat_sectionIndex_lt h.sections

lemma State.Sound.run (h : s.Sound) : (run s cs).state.Sound := by
  fun_induction Scan.run s cs with
  | case1 s => exact h
  | case2 s c cs r text f hf => exact h
  | case3 s c cs r text i hi e he => exact h
  | case4 s c cs r text i hi opened ho ih =>
    refine ih (h.add ?_)
    rintro kind rfl
    exact whole_item (Reading.eq_ok_iff.2 ⟨hi, rfl⟩)

lemma sound_scan {source : String} : (scan source).state.Sound :=
  State.Sound.run (s := {}) ⟨by simp, fun t ht => by simp at ht, fun t ht => by simp at ht⟩

lemma finish_run {last : Token} (h : (run s cs).finish = .ok last) :
    last.kind = .endOfInput ∧ last.lexeme = "" ∧
      last.sectionIndex = (run s cs).state.sectionIndex := by
  fun_induction run s cs with
  | case1 s =>
    unfold State.close at h
    split at h <;> cases h
    exact ⟨rfl, rfl, rfl⟩
  | case2 s c cs r text f hf => cases h
  | case3 s c cs r text i hi e he => cases h
  | case4 s c cs r text i hi opened ho ih => exact ih h

lemma State.size_tokens_add {i : Item} {opened : List OpenBracket} :
    (s.add i text opened).tokens.size ≤ s.tokens.size + 1 := by
  cases i with
  | token kind => exact le_of_eq (Array.size_push _)
  | _ => exact Nat.le_succ _

lemma size_tokens_run : (run s cs).state.tokens.size ≤ s.tokens.size + cs.length := by
  fun_induction run s cs with
  | case1 s => exact le_rfl
  | case2 s c cs r text f hf => exact Nat.le_add_right ..
  | case3 s c cs r text i hi e he => exact Nat.le_add_right ..
  | case4 s c cs r text i hi opened ho ih =>
    have hadd := @State.size_tokens_add text s i opened
    simp only [List.length_drop, List.length_cons] at ih ⊢
    omega

variable {source : String} {tokens : Stream}

variable (h : Scan.tokens source = .ok tokens)
include h

lemma tokens_eq_ok : ∃ last, (scan source).finish = .ok last ∧
      tokens = ⟨(scan source).state.tokens, last, (scan source).state.sections⟩ := by
  simp only [Scan.tokens] at h
  split at h
  · next last hlast => exact ⟨last, hlast, (Except.ok.inj h).symm⟩
  · cases h

lemma size_tokens : tokens.body.size ≤ source.length := by
  obtain ⟨last, _, rfl⟩ := tokens_eq_ok h
  have hrun := @size_tokens_run source.toList {}
  simpa [scan, String.length_toList] using hrun

lemma sealed_tokens : tokens.last.kind = .endOfInput := by
  obtain ⟨last, hlast, rfl⟩ := tokens_eq_ok h
  exact (finish_run hlast).1

lemma isWordChar_tokens {i : Nat}
    (hi : (tokens.get i).kind = .identifier) {d : Char} (hd : d ∈ (tokens.get i).lexeme.toList) :
    isWordChar d = true := by
  obtain ⟨last, hlast, rfl⟩ := tokens_eq_ok h
  have hend := (finish_run hlast).1
  cases ht : (scan source).state.tokens[i]? with
  | none => simp [Stream.get, ht, hend] at hi
  | some t =>
    simp only [Stream.get, ht, Option.getD_some] at hi hd
    have hwhole := sound_scan.whole t (Array.mem_of_getElem? ht)
    rw [hi] at hwhole
    exact hwhole.isWordChar d hd

lemma lexed_tokens : tokens.Lexed where
  ends := sealed_tokens h
  plain _ hi := by
    constructor
    · intro hd
      simpa [isWordChar] using isWordChar_tokens h hi hd
    · intro hd
      simpa [isWordChar] using isWordChar_tokens h hi hd

lemma sectionIndex_lt_tokens (i : Nat) :
    (tokens.get i).sectionIndex.toNat < tokens.sections.size := by
  obtain ⟨last, hlast, rfl⟩ := tokens_eq_ok h
  have hsound := @sound_scan source
  cases ht : (scan source).state.tokens[i]? with
  | none =>
    simp only [Stream.get, ht, Option.getD_none]
    rw [(finish_run hlast).2.2]
    exact State.toNat_sectionIndex_lt hsound.sections
  | some t =>
    simp only [Stream.get, ht, Option.getD_some]
    exact hsound.within t (Array.mem_of_getElem? ht)

end AdventureScript.Scan
