import AdventureScript.Proofs.Runs

/-!
Stretches of tokens: those in which brackets are balanced, and those without the forms of which the
compiler may leave nothing behind.
-/
namespace AdventureScript.Stream

variable {t : Stream} {i j k d : Nat} {stop : Token.Kind → Bool} {kind kind' : Token.Kind}

def Sealed (t : Stream) : Prop :=
  t.last.kind = .endOfInput

lemma Sealed.lt_size (h : t.Sealed) (hi : (t.get i).kind ≠ .endOfInput) : i < t.body.size := by
  refine Nat.lt_of_not_le fun hle => hi ?_
  rw [get, Array.getElem?_eq_none hle]
  exact h

lemma after_of_ne (h : (t.get i).kind ≠ .endOfInput) : t.after i = i + 1 := by
  simp [after, h]

lemma le_after : i ≤ t.after i := by
  unfold after
  split <;> omega

lemma findFrom_of_lt (h : i < t.body.size) :
    t.findFrom stop i d =
      if (t.get i).kind = .endOfInput then i
      else if d = 0 && stop (t.get i).kind then i
      else if (t.get i).kind.isOpener then t.findFrom stop (i + 1) (d + 1)
      else if (t.get i).kind.isCloser then
        if d = 0 then i else t.findFrom stop (i + 1) (d - 1)
      else t.findFrom stop (i + 1) d := by
  rw [findFrom]
  simp [h, get]

lemma le_findFrom : i ≤ t.findFrom stop i d := by
  fun_induction findFrom t stop i d <;> omega

lemma le_findAtDepthZero : i ≤ t.findAtDepthZero i stop :=
  le_findFrom

/-! ## Balanced stretches -/

/-- A walk that stops at `stop`, starting within `d` brackets, does not stop before a bracket is
closed that was open at its start. -/
def Bound (stop : Token.Kind → Bool) (d : Nat) : Prop :=
  0 < d ∨ ∀ kind, stop kind = true → kind.isCloser = true

lemma bound_succ : Bound stop (d + 1) :=
  .inl (Nat.succ_pos d)

lemma Bound.eq_false (h : Bound stop d) (hk : kind.isCloser = false) :
    (d = 0 && stop kind) = false := by
  rcases h with h | h
  · simp [Nat.ne_of_gt h]
  · cases hs : stop kind with
    | false => simp
    | true => simp [h kind hs] at hk

/-- Brackets are balanced from `i` up to `j`: a walk from `i` on that goes past all that is not a
closing bracket comes to `j`, as deep as it was. -/
def Nested (t : Stream) (i j : Nat) : Prop :=
  i ≤ j ∧ ∀ stop d, Bound stop d → t.findFrom stop i d = t.findFrom stop j d

lemma Nested.refl : t.Nested i i :=
  ⟨le_refl i, fun _ _ _ => rfl⟩

lemma Nested.trans (h : t.Nested i j) (h' : t.Nested j k) : t.Nested i k :=
  ⟨le_trans h.1 h'.1, fun stop d hb => (h.2 stop d hb).trans (h'.2 stop d hb)⟩

lemma Nested.token (hs : t.Sealed) (hk : (t.get i).kind = kind) (ho : kind.isOpener = false)
    (hc : kind.isCloser = false) : t.Nested i (t.after i) := by
  subst hk
  by_cases he : (t.get i).kind = .endOfInput
  · simp only [after, he, if_true]
    exact .refl
  · refine ⟨le_after, fun stop d hb => ?_⟩
    rw [after_of_ne he, findFrom_of_lt (hs.lt_size he)]
    simp [he, ho, hc, hb.eq_false hc]

lemma isCloser_eq_false (h : kind.isOpener = true) : kind.isCloser = false := by
  cases kind with
  | symbol mark => cases mark <;> simp_all [Token.Kind.isOpener, Token.Kind.isCloser,
      Symbol.isOpener, Symbol.isCloser]
  | _ => rfl

lemma findFrom_closer (hs : t.Sealed) (hc : (t.get i).kind.isCloser = true) :
    t.findFrom stop i (d + 1) = t.findFrom stop (i + 1) d := by
  have hi : (t.get i).kind ≠ .endOfInput := by
    intro he
    simp [he, Token.Kind.isCloser] at hc
  have ho : (t.get i).kind.isOpener = false := by
    cases ho : (t.get i).kind.isOpener with
    | false => rfl
    | true => simp [isCloser_eq_false ho] at hc
  rw [findFrom_of_lt (hs.lt_size hi)]
  simp [hi, ho, hc]

lemma Nested.group (hs : t.Sealed) (hk : (t.get i).kind = kind) (ho : kind.isOpener = true)
    (h : t.Nested (t.after i) j) (hk' : (t.get j).kind = kind') (hc : kind'.isCloser = true) :
    t.Nested i (t.after j) := by
  subst hk hk'
  have hi : (t.get i).kind ≠ .endOfInput := by
    intro he
    simp [he, Token.Kind.isOpener] at ho
  have hj : (t.get j).kind ≠ .endOfInput := by
    intro he
    simp [he, Token.Kind.isCloser] at hc
  rw [after_of_ne hi] at h
  rw [after_of_ne hj]
  refine ⟨by have := h.1; omega, fun stop d hb => ?_⟩
  calc t.findFrom stop i d
      = t.findFrom stop (i + 1) (d + 1) := by
        rw [findFrom_of_lt (hs.lt_size hi)]
        simp [hi, ho, hb.eq_false (isCloser_eq_false ho)]
    _ = t.findFrom stop j (d + 1) := h.2 stop (d + 1) bound_succ
    _ = t.findFrom stop (j + 1) d := findFrom_closer hs hc

lemma Nested.emptyBrackets (hs : t.Sealed) (ho : (t.get i).kind = .symbol .leftBracket)
    (hc : (t.get (i + 1)).kind = .symbol .rightBracket) : t.Nested i (t.after (t.after i)) := by
  exact .group hs ho rfl .refl (by rw [after_of_ne (by simp [ho]), hc]) rfl

lemma nested_findAtDepthZero (hs : t.Sealed)
    (h : (t.get (t.findAtDepthZero i stop)).kind ≠ .endOfInput) :
    t.Nested i (t.findAtDepthZero i stop) := by
  refine ⟨le_findAtDepthZero, fun other e hb => ?_⟩
  suffices main : ∀ d, (t.get (t.findFrom stop i d)).kind ≠ .endOfInput →
      t.findFrom other i (d + e) = t.findFrom other (t.findFrom stop i d) e by
    simpa [findAtDepthZero] using main 0 h
  have hb' : ∀ d, Bound other (d + e) := fun d => by
    rcases hb with hb | hb
    · exact .inl (by omega)
    · exact .inr hb
  clear h
  intro d h
  fun_induction findFrom t stop i d with
  | case1 i d hi kind he =>
    rw [get, Array.getElem?_eq_getElem hi] at h
    exact absurd he h
  | case2 i d hi kind he hstop =>
    obtain ⟨rfl, _⟩ : d = 0 ∧ stop kind = true := by simpa using hstop
    simp
  | case3 i d hi kind he hstop ho ih =>
    have hk : (t.get i).kind = kind := by simp [get, hi, kind]
    have hpass := (hb' d).eq_false (isCloser_eq_false ho)
    rw [findFrom_of_lt hi, ← ih h]
    rw [hk, hpass]
    simp [he, ho, Nat.add_right_comm]
  | case4 i hi kind he ho hc hstop => simp
  | case5 i d hi kind he hstop ho hc hd ih =>
    have hk : (t.get i).kind = kind := by simp [get, hi, kind]
    rw [findFrom_of_lt hi, ← ih h]
    simp [hk, he, ho, hc, hd, show d + e - 1 = d - 1 + e by omega]
  | case6 i d hi kind he hstop ho hc ih =>
    have hk : (t.get i).kind = kind := by simp [get, hi, kind]
    have hpass := (hb' d).eq_false (by simpa using hc)
    rw [findFrom_of_lt hi, ← ih h]
    rw [hk, hpass]
    simp [he, ho, hc]
  | case7 i d hi =>
    rw [get, Array.getElem?_eq_none (by omega)] at h
    exact absurd hs h

/-! ## Where a walk stops -/

lemma findFrom_of_endOfInput (h : (t.get i).kind = .endOfInput) :
    t.findFrom stop i d = i := by
  by_cases hi : i < t.body.size
  · simp [findFrom_of_lt hi, h]
  · rw [findFrom, dif_neg hi]

lemma findFrom_of_stop (h : stop (t.get i).kind = true) : t.findFrom stop i 0 = i := by
  by_cases hi : i < t.body.size
  · simp [findFrom_of_lt hi, h]
  · rw [findFrom, dif_neg hi]

lemma findFrom_of_isCloser (h : (t.get i).kind.isCloser = true) : t.findFrom stop i 0 = i := by
  by_cases hi : i < t.body.size
  · have ho : (t.get i).kind.isOpener = false := by
      cases ho : (t.get i).kind.isOpener with
      | false => rfl
      | true => simp [isCloser_eq_false ho] at h
    simp [findFrom_of_lt hi, h, ho]
  · rw [findFrom, dif_neg hi]

lemma kind_findFrom (hs : t.Sealed) :
    (t.get (t.findFrom stop i d)).kind = .endOfInput ∨
      stop (t.get (t.findFrom stop i d)).kind = true ∨
      (t.get (t.findFrom stop i d)).kind.isCloser = true := by
  fun_induction findFrom t stop i d with
  | case1 i d hi kind he => exact .inl (by simpa [get, hi] using he)
  | case2 i d hi kind he hstop =>
    have hk : (t.get i).kind = kind := by simp [get, hi, kind]
    exact .inr (.inl (by rw [hk]; simpa using (Bool.and_eq_true_iff.1 hstop).2))
  | case3 i d hi kind he hstop ho ih => exact ih
  | case4 i hi kind he ho hc hstop =>
    have hk : (t.get i).kind = kind := by simp [get, hi, kind]
    exact .inr (.inr (by rw [hk, hc]))
  | case5 i d hi kind he hstop ho hc hd ih => exact ih
  | case6 i d hi kind he hstop ho hc ih => exact ih
  | case7 i d hi =>
    refine .inl ?_
    rw [get, Array.getElem?_eq_none (by omega)]
    exact hs

lemma findFrom_findFrom {more : Token.Kind → Bool}
    (h : ∀ kind, stop kind = true → more kind = true) :
    t.findFrom stop i d = t.findFrom stop (t.findFrom more i d) 0 := by
  have hpass : ∀ {d kind}, ¬(decide (d = 0) && more kind) = true →
      (decide (d = 0) && stop kind) = false := by
    intro d kind hmore
    cases hk : stop kind with
    | false => simp
    | true => simpa [h kind hk] using hmore
  fun_induction findFrom t more i d with
  | case1 i d hi kind he =>
    have hk : (t.get i).kind = .endOfInput := by simpa [get, hi] using he
    rw [findFrom_of_endOfInput hk, findFrom_of_endOfInput hk]
  | case2 i d hi kind he hstop =>
    obtain ⟨rfl, _⟩ : d = 0 ∧ more kind = true := by simpa using hstop
    rfl
  | case3 i d hi kind he hstop ho ih =>
    have hk : (t.get i).kind = kind := by simp [get, hi, kind]
    rw [findFrom_of_lt hi, hk, hpass hstop, ← ih]
    simp [he, ho]
  | case4 i hi kind he ho hc hstop => rfl
  | case5 i d hi kind he hstop ho hc hd ih =>
    have hk : (t.get i).kind = kind := by simp [get, hi, kind]
    rw [findFrom_of_lt hi, hk, hpass hstop, ← ih]
    simp [he, ho, hc, hd]
  | case6 i d hi kind he hstop ho hc ih =>
    have hk : (t.get i).kind = kind := by simp [get, hi, kind]
    rw [findFrom_of_lt hi, hk, hpass hstop, ← ih]
    simp [he, ho, hc]
  | case7 i d hi =>
    rw [findFrom, dif_neg hi, findFrom, dif_neg hi]

lemma kind_of_findAtDepthZero_lt {other : Token.Kind → Bool} (hs : t.Sealed)
    (h : t.findAtDepthZero i (fun kind => other kind || stop kind) < t.findAtDepthZero i stop) :
    other (t.get (t.findAtDepthZero i fun kind => other kind || stop kind)).kind = true := by
  have hnext : t.findFrom stop i 0 =
      t.findFrom stop (t.findFrom (fun kind => other kind || stop kind) i 0) 0 :=
    findFrom_findFrom fun kind hk => by simp [hk]
  simp only [findAtDepthZero] at h ⊢
  rcases @kind_findFrom t i 0 (fun kind => other kind || stop kind) hs with hk | hk | hk
  · rw [findFrom_of_endOfInput hk] at hnext
    omega
  · refine ((Bool.or_eq_true _ _).mp hk).resolve_right fun hstop => ?_
    rw [findFrom_of_stop hstop] at hnext
    omega
  · rw [findFrom_of_isCloser hk] at hnext
    omega

lemma nested_keyword (hs : t.Sealed) {word : Keyword} (hk : (t.get i).kind = .keyword word) :
    t.Nested i (t.after i) :=
  .token hs hk rfl rfl

lemma bracket_of_isAssignment (h : kind.isAssignment = true) :
    kind ≠ .endOfInput ∧ kind.isOpener = false ∧ kind.isCloser = false := by
  cases kind with
  | symbol mark => cases mark <;> simp_all [Token.Kind.isAssignment, Symbol.isAssignment,
      Token.Kind.isOpener, Token.Kind.isCloser, Symbol.isOpener, Symbol.isCloser]
  | _ => cases h

lemma nested_assignment (hs : t.Sealed)
    (h : t.findAtDepthZero i (fun kind => kind.isAssignment || stop kind) <
      t.findAtDepthZero i stop) :
    t.Nested i (t.findAtDepthZero i (fun kind => kind.isAssignment || stop kind) + 1) := by
  obtain ⟨hend, hopen, hclose⟩ := bracket_of_isAssignment (kind_of_findAtDepthZero_lt hs h)
  rw [← after_of_ne hend]
  exact (nested_findAtDepthZero hs hend).trans (.token hs rfl hopen hclose)

/-- A switch without clauses starts at `i`: behind the parentheses stands an empty pair of braces.
-/
def EmptySwitchAt (t : Stream) (i : Nat) : Prop :=
  (t.get i).kind = .keyword .kwSwitch ∧
    (t.get (t.findFrom (fun _ => true) (i + 2) 1)).kind = .symbol .leftBrace ∧
    (t.get (t.findFrom (fun _ => true) (i + 2) 1 + 1)).kind = .symbol .rightBrace

/-- No conditional operator and no switch without clauses stands between `lo` and `hi`. -/
def Plain (t : Stream) (lo hi : Nat) : Prop :=
  ∀ i < hi, lo ≤ i → (t.get i).kind ≠ .symbol .question ∧ ¬t.EmptySwitchAt i

instance : Decidable (t.EmptySwitchAt i) :=
  inferInstanceAs (Decidable (_ ∧ _ ∧ _))

instance : Decidable (t.Plain i j) :=
  inferInstanceAs (Decidable (∀ k < j, i ≤ k → _ ∧ _))

lemma Plain.mono {lo hi lo' hi' : Nat} (h : t.Plain lo' hi') (hlo : lo' ≤ lo) (hhi : hi ≤ hi') :
    t.Plain lo hi :=
  fun i hi hlo => h i (by omega) (by omega)

end AdventureScript.Stream
