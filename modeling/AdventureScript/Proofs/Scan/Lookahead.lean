import AdventureScript.Proofs.Scan.Spacing
import AdventureScript.Proofs.Tokens

/-!
Looking ahead. A walk over the tokens of an accepted text counts brackets of all kinds alike, and
still ends where the stretch that it started in ends.
-/
namespace AdventureScript

variable {t : Stream} {i j k r d : Nat} {stop : Token.Kind → Bool} {source : String}

/-! ## Stretches of tokens -/

def Stream.tokensIn (t : Stream) (i j : Nat) : List Token :=
  (List.range' i (j - i)).map t.get

def Stream.IsNested (t : Stream) (i j : Nat) : Prop :=
  WellNested (brackets (t.tokensIn i j))

def Stream.Pairs (t : Stream) (i j : Nat) : Prop :=
  i < j ∧ t.IsNested (i + 1) j ∧ ∃ opener closer, (t.get i).kind = .symbol opener ∧
    (t.get j).kind = .symbol closer ∧ opener.closer? = some closer

lemma brackets_append {ts us : List Token} : brackets (ts ++ us) = brackets ts ++ brackets us :=
  List.filterMap_append

namespace Stream

lemma tokensIn_self : t.tokensIn i i = [] := by
  simp [tokensIn]

lemma tokensIn_append (hij : i ≤ j) (hjk : j ≤ k) :
    t.tokensIn i j ++ t.tokensIn j k = t.tokensIn i k := by
  obtain ⟨m, rfl⟩ := Nat.exists_eq_add_of_le hij
  obtain ⟨n, rfl⟩ := Nat.exists_eq_add_of_le hjk
  rw [tokensIn, tokensIn, tokensIn, ← List.map_append, Nat.add_sub_cancel_left,
    Nat.add_sub_cancel_left, Nat.add_assoc, Nat.add_sub_cancel_left, List.range'_append_1]

lemma tokensIn_succ (hij : i ≤ j) : t.tokensIn i (j + 1) = t.tokensIn i j ++ [t.get j] := by
  rw [← tokensIn_append hij (Nat.le_succ j)]
  simp [tokensIn]

lemma tokensIn_eq_append_cons (hij : i ≤ j) (hjk : j < k) :
    t.tokensIn i k = t.tokensIn i j ++ t.get j :: t.tokensIn (j + 1) k := by
  rw [← tokensIn_append (Nat.le_succ_of_le hij) hjk, tokensIn_succ hij, List.append_assoc]
  rfl

lemma tokensIn_size : t.tokensIn 0 t.body.size = t.body.toList := by
  refine List.ext_getElem (by simp [tokensIn]) fun n h h' => ?_
  have hn : n < t.body.size := by simpa using h'
  simp [tokensIn, get, hn]

lemma IsNested.append (h : t.IsNested i j) (h' : t.IsNested j k) (hij : i ≤ j) (hjk : j ≤ k) :
    t.IsNested i k := by
  rw [IsNested, ← tokensIn_append hij hjk, brackets_append]
  exact WellNested.append h h'

lemma isNested_self : t.IsNested i i := by
  rw [IsNested, tokensIn_self]
  exact .nil

lemma IsNested.eq_of_closer {mark : Symbol} (h : t.IsNested i j)
    (hk : (t.get i).kind = .symbol mark) (hc : mark.isCloser = true) (hij : i ≤ j) : j = i := by
  by_contra hne
  rw [IsNested, tokensIn_eq_append_cons (le_refl i) (by omega), tokensIn_self, List.nil_append,
    brackets, List.filterMap_cons_some (b := mark) (by simp [hk, Token.Kind.bracket?, hc])] at h
  generalize hmarks : mark :: _ = marks at h
  cases h with
  | nil => cases hmarks
  | group h =>
    obtain rfl := (List.cons.inj hmarks).1
    cases mark <;> simp [Symbol.isCloser, Symbol.closer?] at hc h

lemma isNested_symbol {mark : Symbol} (hk : (t.get i).kind = .symbol mark)
    (ho : mark.isOpener = false) (hc : mark.isCloser = false) : t.IsNested i (i + 1) := by
  rw [IsNested, tokensIn_succ (le_refl i), tokensIn_self]
  simpa [brackets, hk, Token.Kind.bracket?, ho, hc] using .nil

structure Balanced (t : Stream) : Prop where
  ends : t.Sealed
  nested : WellNested (brackets t.body.toList)
  inner : ∀ i < t.body.size, (t.get i).kind ≠ .endOfInput

lemma Balanced.whole (h : t.Balanced) (hi : t.body.size ≤ i) : t.IsNested 0 i := by
  have hrest : brackets (t.tokensIn t.body.size i) = [] := by
    refine List.filterMap_eq_nil_iff.2 fun x hx => ?_
    obtain ⟨n, hn, rfl⟩ := List.mem_map.1 hx
    have hlast : t.get n = t.last := by simp [get, (List.mem_range'_1.1 hn).1]
    rw [hlast, h.ends]
    rfl
  have hall : t.IsNested 0 t.body.size := by
    rw [IsNested, tokensIn_size]
    exact h.nested
  exact hall.append (by rw [IsNested, hrest]; exact .nil) (Nat.zero_le _) hi

end Stream

open Scan

lemma not_wellNested_of_opener {us vs : List Token} {x : Token} {opener : Symbol}
    (hx : x.kind = .symbol opener) (ho : opener.isOpener = true) (hvs : WellNested (brackets vs)) :
    ¬ WellNested (brackets (us ++ x :: vs)) := by
  intro h
  have hall := foldlM_wellNested h []
  have hbrackets : brackets (us ++ x :: vs) = brackets us ++ opener :: brackets vs := by
    simp [brackets, hx, Token.Kind.bracket?, ho]
  rw [hbrackets, List.foldlM_append] at hall
  obtain ⟨opened, -, hall⟩ := Option.bind_eq_some_iff.1 hall
  have hrest := foldlM_wellNested hvs (opener :: opened)
  simp [openAfter, ho, hrest] at hall

variable {x : Token} {bs bs' : List OpenBracket} {sections : Array String}

lemma nest_opener (hx : x.kind.isOpener = true) :
    ∃ b, ∀ bs, nest bs x sections = .ok (b :: bs) := by
  unfold Token.Kind.isOpener at hx
  split at hx
  · next mark hmark => exact ⟨⟨mark, x.line, x.sectionIndex⟩, fun bs => by simp [nest, hmark, hx]⟩
  · cases hx

lemma nest_plain (ho : x.kind.isOpener = false) (hc : x.kind.isCloser = false) :
    nest bs x sections = .ok bs := by
  unfold nest
  split
  · next mark hmark =>
    rw [hmark, Token.Kind.isOpener] at ho
    rw [hmark, Token.Kind.isCloser] at hc
    rw [if_neg (Bool.eq_false_iff.1 ho), if_neg (Bool.eq_false_iff.1 hc)]
  · rfl

lemma nest_closer (hx : x.kind.isCloser = true) (h : nest bs x sections = .ok bs') :
    ∃ b closer, bs = b :: bs' ∧ x.kind = .symbol closer ∧ b.opener.closer? = some closer ∧
      ∀ outer, nest (b :: outer) x sections = .ok outer := by
  have ho : ¬ x.kind.isOpener = true := fun ho => by simp [Stream.isCloser_eq_false ho] at hx
  unfold nest at h
  split at h
  · next mark hmark =>
    rw [hmark, Token.Kind.isOpener] at ho
    rw [hmark, Token.Kind.isCloser] at hx
    rw [if_neg ho, if_pos hx] at h
    split at h
    · cases h
    · split_ifs at h with hb
      cases h
      refine ⟨_, mark, rfl, hmark, hb, fun outer => ?_⟩
      simp [nest, hmark, ho, hx, hb]
  · next hmark =>
    unfold Token.Kind.isCloser at hx
    split at hx
    · next mark hk => exact absurd hk (hmark mark)
    · cases hx

namespace Stream

lemma eq_of_isNested {k k' : Nat} {opener opener' : Symbol} (h : t.IsNested (k + 1) j)
    (h' : t.IsNested (k' + 1) j) (hk : (t.get k).kind = .symbol opener)
    (ho : opener.isOpener = true) (hk' : (t.get k').kind = .symbol opener')
    (ho' : opener'.isOpener = true) (hj : k < j) (hj' : k' < j) : k = k' := by
  rcases Nat.lt_trichotomy k k' with hlt | heq | hlt
  · rw [IsNested, tokensIn_eq_append_cons hlt hj'] at h
    exact absurd h (not_wellNested_of_opener hk' ho' h')
  · exact heq
  · rw [IsNested, tokensIn_eq_append_cons hlt hj] at h'
    exact absurd h' (not_wellNested_of_opener hk ho h)

/-! ## Where a walk ends -/

/-- A walk from `i` on ends at `r`: what it passes over is well nested and has nothing to stop at
outside of brackets, and at `r` there is something to stop at, or a bracket that closes one from
before `i`, or the end of input. -/
structure Found (t : Stream) (stop : Token.Kind → Bool) (i r : Nat) : Prop where
  le : i ≤ r
  nested : t.IsNested i r
  passed : ∀ j, i ≤ j → j < r → t.IsNested i j → stop (t.get j).kind = false
  ends : (t.get r).kind = .endOfInput ∨ stop (t.get r).kind = true ∨ ∃ k < i, t.Pairs k r

lemma Balanced.opened (h : t.Balanced) {bs : List OpenBracket} (hj : j < t.body.size)
    (hbs : Leaves (t.tokensIn 0 j) bs) : ∃ bs', nest bs (t.get j) #[] = .ok bs' := by
  cases hnest : nest bs (t.get j) #[] with
  | ok bs' => exact ⟨bs', rfl⟩
  | error e =>
    have hwhole := h.whole (le_refl t.body.size)
    rw [IsNested, tokensIn_eq_append_cons (Nat.zero_le j) hj] at hwhole
    exact absurd hwhole (hbs.broken_of_nest hnest).not_wellNested

lemma Balanced.exists_leaves (h : t.Balanced) (i : Nat) : ∃ bs, Leaves (t.tokensIn 0 i) bs := by
  induction i with
  | zero => exact ⟨[], .nested (by rw [tokensIn_self]; exact .nil)⟩
  | succ i ih =>
    obtain ⟨bs, hbs⟩ := ih
    by_cases hi : i < t.body.size
    · obtain ⟨bs', hnest⟩ := h.opened hi hbs
      exact ⟨bs', tokensIn_succ (Nat.zero_le i) ▸ hbs.of_nest hnest⟩
    · exact ⟨[], .nested (h.whole (by omega))⟩

lemma eq_nil_of_isNested {bs : List OpenBracket} (h : t.IsNested i j)
    (hbs : Leaves (t.tokensIn i j) bs) : bs = [] := by
  have hall := (foldlM_wellNested h []).symm.trans (foldlM_leaves hbs)
  simpa using hall

lemma isNested_of_leaves (h : Leaves (t.tokensIn i j) []) : t.IsNested i j := by
  rw [IsNested]
  generalize t.tokensIn i j = ts at h
  cases h with
  | nested h => exact h

lemma pairs_of_leaves {outer : List OpenBracket} {b : OpenBracket} {closer : Symbol}
    (h : Leaves (t.tokensIn 0 i) (b :: outer)) (hir : i ≤ r) (hnested : t.IsNested i r)
    (hr : (t.get r).kind = .symbol closer) (hb : b.opener.closer? = some closer) :
    ∃ k < i, t.Pairs k r := by
  generalize hts : t.tokensIn 0 i = ts at h
  cases h with
  | @opened ts inside _ x opener h hx hopener hinside =>
    have hlength : ts.length < i := by
      have := congrArg List.length hts
      simp [tokensIn] at this
      omega
    have hsplit := hts.symm.trans (tokensIn_eq_append_cons (Nat.zero_le _) hlength)
    obtain ⟨-, hrest⟩ := List.append_inj hsplit (by simp [tokensIn])
    obtain ⟨hget, rfl⟩ := List.cons.inj hrest
    exact ⟨ts.length, hlength, by omega, IsNested.append hinside hnested hlength hir,
      opener, closer, hget ▸ hx, hr, hb⟩

/-- A walk that has come from `i` to `j`: what is open there, since the start of the text and since
`i`, and that it has passed over nothing to stop at. -/
structure Walk (t : Stream) (stop : Token.Kind → Bool) (outer : List OpenBracket) (i j : Nat)
    (bs : List OpenBracket) : Prop where
  le : i ≤ j
  opened : Leaves (t.tokensIn 0 j) (bs ++ outer)
  since : Leaves (t.tokensIn i j) bs
  passed : ∀ k, i ≤ k → k < j → t.IsNested i k → stop (t.get k).kind = false

lemma Walk.next {outer : List OpenBracket} (h : t.Walk stop outer i j bs)
    (hopened : nest (bs ++ outer) (t.get j) #[] = .ok (bs' ++ outer))
    (hsince : nest bs (t.get j) #[] = .ok bs')
    (hstop : ¬ (bs.length = 0 && stop (t.get j).kind) = true) :
    t.Walk stop outer i (j + 1) bs' where
  le := Nat.le_succ_of_le h.le
  opened := tokensIn_succ (Nat.zero_le j) ▸ h.opened.of_nest hopened
  since := tokensIn_succ h.le ▸ h.since.of_nest hsince
  passed k hik hk hnested := by
    rcases Nat.lt_succ_iff_lt_or_eq.1 hk with hk | rfl
    · exact h.passed k hik hk hnested
    · obtain rfl := eq_nil_of_isNested hnested h.since
      simpa using hstop

lemma Balanced.found_findFrom (h : t.Balanced) {outer : List OpenBracket}
    (houter : Leaves (t.tokensIn 0 i) outer) :
    ∀ bs, t.Walk stop outer i j bs → bs.length = d → t.Found stop i (t.findFrom stop j d) := by
  have hget {j} (hj : j < t.body.size) : (t.get j).kind = t.body[j].kind := by simp [get, hj]
  fun_induction findFrom t stop j d with
  | case1 j d hj kind he => exact absurd ((hget hj).trans he) (h.inner j hj)
  | case2 j d hj kind he hstop =>
    intro bs hw hd
    obtain ⟨rfl, hstop⟩ : d = 0 ∧ stop kind = true := by simpa using hstop
    obtain rfl := List.length_eq_zero_iff.1 hd
    exact ⟨hw.le, isNested_of_leaves hw.since, hw.passed, .inr (.inl (by rwa [hget hj]))⟩
  | case3 j d hj kind he hstop ho ih =>
    intro bs hw hd
    obtain ⟨b, hb⟩ := nest_opener (x := t.get j) (by rwa [hget hj])
    exact ih (b :: bs) (hw.next (hb _) (hb _) (by rwa [hget hj, hd])) (by simp [hd])
  | case4 j hj kind he ho hc hstop =>
    intro bs hw hd
    obtain rfl := List.length_eq_zero_iff.1 hd
    obtain ⟨all, hnest⟩ := h.opened hj hw.opened
    obtain ⟨b, closer, rfl, hr, hb, -⟩ := nest_closer (by rwa [hget hj]) hnest
    have hnested := isNested_of_leaves hw.since
    exact ⟨hw.le, hnested, hw.passed, .inr (.inr (pairs_of_leaves houter hw.le hnested hr hb))⟩
  | case5 j d hj kind he hstop ho hc hpos ih =>
    intro bs hw hd
    obtain ⟨all, hnest⟩ := h.opened hj hw.opened
    obtain ⟨b, closer, hbs, -, -, hclose⟩ := nest_closer (by rwa [hget hj]) hnest
    cases bs with
    | nil => exact absurd hd.symm hpos
    | cons b' bs =>
      obtain ⟨rfl, rfl⟩ := List.cons.inj hbs
      exact ih bs (hw.next hnest (hclose _) (by rwa [hget hj, hd])) (by simp [← hd])
  | case6 j d hj kind he hstop ho hc ih =>
    intro bs hw hd
    have hplain {bs} : nest bs (t.get j) #[] = .ok bs :=
      nest_plain (by simpa [hget hj] using ho) (by simpa [hget hj] using hc)
    exact ih bs (hw.next hplain hplain (by rwa [hget hj, hd])) hd
  | case7 j d hj =>
    intro bs hw hd
    obtain rfl : bs = [] := by
      have := eq_nil_of_isNested (h.whole (Nat.le_of_not_lt hj)) hw.opened
      exact (List.append_eq_nil_iff.1 this).1
    refine ⟨hw.le, isNested_of_leaves hw.since, hw.passed, .inl ?_⟩
    rw [get, Array.getElem?_eq_none (Nat.le_of_not_lt hj)]
    exact h.ends

lemma Balanced.found (h : t.Balanced) : t.Found stop i (t.findAtDepthZero i stop) := by
  obtain ⟨outer, houter⟩ := h.exists_leaves i
  exact h.found_findFrom houter []
    ⟨le_refl i, houter, .nested isNested_self, fun k hik hk => absurd hk (by omega)⟩ rfl

/-! ## Arguments -/

/-- The tokens from `i` up to `j` are an argument: well nested, without a comma outside of
brackets. -/
def IsArgument (t : Stream) (i j : Nat) : Prop :=
  i ≤ j ∧ t.IsNested i j ∧ ∀ k, i ≤ k → k < j → t.IsNested i k → (t.get k).kind ≠ .symbol .comma

inductive Splits (t : Stream) (r : Nat) : Nat → List Stretch → Prop
  | last {i : Nat} (h : t.IsArgument i r) : Splits t r i [⟨i, r⟩]
  | comma {i j : Nat} {rest : List Stretch} (h : t.IsArgument i j)
    (hj : (t.get j).kind = .symbol .comma) (hrest : Splits t r (j + 1) rest) :
    Splits t r i (⟨i, j⟩ :: rest)

lemma Balanced.not_isNested (h : t.Balanced) {mark : Symbol} (hk : (t.get k).kind = .symbol mark)
    (ho : mark.isOpener = true) (hkj : k < j) (hj : t.body.size ≤ j) : ¬ t.IsNested (k + 1) j := by
  intro hnested
  have hwhole := h.whole hj
  rw [IsNested, tokensIn_eq_append_cons (Nat.zero_le k) hkj] at hwhole
  exact not_wellNested_of_opener hk ho hnested hwhole

end Stream

namespace Gen

open AdventureScript.Stream

variable {c : Context} {p limit : Nat}

/-- The step takes the argument at the cursor, up to a comma or to the closing parenthesis. -/
def TakesArgument (c : Context)
    (step : Array Argument → Gen (Round (Array Argument) (Array Argument))) : Prop :=
  ∀ given s x s', Runs (step given) c s x s' ↔ ∃ j args,
    j = c.tokens.findAtDepthZero s.pos (· = .symbol .comma) ∧
      args = given.push (.tokens ⟨s.pos, j⟩) ∧ s.pos ≠ j ∧ s' = { s with pos := c.tokens.after j } ∧
      ((c.tokens.get j).kind = .symbol .comma ∧ x = .again args ∨
        (c.tokens.get j).kind = .symbol .rightParen ∧ x = .done args)

lemma runs_takeArguments (h : c.tokens.Balanced)
    (hp : (c.tokens.get p).kind = .symbol .leftParen) (hpi : p < i)
    (hnested : c.tokens.IsNested (p + 1) i) (hlimit : c.tokens.body.size < i + limit) :
    ∃ r ranges, c.tokens.Pairs p r ∧ c.tokens.Splits r i ranges ∧
      ∀ step, TakesArgument c step → ∀ given s as s', s.pos = i →
        (Runs (roundsWithin step limit given) c s as s' ↔ s' = { s with pos := r + 1 } ∧
          (∀ x ∈ ranges, x.start ≠ x.stop) ∧ as.toList = given.toList ++ ranges.map .tokens) := by
  induction limit generalizing i with
  | zero => exact absurd hnested (h.not_isNested hp rfl hpi (by omega))
  | succ limit ih =>
    have hf : c.tokens.Found (· = .symbol .comma) i _ := h.found
    generalize hj : c.tokens.findAtDepthZero i (· = .symbol .comma) = j at hf
    have hpj : c.tokens.IsNested (p + 1) j := hnested.append hf.nested hpi hf.le
    have harg : c.tokens.IsArgument i j := ⟨hf.le, hf.nested, by simpa using hf.passed⟩
    have hround {step} (hstep : TakesArgument c step) {given s as s'} (hs : s.pos = i) :
        Runs (roundsWithin step (limit + 1) given) c s as s' ↔ i ≠ j ∧
          ((c.tokens.get j).kind = .symbol .comma ∧ Runs (roundsWithin step limit
              (given.push (.tokens ⟨i, j⟩))) c { s with pos := c.tokens.after j } as s' ∨
            (c.tokens.get j).kind = .symbol .rightParen ∧
              s' = { s with pos := c.tokens.after j } ∧ as = given.push (.tokens ⟨i, j⟩)) := by
      subst hs
      rw [TakesArgument] at hstep
      simp only [roundsWithin, runs_bind, hstep, hj]
      constructor
      · rintro ⟨x, u, ⟨_, _, rfl, rfl, hne, rfl, ⟨hk, rfl⟩ | ⟨hk, rfl⟩⟩, hrest⟩
        · exact ⟨hne, .inl ⟨hk, hrest⟩⟩
        · exact ⟨hne, .inr ⟨hk, runs_pure.1 hrest⟩⟩
      · rintro ⟨hne, ⟨hk, hrest⟩ | ⟨hk, rfl, rfl⟩⟩
        · exact ⟨_, _, ⟨_, _, rfl, rfl, hne, rfl, .inl ⟨hk, rfl⟩⟩, hrest⟩
        · exact ⟨_, _, ⟨_, _, rfl, rfl, hne, rfl, .inr ⟨hk, rfl⟩⟩, runs_pure.2 ⟨rfl, rfl⟩⟩
    rcases hf.ends with hend | hcomma | ⟨k, hki, hkj⟩
    · refine absurd hpj (h.not_isNested hp rfl (by have := hf.le; omega) ?_)
      exact Nat.le_of_not_lt fun hlt => h.inner j hlt hend
    · have hcomma : (c.tokens.get j).kind = .symbol .comma := by simpa using hcomma
      have hle := hf.le
      obtain ⟨r, ranges, hpair, hsplits, hruns⟩ := ih (i := j + 1) (by omega)
        (hpj.append (isNested_symbol hcomma rfl rfl) (by omega) (by omega)) (by omega)
      refine ⟨r, ⟨i, j⟩ :: ranges, hpair, .comma harg hcomma hsplits,
        fun step hstep given s as s' hs => ?_⟩
      rw [hround hstep hs, after_of_ne (by simp [hcomma])]
      simp [hcomma, hruns step hstep, and_assoc, and_left_comm]
    · obtain ⟨hlt, hinner, opener, closer, hopener, hcloser, hpair⟩ := hkj
      have ho : opener.isOpener = true := by cases opener <;> first | rfl | cases hpair
      obtain rfl := eq_of_isNested hinner hpj hopener ho hp rfl hlt (by have := hf.le; omega)
      cases hopener.symm.trans hp
      cases hpair
      refine ⟨j, [⟨i, j⟩], ⟨hlt, hinner, _, _, hopener, hcloser, rfl⟩, .last harg,
        fun step hstep given s as s' hs => ?_⟩
      rw [hround hstep hs, after_of_ne (by simp [hcloser])]
      simp [hcloser, and_left_comm, ← Array.toList_inj]

lemma runs_scanArguments_iff (h : c.tokens.Balanced) {s : State}
    (hp : (c.tokens.get s.pos).kind = .symbol .leftParen) :
    ∃ r ranges, c.tokens.Pairs s.pos r ∧ c.tokens.Splits r (s.pos + 1) ranges ∧ ∀ given s',
      Runs scanArguments c s given s' ↔ s' = { s with pos := r + 1 } ∧
        if r = s.pos + 1 then given = []
        else (∀ x ∈ ranges, x.start ≠ x.stop) ∧ given = ranges.map .tokens := by
  have hafter : c.tokens.after s.pos = s.pos + 1 := after_of_ne (by simp [hp])
  have hlimit : c.tokens.body.size < s.pos + 1 + (c.tokens.size + 1) := by
    simp [Stream.size]
    omega
  obtain ⟨r, ranges, hpair, hsplits, hruns⟩ := runs_takeArguments h hp (Nat.lt_succ_self _)
    isNested_self hlimit
  refine ⟨r, ranges, hpair, hsplits, fun given s' => ?_⟩
  have hempty : r = s.pos + 1 ↔ (c.tokens.get (s.pos + 1)).kind = .symbol .rightParen := by
    obtain ⟨hlt, hnested, opener, closer, hopener, hcloser, hpair⟩ := hpair
    cases hopener.symm.trans hp
    cases hpair
    exact ⟨fun hr => hr ▸ hcloser, fun hk => hnested.eq_of_closer hk rfl hlt⟩
  simp only [scanArguments, rounds, runs_seq, runs_expect, hp, hafter]
  simp
  refine Iff.trans (or_congr (and_congr_right fun _ => exists_congr fun as =>
    and_congr_left fun _ => hruns _ (fun given s x s' => ?_) #[] _ as s' rfl) Iff.rfl) ?_
  · by_cases hk : (c.tokens.get (c.tokens.findAtDepthZero s.pos (· = .symbol .comma))).kind =
        .symbol .comma
    · simp [hk]
    · simp [hk]
      exact fun _ => and_assoc.trans and_left_comm
  · by_cases hk : (c.tokens.get (s.pos + 1)).kind = .symbol .rightParen
    · simp [hk, hempty.2 hk, after_of_ne]
    · simp only [hk, mt hempty.1 hk, not_false_eq_true, true_and, false_and, or_false, if_false]
      constructor
      · rintro ⟨as, ⟨rfl, hne, has⟩, rfl⟩
        exact ⟨rfl, hne, has⟩
      · rintro ⟨rfl, hne, rfl⟩
        exact ⟨(ranges.map .tokens).toArray, ⟨rfl, hne, rfl⟩, rfl⟩

end Gen

lemma Scan.Whole.ne_endOfInput {kind : Token.Kind} {text : List Char} (h : Whole kind text) :
    kind ≠ .endOfInput := by
  rintro rfl
  cases text with
  | nil => exact h
  | cons c cs =>
    simp only [Whole, item] at h
    split_ifs at h
    · simp at h
    · simp at h
    all_goals obtain ⟨x, hx, hkind⟩ := Reading.map_eq_ok.1 h
    · cases hkind
    · unfold Item.ofString at hkind
      split at hkind <;> cases hkind
    · cases hkind
    · cases hkind
      have hnumber := (Reading.eq_ok_iff.1 hx).1
      simp only [number, numberKind] at hnumber
      repeat' split at hnumber
      all_goals cases hnumber
    · cases hkind
      have hword := (Reading.ok_inj.1 hx).1
      unfold Token.Kind.ofWord at hword
      split at hword <;> cases hword
    · obtain ⟨mark, -, -, rfl⟩ := symbolToken_eq_ok.1 hx
      cases hkind

lemma Scan.balanced_tokens (h : Scan.tokens source = .ok t) : t.Balanced where
  ends := sealed_tokens h
  nested := wellNested_tokens h
  inner i hi := by
    obtain ⟨last, -, rfl⟩ := tokens_eq_ok h
    have hmem := Array.getElem_mem hi
    have hwhole := sound_scan.whole _ hmem
    rw [Stream.get, Array.getElem?_eq_getElem hi]
    exact hwhole.ne_endOfInput

/-- Looking ahead over the tokens of a text, for anything and from any place on, ends where the
stretch ends that it starts in. So the arguments of a call are the stretches between the commas up
to the parenthesis that matches the opening one, as long as none of them is empty. -/
theorem lookahead_ends (h : Scan.tokens source = .ok t) :
    (∀ stop i, t.Found stop i (t.findAtDepthZero i stop)) ∧
    ∀ options s, (t.get s.pos).kind = .symbol .leftParen →
      ∃ r ranges, t.Pairs s.pos r ∧ t.Splits r (s.pos + 1) ranges ∧ ∀ given s',
        Gen.Runs Gen.scanArguments ⟨t, options⟩ s given s' ↔ s' = { s with pos := r + 1 } ∧
          if r = s.pos + 1 then given = []
          else (∀ x ∈ ranges, x.start ≠ x.stop) ∧ given = ranges.map .tokens := by
  have hbalanced := Scan.balanced_tokens h
  refine ⟨fun _ _ => hbalanced.found, fun options s hp => ?_⟩
  exact Gen.runs_scanArguments_iff (c := ⟨t, options⟩) hbalanced hp

theorem lookahead_ends_call : ∃ t r ranges, Scan.tokens "f(a, g(b, c), d[1])" = .ok t ∧
    t.Pairs 1 r ∧ t.Splits r 2 ranges := by
  cases h : Scan.tokens "f(a, g(b, c), d[1])" with
  | error e =>
    have hok : (Scan.tokens "f(a, g(b, c), d[1])").toOption.isSome = true := by decide +kernel
    simp [h, Except.toOption] at hok
  | ok t =>
    have hk : (t.get 1).kind = .symbol .leftParen := by
      have hall : (Scan.tokens "f(a, g(b, c), d[1])").toOption.map (fun t => (t.get 1).kind) =
          some (.symbol .leftParen) := by decide +kernel
      simpa [h, Except.toOption] using hall
    obtain ⟨r, ranges, hpair, hsplits, -⟩ := (lookahead_ends h).2 {} { pos := 1 } hk
    exact ⟨t, r, ranges, rfl, hpair, hsplits⟩

end AdventureScript
