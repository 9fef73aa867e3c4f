import AdventureScript.Proofs.Parallel.Part

/-!
Operands that are written in two token lists compile alike in both, whatever stands around them.
-/
namespace AdventureScript.Gen

variable {t : Stream} {ts us : List Token} {p q lo lo' j d : Nat} {stop : Token.Kind → Bool}

def Reads (t : Stream) : Nat → List Token → Prop
  | _, [] => True
  | p, a :: ts => Twin a (t.get p) ∧ Reads t (p + 1) ts

@[simp] lemma reads_append :
    Reads t p (ts ++ us) ↔ Reads t p ts ∧ Reads t (p + ts.length) us := by
  induction ts generalizing p with
  | nil => simp [Reads]
  | cons a ts ih => simp [Reads, ih, and_assoc, Nat.add_assoc, Nat.add_comm 1]

lemma Reads.get (h : Reads t p ts) (hj : j < ts.length) : Twin ts[j] (t.get (p + j)) := by
  induction ts generalizing p j with
  | nil => simp at hj
  | cons a ts ih =>
    cases j with
    | zero => exact h.1
    | succ j => simpa [Nat.add_assoc, Nat.add_comm 1] using ih h.2 (by simpa using hj)

lemma Twin.trans {a b c : Token} (h : Twin a b) (h' : Twin a c) : Twin b c :=
  ⟨h'.kind.trans h.kind.symm, h'.lexeme.trans h.lexeme.symm⟩

/-! ## Walks over them -/

structure Copy (k : Pair) (lo lo' : Nat) (ts : List Token) : Prop where
  options : k.c'.options = k.c.options
  closed : k.c.tokens.Sealed
  closed' : k.c'.tokens.Sealed
  reads : Reads k.c.tokens lo ts
  reads' : Reads k.c'.tokens lo' ts
  inside : ∀ a ∈ ts, a.kind ≠ .endOfInput
  ne_nil : ts ≠ []

namespace Copy

variable {k : Pair} (h : Copy k lo lo' ts)

include h

lemma twin (hj : j < ts.length) :
    Twin (k.c.tokens.get (lo + j)) (k.c'.tokens.get (lo' + j)) :=
  (h.reads.get hj).trans (h.reads'.get hj)

lemma kind_ne (hj : j < ts.length) : (k.c.tokens.get (lo + j)).kind ≠ .endOfInput := by
  rw [(h.reads.get hj).kind]
  exact h.inside _ (List.getElem_mem hj)

lemma kind_ne' (hj : j < ts.length) : (k.c'.tokens.get (lo' + j)).kind ≠ .endOfInput := by
  rw [(h.twin hj).kind]
  exact h.kind_ne hj

lemma after (hj : j < ts.length) : k.c.tokens.after (lo + j) = lo + (j + 1) :=
  Stream.after_of_ne (h.kind_ne hj)

lemma after' (hj : j < ts.length) : k.c'.tokens.after (lo' + j) = lo' + (j + 1) :=
  Stream.after_of_ne (h.kind_ne' hj)

lemma lt_size' (hj : j ≤ ts.length) : lo' + j < k.c'.tokens.size := by
  have hpos := List.length_pos_iff.2 h.ne_nil
  have := h.closed'.lt_size (h.kind_ne' (j := ts.length - 1) (by omega))
  simp only [Stream.size]
  omega

lemma findFrom_eq (hlt : k.c.tokens.findFrom stop (lo + j) d < lo + ts.length) :
    k.c'.tokens.findFrom stop (lo' + j) d + lo = k.c.tokens.findFrom stop (lo + j) d + lo' := by
  generalize hn : ts.length - j = n
  induction n generalizing j d with
  | zero =>
    have := @Stream.le_findFrom k.c.tokens (lo + j) d stop
    omega
  | succ n ih =>
    have hj : j < ts.length := by omega
    have hstep (d : Nat) (hlt : k.c.tokens.findFrom stop (lo + j + 1) d < lo + ts.length) :=
      ih (j := j + 1) (d := d) hlt (by omega)
    rw [Stream.findFrom_of_lt (h.closed.lt_size (h.kind_ne hj))] at hlt ⊢
    rw [Stream.findFrom_of_lt (h.closed'.lt_size (h.kind_ne' hj)), (h.twin hj).kind]
    simp only [h.kind_ne hj, if_false] at hlt ⊢
    split_ifs at hlt ⊢ with hstop hopen hclose hd
    · omega
    · exact hstep _ hlt
    · omega
    · exact hstep _ hlt
    · exact hstep _ hlt

end Copy

lemma findFrom_le_succ :
    t.findFrom (fun _ => false) p d ≤ t.findFrom (fun _ => false) p (d + 1) := by
  generalize hn : t.body.size - p = n
  induction n generalizing p d with
  | zero =>
    have hp : ¬p < t.body.size := by omega
    rw [Stream.findFrom, dif_neg hp]
    exact Stream.le_findFrom
  | succ n ih =>
    have hp : p < t.body.size := by omega
    have hstep (d : Nat) := ih (p := p + 1) (d := d) (by omega)
    rw [Stream.findFrom_of_lt (d := d) hp, Stream.findFrom_of_lt (d := d + 1) hp]
    simp only [Bool.and_false, Bool.false_eq_true, if_false, Nat.add_one_ne_zero,
      Nat.add_sub_cancel]
    split_ifs with he ho hc hd
    · exact le_refl p
    · exact hstep _
    · exact le_trans (Nat.le_succ p) Stream.le_findFrom
    · simpa [Nat.sub_add_cancel (Nat.pos_of_ne_zero hd)] using hstep (d - 1)
    · exact hstep _

lemma findFrom_opener (hs : t.Sealed) {e : Nat} (ho : (t.get p).kind.isOpener = true)
    (he : t.findFrom (fun _ => false) p 0 = e)
    (hin : ∀ i, p ≤ i → i ≤ e → (t.get i).kind ≠ .endOfInput) :
    (t.get (t.findFrom (fun _ => false) (p + 1) 0)).kind.isCloser = true ∧
      t.findFrom (fun _ => false) (t.findFrom (fun _ => false) (p + 1) 0 + 1) 0 = e := by
  have hp : (t.get p).kind ≠ .endOfInput := fun hp => by simp [hp, Token.Kind.isOpener] at ho
  have hdeep : t.findFrom (fun _ => false) (p + 1) 1 = e := by
    rw [Stream.findFrom_of_lt (hs.lt_size hp)] at he
    simpa [hp, ho] using he
  have hle : p + 1 ≤ t.findFrom (fun _ => false) (p + 1) 0 := Stream.le_findFrom
  have hne := hin (t.findFrom (fun _ => false) (p + 1) 0) (by omega) (hdeep ▸ findFrom_le_succ)
  have hclose : (t.get (t.findFrom (fun _ => false) (p + 1) 0)).kind.isCloser = true := by
    simpa [hne] using @Stream.kind_findFrom t (p + 1) 0 (fun _ => false) hs
  have hnested := (Stream.nested_findAtDepthZero hs hne).2 (fun _ => false) 1 Stream.bound_succ
  refine ⟨hclose, ?_⟩
  rw [← Stream.findFrom_closer hs hclose, ← hdeep, hnested]
  rfl

namespace Copy

variable {k : Pair} (h : Copy k lo lo' ts)

/-- The places of the tokens, and the ones behind them. Those within brackets are told apart by the
bracket that closes. -/
def alignment : Alignment k where
  Index := Nat
  within m p p' := ∃ j, 0 < j ∧ p = lo + j ∧ p' = lo' + j ∧ m < ts.length ∧
    k.c.tokens.findFrom (fun _ => false) p 0 = lo + m ∧
    (k.c.tokens.get (lo + m)).kind.isCloser = true
  shift p p' := ∃ j ≤ ts.length, p = lo + j ∧ p' = lo' + j
  options := h.options
  shift_of_within := by
    rintro m p p' ⟨j, _, rfl, rfl, hm, hfind, _⟩
    have := @Stream.le_findFrom k.c.tokens (lo + j) 0 fun _ => false
    exact ⟨j, by omega, rfl, rfl⟩
  lt_iff := by
    rintro p p' q q' ⟨i, _, rfl, rfl⟩ ⟨j, _, rfl, rfl⟩
    omega
  lt_size := by
    rintro p p' ⟨j, hj, rfl, rfl⟩ _
    exact h.lt_size' hj
  limit := .inr (by
    rintro p p' ⟨j, hj, rfl, rfl⟩
    exact le_of_lt (h.lt_size' hj))
  copied := by
    rintro m p p' ⟨j, _, rfl, rfl, hm, hfind, _⟩
    have := @Stream.le_findFrom k.c.tokens (lo + j) 0 fun _ => false
    exact h.twin (by omega)
  next := by
    rintro m p p' ⟨j, _, rfl, rfl, hm, hfind, hclose⟩ ho hc
    have hle := @Stream.le_findFrom k.c.tokens (lo + j) 0 fun _ => false
    have hj : j < ts.length := by omega
    rw [h.after hj, h.after' hj]
    refine ⟨j + 1, by omega, rfl, rfl, hm, ?_, hclose⟩
    rw [Stream.findFrom_of_lt (h.closed.lt_size (h.kind_ne hj))] at hfind
    simpa [h.kind_ne hj, ho, hc, Nat.add_assoc] using hfind
  find := by
    rintro m p p' stop ⟨j, _, rfl, rfl, hm, hfind, hclose⟩
    have hle := @Stream.le_findFrom k.c.tokens (lo + j) 0 stop
    have hrest := hfind
    rw [@Stream.findFrom_findFrom k.c.tokens _ _ _ stop (by simp)] at hrest
    have hle' := @Stream.le_findFrom k.c.tokens (k.c.tokens.findFrom stop (lo + j) 0) 0 fun _ => false
    have heq : k.c'.tokens.findFrom stop (lo' + j) 0 + lo =
        k.c.tokens.findFrom stop (lo + j) 0 + lo' := h.findFrom_eq (by omega)
    refine ⟨k.c.tokens.findFrom stop (lo + j) 0 - lo, by omega, ?_, ?_, hm, hrest, hclose⟩
    · change k.c.tokens.findFrom stop (lo + j) 0 = _
      omega
    · change k.c'.tokens.findFrom stop (lo' + j) 0 = _
      omega
  enter := by
    rintro m p p' ⟨j, _, rfl, rfl, hm, hfind, hclose⟩ ho
    have hle := @Stream.le_findFrom k.c.tokens (lo + j) 0 fun _ => false
    have hj : j < ts.length := by omega
    obtain ⟨hcloser, hbehind⟩ := findFrom_opener h.closed ho hfind fun i hi hi' => by
      have := h.kind_ne (j := i - lo) (by omega)
      rwa [show lo + (i - lo) = i by omega] at this
    generalize he : k.c.tokens.findFrom (fun _ => false) (lo + j + 1) 0 = e at hcloser hbehind
    have hle' := @Stream.le_findFrom k.c.tokens (lo + j + 1) 0 fun _ => false
    have hlt := @Stream.le_findFrom k.c.tokens (e + 1) 0 fun _ => false
    rw [h.after hj, h.after' hj]
    refine ⟨e - lo, ⟨j + 1, by omega, rfl, rfl, by omega, ?_, ?_⟩, ?_⟩
    · rw [show lo + (j + 1) = lo + j + 1 by omega, he]
      omega
    · rwa [show lo + (e - lo) = e by omega]
    · rintro q q' ⟨i, _, rfl, rfl, hi, hfind', _⟩ hq
      rw [Stream.findFrom_of_isCloser hq] at hfind'
      obtain rfl : i = e - lo := by omega
      rw [h.after hi, h.after' hi]
      exact ⟨e - lo + 1, by omega, rfl, rfl, hm, by rw [← hbehind]; congr 1; omega, hclose⟩

lemma respects {start start' : Nat} (hstart : start' ≤ lo') :
    h.alignment.Respects (partsFrom k.c start) (partsFrom k.c' start') := by
  have hsize := h.lt_size' (j := 0) (Nat.zero_le _)
  have hr : h.alignment.Respects (compilePart k.c.tokens.size)
      (compilePart (max k.c.tokens.size k.c'.tokens.size)) :=
    respects_compilePart (Nat.le_max_left _ _)
  rw [partsFrom, partsFrom,
    below_compilePart (max k.c.tokens.size k.c'.tokens.size) (n := _ - start') (by omega)
      (by omega)]
  have hwithin {m p p' n : Nat} (hp : h.alignment.From m n p p') :
      k.c'.tokens.size - p' < k.c'.tokens.size - start' := by
    obtain ⟨⟨j, hj, _, rfl, _⟩, _⟩ := hp
    omega
  refine ⟨fun hstop => agree_below (hr.argument hstop) fun hp _ => hwithin hp,
    agree_below hr.upTo fun hp _ => hwithin hp, fun ho => agree_below (hr.prefixed ho) ?_⟩
  rintro p p' ⟨_, q, q', hq, _, hlt⟩ _
  obtain ⟨j, _, _, rfl⟩ := ho.shift hq
  omega

end Copy

/-! ## Operands -/

inductive Balanced : List Token → Prop
  | nil : Balanced []
  | token {a ts} (ho : a.kind.isOpener = false) (hc : a.kind.isCloser = false)
    (he : a.kind ≠ .endOfInput) (h : Balanced ts) : Balanced (a :: ts)
  | group {a inner b ts} (ho : a.kind.isOpener = true) (hc : b.kind.isCloser = true)
    (hi : Balanced inner) (h : Balanced ts) : Balanced (a :: inner ++ b :: ts)

/-- What can be selected from an operand: members, elements and calls, one behind the other. -/
inductive Suffixes : List Token → Prop
  | nil : Suffixes []
  | member {a b ts} (ha : a.kind = .symbol .dot) (hb : b.kind = .identifier) (h : Suffixes ts) :
    Suffixes (a :: b :: ts)
  | group {a inner b ts} (ha : a.kind = .symbol .leftBracket ∨ a.kind = .symbol .leftParen)
    (hb : b.kind.isCloser = true) (hi : Balanced inner) (h : Suffixes ts) :
    Suffixes (a :: inner ++ b :: ts)

/-- The tokens of an operand with the operators in front of it: a literal, a name with what is
selected from it, or an expression in parentheses. -/
inductive IsOperand : List Token → Prop
  | literal {a} (ha : a.kind.isLiteral = true ∨ a.kind = .keyword .kwNull) : IsOperand [a]
  | name {a ts} (ha : a.kind = .identifier ∨ a.kind = .keyword .kwThis) (h : Suffixes ts) :
    IsOperand (a :: ts)
  | group {a inner b ts} (ha : a.kind = .symbol .leftParen) (hb : b.kind.isCloser = true)
    (hi : Balanced inner) (h : Suffixes ts) : IsOperand (a :: inner ++ b :: ts)
  | sign {a mark ts} (ha : a.kind = .symbol mark) (hop : (UnaryOp.ofSymbol? mark).isSome = true)
    (h : IsOperand ts) : IsOperand (a :: ts)

lemma IsOperand.cases_head {a : Token} (h : IsOperand (a :: ts)) :
    (ts = [] ∧ (a.kind.isLiteral = true ∨ a.kind = .keyword .kwNull)) ∨
      ((a.kind = .identifier ∨ a.kind = .keyword .kwThis) ∧ Suffixes ts) ∨
      (a.kind = .symbol .leftParen ∧ ∃ inner b us, ts = inner ++ b :: us ∧
        b.kind.isCloser = true ∧ Balanced inner ∧ Suffixes us) ∨
      ∃ mark, a.kind = .symbol mark ∧ (UnaryOp.ofSymbol? mark).isSome = true ∧ IsOperand ts := by
  generalize hts : a :: ts = us at h
  cases h with
  | literal ha =>
    cases hts
    exact .inl ⟨rfl, ha⟩
  | name ha h =>
    cases hts
    exact .inr (.inl ⟨ha, h⟩)
  | group ha hb hi h =>
    cases hts
    exact .inr (.inr (.inl ⟨ha, _, _, _, rfl, hb, hi, h⟩))
  | sign ha hop h =>
    cases hts
    exact .inr (.inr (.inr ⟨_, ha, hop, h⟩))

lemma IsOperand.exists_cons (h : IsOperand ts) : ∃ a us, ts = a :: us := by
  cases h <;> exact ⟨_, _, rfl⟩

lemma IsOperand.ne_nil (h : IsOperand ts) : ts ≠ [] := by
  cases h <;> simp

lemma Balanced.kind_ne (h : Balanced ts) : ∀ a ∈ ts, a.kind ≠ .endOfInput := by
  induction h with
  | nil => simp
  | token _ _ he _ ih => simpa using ⟨he, ih⟩
  | @group a inner b ts ho hc _ _ ihi ih =>
    have ha : a.kind ≠ .endOfInput := fun he => by simp [he, Token.Kind.isOpener] at ho
    have hb : b.kind ≠ .endOfInput := fun he => by simp [he, Token.Kind.isCloser] at hc
    intro x hx
    simp only [List.cons_append, List.mem_cons, List.mem_append] at hx
    rcases hx with rfl | hx | rfl | hx
    · exact ha
    · exact ihi x hx
    · exact hb
    · exact ih x hx

lemma Suffixes.balanced (h : Suffixes ts) : Balanced ts := by
  induction h with
  | nil => exact .nil
  | member ha hb _ ih =>
    exact .token (by rw [ha]; rfl) (by rw [ha]; rfl) (by simp [ha])
      (.token (by rw [hb]; rfl) (by rw [hb]; rfl) (by simp [hb]) ih)
  | group ha hb hi _ ih =>
    exact .group (by rcases ha with ha | ha <;> rw [ha] <;> rfl) hb hi ih

lemma IsOperand.balanced (h : IsOperand ts) : Balanced ts := by
  induction h with
  | @literal a ha =>
    have hk : a.kind.isOpener = false ∧ a.kind.isCloser = false ∧ a.kind ≠ .endOfInput := by
      cases hk : a.kind <;>
        simp_all [Token.Kind.isLiteral, Token.Kind.isOpener, Token.Kind.isCloser]
    exact .token hk.1 hk.2.1 hk.2.2 .nil
  | name ha h =>
    rcases ha with ha | ha <;>
      exact .token (by rw [ha]; rfl) (by rw [ha]; rfl) (by simp [ha]) h.balanced
  | group ha hb hi h => exact .group (by rw [ha]; rfl) hb hi h.balanced
  | @sign a mark ts ha hop _ ih =>
    obtain ⟨_, hop⟩ := Option.isSome_iff_exists.1 hop
    have hmark := UnaryOp.bracket_of_ofSymbol? hop
    exact .token (by rw [ha]; exact hmark.1) (by rw [ha]; exact hmark.2) (by simp [ha]) ih

lemma nested_of_balanced (hs : t.Sealed) (hb : Balanced ts) (h : Reads t p ts) :
    t.Nested p (p + ts.length) := by
  induction hb generalizing p with
  | nil => exact .refl
  | @token a ts ho hc he _ ih =>
    obtain ⟨ha, h⟩ := h
    have hnext : t.after p = p + 1 := Stream.after_of_ne (ha.kind ▸ he)
    have htoken : t.Nested p (t.after p) := .token hs ha.kind ho hc
    rw [hnext] at htoken
    simpa [Nat.add_assoc, Nat.add_comm 1] using htoken.trans (ih h)
  | @group a inner b ts ho hc _ _ ihi ih =>
    simp only [List.cons_append, Reads, reads_append] at h
    obtain ⟨ha, hinner, hb, h⟩ := h
    have hne {c : Token} (hk : c.kind.isOpener = true ∨ c.kind.isCloser = true) :
        c.kind ≠ .endOfInput := by
      rintro he
      simp [he, Token.Kind.isOpener, Token.Kind.isCloser] at hk
    have hopen : t.after p = p + 1 := Stream.after_of_ne (ha.kind ▸ hne (.inl ho))
    have hclose : t.after (p + 1 + inner.length) = p + 1 + inner.length + 1 :=
      Stream.after_of_ne (hb.kind ▸ hne (.inr hc))
    have hgroup : t.Nested p (t.after (p + 1 + inner.length)) :=
      .group hs ha.kind ho (by rw [hopen]; exact ihi hinner) hb.kind hc
    rw [hclose] at hgroup
    have := hgroup.trans (ih h)
    simpa [Nat.add_comm, Nat.add_left_comm] using this

def NoSuffix (t : Stream) (p : Nat) : Prop :=
  ∀ mark, mark = .dot ∨ mark = .leftBracket ∨ mark = .leftParen → (t.get p).kind ≠ .symbol mark

namespace Copy

variable {k : Pair} (h : Copy k lo lo' ts) {p' : Nat} {G : List Token → Prop}
  {before rest : List Token}

include h in
lemma twin_of_rest {a : Token} (hts : ts = before ++ a :: rest) :
    Twin a (k.c.tokens.get (lo + before.length)) ∧
      Twin (k.c.tokens.get (lo + before.length)) (k.c'.tokens.get (lo' + before.length)) := by
  have hj : before.length < ts.length := by simp [hts]
  have ha : ts[before.length] = a := by simp [hts]
  exact ⟨ha ▸ h.reads.get hj, h.twin hj⟩

def Rest (_ : Copy k lo lo' ts) (G : List Token → Prop) : Nat → Nat → Prop :=
  fun p p' => ∃ before rest, ts = before ++ rest ∧ p = lo + before.length ∧
    p' = lo' + before.length ∧ G rest

lemma shift_of_rest (hp : h.Rest G p p') : h.alignment.shift p p' := by
  obtain ⟨before, rest, hts, rfl, rfl, _⟩ := hp
  exact ⟨before.length, by simp [hts], rfl, rfl⟩

lemma rest_after {a : Token} (hts : ts = before ++ a :: rest) (hG : G rest) :
    h.Rest G (k.c.tokens.after (lo + before.length)) (k.c'.tokens.after (lo' + before.length)) := by
  have hj : before.length < ts.length := by simp [hts]
  rw [h.after hj, h.after' hj]
  exact ⟨before ++ [a], rest, by simp [hts], by simp, by simp, hG⟩

lemma opens_of_rest {inner : List Token} {a b : Token}
    (hts : ts = before ++ (a :: inner ++ b :: rest)) (hb : b.kind.isCloser = true)
    (hi : Balanced inner) (hG : G rest) :
    h.alignment.Opens (h.Rest G) (lo + before.length) (lo' + before.length) := by
  have hlength : ts.length = before.length + inner.length + rest.length + 2 := by
    simp [hts]
    omega
  have hts' : ts = (before ++ a :: inner) ++ b :: rest := by simp [hts]
  have hend : (before ++ a :: inner).length = before.length + 1 + inner.length := by
    simp
    omega
  have hclose : (k.c.tokens.get (lo + (before.length + 1 + inner.length))).kind.isCloser = true := by
    have := (h.twin_of_rest hts').1.kind
    rw [hend] at this
    rw [this, hb]
  have hinner : Reads k.c.tokens (lo + (before.length + 1)) inner := by
    have := h.reads
    simp only [hts, List.cons_append, reads_append, Reads] at this
    simpa [Nat.add_assoc] using this.2.2.1
  have hfind : k.c.tokens.findFrom (fun _ => false) (lo + (before.length + 1)) 0 =
      lo + (before.length + 1 + inner.length) := by
    rw [(nested_of_balanced h.closed hi hinner).2 _ 0 (.inr (by simp)),
      Stream.findFrom_of_isCloser (by simpa [Nat.add_assoc] using hclose)]
    omega
  refine ⟨before.length + 1 + inner.length, 0, fun {q q'} hq hk => ?_, ?_, Nat.zero_le _⟩
  · obtain ⟨⟨j, _, rfl, rfl, hm, hfind', _⟩, _⟩ := hq
    rw [Stream.findFrom_of_isCloser hk] at hfind'
    obtain rfl : j = (before ++ a :: inner).length := by omega
    exact h.rest_after hts' hG
  · rw [h.after (by omega), h.after' (by omega)]
    exact ⟨before.length + 1, by omega, rfl, rfl, by omega, hfind, hclose⟩

section

variable (hend : NoSuffix k.c.tokens (lo + ts.length)) (hend' : NoSuffix k.c'.tokens (lo' + ts.length))

include hend hend'

lemma suffixed : h.alignment.Suffixed (h.Rest Suffixes) where
  shift := h.shift_of_rest
  sees := by
    rintro mark hmark p p' ⟨before, rest, hts, rfl, rfl, _⟩
    cases rest with
    | nil =>
      obtain rfl : ts = before := by simpa using hts
      exact iff_of_false (hend' mark hmark) (hend mark hmark)
    | cons a rest => rw [(h.twin_of_rest hts).2.kind]
  dot := by
    rintro p p' ⟨before, rest, hts, rfl, rfl, hrest⟩ hk
    cases hrest with
    | nil =>
      obtain rfl : ts = before := by simpa using hts
      exact absurd hk (hend _ (.inl rfl))
    | @member a b us ha hb hus =>
      have hts' : ts = (before ++ [a]) ++ b :: us := by simp [hts]
      have hj : before.length < ts.length := by simp [hts]
      have hlen : (before ++ [a]).length = before.length + 1 := by simp
      rw [h.after hj, h.after' hj, ← hlen]
      exact ⟨(h.twin_of_rest hts').2, fun _ => h.rest_after hts' hus⟩
    | group ha =>
      have := (h.twin_of_rest hts).1.kind
      rcases ha with ha | ha <;> simp [this, ha] at hk
  opens := by
    rintro p p' ⟨before, rest, hts, rfl, rfl, hrest⟩ hk
    cases hrest with
    | nil =>
      obtain rfl : ts = before := by simpa using hts
      rcases hk with hk | hk
      · exact absurd hk (hend _ (.inr (.inl rfl)))
      · exact absurd hk (hend _ (.inr (.inr rfl)))
    | member ha =>
      have := (h.twin_of_rest hts).1.kind
      simp [this, ha] at hk
    | group ha hb hi hus => exact h.opens_of_rest hts hb hi hus

def Halts (h : Copy k lo lo' ts) : Nat → Nat → Prop :=
  fun p p' => h.alignment.shift p p' ∧
    (p = lo + ts.length ∨ (k.c.tokens.get p).kind = .symbol .leftParen)

lemma operands : h.alignment.Operands (h.Rest IsOperand) (h.Rest Suffixes) h.Halts where
  shift := h.shift_of_rest
  copied := by
    rintro p p' ⟨before, rest, hts, rfl, rfl, hrest⟩
    obtain ⟨a, us, rfl⟩ := hrest.exists_cons
    exact (h.twin_of_rest hts).2
  literal := by
    rintro p p' ⟨before, rest, hts, rfl, rfl, hrest⟩ hk
    obtain ⟨a, us, rfl⟩ := hrest.exists_cons
    rw [(h.twin_of_rest hts).1.kind] at hk
    rcases hrest.cases_head with ⟨rfl, _⟩ | ⟨ha, _⟩ | ⟨ha, _⟩ | ⟨mark, ha, _⟩
    · have hrest := h.rest_after hts (G := fun us => us = []) rfl
      refine ⟨h.shift_of_rest hrest, .inl ?_⟩
      rw [h.after (by simp [hts])]
      simp [hts]
    · rcases ha with ha | ha <;> simp [ha, Token.Kind.isLiteral] at hk
    · simp [ha, Token.Kind.isLiteral] at hk
    · simp [ha, Token.Kind.isLiteral] at hk
  name := by
    rintro p p' ⟨before, rest, hts, rfl, rfl, hrest⟩ hk
    obtain ⟨a, us, rfl⟩ := hrest.exists_cons
    rw [(h.twin_of_rest hts).1.kind] at hk
    rcases hrest.cases_head with ⟨_, ha⟩ | ⟨_, hus⟩ | ⟨ha, _⟩ | ⟨mark, ha, _⟩
    · rcases hk with hk | hk <;> simp [hk, Token.Kind.isLiteral] at ha
    · exact h.rest_after hts hus
    · simp [ha] at hk
    · simp [ha] at hk
  sign := by
    rintro p p' mark ⟨before, rest, hts, rfl, rfl, hrest⟩ hk hop
    obtain ⟨a, us, rfl⟩ := hrest.exists_cons
    rw [(h.twin_of_rest hts).1.kind] at hk
    rcases hrest.cases_head with ⟨_, ha⟩ | ⟨ha, _⟩ | ⟨ha, _⟩ | ⟨_, _, _, hus⟩
    · simp [hk, Token.Kind.isLiteral] at ha
    · simp [hk] at ha
    · obtain rfl : mark = .leftParen := by simpa [hk] using ha
      simp [UnaryOp.ofSymbol?] at hop
    · exact h.rest_after hts hus
  opens := by
    rintro p p' ⟨before, rest, hts, rfl, rfl, hrest⟩ hk
    obtain ⟨a, us, rfl⟩ := hrest.exists_cons
    rw [(h.twin_of_rest hts).1.kind] at hk
    rcases hrest.cases_head with ⟨_, ha⟩ | ⟨ha, _⟩ | ⟨_, inner, b, us, rfl, hb, hi, hus⟩ |
      ⟨mark, ha, hop, _⟩
    · simp [hk, Token.Kind.isLiteral] at ha
    · simp [hk] at ha
    · exact h.opens_of_rest hts hb hi hus
    · obtain rfl : .leftParen = mark := by simpa [hk] using ha
      simp [UnaryOp.ofSymbol?] at hop
  fresh := by
    rintro p p' ⟨before, rest, hts, rfl, rfl, hrest⟩ hk
    obtain ⟨a, us, rfl⟩ := hrest.exists_cons
    rw [(h.twin_of_rest hts).1.kind] at hk
    rcases hrest.cases_head with ⟨_, ha⟩ | ⟨ha, _⟩ | ⟨ha, _⟩ | ⟨mark, ha, _⟩ <;>
      simp [hk, Token.Kind.isLiteral] at ha
  suffixed := h.suffixed hend hend'
  stop := by
    rintro p p' hp hdot hbracket
    refine ⟨h.shift_of_rest hp, ?_⟩
    obtain ⟨before, rest, hts, rfl, rfl, hrest⟩ := hp
    cases hrest with
    | nil => exact .inl (by simp [hts])
    | member ha => exact absurd ((h.twin_of_rest hts).1.kind.trans ha) hdot
    | group ha =>
      rcases ha with ha | ha
      · exact absurd ((h.twin_of_rest hts).1.kind.trans ha) hbracket
      · exact .inr ((h.twin_of_rest hts).1.kind.trans ha)

lemma agree_compilePrefixed (hts : IsOperand ts) {start start' : Nat} (hstart : start' ≤ lo') :
    Agree k (fun p p' => p = lo ∧ p' = lo') (With (Moved h.alignment.Span) h.Halts)
      (compilePrefixed (partsFrom k.c start)) (compilePrefixed (partsFrom k.c' start')) :=
  (Gen.agree_compilePrefixed (h.operands hend hend') (h.respects hstart)).before
    fun hp => ⟨[], ts, by simp, hp.1, hp.2, hts⟩

end

end Copy

end AdventureScript.Gen
