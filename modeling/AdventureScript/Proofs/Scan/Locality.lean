import AdventureScript.Scan.Basic
import Mathlib.Data.List.TakeWhile

/-!
Where an item ends. A blank goes on over white space.
-/
namespace AdventureScript.Scan

variable {α β : Type} {c d : Char} {cs cs' rest : List Char} {a : α} {m n : Nat} {f : α → β}
  {p : Char → Bool}

namespace Reading

variable {r : Reading α}

@[simp]
lemma ok_inj {b : α} : ok a m = ok b n ↔ a = b ∧ m = n := by
  simp [ok]

@[simp]
lemma fail_ne_ok {f : Fault} : fail f m ≠ ok a n := by
  simp [fail, ok]

@[simp]
lemma map_ok : (ok a n).map f = ok (f a) n :=
  rfl

@[simp]
lemma after_ok {k : Nat} : (ok a n).after k = ok a (k + n) :=
  rfl

lemma eq_ok_iff : r = ok a n ↔ r.outcome = .ok a ∧ r.used = n := by
  cases r
  simp [ok]

lemma map_eq_ok {b : β} : r.map f = ok b n ↔ ∃ a, r = ok a n ∧ f a = b := by
  cases r with | mk outcome used =>
  cases outcome <;> simp [map, ok, Except.map, and_comm, and_left_comm]

lemma after_eq_ok {k : Nat} : r.after k = ok a n ↔ ∃ m, r = ok a m ∧ k + m = n := by
  cases r
  simp [after, ok, and_assoc]

end Reading

/-! ## Texts that begin alike -/

/-- The second text has the first `n` characters of the first one; behind them it has the same next
character, or a `d`, or nothing. -/
inductive Alike (d : Char) : Nat → List Char → List Char → Prop
  | same (c : Char) {cs cs' : List Char} : Alike d 0 (c :: cs) (c :: cs')
  | stop {cs cs' : List Char} : Alike d 0 cs (d :: cs')
  | nil {cs : List Char} : Alike d 0 cs []
  | cons (c : Char) {n : Nat} {cs cs' : List Char} (h : Alike d n cs cs') :
    Alike d (n + 1) (c :: cs) (c :: cs')

lemma alike_append (h : n ≤ cs.length) : Alike d n cs (cs ++ d :: rest) := by
  induction n generalizing cs with
  | zero => cases cs <;> constructor
  | succ n ih =>
    cases cs with
    | nil => simp at h
    | cons c cs => exact .cons c (ih (by simpa using h))

lemma alike_take (h : n ≤ cs.length) (hrest : Alike d 0 (cs.drop n) rest) :
    Alike d n cs (cs.take n ++ rest) := by
  induction n generalizing cs with
  | zero => exact hrest
  | succ n ih =>
    cases cs with
    | nil => simp at h
    | cons c cs => exact .cons c (ih (by simpa using h) hrest)

namespace Alike

lemma take_eq (h : Alike d n cs cs') : cs'.take n = cs.take n := by
  induction h with
  | cons c h ih => rw [List.take_succ_cons, ih, List.take_succ_cons]
  | _ => rfl

lemma drop (h : Alike d (m + n) cs cs') : Alike d n (cs.drop m) (cs'.drop m) := by
  induction m generalizing cs cs' with
  | zero => simpa using h
  | succ m ih =>
    rw [Nat.succ_add_eq_add_succ] at h
    cases h with
    | cons _ h => exact ih h

lemma mono (h : Alike d n cs cs') (hm : m ≤ n) : Alike d m cs cs' := by
  induction h generalizing m with
  | cons c h ih =>
    cases m with
    | zero => exact .same c
    | succ m => exact .cons c (ih (by omega))
  | _ => cases Nat.le_zero.1 hm; constructor

lemma head?_eq (h : Alike d n cs cs') (hn : 0 < n) : cs'.head? = cs.head? := by
  cases h <;> first | rfl | omega

lemma of_head? (h : Alike d n cs cs') (hc : c ≠ d) (hcs' : cs'.head? = some c) :
    cs.head? = some c := by
  cases h <;> simp_all

lemma tail (h : Alike d n cs cs') (hn : 0 < n) : Alike d (n - 1) cs.tail cs'.tail := by
  cases h with
  | cons c h => exact h
  | _ => omega

lemma ne_cons (h : Alike d n cs cs') (hc : 0 < n ∨ c ≠ d)
    (hne : ∀ tail, cs = c :: tail → False) : ∀ tail, cs' = c :: tail → False := by
  rintro tail rfl
  cases h with
  | stop => simp at hc
  | _ => exact hne _ rfl

lemma takeWhile_eq (h : Alike d n cs cs') (hp : p d = false)
    (hn : (cs.takeWhile p).length ≤ n) : cs'.takeWhile p = cs.takeWhile p := by
  induction h with
  | same c => grind [List.takeWhile_cons]
  | cons c h ih => grind [List.takeWhile_cons]
  | _ => simp [List.eq_nil_of_length_eq_zero (Nat.le_zero.1 hn), hp]

lemma octalTail_eq (limit value : Nat) (h : Alike d n cs cs') (hd : octalDigit? d = none)
    (hn : (octalTail limit value cs).2 ≤ n) :
    octalTail limit value cs' = octalTail limit value cs := by
  induction limit generalizing value n cs cs' with
  | zero => simp [octalTail]
  | succ limit ih => cases cs <;> cases h <;> simp only [octalTail, hd] at hn ⊢ <;> grind

lemma hexTail_eq (limit value : Nat) (h : Alike d n cs cs') (hd : hexDigit? d = none)
    (hn : (hexTail limit value cs).2 ≤ n) : hexTail limit value cs' = hexTail limit value cs := by
  induction limit generalizing value n cs cs' with
  | zero => simp [hexTail]
  | succ limit ih => cases cs <;> cases h <;> simp only [hexTail, hd] at hn ⊢ <;> grind

end Alike

/-- A rule that reads `cs` well stays within it, and reads the same of every text that begins alike. -/
def Settles (d : Char) (rule : List Char → Reading α) (cs : List Char) : Prop :=
  ∀ a n, rule cs = .ok a n → n ≤ cs.length ∧ ∀ cs', Alike d n cs cs' → rule cs' = .ok a n

lemma Settles.map {rule : List Char → Reading α} (h : Settles d rule cs) :
    Settles d (fun cs => (rule cs).map f) cs := by
  intro b n hb
  obtain ⟨a, ha, rfl⟩ := Reading.map_eq_ok.1 hb
  exact ⟨(h a n ha).1, fun cs' h' => Reading.map_eq_ok.2 ⟨a, (h a n ha).2 cs' h', rfl⟩⟩

lemma Settles.ite {p : List Char → Prop} [DecidablePred p] {rule1 rule2 : List Char → Reading α}
    (hp : ∀ {n cs'}, Alike d n cs cs' → p cs' → p cs)
    (hp' : ∀ {a n cs'}, p cs → rule1 cs = .ok a n → Alike d n cs cs' → p cs')
    (h1 : p cs → Settles d rule1 cs) (h2 : ¬ p cs → Settles d rule2 cs) :
    Settles d (fun cs => if p cs then rule1 cs else rule2 cs) cs := by
  intro a n h
  by_cases hcs : p cs
  · simp only [hcs, if_true] at h
    refine ⟨(h1 hcs a n h).1, fun cs' h' => ?_⟩
    simp only [hp' hcs h h', if_true, (h1 hcs a n h).2 cs' h']
  · simp only [hcs, if_false] at h
    refine ⟨(h2 hcs a n h).1, fun cs' h' => ?_⟩
    simp only [mt (hp h') hcs, if_false, (h2 hcs a n h).2 cs' h']

lemma length_takeWhile_le : (cs.takeWhile p).length ≤ cs.length :=
  (List.takeWhile_prefix p).length_le

lemma blockCommentEnd_eq_ok (h : blockCommentEnd cs n = .ok () m) : n + 2 ≤ m ∧
    m ≤ n + cs.length ∧ ∀ cs', Alike d (m - n) cs cs' → blockCommentEnd cs' n = .ok () m := by
  fun_induction blockCommentEnd cs n with
  | case1 cs n =>
    obtain ⟨-, rfl⟩ := Reading.ok_inj.1 h
    refine ⟨le_rfl, by simp, fun cs' h' => ?_⟩
    rw [Nat.add_sub_cancel_left] at h'
    cases h' with | cons _ h' =>
    cases h' with | cons _ h' =>
    rw [blockCommentEnd]
  | case2 c cs n hne ih =>
    obtain ⟨hlt, hle, hcs⟩ := ih h
    refine ⟨by omega, by simp only [List.length_cons]; omega, fun cs' h' => ?_⟩
    rw [show m - n = m - (n + 2) + 1 + 1 by omega] at h'
    cases h' with | cons _ h' =>
    rw [blockCommentEnd, hcs _ (by rwa [show m - (n + 1) = m - (n + 2) + 1 by omega])]
    -- The comment does not end with `c`, so a character follows it that both texts have.
    rintro ds rfl rfl
    cases h'
    exact hne _ rfl rfl
  | case3 n => simp at h

lemma settles_lineComment : Settles '\n' (fun cs => .ok a (lineComment cs)) cs := by
  intro b n h
  obtain ⟨rfl, rfl⟩ := Reading.ok_inj.1 h
  refine ⟨length_takeWhile_le, fun cs' h' => ?_⟩
  dsimp only
  rw [lineComment, h'.takeWhile_eq (by decide) le_rfl, lineComment]

lemma settles_blockComment (hcs : cs ≠ []) :
    Settles d (fun cs => blockCommentEnd cs.tail 1) cs := by
  intro _ n h
  obtain ⟨c, cs, rfl⟩ := List.exists_cons_of_ne_nil hcs
  obtain ⟨hlt, hle, hcs'⟩ := blockCommentEnd_eq_ok h
  refine ⟨by simp only [List.tail_cons, List.length_cons] at hle ⊢; omega, fun cs' h' => ?_⟩
  rw [show n = n - 1 + 1 by omega] at h'
  cases h' with | cons _ h' => exact hcs' _ h'

lemma octalTail_le (limit value : Nat) : (octalTail limit value cs).2 ≤ cs.length := by
  fun_induction octalTail limit value cs <;> simp_all

lemma hexTail_le (limit value : Nat) : (hexTail limit value cs).2 ≤ cs.length := by
  fun_induction hexTail limit value cs <;> simp_all

lemma escape_used_pos {b : UInt8} (h : escape cs = .ok b n) : 0 < n := by
  unfold escape at h
  repeat' split at h
  all_goals simp_all [Reading.ok, Reading.fail]
  all_goals omega

lemma settles_closeChar (value : Nat) : Settles d (closeChar value) cs := by
  intro a n h
  unfold closeChar at h
  split at h
  · simp at h
  · obtain ⟨rfl, rfl⟩ := Reading.ok_inj.1 h
    refine ⟨by simp, fun cs' h' => ?_⟩
    cases h'
    rw [closeChar]
  · simp at h

/-! ## Extents -/

lemma digitRun_le : digitRun cs ≤ cs.length :=
  length_takeWhile_le

lemma fractionExtent_nil : fractionExtent [] = 0 :=
  rfl

lemma fractionExtent_cons : fractionExtent (c :: cs) = if c = '.' then 1 + digitRun cs else 0 := by
  split
  · next h => rw [h, fractionExtent]
  · next h => exact fractionExtent.eq_2 _ fun _ hc => h (List.cons.inj hc).1

lemma exponentExtent_nil : exponentExtent [] = 0 :=
  rfl

lemma exponentExtent_cons : exponentExtent (c :: cs) =
    if c = 'e' || c = 'E' then
      if cs.head? = some '-' ∨ cs.head? = some '+' then 2 + digitRun cs.tail else 1 + digitRun cs
    else 0 := by
  unfold exponentExtent
  cases cs <;> grind

lemma fractionExtent_le : fractionExtent cs ≤ cs.length := by
  unfold fractionExtent
  split
  · have := @digitRun_le ‹List Char›
    simp only [List.length_cons]
    omega
  · exact Nat.zero_le _

lemma exponentExtent_le : exponentExtent cs ≤ cs.length := by
  unfold exponentExtent
  have hle := fun cs => @digitRun_le cs
  repeat' split
  all_goals grind

lemma numberExtent_le : (numberExtent c cs).1 ≤ cs.length := by
  have hwhole := @digitRun_le cs
  have hfraction := @fractionExtent_le (cs.drop (digitRun cs))
  have hexponent := fun n => @exponentExtent_le (cs.drop n)
  simp only [List.length_drop] at hfraction hexponent
  simp only [numberExtent]
  split
  · have := hexponent (digitRun cs + 0)
    omega
  · have := hexponent (digitRun cs + fractionExtent (cs.drop (digitRun cs)))
    omega

lemma symbol?_le {mark : Symbol} (h : symbol? c cs = some (mark, n)) : n ≤ cs.length := by
  revert h
  fun_cases symbol? c cs <;> rintro ⟨⟩ <;> simp

lemma symbolToken_eq_ok {kind : Token.Kind} : symbolToken c cs = .ok kind n ↔ ∃ mark,
    symbol? c cs = some (mark, n) ∧ (mark = .dot → ∀ tail, cs = '.' :: tail → False) ∧
      kind = .symbol mark := by
  unfold symbolToken
  have hzero : ∀ k, symbol? c cs = some (.dot, k) → k = 0 := by
    fun_cases symbol? c cs <;> simp +contextual
  split
  · next k hk =>
    cases hzero k hk
    cases cs <;> grind [Reading.ok_inj, Reading.fail_ne_ok]
  · grind [Reading.ok_inj]
  · next hk => simp [hk]

lemma not_blank (hd : isBlank d = true) : octalDigit? d = none ∧ hexDigit? d = none ∧
    d.isDigit = false ∧ isWordChar d = false := by
  simp only [isBlank, Bool.or_eq_true, decide_eq_true_eq] at hd
  rcases hd with (((rfl | rfl) | rfl) | rfl) | rfl <;> decide

section

variable (hd : isBlank d = true)
include hd

lemma settles_escape : Settles d escape cs := by
  intro b n h
  obtain ⟨ho, hx, -⟩ := not_blank hd
  have hpos := escape_used_pos h
  cases cs with
  | nil => simp [escape] at h
  | cons c cs =>
    have hole := fun v => @octalTail_le cs 2 v
    have hxle := @hexTail_le cs 2 0
    refine ⟨?_, fun cs' h' => ?_⟩
    · simp only [escape] at h
      repeat' split at h
      all_goals grind [Reading.ok_inj, Reading.fail_ne_ok]
    · rw [show n = n - 1 + 1 by omega] at h'
      cases h' with | cons _ h' =>
      have hoeq := fun v => h'.octalTail_eq 2 v ho
      have hxeq := h'.hexTail_eq 2 0 hx
      simp only [escape] at h ⊢
      grind [Reading.ok_inj, Reading.fail_ne_ok]

lemma settles_charLiteral : Settles d charLiteral cs := by
  intro a n h
  unfold charLiteral at h
  split at h
  · simp at h
  · simp at h
  · next cs hne =>
    dsimp only at h
    split at h
    · simp at h
    · next b hb =>
      obtain ⟨m, hm, rfl⟩ := Reading.after_eq_ok.1 h
      have hescape : escape cs = .ok b (escape cs).used := Reading.eq_ok_iff.2 ⟨hb, rfl⟩
      obtain ⟨hused, hkeep⟩ := settles_escape hd b _ hescape
      obtain ⟨hclose, hrest⟩ := settles_closeChar _ _ _ hm
      refine ⟨by simp only [List.length_drop, List.length_cons] at hclose ⊢; omega, fun cs' h' => ?_⟩
      rw [Nat.add_assoc, Nat.add_comm] at h'
      cases h' with | cons _ h' =>
      rw [charLiteral]
      · simp only [hkeep _ (h'.mono (Nat.le_add_right _ m)), Reading.ok]
        exact Reading.after_eq_ok.2 ⟨m, hrest _ h'.drop, rfl⟩
      · exact h'.ne_cons (.inl (Nat.add_pos_left (escape_used_pos hescape) m)) hne
  · next c cs hne1 hne2 =>
    obtain ⟨m, hm, rfl⟩ := Reading.after_eq_ok.1 h
    obtain ⟨hclose, hrest⟩ := settles_closeChar _ _ _ hm
    refine ⟨by simp only [List.length_cons]; omega, fun cs' h' => ?_⟩
    rw [Nat.add_comm] at h'
    cases h' with | cons _ h' =>
    rw [charLiteral]
    · exact Reading.after_eq_ok.2 ⟨m, hrest _ h', rfl⟩
    · exact fun tail hc _ => hne2 hc
    · exact hne2

lemma settles_stringLiteral : Settles d stringLiteral cs := by
  intro bytes n h
  fun_induction stringLiteral cs generalizing bytes n with
  | case1 => simp at h
  | case2 cs =>
    obtain ⟨rfl, rfl⟩ := Reading.ok_inj.1 h
    refine ⟨by simp, fun cs' h' => ?_⟩
    cases h'
    rw [stringLiteral]
  | case3 cs ih =>
    obtain ⟨tail, htail, rfl⟩ := Reading.map_eq_ok.1 h
    obtain ⟨m, hm, rfl⟩ := Reading.after_eq_ok.1 htail
    obtain ⟨hle, hrest⟩ := ih tail m hm
    refine ⟨by simp only [List.length_cons]; omega, fun cs' h' => ?_⟩
    rw [Nat.add_comm] at h'
    cases h' with | cons _ h' =>
    cases h' with | cons _ h' =>
    rw [stringLiteral, hrest _ h']
    rfl
  | case4 cs hne hbreak => simp at h
  | case5 cs hne hbreak e f hf => simp at h
  | case6 cs hne hbreak e b hb ih =>
    obtain ⟨tail, htail, rfl⟩ := Reading.map_eq_ok.1 h
    obtain ⟨m, hm, rfl⟩ := Reading.after_eq_ok.1 htail
    have hescape : escape cs = .ok b (escape cs).used := Reading.eq_ok_iff.2 ⟨hb, rfl⟩
    obtain ⟨hused, hkeep⟩ := settles_escape hd b _ hescape
    obtain ⟨hle, hrest⟩ := ih tail m hm
    refine ⟨by simp only [e, List.length_drop, List.length_cons] at hle ⊢; omega, fun cs' h' => ?_⟩
    rw [Nat.add_assoc, Nat.add_comm] at h'
    cases h' with | cons _ h' =>
    have hpos : 0 < e.used + m := Nat.add_pos_left (escape_used_pos hescape) m
    rw [stringLiteral, h'.head?_eq hpos, if_neg hbreak]
    · simp only [hkeep _ (h'.mono (Nat.le_add_right _ m)), Reading.ok]
      rw [hrest _ h'.drop]
      rfl
    · exact h'.ne_cons (.inl hpos) hne
  | case7 c cs h1 h2 h3 h4 => simp at h
  | case8 c cs h1 h2 h3 h4 ih =>
    obtain ⟨tail, htail, rfl⟩ := Reading.map_eq_ok.1 h
    obtain ⟨m, hm, rfl⟩ := Reading.after_eq_ok.1 htail
    obtain ⟨hle, hrest⟩ := ih tail m hm
    refine ⟨by simp only [List.length_cons]; omega, fun cs' h' => ?_⟩
    rw [Nat.add_comm] at h'
    cases h' with | cons _ h' =>
    rw [stringLiteral, if_neg h4, hrest _ h']
    · rfl
    · exact h1
    · exact fun _ hc _ => h3 hc
    · exact h3

lemma digitRun_eq (h : Alike d n cs cs') (hn : digitRun cs ≤ n) : digitRun cs' = digitRun cs := by
  rw [digitRun, h.takeWhile_eq (not_blank hd).2.2.1 hn, digitRun]

lemma fractionExtent_eq (h : Alike d n cs cs') (hn : fractionExtent cs ≤ n) :
    fractionExtent cs' = fractionExtent cs := by
  have hdot : d ≠ '.' := by rintro rfl; simp [isBlank] at hd
  have hrun := fun {n cs cs'} => @digitRun_eq d cs cs' n hd
  cases cs <;> cases h <;> grind [fractionExtent_cons, fractionExtent_nil]

lemma exponentExtent_eq (h : Alike d n cs cs') (hn : exponentExtent cs ≤ n) :
    exponentExtent cs' = exponentExtent cs := by
  have hmark : 'e' ≠ d ∧ 'E' ≠ d ∧ '-' ≠ d ∧ '+' ≠ d := by
    refine ⟨?_, ?_, ?_, ?_⟩ <;> rintro rfl <;> simp [isBlank] at hd
  have hrun := fun {n cs cs'} => @digitRun_eq d cs cs' n hd
  cases h with
  | cons c h =>
    have hminus := h.of_head? hmark.2.2.1
    have hplus := h.of_head? hmark.2.2.2
    have hhead := h.head?_eq
    have htail := fun h0 => hrun (h.tail h0)
    rw [exponentExtent_cons] at hn ⊢
    rw [exponentExtent_cons]
    grind
  | same c => grind [exponentExtent_cons]
  | _ => grind [exponentExtent_cons, exponentExtent_nil]

lemma numberExtent_eq (h : Alike d n cs cs') (hn : (numberExtent c cs).1 ≤ n) :
    numberExtent c cs' = numberExtent c cs := by
  have hdrop : ∀ k, k ≤ n → Alike d (n - k) (cs.drop k) (cs'.drop k) := fun k hk =>
    Alike.drop (by rwa [Nat.add_sub_cancel' hk])
  simp only [numberExtent] at hn ⊢
  rw [digitRun_eq hd h (by omega)]
  have hfraction : (if c = '.' then 0 else fractionExtent (cs'.drop (digitRun cs))) =
      if c = '.' then 0 else fractionExtent (cs.drop (digitRun cs)) := by
    split_ifs with hc
    · rfl
    · rw [if_neg hc] at hn
      exact fractionExtent_eq hd (hdrop _ (by omega)) (by omega)
  rw [hfraction, exponentExtent_eq hd (hdrop _ (by omega)) (by omega)]

lemma settles_number : Settles d (number c) cs := by
  intro kind n h
  obtain ⟨hkind, rfl⟩ := Reading.eq_ok_iff.1 h
  refine ⟨numberExtent_le, fun cs' h' => ?_⟩
  have htake : cs'.take (numberExtent c cs).1 = cs.take (numberExtent c cs).1 := h'.take_eq
  simp only [number, numberExtent_eq hd h' le_rfl, htake] at hkind ⊢
  rw [hkind]
  rfl

lemma settles_word : Settles d (word c) cs := by
  intro kind n h
  obtain ⟨rfl, rfl⟩ := Reading.ok_inj.1 h
  refine ⟨length_takeWhile_le, fun cs' h' => ?_⟩
  rw [word, h'.takeWhile_eq (not_blank hd).2.2.2 le_rfl]

lemma symbol?_eq {mark : Symbol} (h' : Alike d n cs cs') (h : symbol? c cs = some (mark, n))
    (hdot : mark = .dot → ∀ tail, cs = '.' :: tail → False) : symbol? c cs' = some (mark, n) := by
  have hne : ∀ e, isBlank e = false → e ≠ d := by
    rintro e he rfl
    simp [hd] at he
  revert h hdot
  fun_cases symbol? c cs
  all_goals intro h hdot; cases h
  all_goals first
    | rfl
    | (cases h' with | cons _ h' => first
        | rfl
        | (cases h' with | cons _ h' => rfl)
        | (rw [symbol?]; exact h'.ne_cons (.inr (hne _ rfl)) ‹_›))
    | rw [symbol?]
  all_goals first
    | exact h'.ne_cons (.inr (hne _ rfl)) ‹_›
    | exact fun _ => h'.ne_cons (.inr (hne _ rfl)) ‹_› _
    | exact fun _ => h'.ne_cons (.inr (hne _ rfl)) (hdot rfl) _

lemma settles_symbolToken : Settles d (symbolToken c) cs := by
  intro kind n h
  obtain ⟨mark, hsymbol, hdot, rfl⟩ := symbolToken_eq_ok.1 h
  refine ⟨symbol?_le hsymbol, fun cs' h' => ?_⟩
  refine symbolToken_eq_ok.2 ⟨mark, symbol?_eq hd h' hsymbol hdot, fun hmark => ?_, rfl⟩
  exact h'.ne_cons (.inr (by rintro rfl; simp [isBlank] at hd)) (hdot hmark)

lemma startsNumber_of_alike (h' : Alike d n cs cs') (h : startsNumber c cs' = true) :
    startsNumber c cs = true := by
  simp only [startsNumber, Bool.or_eq_true, Bool.and_eq_true, Option.any_eq_true] at h ⊢
  refine h.imp_right (And.imp_right ?_)
  rintro ⟨e, he, hdigit⟩
  refine ⟨e, h'.of_head? ?_ he, hdigit⟩
  rintro rfl
  simp [(not_blank hd).2.2.1] at hdigit

lemma settles_item (hc : isBlank c = false)
    (hline : c = '/' → cs.head? = some '/' → d = '\n') : Settles d (item c) cs := by
  have hne : ∀ e, isBlank e = false → e ≠ d := by
    rintro e he rfl
    simp [hd] at he
  have hhead : ∀ {e : Char} {n cs'}, isBlank e = false → Alike d n cs cs' →
      (c = '/' && cs'.head? = some e) = true → (c = '/' && cs.head? = some e) = true := by
    intro e n cs' he h'
    simp only [Bool.and_eq_true, decide_eq_true_eq]
    exact And.imp_right (h'.of_head? (hne e he))
  unfold item
  refine .ite (fun _ h => h) (fun h _ _ => h) (fun h => absurd h (by simp [hc])) fun _ => ?_
  refine .ite (hhead rfl) (fun h hread h' => ?_) (fun h => ?_) fun _ => ?_
  · obtain ⟨-, rfl⟩ := Reading.ok_inj.1 hread
    rwa [h'.head?_eq]
    cases cs <;> simp_all [lineComment]
  · simp only [Bool.and_eq_true, decide_eq_true_eq] at h
    cases hline h.1 h.2
    exact settles_lineComment
  refine .ite (hhead rfl) (fun h hread h' => ?_) (fun h => .map (settles_blockComment ?_)) fun _ => ?_
  · obtain ⟨_, hend, -⟩ := Reading.map_eq_ok.1 hread
    have := (@blockCommentEnd_eq_ok d _ _ _ hend).1
    rwa [h'.head?_eq (by omega)]
  · rintro rfl
    simp at h
  refine .ite (fun _ h => h) (fun h _ _ => h) (fun _ => .map (settles_stringLiteral hd)) fun _ => ?_
  refine .ite (fun _ h => h) (fun h _ _ => h) (fun _ => .map (settles_charLiteral hd)) fun _ => ?_
  refine .ite (startsNumber_of_alike hd) (fun h hread h' => ?_) (fun _ => .map (settles_number hd))
    fun _ => ?_
  · obtain ⟨_, hnumber, -⟩ := Reading.map_eq_ok.1 hread
    obtain ⟨-, rfl⟩ := Reading.eq_ok_iff.1 hnumber
    cases hdigit : c.isDigit with
    | true => simp [startsNumber, hdigit]
    | false =>
      rwa [startsNumber, h'.head?_eq]
      cases cs with
      | nil => simp [startsNumber, hdigit] at h
      | cons e cs =>
        simp only [startsNumber, hdigit, List.head?_cons, Option.any_some, Bool.false_or,
          Bool.and_eq_true] at h
        simp only [number, numberExtent, digitRun, List.takeWhile_cons_of_pos h.2, List.length_cons]
        omega
  exact .ite (fun _ h => h) (fun h _ _ => h) (fun _ => .map (settles_word hd))
    fun _ => .map (settles_symbolToken hd)

end

end AdventureScript.Scan
