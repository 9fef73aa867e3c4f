import AdventureScript.Proofs.Scan.Locality
import AdventureScript.Compile.Basic

/-!
The marker of a section. Its name is written as it is into a string literal, so it comes back as it
was exactly when nothing in it means something else there.
-/
namespace AdventureScript

namespace Text

/-! ## UTF-8 -/

variable {b b1 b2 b3 : UInt8} {bs : List UInt8}

lemma toNat_ofNat_of_lt {n : Nat} (h : n < 256) : (UInt8.ofNat n).toNat = n :=
  UInt8.toNat_ofNat_of_lt' h

lemma isTail_iff : isTail b = true ↔ 128 ≤ b.toNat ∧ b.toNat ≤ 191 := by
  simp [isTail, UInt8.le_iff_toNat_le]

lemma isSecond_iff : isSecond b b1 = true ↔ isTail b1 = true ∧
    (b.toNat = 0xE0 → 0xA0 ≤ b1.toNat) ∧ (b.toNat = 0xED → b1.toNat ≤ 0x9F) ∧
    (b.toNat = 0xF0 → 0x90 ≤ b1.toNat) ∧ (b.toNat = 0xF4 → b1.toNat ≤ 0x8F) := by
  simp only [isSecond, isTail, ← UInt8.toNat_inj, UInt8.le_iff_toNat_le, UInt8.reduceToNat]
  split_ifs <;> simp only [Bool.and_eq_true, decide_eq_true_eq] <;> omega

lemma readChar_one (h : b.toNat < 128) : readChar b bs = (Char.ofNat b.toNat, 0) := by
  simp [readChar, UInt8.lt_iff_toNat_lt, h]

lemma readChar_two (h : 194 ≤ b.toNat ∧ b.toNat ≤ 223) (h1 : isTail b1 = true) :
    readChar b (b1 :: bs) = (Char.ofNat (b.toNat % 32 * 64 + tailBits b1), 1) := by
  have hlow : ¬ b.toNat < 128 := by omega
  simp [readChar, UInt8.lt_iff_toNat_lt, UInt8.le_iff_toNat_le, hlow, h, h1]

lemma readChar_three (h : 224 ≤ b.toNat ∧ b.toNat ≤ 239) (h1 : isSecond b b1 = true)
    (h2 : isTail b2 = true) : readChar b (b1 :: b2 :: bs) =
      (Char.ofNat ((b.toNat % 16 * 64 + tailBits b1) * 64 + tailBits b2), 2) := by
  have hlow : ¬ b.toNat < 128 := by omega
  have htwo : ¬ b.toNat ≤ 223 := by omega
  simp [readChar, UInt8.lt_iff_toNat_lt, UInt8.le_iff_toNat_le, hlow, htwo, h, h1, h2]

lemma readChar_four (h : 240 ≤ b.toNat ∧ b.toNat ≤ 244) (h1 : isSecond b b1 = true)
    (h2 : isTail b2 = true) (h3 : isTail b3 = true) : readChar b (b1 :: b2 :: b3 :: bs) =
      (Char.ofNat (((b.toNat % 8 * 64 + tailBits b1) * 64 + tailBits b2) * 64 + tailBits b3), 3) := by
  have hlow : ¬ b.toNat < 128 := by omega
  have htwo : ¬ b.toNat ≤ 223 := by omega
  have hthree : ¬ b.toNat ≤ 239 := by omega
  simp [readChar, UInt8.lt_iff_toNat_lt, UInt8.le_iff_toNat_le, hlow, htwo, hthree, h, h1, h2, h3]

lemma toNat_ofNat_mod {v k m : Nat} (h : m + k ≤ 256) (hm : 0 < m): (UInt8.ofNat (v % m + k)).toNat = v % m + k :=
  toNat_ofNat_of_lt (by have := Nat.mod_lt v hm; omega)

lemma isTail_ofNat (v : Nat) : isTail (UInt8.ofNat (v % 64 + 128)) = true := by
  rw [isTail_iff, toNat_ofNat_mod (by decide) (by decide)]
  omega

lemma tailBits_ofNat (v : Nat) : tailBits (UInt8.ofNat (v % 64 + 128)) = v % 64 := by
  rw [tailBits, toNat_ofNat_mod (by decide) (by decide)]
  omega

lemma readChar_utf8Bytes (c : Char) (bs : List UInt8) :
    ∃ lead tail, utf8Bytes c = lead :: tail ∧ readChar lead (tail ++ bs) = (c, tail.length) := by
  have hvalid : c.val.toNat.isValidChar := c.valid
  have hchar : c = Char.ofNat c.val.toNat := (Char.ofNat_toNat c).symm
  unfold utf8Bytes
  rw [String.utf8EncodeChar]
  generalize c.val.toNat = v at *
  subst hchar
  split_ifs with h1 h2 h3
  · refine ⟨_, _, rfl, ?_⟩
    have hv : (UInt8.ofNat v).toNat = v := toNat_ofNat_of_lt (by omega)
    rw [List.nil_append, readChar_one (by omega), hv]
    rfl
  · refine ⟨_, _, rfl, ?_⟩
    have hlead := @toNat_ofNat_mod (v / 64) 192 32 (by decide) (by decide)
    rw [List.cons_append, readChar_two (by omega) (isTail_ofNat v), tailBits_ofNat, hlead]
    congr 2
    omega
  · refine ⟨_, _, rfl, ?_⟩
    have hlead := @toNat_ofNat_mod (v / 4096) 224 16 (by decide) (by decide)
    have hsecond := @toNat_ofNat_mod (v / 64) 128 64 (by decide) (by decide)
    have hpair : isSecond (UInt8.ofNat (v / 4096 % 16 + 224)) (UInt8.ofNat (v / 64 % 64 + 128)) := by
      rw [isSecond_iff, hlead, hsecond]
      refine ⟨isTail_ofNat _, ?_⟩
      rcases hvalid with hvalid | hvalid <;> omega
    rw [List.cons_append, List.cons_append, readChar_three (by omega) hpair (isTail_ofNat v),
      tailBits_ofNat, tailBits_ofNat, hlead]
    congr 2
    omega
  · refine ⟨_, _, rfl, ?_⟩
    have hlead := @toNat_ofNat_mod (v / 262144) 240 8 (by decide) (by decide)
    have hsecond := @toNat_ofNat_mod (v / 4096) 128 64 (by decide) (by decide)
    have hpair : isSecond (UInt8.ofNat (v / 262144 % 8 + 240))
        (UInt8.ofNat (v / 4096 % 64 + 128)) := by
      rw [isSecond_iff, hlead, hsecond]
      refine ⟨isTail_ofNat _, ?_⟩
      rcases hvalid with hvalid | hvalid <;> omega
    rw [List.cons_append, List.cons_append, List.cons_append,
      readChar_four (by omega) hpair (isTail_ofNat _) (isTail_ofNat v), tailBits_ofNat,
      tailBits_ofNat, tailBits_ofNat, hlead]
    congr 2
    omega

lemma decodeLossy_append (cs : List Char) (bs : List UInt8) :
    decodeLossy (cs.flatMap utf8Bytes ++ bs) = cs ++ decodeLossy bs := by
  induction cs with
  | nil => rfl
  | cons c cs ih =>
    obtain ⟨lead, tail, hbytes, hread⟩ := readChar_utf8Bytes c (cs.flatMap utf8Bytes ++ bs)
    rw [List.flatMap_cons, List.append_assoc, hbytes, List.cons_append, decodeLossy, hread]
    simp [ih]

lemma decodeLossy_utf8Bytes (cs : List Char) : decodeLossy (cs.flatMap utf8Bytes) = cs := by
  simpa [decodeLossy] using decodeLossy_append cs []

lemma isTail_readChar {t : UInt8} (h : t ∈ bs.take (readChar b bs).2) : isTail t = true := by
  revert t
  unfold readChar
  repeat' split
  all_goals simp_all [isSecond_iff]

lemma decodeLossy_cons_tail (h : isTail b = true) :
    decodeLossy (b :: bs) = replacement :: decodeLossy bs := by
  have hb := isTail_iff.1 h
  have h1 : ¬ b.toNat < 128 := by omega
  have h2 : ¬ 194 ≤ b.toNat := by omega
  have h3 : ¬ 224 ≤ b.toNat := by omega
  have h4 : ¬ 240 ≤ b.toNat := by omega
  have hread : readChar b bs = (replacement, 0) := by
    simp [readChar, UInt8.lt_iff_toNat_lt, UInt8.le_iff_toNat_le, h1, h2, h3, h4]
  rw [decodeLossy, hread]
  rfl

lemma length_decodeLossy_drop {n : Nat} (h : ∀ t ∈ bs.take n, isTail t = true) :
    (decodeLossy (bs.drop n)).length ≤ (decodeLossy bs).length := by
  induction bs generalizing n with
  | nil => simp
  | cons b bs ih =>
    cases n with
    | zero => exact le_rfl
    | succ n =>
      obtain ⟨hb, hbs⟩ := List.forall_mem_cons.1 h
      rw [List.drop_succ_cons, decodeLossy_cons_tail hb, List.length_cons]
      exact Nat.le_succ_of_le (ih hbs)

lemma length_decodeLossy_cons : (decodeLossy (b :: bs)).length ≤ (decodeLossy bs).length + 1 := by
  rw [decodeLossy, List.length_cons]
  exact Nat.succ_le_succ (length_decodeLossy_drop fun _ ht => isTail_readChar ht)

end Text

namespace Scan

variable {c : Char} {cs rest : List Char} {name : String} {n : Nat} {s : State}

/-! ## Names in a string literal -/

/-- A text that a string literal leaves as it is: without quotes and line breaks, and with no
backslash but in front of an opening bracket. -/
def verbatim : List Char → Bool
  | [] => true
  | '\\' :: '[' :: cs => verbatim cs
  | c :: cs => c ≠ '"' && c ≠ '\\' && !isLineBreak c && verbatim cs

lemma stringLiteral_char (hquote : c ≠ '"') (hslash : c ≠ '\\') (hbreak : isLineBreak c = false) :
    stringLiteral (c :: cs) = ((stringLiteral cs).after 1).map (Text.utf8Bytes c ++ ·) := by
  rw [stringLiteral, if_neg (by simp [hbreak])]
  · exact hquote
  · exact fun _ hc _ => hslash hc
  · exact hslash

lemma stringLiteral_verbatim (h : verbatim cs = true) :
    stringLiteral (cs ++ '"' :: rest) = .ok (cs.flatMap Text.utf8Bytes) (cs.length + 1) := by
  fun_induction verbatim cs with
  | case1 => simp [stringLiteral]
  | case2 cs ih =>
    rw [List.cons_append, List.cons_append, stringLiteral, ih h]
    have hslash : Text.utf8Bytes '\\' = [0x5C] := by decide
    have hbracket : Text.utf8Bytes '[' = [0x5B] := by decide
    simp only [Reading.after_ok, Reading.map_ok, List.flatMap_cons, hslash, hbracket,
      List.length_cons, Reading.ok_inj]
    exact ⟨rfl, by omega⟩
  | case3 c cs hne ih =>
    simp only [Bool.and_eq_true, decide_eq_true_eq, Bool.not_eq_true'] at h
    obtain ⟨⟨⟨hquote, hslash⟩, hbreak⟩, hcs⟩ := h
    rw [List.cons_append, stringLiteral_char hquote hslash hbreak, ih hcs]
    simp [Nat.add_comm]

lemma length_stringLiteral (cs : List Char) : ∀ bytes n, stringLiteral cs = .ok bytes n →
    (Text.decodeLossy bytes).length + 1 ≤ n ∧
      ((Text.decodeLossy bytes).length + 1 = n → verbatim (cs.take (n - 1)) = true) := by
  intro bytes n h
  fun_induction stringLiteral cs generalizing bytes n with
  | case1 => simp at h
  | case2 cs =>
    obtain ⟨rfl, rfl⟩ := Reading.ok_inj.1 h
    simp [Text.decodeLossy, verbatim]
  | case3 cs ih =>
    obtain ⟨tail, htail, rfl⟩ := Reading.map_eq_ok.1 h
    obtain ⟨m, hm, rfl⟩ := Reading.after_eq_ok.1 htail
    obtain ⟨hle, heq⟩ := ih tail m hm
    have hdecode : Text.decodeLossy ([0x5C, 0x5B] ++ tail) = '\\' :: '[' :: Text.decodeLossy tail :=
      Text.decodeLossy_append ['\\', '['] tail
    rw [hdecode, List.length_cons, List.length_cons]
    refine ⟨by omega, fun hlength => ?_⟩
    rw [show 2 + m - 1 = m - 1 + 1 + 1 by omega, List.take_succ_cons, List.take_succ_cons, verbatim]
    exact heq (by omega)
  | case4 cs hne hbreak => simp at h
  | case5 cs hne hbreak e f hf => simp at h
  | case6 cs hne hbreak e b hb ih =>
    obtain ⟨tail, htail, rfl⟩ := Reading.map_eq_ok.1 h
    obtain ⟨m, hm, rfl⟩ := Reading.after_eq_ok.1 htail
    have hlength := @Text.length_decodeLossy_cons b tail
    have hused : 0 < e.used := escape_used_pos (Reading.eq_ok_iff.2 ⟨hb, rfl⟩)
    obtain ⟨hle, -⟩ := ih tail m hm
    exact ⟨by omega, fun _ => by omega⟩
  | case7 c cs h1 h2 h3 h4 => simp at h
  | case8 c cs h1 h2 h3 h4 ih =>
    obtain ⟨tail, htail, rfl⟩ := Reading.map_eq_ok.1 h
    obtain ⟨m, hm, rfl⟩ := Reading.after_eq_ok.1 htail
    obtain ⟨hle, heq⟩ := ih tail m hm
    have hdecode : Text.decodeLossy (Text.utf8Bytes c ++ tail) = c :: Text.decodeLossy tail := by
      simpa using Text.decodeLossy_append [c] tail
    rw [hdecode, List.length_cons]
    refine ⟨by omega, fun hlength => ?_⟩
    rw [show 1 + m - 1 = m - 1 + 1 by omega, List.take_succ_cons, verbatim, heq (by omega)]
    · simpa [h4] using ⟨h1, h3⟩
    · exact fun _ hc _ => h3 hc

lemma stripBytes?_append (start bytes : List UInt8) :
    stripBytes? start (start ++ bytes) = some bytes := by
  induction start with
  | nil => rfl
  | cons b start ih => simp [stripBytes?, ih]

lemma eq_append_of_stripBytes? {start bytes tail : List UInt8}
    (h : stripBytes? start bytes = some tail) : bytes = start ++ tail := by
  fun_induction stripBytes? start bytes with
  | case1 bytes => cases h; rfl
  | case2 a start bytes ih => rw [ih h]; rfl
  | case3 a start b bytes hne => cases h
  | case4 a start => cases h

lemma toUTF8_markerStart :
    markerStart.toUTF8.toList = markerStart.toList.flatMap Text.utf8Bytes := by
  decide +kernel

lemma verbatim_markerStart : verbatim (markerStart.toList ++ cs) = verbatim cs := by
  simp [markerStart, verbatim, isLineBreak]

lemma item_quote : item '"' cs = (stringLiteral cs).map .ofString := by
  simp [item, isBlank]

lemma item_marker (h : verbatim name.toList = true) :
    item '"' (markerStart.toList ++ name.toList ++ '"' :: rest) =
      .ok (.marker name) ((markerStart.toList ++ name.toList).length + 1) := by
  have hstart : Item.ofString ((markerStart.toList ++ name.toList).flatMap Text.utf8Bytes) =
      .marker name := by
    rw [Item.ofString, toUTF8_markerStart, List.flatMap_append, stripBytes?_append]
    simp [Text.decodeLossy_utf8Bytes]
  rw [item_quote, stringLiteral_verbatim (verbatim_markerStart.trans h), Reading.map_ok, hstart]

lemma item_marker_iff :
    (∀ rest, item '"' (markerStart.toList ++ name.toList ++ '"' :: rest) =
      .ok (.marker name) ((markerStart.toList ++ name.toList).length + 1)) ↔
      verbatim name.toList = true := by
  refine ⟨fun h => ?_, fun h rest => item_marker h⟩
  obtain ⟨bytes, hliteral, hname⟩ := Reading.map_eq_ok.1 (item_quote.symm.trans (h []))
  obtain ⟨-, hverbatim⟩ := length_stringLiteral _ _ _ hliteral
  unfold Item.ofString at hname
  split at hname
  · next tail htail =>
    have htext : Text.decodeLossy bytes = markerStart.toList ++ name.toList := by
      rw [eq_append_of_stripBytes? htail, toUTF8_markerStart, Text.decodeLossy_append]
      rw [← Item.marker.inj hname, String.toList_ofList]
    rw [htext, Nat.add_sub_cancel, List.take_left, verbatim_markerStart] at hverbatim
    exact hverbatim rfl
  · cases hname

def State.step (s : State) (c : Char) : State :=
  { s with position := s.position.step c }

def State.enter (s : State) (name : String) : State :=
  { s with position := {}, sections := s.sections.push name }

lemma item_blank (hc : isBlank c = true) :
    item c cs = .ok .gap (cs.takeWhile isBlank).length := by
  simp [item, hc]

lemma run_item {i : Item} {opened : List OpenBracket} (h : item c cs = .ok i n)
    (hopened : s.openedAfter i (c :: cs.take n) = .ok opened) :
    run s (c :: cs) = run (s.add i (c :: cs.take n) opened) (cs.drop n) := by
  rw [run]
  simp only [h, Reading.ok, hopened]

lemma run_blank (hc : isBlank c = true) : run s (c :: cs) = run (s.step c) cs := by
  rw [run_item (item_blank hc) rfl]
  cases cs with
  | nil => rfl
  | cons d cs =>
    by_cases hd : isBlank d = true
    · rw [run_item (item_blank hd) rfl, List.takeWhile_cons_of_pos hd]
      rfl
    · rw [List.takeWhile_cons_of_neg hd]
      rfl

lemma run_marker (h : verbatim name.toList = true) :
    run s ('"' :: (markerStart.toList ++ name.toList ++ '"' :: '\n' :: rest)) =
      run (s.enter name) rest := by
  rw [run_item (item_marker h) rfl, List.drop_length_add_append]
  exact run_blank (by decide)

end Scan

end AdventureScript
