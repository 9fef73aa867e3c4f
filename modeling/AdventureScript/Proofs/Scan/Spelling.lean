import AdventureScript.Proofs.Scan.Marker

/-!
Bytes in a string literal. Each can be written in several ways, and none of them runs into what is
written next.
-/
namespace AdventureScript.Scan

variable {c : Char} {text rest : List Char} {bytes : List UInt8} {b : UInt8}

def hexDigits (d : Nat) : List Char :=
  [Nat.digitChar d, (Nat.digitChar d).toUpper]

def named : List (Char × UInt8) :=
  [('\'', 0x27), ('"', 0x22), ('\\', 0x5C), ('?', 0x3F), ('a', 0x07), ('b', 0x08), ('e', 0x1B),
    ('f', 0x0C), ('n', 0x0A), ('r', 0x0D), ('t', 0x09), ('v', 0x0B)]

/-- The ways to write bytes: a printable character or one that is not ASCII as itself, three octal
digits, two hexadecimal ones, and a letter or mark that stands for a byte. -/
inductive Spelling : List Char → List UInt8 → Prop
  | printable {b : UInt8} (h : 0x20 ≤ b.toNat ∧ b.toNat < 0x7F)
    (hne : b.toNat ≠ 0x22 ∧ b.toNat ≠ 0x5C) : Spelling [Char.ofNat b.toNat] [b]
  | wide {c : Char} (h : 0x80 ≤ c.toNat) : Spelling [c] (Text.utf8Bytes c)
  | octal (b : UInt8) :
    Spelling ('\\' :: [b.toNat / 64, b.toNat / 8 % 8, b.toNat % 8].map Nat.digitChar) [b]
  | hex {b : UInt8} {high low : Char} (hhigh : high ∈ hexDigits (b.toNat / 16))
    (hlow : low ∈ hexDigits (b.toNat % 16)) : Spelling ['\\', 'x', high, low] [b]
  | named {c : Char} {b : UInt8} (h : (c, b) ∈ named) : Spelling ['\\', c] [b]

inductive Spells : List Char → List UInt8 → Prop
  | nil : Spells [] []
  | cons {text rest : List Char} {bytes more : List UInt8} (h : Spelling text bytes)
    (hrest : Spells rest more) : Spells (text ++ rest) (bytes ++ more)

lemma exists_spells (bytes : List UInt8) : ∃ text, Spells text bytes := by
  induction bytes with
  | nil => exact ⟨[], .nil⟩
  | cons b bytes ih =>
    obtain ⟨text, htext⟩ := ih
    exact ⟨_, .cons (.octal b) htext⟩

/-! ## Reading them -/

lemma stringLiteral_escape (h : escape (text ++ rest) = .ok b text.length) :
    stringLiteral ('\\' :: (text ++ rest)) =
      ((stringLiteral rest).after (1 + text.length)).map (b :: ·) := by
  cases text with
  | nil => exact absurd (escape_used_pos h) (by simp)
  | cons c text =>
    have hbracket : c ≠ '[' := by
      rintro rfl
      simp [escape, octalDigit?, namedEscape?] at h
    have hbreak : isLineBreak c = false := by
      refine Bool.eq_false_iff.2 fun hc => ?_
      rcases (Bool.or_eq_true _ _).mp hc with hc | hc <;> cases of_decide_eq_true hc <;>
        simp [escape, octalDigit?, namedEscape?] at h
    rw [List.cons_append] at h ⊢
    rw [stringLiteral, if_neg (by simp [hbreak])]
    · simp only [h, Reading.ok, List.length_cons, List.drop_succ_cons, List.drop_left]
    · exact fun _ hc => hbracket (List.cons.inj hc).1

lemma octalDigit?_digitChar : ∀ d < 8, octalDigit? (Nat.digitChar d) = some d := by
  decide

lemma hexDigit?_of_mem : ∀ d < 16, ∀ c ∈ hexDigits d, hexDigit? c = some d := by
  have hboth : ∀ d < 16, hexDigit? (Nat.digitChar d) = some d ∧
      hexDigit? (Nat.digitChar d).toUpper = some d := by decide
  intro d hd c hc
  obtain rfl | rfl : c = Nat.digitChar d ∨ c = (Nat.digitChar d).toUpper := by
    simpa [hexDigits] using hc
  · exact (hboth d hd).1
  · exact (hboth d hd).2

lemma escape_octal : escape ([b.toNat / 64, b.toNat / 8 % 8, b.toNat % 8].map Nat.digitChar ++
    rest) = .ok b 3 := by
  have hb := b.toNat_lt
  have h1 := octalDigit?_digitChar (b.toNat / 64) (by omega)
  have h2 := octalDigit?_digitChar (b.toNat / 8 % 8) (by omega)
  have h3 := octalDigit?_digitChar (b.toNat % 8) (by omega)
  have hfits : b.toNat / 64 * 8 + b.toNat / 8 % 8 ≤ 255 := by omega
  have hvalue : (b.toNat / 64 * 8 + b.toNat / 8 % 8) * 8 + b.toNat % 8 = b.toNat := by omega
  simp [escape, octalTail, h1, h2, h3, hfits, hvalue, Nat.le_of_lt_succ hb]

lemma escape_hex {high low : Char} (hhigh : high ∈ hexDigits (b.toNat / 16))
    (hlow : low ∈ hexDigits (b.toNat % 16)) : escape ('x' :: high :: low :: rest) = .ok b 3 := by
  have hb := b.toNat_lt
  have h1 := hexDigit?_of_mem (b.toNat / 16) (by omega) high hhigh
  have h2 := hexDigit?_of_mem (b.toNat % 16) (by omega) low hlow
  have hvalue : b.toNat / 16 * 16 + b.toNat % 16 = b.toNat := by omega
  simp [escape, octalDigit?, hexTail, h1, h2, hvalue]

lemma escape_named : ∀ e ∈ named, escape (e.1 :: rest) = .ok e.2 1 := by
  simp [named, escape, octalDigit?, namedEscape?]

lemma char_printable : ∀ n < 0x7F, 0x20 ≤ n → n ≠ 0x22 ∧ n ≠ 0x5C →
    Char.ofNat n ≠ '"' ∧ Char.ofNat n ≠ '\\' ∧ isLineBreak (Char.ofNat n) = false ∧
      Text.utf8Bytes (Char.ofNat n) = [UInt8.ofNat n] := by
  decide +kernel

lemma Spelling.stringLiteral (h : Spelling text bytes) : stringLiteral (text ++ rest) =
    ((stringLiteral rest).after text.length).map (bytes ++ ·) := by
  cases h with
  | @printable b h hne =>
    obtain ⟨hquote, hslash, hbreak, hbytes⟩ := char_printable b.toNat h.2 h.1 hne
    rw [UInt8.ofNat_toNat] at hbytes
    exact hbytes ▸ stringLiteral_char hquote hslash hbreak
  | @wide c h =>
    refine stringLiteral_char ?_ ?_ (Bool.eq_false_iff.2 ?_) <;> rintro hc
    · simp [hc] at h
    · simp [hc] at h
    · rcases (Bool.or_eq_true _ _).mp hc with hc | hc <;> simp [of_decide_eq_true hc] at h
  | octal b => exact stringLiteral_escape escape_octal
  | hex hhigh hlow => exact stringLiteral_escape (escape_hex hhigh hlow)
  | @named c b h => exact @stringLiteral_escape [c] rest b (escape_named (c, b) h)

lemma Spells.stringLiteral (h : Spells text bytes) :
    stringLiteral (text ++ '"' :: rest) = .ok bytes (text.length + 1) := by
  induction h with
  | nil => simp [Scan.stringLiteral]
  | cons h _ ih =>
    rw [List.append_assoc, h.stringLiteral, ih, Reading.after_ok, Reading.map_ok]
    simp [Nat.add_assoc]

def quoted (text : List Char) : String :=
  String.ofList ('"' :: (text ++ ['"']))

/-- Every byte string can be written, and however that is done, the literal is one token of which
it is the value, unless it starts like the marker of a section. -/
theorem spelled_bytes_read (bytes : List UInt8) (h : ¬ markerStart.toUTF8.toList <+: bytes) :
    (∃ text, Spells text bytes) ∧ ∀ text, Spells text bytes →
      ∃ stream, tokens (quoted text) = .ok stream ∧ stream.body =
        #[⟨.string bytes, quoted text, ⟨1, 1, Text.utf8Length (quoted text).toList⟩, 0⟩] := by
  refine ⟨exists_spells bytes, fun text htext => ?_⟩
  have hitem : item '"' (text ++ ['"']) = .ok (.token (.string bytes)) (text.length + 1) := by
    rw [item_quote, htext.stringLiteral, Reading.map_ok, Item.ofString]
    cases hstrip : stripBytes? markerStart.toUTF8.toList bytes with
    | none => rfl
    | some tail => exact absurd ⟨tail, (eq_append_of_stripBytes? hstrip).symm⟩ h
  have hscan : scan (quoted text) =
      run (State.add {} (.token (.string bytes)) ('"' :: (text ++ ['"'])) []) [] := by
    rw [scan, quoted, String.toList_ofList, run_item hitem rfl, List.take_of_length_le (by simp)]
    simp
  refine ⟨_, by simp only [tokens, hscan, run, State.close, State.add]; rfl, ?_⟩
  simp [State.token, State.sectionIndex, Position.span, quoted]

theorem spelled_bytes_read_escapes : ∃ stream, tokens "\"é\\\"\\377\\xfF\"" = .ok stream ∧
    stream.body = #[⟨.string [0xC3, 0xA9, 0x22, 0xFF, 0xFF], "\"é\\\"\\377\\xfF\"",
      ⟨1, 1, Text.utf8Length "\"é\\\"\\377\\xfF\"".toList⟩, 0⟩] :=
  (spelled_bytes_read [0xC3, 0xA9, 0x22, 0xFF, 0xFF] (by decide +kernel)).2 _
    (.cons (@Spelling.wide 'é' (by decide)) (.cons (@Spelling.named '"' 0x22 (by decide))
      (.cons (.octal 0xFF) (.cons (@Spelling.hex 0xFF 'f' 'F' (by decide) (by decide)) .nil))))

end AdventureScript.Scan
