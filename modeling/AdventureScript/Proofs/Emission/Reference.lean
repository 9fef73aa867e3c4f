import AdventureScript.Expression.Call
import AdventureScript.Proofs.Symbols.Layout

/-!
What references mean: the tables that they lead into, and that a meaning is not lost when these
tables grow.
-/
namespace AdventureScript

/-! ## Texts -/

def Stream.HasText (tokens : Stream) (bytes : List UInt8) : Prop :=
  ∃ i, (tokens.get i).kind = .string bytes

namespace StringPool

variable {p p' p'' : StringPool} {text bytes : List UInt8} {offset : Nat}

def Holds (p : StringPool) (text : List UInt8) (offset : Nat) : Prop :=
  text ++ [0] <+: p.bytes.toList.drop offset

def packed (texts : List (List UInt8)) : List UInt8 :=
  texts.flatMap (· ++ [0])

def texts (p : StringPool) : List (List UInt8) :=
  (p.index.map (·.1)).reverse

/-- The pool is made of its texts, no two of which are the same, and the index says where they start.
-/
structure Sound (p : StringPool) : Prop where
  bytes : p.bytes.toList = packed p.texts
  nodup : p.texts.Nodup
  starts : ∀ {text offset}, (text, offset) ∈ p.index →
    ∃ a b, p.texts = a ++ text :: b ∧ offset = (packed a).length

structure Grows (p p' : StringPool) : Prop where
  bytes : p.bytes.toList <+: p'.bytes.toList
  index : ∃ new, p'.index = new ++ p.index ∧ ∀ e ∈ new, p.bytes.size ≤ e.2

lemma Holds.lt (h : p.Holds text offset) : offset < p.bytes.size := by
  have := h.length_le
  simp only [List.length_append, List.length_drop, Array.length_toList, List.length_cons,
    List.length_nil] at this
  omega

lemma Grows.refl : p.Grows p :=
  ⟨List.prefix_refl _, [], rfl, by simp⟩

lemma Grows.size_le (h : p.Grows p') : p.bytes.size ≤ p'.bytes.size := by
  simpa using h.bytes.length_le

lemma Grows.trans (h : p.Grows p') (h' : p'.Grows p'') : p.Grows p'' where
  bytes := h.bytes.trans h'.bytes
  index := by
    obtain ⟨a, ha, hle⟩ := h.index
    obtain ⟨b, hb, hle'⟩ := h'.index
    refine ⟨b ++ a, by rw [hb, ha, List.append_assoc], fun e he => ?_⟩
    rcases List.mem_append.1 he with he | he
    · exact le_trans h.size_le (hle' e he)
    · exact hle e he

lemma Grows.mem (h : p.Grows p') {e : List UInt8 × Nat} (he : e ∈ p.index) : e ∈ p'.index := by
  obtain ⟨new, hnew, _⟩ := h.index
  rw [hnew]
  exact List.mem_append_right new he

@[simp] lemma packed_append {a b : List (List UInt8)} :
    packed (a ++ b) = packed a ++ packed b := by
  simp [packed]

@[simp] lemma packed_cons {a : List (List UInt8)} :
    packed (text :: a) = text ++ 0 :: packed a := by
  simp [packed]

lemma Sound.holds (h : p.Sound) (hm : (text, offset) ∈ p.index) : p.Holds text offset := by
  obtain ⟨a, b, hab, rfl⟩ := h.starts hm
  rw [Holds, h.bytes, hab, packed_append, List.drop_left, packed_cons]
  exact ⟨packed b, by simp⟩

lemma mem_texts : text ∈ p.texts ↔ ∃ offset, (text, offset) ∈ p.index := by
  simp [texts]

lemma add_grows : p.Grows (p.add text).2 := by
  unfold add
  split
  · exact .refl
  · exact {
      bytes := by simp
      index := ⟨[(text, p.bytes.size)], rfl, by simp⟩ }

lemma mem_of_lookup {l : List (List UInt8 × Nat)} (h : l.lookup text = some offset) :
    (text, offset) ∈ l := by
  obtain ⟨l1, l2, rfl, _⟩ := List.lookup_eq_some_iff.1 h
  simp

lemma add_mem : (text, (p.add text).1) ∈ (p.add text).2.index := by
  unfold add
  split
  · next hl => exact mem_of_lookup hl
  · simp

lemma mem_texts_add (h : bytes ∈ (p.add text).2.texts) : bytes ∈ p.texts ∨ bytes = text := by
  unfold add at h
  split at h
  · exact .inl h
  · simpa [texts] using h

lemma not_mem_texts (h : p.index.lookup text = none) : text ∉ p.texts := by
  intro hm
  obtain ⟨offset, hm⟩ := mem_texts.1 hm
  simpa using List.lookup_eq_none_iff.1 h _ hm

lemma add_sound (h : p.Sound) : (p.add text).2.Sound := by
  unfold add
  split
  · exact h
  · next hl =>
    have htexts : ∀ bytes, (StringPool.mk bytes ((text, p.bytes.size) :: p.index)).texts =
        p.texts ++ [text] := by simp [texts]
    have hsize : p.bytes.size = (packed p.texts).length := by
      rw [← h.bytes, Array.length_toList]
    refine ⟨?_, ?_, fun {text' offset} hm => ?_⟩
    · rw [htexts, packed_append, ← h.bytes]
      simp [packed]
    · rw [htexts, List.nodup_append]
      refine ⟨h.nodup, by simp, ?_⟩
      rintro a ha _ hb rfl
      obtain rfl := List.mem_singleton.1 hb
      exact not_mem_texts hl ha
    · rw [htexts]
      rcases List.mem_cons.1 hm with he | hm
      · cases he
        exact ⟨p.texts, [], rfl, hsize⟩
      · obtain ⟨a, b, hab, ho⟩ := h.starts hm
        exact ⟨a, b ++ [text], by rw [hab]; simp, ho⟩

lemma Grows.truncate_eq (h : p.Grows p') (hp : ∀ e ∈ p.index, e.2 < p.bytes.size)
    (hp' : ∀ e ∈ p'.index, e.2 < p'.bytes.size) : p'.truncate p.bytes.size = p := by
  obtain ⟨l, hl⟩ := h.bytes
  obtain ⟨new, hnew, hle⟩ := h.index
  have hsize : p'.bytes.size = p.bytes.size + l.length := by
    simpa using (congrArg List.length hl).symm
  unfold truncate
  split
  · have hbytes : p'.bytes.take p.bytes.size = p.bytes := by
      rw [← Array.toList_inj]
      simp [← hl]
    have hkeep : p.index.filter (fun e => decide (e.2 < p.bytes.size)) = p.index :=
      List.filter_eq_self.2 fun e he => by simpa using hp e he
    have hdrop : new.filter (fun e => decide (e.2 < p.bytes.size)) = [] :=
      List.filter_eq_nil_iff.2 fun e he => by simpa using hle e he
    simp only [hbytes, hnew, List.filter_append, hkeep, hdrop, List.nil_append]
  · have hnil : new = [] := by
      refine List.eq_nil_iff_forall_not_mem.2 fun e he => ?_
      have := hle e he
      have := hp' e (by simp [hnew, he])
      omega
    have hl' : l = [] := List.length_eq_zero_iff.1 (by omega)
    have hbytes : p'.bytes = p.bytes := by
      rw [← Array.toList_inj]
      simp [← hl, hl']
    rw [hnil, List.nil_append] at hnew
    rcases p' with ⟨bytes, index⟩
    simp only at hbytes hnew
    rw [hbytes, hnew]

lemma truncate_of_grows (h : p.Grows p') (hp : p.Sound) (hp' : p'.Sound) :
    p'.truncate p.bytes.size = p :=
  h.truncate_eq (fun _ he => (hp.holds he).lt) fun _ he => (hp'.holds he).lt

end StringPool

namespace Symbols

def Imports (symbols : Symbols) (name : String) : Prop :=
  (∃ f ∈ symbols.functions, f.isExternal = true ∧ f.importName = name) ∨
    ∃ id v, symbols.find? name = some (.variable id) ∧ symbols.globals[id.index]? = some v ∧
      v.isImport = true

end Symbols

namespace Reference

/-- What is known of a word that stands for something: the register that it goes to, and its value.
-/
def Means (c : Context) (symbols : Symbols) (script : Script) (r : Register) (w : Int32) :
    Reference → Prop
  | .data => r = .mar ∧ ∃ v ∈ symbols.globals, v.isImport = false ∧
      ∃ k u, v.ty.HasPart symbols.types k u ∧ w = v.offset.toInt32 + k.toInt32
  | .text bytes => r = .ax ∧ c.tokens.HasText bytes ∧
      ∃ offset, w = Int32.ofNat offset ∧ (bytes, offset) ∈ script.strings.index
  | .variable id => r = .mar ∧ ∃ v, symbols.globals[id.index]? = some v ∧ v.isImport = true ∧
      ∃ slot, w = Int32.ofNat slot ∧ script.imports[slot]? = some v.name
  | .external id => r = .ax ∧ ∃ f, symbols.functions[id.index]? = some f ∧
      ∃ slot, w = Int32.ofNat slot ∧ script.imports[slot]? = some f.importName
  | .function id => r = .ax ∧ id.index < symbols.functions.size ∧
      w = Int32.ofNat ((symbols.function id).codeOffset.getD 0)

lemma Means.grow {c : Context} {symbols : Symbols} {script script' : Script} {r : Register}
    {w : Int32} {reference : Reference} (h : reference.Means c symbols script r w)
    (hs : script.strings.Grows script'.strings)
    (hi : script.imports.toList <+: script'.imports.toList) :
    reference.Means c symbols script' r w := by
  have himports : ∀ {slot : Nat} {name : String}, script.imports[slot]? = some name →
      script'.imports[slot]? = some name := by
    intro slot name h
    obtain ⟨l, hl⟩ := hi
    rw [← Array.getElem?_toList] at h ⊢
    rw [← hl, List.getElem?_append_left (List.getElem?_eq_some_iff.1 h).1, h]
  cases reference with
  | data | function id => exact h
  | text bytes =>
    obtain ⟨hr, ht, offset, hw, ho⟩ := h
    exact ⟨hr, ht, offset, hw, hs.mem ho⟩
  | «variable» id =>
    obtain ⟨hr, v, hv, himport, slot, hw, hslot⟩ := h
    exact ⟨hr, v, hv, himport, slot, hw, himports hslot⟩
  | external id =>
    obtain ⟨hr, f, hf, slot, hw, hslot⟩ := h
    exact ⟨hr, f, hf, slot, hw, himports hslot⟩

end Reference

inductive Entry where
  | imported (name : String)
  | text (bytes : List UInt8)

def Reference.needs? (symbols : Symbols) : Reference → Option Entry
  | .text bytes => some (.text bytes)
  | .variable id => symbols.globals[id.index]?.map fun v => .imported v.name
  | .external id => symbols.functions[id.index]?.map fun f => .imported f.importName
  | .data | .function _ => none

namespace Script

variable {s s' : Script} {e : Entry}

def Has (s : Script) : Entry → Prop
  | .imported name => name ∈ s.imports.toList
  | .text bytes => bytes ∈ s.strings.texts

structure Orderly (s : Script) : Prop where
  strings : s.strings.Sound
  imports : s.imports.toList.Nodup
  lines : ∀ {l}, l ∈ s.lines.toList → l.codeOffset < s.size

lemma Has.congr (h : s'.Has e) (himports : s'.imports = s.imports)
    (hstrings : s'.strings = s.strings) : s.Has e := by
  cases e with
  | imported name =>
    rw [Has, ← himports]
    exact h
  | text bytes =>
    rw [Has, ← hstrings]
    exact h

lemma Orderly.grow (h : s.Orderly) (hsize : s.size ≤ s'.size) (himports : s'.imports = s.imports)
    (hstrings : s'.strings = s.strings) (hlines : s'.lines = s.lines) : s'.Orderly where
  strings := hstrings ▸ h.strings
  imports := himports ▸ h.imports
  lines hl := lt_of_lt_of_le (h.lines (hlines ▸ hl)) hsize

end Script

namespace Mark

def fixup (m : Mark Reference) : Fixup :=
  ⟨m.position, m.value.kind⟩

def waiting? (symbols : Symbols) (m : Mark Reference) : Option (Mark FuncId) :=
  match m.value with
  | .function id =>
    if (symbols.function id).codeOffset.isNone then some ⟨m.position, id⟩ else none
  | _ => none

variable {symbols : Symbols} {m : Mark Reference} {k : Mark FuncId}

lemma waiting?_eq_some_iff : m.waiting? symbols = some k ↔
    m = ⟨k.position, .function k.value⟩ ∧ (symbols.function k.value).codeOffset = none := by
  obtain ⟨position, value⟩ := m
  obtain ⟨p, id⟩ := k
  cases value <;> simp [waiting?]
  grind

lemma position_of_waiting? (h : m.waiting? symbols = some k) : k.position = m.position := by
  rw [(waiting?_eq_some_iff.1 h).1]

end Mark
end AdventureScript
