import AdventureScript.Proofs.Program.Basic

/-!
The values that read-only variables are known to have, against what their storage holds.
-/
namespace AdventureScript

variable {source : String} {options : Options} {script : Script} {bytes : List UInt8} {w : Int32}
  {count : Nat} {value : Constant}

def unsigned (bytes : List UInt8) : Nat :=
  bytes.foldr (fun b n => b.toNat + 256 * n) 0

def zeroExtended (bytes : List UInt8) : Int32 :=
  Int32.ofNat (unsigned bytes)

def signExtended (bytes : List UInt8) : Int32 :=
  Int32.ofInt ((unsigned bytes : Int).bmod (2 ^ (8 * bytes.length)))

lemma unsigned_append {more : List UInt8} :
    unsigned (bytes ++ more) = unsigned bytes + 2 ^ (8 * bytes.length) * unsigned more := by
  induction bytes with
  | nil => simp [unsigned]
  | cons b bytes ih =>
    simp only [unsigned, List.cons_append, List.foldr_cons] at ih ⊢
    rw [ih, List.length_cons, Nat.mul_succ, Nat.pow_add, Nat.mul_add, Nat.add_assoc,
      Nat.mul_comm (2 ^ _) (2 ^ 8), Nat.mul_assoc]

lemma littleEndian_succ : littleEndian (count + 1) w =
    littleEndian count w ++ [(w.toUInt32 >>> (8 * count).toUInt32).toUInt8] := by
  simp [littleEndian, List.range_succ]

lemma unsigned_littleEndian (h : count ≤ 4) :
    unsigned (littleEndian count w) = w.toUInt32.toNat % 2 ^ (8 * count) := by
  induction count with
  | zero => simp [littleEndian, unsigned, Nat.mod_one]
  | succ count ih =>
    have hshift : (8 * count).toUInt32.toNat % 32 = 8 * count := by
      rw [Nat.toUInt32_eq, UInt32.toNat_ofNat']
      omega
    have hbyte : (w.toUInt32 >>> (8 * count).toUInt32).toUInt8.toNat =
        w.toUInt32.toNat / 2 ^ (8 * count) % 256 := by
      rw [UInt32.toNat_toUInt8, UInt32.toNat_shiftRight, hshift, Nat.shiftRight_eq_div_pow]
    rw [littleEndian_succ, unsigned_append, ih (by omega), Gen.length_littleEndian, Nat.mul_succ,
      Nat.pow_add, Nat.mod_mul]
    simp only [unsigned, List.foldr_cons, List.foldr_nil, hbyte]
    rfl

lemma toInt_eq_bmod : w.toInt = (w.toUInt32.toNat : Int).bmod (2 ^ 32) := by
  rw [Int32.toInt, BitVec.toInt_eq_toNat_bmod]
  rfl

lemma zeroExtended_littleEndian (h : count ≤ 4) :
    zeroExtended (littleEndian count w) = w ↔ w.toUInt32.toNat < 2 ^ (8 * count) := by
  have hlt := w.toUInt32.toNat_lt
  rw [zeroExtended, unsigned_littleEndian h, ← Int32.toInt_inj, Int32.toInt_ofNat', toInt_eq_bmod]
  obtain rfl | rfl | rfl | rfl | rfl :
      count = 0 ∨ count = 1 ∨ count = 2 ∨ count = 3 ∨ count = 4 := by omega
  all_goals simp [Int.bmod_def]
  all_goals omega

lemma signExtended_littleEndian (h : count ≤ 4) :
    signExtended (littleEndian count w) = w ↔
      -2 ^ (8 * count) ≤ 2 * w.toInt ∧ 2 * w.toInt < 2 ^ (8 * count) := by
  have hlt := w.toUInt32.toNat_lt
  rw [signExtended, unsigned_littleEndian h, Gen.length_littleEndian, ← Int32.toInt_inj,
    Int32.toInt_ofInt, toInt_eq_bmod]
  obtain rfl | rfl | rfl | rfl | rfl :
      count = 0 ∨ count = 1 ∨ count = 2 ∨ count = 3 ∨ count = 4 := by omega
  all_goals simp [Int.bmod_def]
  all_goals omega

/-! ## Read-only variables -/

/-- Reading storage of so many bytes at `n` against a value that is known for it. The bytes are the
lowest ones of the value, and both kinds of narrow reads give it back exactly if it fits. -/
structure Constant.StoredAt (value : Constant) (data : Array UInt8) (n size : Nat) : Prop where
  within : n + size ≤ data.size
  lowest : unsigned ((data.toList.drop n).take size) = value.toWord.toUInt32.toNat % 2 ^ (8 * size)
  zeroExtended : zeroExtended ((data.toList.drop n).take size) = value.toWord ↔
    value.toWord.toUInt32.toNat < 2 ^ (8 * size)
  signExtended : signExtended ((data.toList.drop n).take size) = value.toWord ↔
    -2 ^ (8 * size) ≤ 2 * value.toWord.toInt ∧ 2 * value.toWord.toInt < 2 ^ (8 * size)

/-- The variable stands for the value wherever it is named, and its storage holds that value as far
as its type goes. -/
structure GlobalVar.Known (v : GlobalVar) (value : Constant) (s : State) : Prop where
  substituted : ∀ {c : Context} {t t' : State} {id : GlobalId} {operand : Operand},
    t.symbols.globals[id.index]? = some v →
    (Gen.Runs (Gen.compileGlobal id) c t operand t' ↔ t' = t ∧ operand = .constant value v.ty)
  stored : ∃ n, v.offset = UInt32.ofNat n ∧
    value.StoredAt s.script.globalData n (v.ty.size s.symbols.types).toNat

lemma Gen.Fills.storedAt {data : Array UInt8} {n size : Nat}
    (h : Fills value size ((data.toList.drop n).take size)) (hle : n + size ≤ data.size) :
    value.StoredAt data n size := by
  obtain ⟨hsize, hbytes⟩ := h
  refine ⟨hle, ?_, ?_, ?_⟩ <;> rw [hbytes]
  · exact unsigned_littleEndian hsize
  · exact zeroExtended_littleEndian hsize
  · exact signExtended_littleEndian hsize

lemma Gen.Coherent.knownValue {c : Context} {due : Agenda} {open? : Option TypeId} {s : State}
    {v : GlobalVar} (h : Coherent c due open? s) (hv : v ∈ s.symbols.globals)
    (himport : v.isImport = false) (hread : v.readOnly = true) (hvalue : v.value? = some value) :
    v.Known value s where
  substituted ht := by
    simp [compileGlobal, ht, hvalue, hread, Option.filter]
  stored := by
    obtain ⟨n, hn, hle, hbytes⟩ := h.data v hv himport
    exact ⟨n, hn, (hbytes value hvalue).storedAt hle⟩

end AdventureScript
