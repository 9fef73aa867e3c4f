import AdventureScript.Proofs.Program.Basic
import AdventureScript.Proofs.Symbols.Handles

/-!
Structs in memory. The fields of a struct fill it from its first byte to its last one, those of what
it extends in front, and each of them takes as many bytes as its type has when all is compiled.
-/
namespace AdventureScript

lemma StructDef.Distinct.component? {s : StructDef} {m : Member} (h : s.Distinct)
    (hm : m ∈ s.members.toList) : s.component? m.name = some m.component := by
  obtain ⟨m', hm'⟩ : ∃ m', s.members.toList.reverse.find? (·.name = m.name) = some m' :=
    Option.isSome_iff_exists.1 (List.find?_isSome.2 ⟨m, List.mem_reverse.2 hm, by simp⟩)
  have hname : m'.name = m.name := by simpa using List.find?_some hm'
  have hmem := List.mem_reverse.1 (List.mem_of_find?_eq_some hm')
  rw [StructDef.component?, hm', List.inj_on_of_nodup_map h hmem hm hname]
  rfl

namespace TypeTable

variable {types : TypeTable} {id owner : TypeId} {s : StructDef} {f : Field} {name : String}
  {open? : Option TypeId} {rank : TypeId → Nat}

def layout (types : TypeTable) (id : TypeId) : List Field :=
  (types.lineage id).reverse.flatMap fun owner =>
    ((types.struct? owner).map (·.fields.map (·.2))).getD []

/-- Fields follow each other without a gap and fill the bytes from `start` to `stop`. -/
def Tiles (types : TypeTable) : (start : Nat) → List Field → (stop : Nat) → Prop
  | start, [], stop => stop = start
  | start, f :: fields, stop =>
    f.offset.toNat = start ∧ types.Tiles (start + (f.ty.size types).toNat) fields stop

def Fits (types : TypeTable) : Prop :=
  ∀ id s, types.struct? id = some s →
    (types.inherited s).toNat + (s.fields.map (·.2.ty.bytes types)).sum < 2 ^ 32

lemma Exact.fits (h : types.Exact) : types.Fits := by
  intro id s hs
  rw [← h id s hs]
  exact s.size.toNat_lt

lemma Tiles.append {start mid stop : Nat} {fields fields' : List Field}
    (h : types.Tiles start fields mid) (h' : types.Tiles mid fields' stop) :
    types.Tiles start (fields ++ fields') stop := by
  induction fields generalizing start with
  | nil =>
    obtain rfl : mid = start := h
    exact h'
  | cons f fields ih => exact ⟨h.1, ih h.2⟩

lemma Placed.tiles {start stop : UInt32} {fields : List (String × Field)}
    (h : types.Placed start fields stop)
    (hfits : start.toNat + (fields.map (·.2.ty.bytes types)).sum < 2 ^ 32) :
    types.Tiles start.toNat (fields.map (·.2)) stop.toNat := by
  induction fields generalizing start with
  | nil => exact congrArg UInt32.toNat h
  | cons e fields ih =>
    obtain ⟨name, f⟩ := e
    obtain ⟨hf, h⟩ := h
    simp only [List.map_cons, List.sum_cons] at hfits
    have hsize := Ty.toNat_size (t := f.ty) (show f.ty.bytes types < 2 ^ 32 by omega)
    have hnext : (start + f.ty.size types).toNat = start.toNat + (f.ty.size types).toNat := by
      rw [UInt32.toNat_add, Nat.mod_eq_of_lt (by omega)]
    exact ⟨congrArg UInt32.toNat hf, hnext ▸ ih h (by omega)⟩

lemma Ranked.layout_eq (h : types.Ranked rank) (hs : types.struct? id = some s) :
    types.layout id = ((s.parent.map types.layout).getD []) ++ s.fields.map (·.2) := by
  rw [layout, h.lineage_eq hs, List.reverse_cons, List.flatMap_append, List.flatMap_singleton, hs]
  cases s.parent <;> rfl

/-- By induction on the line of descent: what a struct extends ends where its own fields start. -/
lemma Sound.tiles_layout (hs : types.Sound open?) (hfits : types.Fits)
    (hid : types.struct? id = some s) : types.Tiles 0 (types.layout id) s.size.toNat := by
  obtain ⟨rank, hr⟩ := hs.exists_ranked
  induction hn : rank id using Nat.strong_induction_on generalizing id s with
  | _ n ih =>
    have hown := (hs.placed hid).tiles (hfits id s hid)
    rw [hr.layout_eq hid]
    cases hp : s.parent with
    | none =>
      rw [inherited, hp] at hown
      exact hown
    | some p =>
      obtain ⟨t, ht, _⟩ := hs.parent hid hp
      have hparent : types.inherited s = t.size := by simp [inherited, hp, ht]
      rw [hparent] at hown
      exact (ih _ (hn ▸ hr.parent hid hp) ht rfl).append hown

lemma findComponent?_own {c : Component} (h : types.findComponent? id name = some (owner, c)) :
    owner ∈ types.lineage id ∧ ∃ o, types.struct? owner = some o ∧ o.component? name = some c := by
  obtain ⟨a, ha, he⟩ := List.exists_of_findSome?_eq_some h
  obtain ⟨c', hc, he⟩ := Option.map_eq_some_iff.1 he
  obtain ⟨rfl, rfl⟩ : a = owner ∧ c' = c := by simpa using he
  exact ⟨ha, Option.bind_eq_some_iff.1 hc⟩

/-- A struct is laid out: its fields and the inherited ones fill it, and its members have names of
their own. -/
structure LaidOut (types : TypeTable) (id : TypeId) (s : StructDef) : Prop where
  tiles : types.Tiles 0 (types.layout id) s.size.toNat
  found : ∀ {name owner f}, types.findComponent? id name = some (owner, .field f) →
    f ∈ types.layout id ∧ owner ∈ types.lineage id ∧
      ∃ o, types.struct? owner = some o ∧ o.component? name = some (.field f)
  distinct : (s.members.toList.map (·.name)).Nodup
  component? : ∀ m ∈ s.members, s.component? m.name = some m.component

lemma Sound.laidOut (hs : types.Sound open?) (hfits : types.Fits)
    (hid : types.struct? id = some s) : types.LaidOut id s where
  tiles := hs.tiles_layout hfits hid
  found := by
    intro name owner f h
    obtain ⟨howner, o, ho, hc⟩ := findComponent?_own h
    refine ⟨List.mem_flatMap.2 ⟨owner, List.mem_reverse.2 howner, ?_⟩, howner, o, ho, hc⟩
    rw [ho]
    exact List.mem_map.2 ⟨(name, f), StructDef.mem_fields_of_component? hc, rfl⟩
  distinct := hs.distinct hid
  component? m hm := (hs.distinct hid).component? (Array.mem_toList_iff.2 hm)

end TypeTable

variable {source : String} {options : Options} {tokens : Stream} {s : State} {id : TypeId}
  {d : StructDef}

/-- Every struct of a compilation whose structs fit in 32 bits is laid out, by the sizes that its
types have in the end. -/
theorem compile_laidOut (h : Compiles source options tokens s) (hfits : s.symbols.types.Fits)
    (hd : s.symbols.types.struct? id = some d) : s.symbols.types.LaidOut id d :=
  h.complete.toCoherent.types.laidOut hfits hd

theorem compile_laidOut_extends :
    let source := "managed struct M; struct P \x7b int a; char b[3]; import int f(); \x7d; " ++
      "struct S extends P \x7b P p[2]; M *m; short c; attribute int n; \x7d; managed struct M \x7b int x; \x7d; " ++
      "int P::f() \x7b return this.a; \x7d int g(this S *) \x7b return this.c; \x7d"
    ∃ tokens s d, Compiles source {} tokens s ∧ s.symbols.types.Fits ∧
      s.symbols.types.struct? ⟨2⟩ = some d ∧ d.size = 27 ∧
      (s.symbols.types.layout ⟨2⟩).map (·.offset) = [0, 4, 7, 21, 25] ∧
      s.symbols.types.LaidOut ⟨2⟩ d := by
  intro source
  have hrun : (compiled? source {}).any (fun (_, s) => decide s.symbols.types.Exact ∧
      (s.symbols.types.struct? ⟨2⟩).map (·.size) = some 27 ∧
      (s.symbols.types.layout ⟨2⟩).map (·.offset) = [0, 4, 7, 21, 25]) = true := by decide +kernel
  obtain ⟨⟨tokens, s⟩, hs, hp⟩ := (Option.any_eq_true _ _).1 hrun
  have h := compiles_iff.2 hs
  simp only [decide_eq_true_eq] at hp
  obtain ⟨d, hd, hsize⟩ := Option.map_eq_some_iff.1 hp.2.1
  exact ⟨tokens, s, d, h, hp.1.fits, hd, hsize, hp.2.2, compile_laidOut h hp.1.fits hd⟩

end AdventureScript
