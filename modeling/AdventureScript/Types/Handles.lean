import AdventureScript.Types.Table

/-!
The handles within a variable: a pointer or dynamic array is one itself, arrays and structs hold
those of their elements and fields.
-/
namespace AdventureScript.Ty

def elementStarts (t : Ty) (types : TypeTable) : List Int32 :=
  match t.shape with
  | .static dims =>
    (List.range (elementCount dims).toNat).map fun k =>
      (k.toUInt32 * t.elementSize types).toInt32
  | _ => [0]

def handleSlotsWithin (types : TypeTable) : (depth : Nat) → Ty → List Int32
  | depth, t =>
    let within :=
      match depth, t.structId? with
      | depth + 1, some id =>
        (types.allFields id).flatMap fun f =>
          (handleSlotsWithin types depth f.ty).map (f.offset.toInt32 + ·)
      | _, _ => []
    let ofElement := if t.pointer || t.isDynamicArray then [0] else within
    if ofElement.isEmpty then []
    else (t.elementStarts types).flatMap fun start => ofElement.map (start + ·)

/-- Where the handles of a variable of this type are, counted from its start, in the order in which
they are released. Structs stored within each other are all different, so the table bounds their
depth. -/
def handleSlots (t : Ty) (types : TypeTable) : List Int32 :=
  handleSlotsWithin types types.defs.size t

end AdventureScript.Ty
