/-!
Settings of a compilation. They are passed around as the bits of a number.
-/
namespace AdventureScript

structure Options where
  exportAll : Bool := false
  showWarnings : Bool := false
  lineNumbers : Bool := false
  autoExport : Bool := false
  noImportOverride : Bool := false
  leftToRight : Bool := false
  oldStrings : Bool := false
  deriving DecidableEq, Repr, Inhabited

structure Options.Flag where
  bit : Nat
  name : String
  isSet : Options → Bool

namespace Options

def flags : List Flag :=
  [⟨0, "EXPORT_ALL", exportAll⟩, ⟨1, "SHOW_WARNINGS", showWarnings⟩,
   ⟨2, "LINE_NUMBERS", lineNumbers⟩, ⟨3, "AUTO_EXPORT", autoExport⟩,
   ⟨5, "NO_IMPORT_OVERRIDE", noImportOverride⟩, ⟨6, "LEFT_TO_RIGHT", leftToRight⟩,
   ⟨7, "OLD_STRINGS", oldStrings⟩]

def ofBits (n : Nat) : Options where
  exportAll := n.testBit 0
  showWarnings := n.testBit 1
  lineNumbers := n.testBit 2
  autoExport := n.testBit 3
  noImportOverride := n.testBit 5
  leftToRight := n.testBit 6
  oldStrings := n.testBit 7

def toBits (o : Options) : Nat :=
  (flags.filter (·.isSet o)).foldl (fun bits flag => bits ||| 1 <<< flag.bit) 0

def names (o : Options) : List String :=
  (flags.filter (·.isSet o)).map (·.name)

def isEmpty (o : Options) : Bool :=
  o.names.isEmpty

def hasRecommended (o : Options) : Bool :=
  o.lineNumbers && o.leftToRight

end Options
end AdventureScript
