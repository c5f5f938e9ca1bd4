import CoinSelection.Hex

/-!
# Asset identifiers

A confidential asset is named by thirty-two bytes.  Its text is the bytes in
order, as hexadecimal digits, and assets are ordered by their bytes.
-/

namespace CoinSelection

/-- The identifier of an asset. -/
structure AssetId where
  bytes : Vector UInt8 32
  deriving DecidableEq

namespace AssetId

/-- The asset whose thirty-two bytes are all `byte`. -/
def ofByte (byte : UInt8) : AssetId :=
  ⟨Vector.replicate 32 byte⟩

/-- The text of an asset. -/
def display (asset : AssetId) : String :=
  Hex.encode asset.bytes.toList

/-- Read an asset from its text. -/
def parse (text : String) : Except Hex.Defect AssetId :=
  (Hex.decode32 text).map AssetId.mk

/-- Assets are ordered byte by byte. -/
instance : Ord AssetId :=
  ⟨compareOn fun asset => asset.bytes.toList⟩

theorem compare_def (first second : AssetId) :
    compare first second = compare first.bytes.toList second.bytes.toList :=
  rfl

theorem bytes_inj {first second : AssetId} :
    first.bytes = second.bytes ↔ first = second := by
  cases first
  cases second
  simp

/-- Assets that compare equal are equal. -/
theorem compare_eq_eq_iff {first second : AssetId} :
    compare first second = .eq ↔ first = second := by
  rw [compare_def, Std.LawfulEqOrd.compare_eq_iff_eq, ← bytes_inj, Vector.toList_inj]

end AssetId

end CoinSelection
