import DesignTokens.Text.Run

/-!
# Blanks

The characters with the Unicode property `White_Space`: they may not stand in a reference, and they
are cut from both ends of a font family.

* `blankRuns`, `isBlank`;
* `trim`: a text without the blanks at its ends.
-/

namespace DesignTokens.Text

/-- The runs of `White_Space`. -/
def blankRuns : List Run :=
  [⟨0x9, 0xD, 1⟩, ⟨0x20, 0x20, 1⟩, ⟨0x85, 0x85, 1⟩, ⟨0xA0, 0xA0, 1⟩, ⟨0x1680, 0x1680, 1⟩,
  ⟨0x2000, 0x200A, 1⟩, ⟨0x2028, 0x2029, 1⟩, ⟨0x202F, 0x202F, 1⟩, ⟨0x205F, 0x205F, 1⟩,
  ⟨0x3000, 0x3000, 1⟩]

/-- A character with the property `White_Space`. -/
def isBlank (c : Char) : Bool := inRuns blankRuns c

/-- The text without the blanks at its two ends. -/
def trim (text : String) : String :=
  String.ofList ((text.toList.dropWhile isBlank).reverse.dropWhile isBlank).reverse

end DesignTokens.Text
