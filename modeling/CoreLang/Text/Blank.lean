import CoreLang.Text.Ranges

/-! The Unicode property White_Space, version 17. -/
namespace CoreLang.Text

/-- Blanks, tabs, line and page breaks. -/
def blankRanges : Ranges :=
  [(0x0009, 0x000D), (0x0020, 0x0020), (0x0085, 0x0085), (0x00A0, 0x00A0), (0x1680, 0x1680),
   (0x2000, 0x200A), (0x2028, 0x2029), (0x202F, 0x202F), (0x205F, 0x205F), (0x3000, 0x3000)]

theorem blankRanges_ordered : blankRanges.ordered = true := by decide +kernel

end CoreLang.Text
