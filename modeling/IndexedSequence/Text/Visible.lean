import IndexedSequence.Text.Marks
import IndexedSequence.Text.Unassigned

set_option autoImplicit false

namespace IndexedSequence.Text

/-- Controls, format controls, private use and separators other than the space: general categories Cc, Cf,
Co, Zl, Zp and Zs as of Unicode 17.0. -/
def formatRanges : List (Nat × Nat) :=
  [(0x00, 0x1f), (0x7f, 0xa0), (0xad, 0xad), (0x0600, 0x0605), (0x061c, 0x061c), (0x06dd, 0x06dd),
   (0x070f, 0x070f), (0x0890, 0x0891), (0x08e2, 0x08e2), (0x1680, 0x1680), (0x180e, 0x180e),
   (0x2000, 0x200f), (0x2028, 0x202f), (0x205f, 0x2064), (0x2066, 0x206f), (0x3000, 0x3000),
   (0xe000, 0xf8ff), (0xfeff, 0xfeff), (0xfff9, 0xfffb), (0x110bd, 0x110bd), (0x110cd, 0x110cd),
   (0x13430, 0x1343f), (0x1bca0, 0x1bca3), (0x1d173, 0x1d17a), (0xe0001, 0xe0001), (0xe0020, 0xe007f),
   (0xf0000, 0xffffd), (0x100000, 0x10fffd)]

/-- Characters that are drawn as nothing where they are not supported: property
Default_Ignorable_Code_Point as of Unicode 17.0. The Hangul fillers are letters of this kind. -/
def ignorableRanges : List (Nat × Nat) :=
  [(0xad, 0xad), (0x034f, 0x034f), (0x061c, 0x061c), (0x115f, 0x1160), (0x17b4, 0x17b5), (0x180b, 0x180f),
   (0x200b, 0x200f), (0x202a, 0x202e), (0x2060, 0x206f), (0x3164, 0x3164), (0xfe00, 0xfe0f),
   (0xfeff, 0xfeff), (0xffa0, 0xffa0), (0xfff0, 0xfff8), (0x1bca0, 0x1bca3), (0x1d173, 0x1d17a),
   (0xe0000, 0xe0fff)]

/-- Membership stops at the first range that begins too late: the tables are in ascending order. -/
def inRanges (n : Nat) : List (Nat × Nat) → Bool
  | [] => false
  | (low, high) :: rest => low ≤ n && (n ≤ high || inRanges n rest)

def isVisible (c : Char) : Bool :=
  let n := c.toNat
  !(inRanges n formatRanges || inRanges n ignorableRanges || inRanges n markRanges ||
    inRanges n unassignedRanges)

end IndexedSequence.Text
