import OpenCrate.Format.Tlv

/-!
# Text that is shown to people

`text` of `oc-format`: the characters that are refused when text is parsed, because they reorder what
is displayed or are not displayed at all. Letters of any script, joiners and emoji are not among them.
-/

namespace OpenCrate.Format

/-- Code points that reorder displayed text. -/
def bidi : List Char :=
  ['\u061c', '\u200e', '\u200f', '\u202a', '\u202b', '\u202c', '\u202d', '\u202e', '\u2066',
    '\u2067', '\u2068', '\u2069']

/-- Invisible formatting characters with no orthographic role. -/
def invisible : List Char := ['\u00ad', '\u180e', '\u200b', '\u2060', '\ufeff']

/-- Line and paragraph separators. -/
def separators : List Char := ['\u2028', '\u2029']

/-- The first of the tag characters, an invisible copy of ASCII. -/
def tagFirst : UInt32 := 0xe0000

/-- The last of the tag characters. -/
def tagLast : UInt32 := 0xe007f

/-- The control characters of the two ASCII halves. -/
def isControl (c : Char) : Bool := c.val ≤ 0x1f || (0x7f ≤ c.val && c.val ≤ 0x9f)

/-- White space of Unicode. -/
def isWhitespace (c : Char) : Bool :=
  (0x09 ≤ c.val && c.val ≤ 0x0d) || c.val == 0x20 || c.val == 0x85 || c.val == 0xa0 ||
    c.val == 0x1680 || (0x2000 ≤ c.val && c.val ≤ 0x200a) || c.val == 0x2028 || c.val == 0x2029 ||
    c.val == 0x202f || c.val == 0x205f || c.val == 0x3000

/-- Whether this character is dangerous to display to a person. -/
def isDisplayUnsafe (c : Char) : Bool :=
  isControl c || bidi.contains c || invisible.contains c || separators.contains c ||
    (tagFirst ≤ c.val && c.val ≤ tagLast)

/-- A text is refused at the first character that is dangerous to display. -/
def checkDisplay (text : String) (tag : UInt16) : Except FormatError Unit :=
  match text.toList.find? isDisplayUnsafe with
  | some c => .error (.badNoteChar tag c.val)
  | none => .ok ()

/-- A character takes at most four bytes. -/
theorem length_utf8_le (text : String) : (utf8 text).length ≤ 4 * text.toList.length := by
  have hofList : ∀ l : List Char, (String.ofList l).utf8ByteSize ≤ 4 * l.length := by
    intro l
    induction l with
    | nil => exact Nat.le_refl 0
    | cons c l ih =>
      rw [String.ofList_cons, String.utf8ByteSize_append, String.utf8ByteSize_singleton,
        List.length_cons]
      have := c.utf8Size_le_four
      omega
  have h := hofList text.toList
  rw [String.ofList_toList] at h
  exact h

end OpenCrate.Format
