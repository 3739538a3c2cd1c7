/-!
# Blanks

Two sets of blank characters are in use: the white space of the character
standard, which is trimmed from the ends of a text, and the five plain blanks
that may stand between the words of a type.
-/

namespace AbiCodec

/-- The white space characters of the character standard. -/
def isWhiteSpace (c : Char) : Bool :=
  let n := c.toNat
  (9 ≤ n && n ≤ 13) || n == 0x20 || n == 0x85 || n == 0xA0 || n == 0x1680 ||
    (0x2000 ≤ n && n ≤ 0x200A) || n == 0x2028 || n == 0x2029 || n == 0x202F ||
    n == 0x205F || n == 0x3000

/-- Space, tab, line feed, form feed and carriage return. -/
def isPlainBlank (c : Char) : Bool :=
  c == ' ' || c == '\t' || c == '\n' || c == '\x0c' || c == '\r'

/-- The text without the white space before it. -/
def trimStart (text : List Char) : List Char := text.dropWhile isWhiteSpace

/-- The text without the white space after it. -/
def trimEnd (text : List Char) : List Char := (text.reverse.dropWhile isWhiteSpace).reverse

/-- The text without the white space at its two ends. -/
def trim (text : List Char) : List Char := trimEnd (trimStart text)

/-- What follows the lead, when the text starts with it. -/
def dropLead? (lead text : List Char) : Option (List Char) :=
  if lead.isPrefixOf text then some (text.drop lead.length) else none

theorem dropLead?_append (lead rest : List Char) : dropLead? lead (lead ++ rest) = some rest := by
  simp [dropLead?]

theorem eq_append_of_dropLead? {lead text rest : List Char} (h : dropLead? lead text = some rest) :
    text = lead ++ rest := by
  rw [dropLead?] at h
  split at h
  · next isLead =>
    obtain ⟨after, rfl⟩ := List.isPrefixOf_iff_prefix.1 isLead
    rw [List.drop_left] at h
    rw [Option.some.inj h]
  · cases h

end AbiCodec
