/-! # UTF-8

Bytes are read one character at a time. Where no character starts, the longest run of bytes that
could have started one counts as a single mistake. A text that must not fail shows each mistake as a
replacement character. -/

namespace ScopedCheck.Text.Utf8

/-- A range of bytes, both ends included. -/
structure ByteRange where
  first : UInt8
  last : UInt8

/-- Whether a byte lies in a range. -/
def ByteRange.has (range : ByteRange) (b : UInt8) : Bool := range.first ≤ b && b ≤ range.last

/-- The bytes that continue a character. -/
def tail : ByteRange := ⟨0x80, 0xBF⟩

/-- The bits that the first byte of a character gives, and the ranges of the bytes behind it. -/
def lead? (b : UInt8) : Option (Nat × List ByteRange) :=
  if b < 0x80 then some (b.toNat, [])
  else if b < 0xC2 then none
  else if b < 0xE0 then some (b.toNat - 0xC0, [tail])
  else if b = 0xE0 then some (0, [⟨0xA0, 0xBF⟩, tail])
  else if b = 0xED then some (13, [⟨0x80, 0x9F⟩, tail])
  else if b < 0xF0 then some (b.toNat - 0xE0, [tail, tail])
  else if b = 0xF0 then some (0, [⟨0x90, 0xBF⟩, tail, tail])
  else if b < 0xF4 then some (b.toNat - 0xF0, [tail, tail, tail])
  else if b = 0xF4 then some (4, [⟨0x80, 0x8F⟩, tail, tail])
  else none

/-- The code of a character whose first bits are known, if all its bytes are there, and the rest of
the bytes. -/
def continued (code : Nat) : List ByteRange → List UInt8 → Option Nat × List UInt8
  | [], rest => (some code, rest)
  | _ :: _, [] => (none, [])
  | range :: ranges, b :: rest =>
      if range.has b then continued (code * 64 + (b.toNat - 0x80)) ranges rest else (none, b :: rest)

theorem continued_length_le (code : Nat) (ranges : List ByteRange) (bytes : List UInt8) :
    (continued code ranges bytes).2.length ≤ bytes.length := by
  induction ranges generalizing code bytes with
  | nil => simp [continued]
  | cons range ranges ih =>
      cases bytes with
      | nil => simp [continued]
      | cons b rest =>
          simp only [continued]
          split
          · exact Nat.le_succ_of_le (ih _ _)
          · simp

/-- The characters in bytes; each mistake is none. -/
def pieces : List UInt8 → List (Option Char)
  | [] => []
  | b :: rest =>
      match lead? b with
      | none => none :: pieces rest
      | some (code, ranges) =>
          (continued code ranges rest).1.map Char.ofNat :: pieces (continued code ranges rest).2
termination_by bytes => bytes.length
decreasing_by
  · simp
  · exact Nat.lt_succ_of_le (continued_length_le code ranges rest)

/-- The text in bytes without mistakes. -/
def decode? (bytes : List UInt8) : Option String :=
  ((pieces bytes).mapM id).map String.ofList

/-- The character that stands for a mistake. -/
def replacement : Char := '\ufffd'

/-- The text in bytes, whatever they are. -/
def lossy (bytes : List UInt8) : String :=
  String.ofList ((pieces bytes).map (·.getD replacement))

end ScopedCheck.Text.Utf8
