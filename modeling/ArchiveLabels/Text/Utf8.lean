/-!
# UTF-8

`Utf8.encode` and `Utf8.decode?` turn a text into its bytes and back (`decode?_encode`).
`Utf8.lossy` reads any bytes : each longest piece that no text continues becomes one U+FFFD.
-/

namespace ArchiveLabels.Text.Utf8

/-- The bytes of a text. -/
def encode (s : String) : ByteArray := s.toUTF8

/-- The text that the bytes encode, if they encode one. -/
def decode? (bytes : ByteArray) : Option String := String.fromUTF8? bytes

theorem decode?_encode (s : String) : decode? (encode s) = some s := by
  have h : (encode s).IsValidUTF8 := s.isValidUTF8
  unfold decode? String.fromUTF8?
  simp only [h, dite_true]
  rfl

/-- What stands for bytes that encode no character. -/
def replacement : Char := Char.ofNat 0xFFFD

/-- The bounds of the second byte of a character, by its first byte. -/
def secondBounds (lead : UInt8) : UInt8 × UInt8 :=
  if lead = 0xE0 then (0xA0, 0xBF)
  else if lead = 0xED then (0x80, 0x9F)
  else if lead = 0xF0 then (0x90, 0xBF)
  else if lead = 0xF4 then (0x80, 0x8F)
  else (0x80, 0xBF)

/-- How many bytes follow the first byte of a character. -/
def tailLength (lead : UInt8) : Nat :=
  if 0xC2 ≤ lead && lead ≤ 0xDF then 1
  else if 0xE0 ≤ lead && lead ≤ 0xEF then 2
  else if 0xF0 ≤ lead && lead ≤ 0xF4 then 3
  else 0

/-- The bits that the first byte gives to the number of its character. -/
def leadBits (lead : UInt8) : Nat :=
  if lead < 0x80 then lead.toNat
  else if lead < 0xE0 then lead.toNat % 0x20
  else if lead < 0xF0 then lead.toNat % 0x10
  else lead.toNat % 0x08

/-- Reads the tail of a character : its number, if all `n` bytes are there, and how many were read.
-/
def readTail (bounds : UInt8 × UInt8) (code : Nat) : Nat → List UInt8 → Option Nat × Nat
  | 0, _ => (some code, 0)
  | _ + 1, [] => (none, 0)
  | n + 1, b :: bs =>
    if bounds.1 ≤ b && b ≤ bounds.2 then
      let (c, k) := readTail (0x80, 0xBF) (code * 0x40 + b.toNat % 0x40) n bs
      (c, k + 1)
    else (none, 0)

/-- The character that starts with the byte `lead` before `bs`, and how many of `bs` it takes. -/
def readChar (lead : UInt8) (bs : List UInt8) : Char × Nat :=
  if lead < 0x80 then (Char.ofNat lead.toNat, 0)
  else
    match tailLength lead with
    | 0 => (replacement, 0)
    | n =>
      match readTail (secondBounds lead) (leadBits lead) n bs with
      | (some c, k) => (Char.ofNat c, k)
      | (none, k) => (replacement, k)

/-- The characters of any bytes. -/
def lossyChars : List UInt8 → List Char
  | [] => []
  | b :: bs =>
    let (c, k) := readChar b bs
    c :: lossyChars (bs.drop k)
termination_by bs => bs.length
decreasing_by
  simp only [List.length_drop, List.length_cons]
  omega

/-- The text of any bytes. -/
def lossy (bytes : ByteArray) : String :=
  match decode? bytes with
  | some s => s
  | none => String.ofList (lossyChars bytes.data.toList)

theorem lossy_encode (s : String) : lossy (encode s) = s := by
  rw [lossy, decode?_encode]

end ArchiveLabels.Text.Utf8
