/-!
# Bytes that should be a text

Names and contents of files come as bytes. Most of them are a text in UTF-8, and the others can only
be shown with a mark in place of every piece that is malformed.
-/

namespace TypedRoutes

/-- What the first byte of a longer character tells: the bits it holds, how many bytes follow, and
between which bounds the next one lies. -/
structure LeadByte where
  bits : Nat
  more : Nat
  low : UInt8
  high : UInt8

/-- The first bytes of longer characters. The bounds leave out characters that fit into fewer bytes,
halves of surrogate pairs and what lies beyond the last character. -/
def leadByte? (byte : UInt8) : Option LeadByte :=
  let n := byte.toNat
  if byte < 0xc2 then none
  else if byte < 0xe0 then some ⟨n - 0xc0, 1, 0x80, 0xbf⟩
  else if byte = 0xe0 then some ⟨n - 0xe0, 2, 0xa0, 0xbf⟩
  else if byte = 0xed then some ⟨n - 0xe0, 2, 0x80, 0x9f⟩
  else if byte < 0xf0 then some ⟨n - 0xe0, 2, 0x80, 0xbf⟩
  else if byte = 0xf0 then some ⟨n - 0xf0, 3, 0x90, 0xbf⟩
  else if byte < 0xf4 then some ⟨n - 0xf0, 3, 0x80, 0xbf⟩
  else if byte = 0xf4 then some ⟨n - 0xf0, 3, 0x80, 0x8f⟩
  else none

/-- Reads the `more` bytes that go on a character, the next one between the bounds; a byte that does
not fit is left. -/
def continueChar (bits : Nat) (low high : UInt8) : Nat → List UInt8 → Option Char × List UInt8
  | 0, rest => (some (Char.ofNat bits), rest)
  | _ + 1, [] => (none, [])
  | more + 1, byte :: rest =>
    if low ≤ byte && byte ≤ high then
      continueChar (bits * 64 + (byte.toNat - 0x80)) 0x80 0xbf more rest
    else (none, byte :: rest)

/-- Reads the rest of a character behind its first byte. -/
def LeadByte.read (lead : LeadByte) (bytes : List UInt8) : Option Char × List UInt8 :=
  continueChar lead.bits lead.low lead.high lead.more bytes

/-- No byte is read twice. -/
theorem length_continueChar (bits : Nat) (low high : UInt8) (more : Nat) (bytes : List UInt8) :
    (continueChar bits low high more bytes).2.length ≤ bytes.length := by
  induction more generalizing bits low high bytes with
  | zero => exact Nat.le_refl _
  | succ more ih =>
    cases bytes with
    | nil => exact Nat.le_refl _
    | cons byte rest =>
      rw [continueChar]
      split
      · exact Nat.le_trans (ih ..) (Nat.le_succ _)
      · exact Nat.le_refl _

/-- The characters of bytes in UTF-8, and none for every piece that is malformed. -/
def utf8Pieces : List UInt8 → List (Option Char)
  | [] => []
  | byte :: rest =>
    if byte < 0x80 then some (Char.ofNat byte.toNat) :: utf8Pieces rest
    else match leadByte? byte with
      | none => none :: utf8Pieces rest
      | some lead => (lead.read rest).1 :: utf8Pieces (lead.read rest).2
termination_by bytes => bytes.length
decreasing_by
  · simp
  · simp
  · exact Nat.lt_succ_of_le (length_continueChar ..)

/-- Bytes from outside: a text, or bytes that are none. -/
inductive ByteText where
  | text (value : String)
  | malformed (bytes : List UInt8) (pieces : none ∈ utf8Pieces bytes)
  deriving DecidableEq, Repr, Inhabited

namespace ByteText

instance : Coe String ByteText := ⟨.text⟩

/-- The text that the bytes are, if they are one. -/
def text? : ByteText → Option String
  | .text value => some value
  | .malformed _ _ => none

/-- The mark that is shown in place of a malformed piece. -/
def replacement : Char := '\uFFFD'

/-- The bytes as they can be shown. -/
def shown : ByteText → String
  | .text value => value
  | .malformed bytes _ => String.ofList ((utf8Pieces bytes).map (·.getD replacement))

end ByteText

end TypedRoutes
