/-!
# Identifiers of new documents

A document that comes without an identifier gets one that is drawn at random: 128 bits in
hexadecimal, in five groups, of which six bits are fixed and tell that the others are random.
-/
namespace DocFind.Identifier

/-- The digits of a word in hexadecimal, `width` of them. -/
def hexDigits (width word : Nat) : List Char :=
  let digits := Nat.toDigits 16 (word % Nat.pow 16 width)
  List.replicate (width - digits.length) '0' ++ digits

/-- The fixed bits: the fourth kind in the digit behind the twelfth, and a leading one and zero in
the digit behind the sixteenth. -/
def fixedBits : Nat := 0x40008000000000000000

/-- The bits that are not fixed. -/
def freeBits : Nat := 0xFFFFFFFFFFFF0FFF3FFFFFFFFFFFFFFF

/-- The identifier that some bits make. Bits that agree on the free places make the same one. -/
def ofBits (bits : Nat) : String :=
  let digits := hexDigits 32 (bits &&& freeBits ||| fixedBits)
  String.ofList <| List.intercalate ['-'] [digits.take 8, (digits.drop 8).take 4,
    (digits.drop 12).take 4, (digits.drop 16).take 4, digits.drop 20]

end DocFind.Identifier
