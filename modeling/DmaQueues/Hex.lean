/-!
# Hexadecimal text

Numbers are written in lower case after `0x`. `Hex.text` uses as few digits as
it can, `Hex.padded` fills up with zeros to a fixed number of digits.
-/

namespace DmaQueues.Hex

def digits (n : Nat) : String :=
  String.ofList (Nat.toDigits 16 n)

def text (n : Nat) : String :=
  "0x" ++ digits n

/-- At least `width` digits after `0x`. -/
def padded (width n : Nat) : String :=
  let d := Nat.toDigits 16 n
  "0x" ++ String.ofList (List.replicate (width - d.length) '0' ++ d)

end DmaQueues.Hex
