/-!
# Bytes

Everything a session reads or writes is a list of bytes.  Most of it is UTF-8,
but a typed line need not be, so text that has to survive unchanged is kept as
`Bytes` and only looked at through its characters.
-/

namespace LineBasic

abbrev Bytes := List UInt8

namespace Text

/-- The UTF-8 form of a character: a leading byte that tells the length, then
six bits in each byte after it. -/
def encodeChar (c : Char) : Bytes :=
  let n := c.toNat
  if n < 0x80 then [.ofNat n]
  else if n < 0x800 then [.ofNat (0xC0 + n / 64), .ofNat (0x80 + n % 64)]
  else if n < 0x10000 then
    [.ofNat (0xE0 + n / 4096), .ofNat (0x80 + n / 64 % 64), .ofNat (0x80 + n % 64)]
  else
    [.ofNat (0xF0 + n / 262144), .ofNat (0x80 + n / 4096 % 64), .ofNat (0x80 + n / 64 % 64),
     .ofNat (0x80 + n % 64)]

def encode (cs : List Char) : Bytes :=
  cs.flatMap encodeChar

def ofString (s : String) : Bytes :=
  encode s.toList

def newline : UInt8 := 0x0A

def carriageReturn : UInt8 := 0x0D

def blank : UInt8 := 0x20

theorem encode_cons (c : Char) (cs : List Char) :
    encode (c :: cs) = encodeChar c ++ encode cs := rfl

theorem encode_append (cs ds : List Char) :
    encode (cs ++ ds) = encode cs ++ encode ds := by
  simp [encode]

theorem ofString_append (s t : String) : ofString (s ++ t) = ofString s ++ ofString t := by
  simp only [ofString, String.toList_append, encode_append]

end Text

end LineBasic
