import Mathlib

/-! JavaScript strings as sequences of UTF-16 code units, so that `length`,
`startsWith` and `endsWith` count and compare what the language counts and
compares, lone surrogates included. -/

namespace TsEpistle.Library

abbrev JsString := List UInt16

/-- The code units of one scalar value. -/
def utf16 (c : Char) : List UInt16 :=
  if c.toNat < 0x10000 then [UInt16.ofNat c.toNat]
  else
    let v := c.toNat - 0x10000
    [UInt16.ofNat (0xD800 + v / 0x400), UInt16.ofNat (0xDC00 + v % 0x400)]

/-- A string literal of the source. -/
def js (s : String) : JsString := s.toList.flatMap utf16

def startsWith (s start : JsString) : Bool := start.isPrefixOf s

def endsWith (s tail : JsString) : Bool := tail.isSuffixOf s

end TsEpistle.Library
