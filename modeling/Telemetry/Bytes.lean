/-!
Byte strings, and the bytes of a text.
-/

namespace Telemetry

abbrev Bytes := List UInt8

namespace Bytes

def newline : UInt8 := 10

/-- The UTF-8 bytes of a list of characters, character by character. -/
def ofChars (cs : List Char) : Bytes := cs.flatMap String.utf8EncodeChar

def ofText (s : String) : Bytes := ofChars s.toList

/-- The text with these bytes, if they are valid UTF-8. -/
def toText? (b : Bytes) : Option String := String.fromUTF8? ⟨b.toArray⟩

theorem ofChars_append (a b : List Char) : ofChars (a ++ b) = ofChars a ++ ofChars b := by
  simp [ofChars]

theorem ofText_append (s t : String) : ofText (s ++ t) = ofText s ++ ofText t := by
  simp [ofText, ofChars_append]

end Bytes
end Telemetry
