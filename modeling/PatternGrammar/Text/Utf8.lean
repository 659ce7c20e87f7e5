import PatternGrammar.Text.Basic

/-!
# Code points of a text

The matcher reads whole characters while offsets and sizes count bytes, so a text has a second view
as the list of its code points.
-/

namespace PatternGrammar.Text

/-- The number of bytes that encode a code point. -/
def encodedSize (c : Nat) : Nat :=
  if c < 0x80 then 1 else if c < 0x800 then 2 else if c < 0x10000 then 3 else 4

/-- The bytes that encode a code point. -/
def encode (c : Nat) : Text :=
  let tail (shift : Nat) : UInt8 := UInt8.ofNat (0x80 + (c >>> shift) % 0x40)
  if c < 0x80 then [UInt8.ofNat c]
  else if c < 0x800 then [UInt8.ofNat (0xC0 + (c >>> 6)), tail 0]
  else if c < 0x10000 then [UInt8.ofNat (0xE0 + (c >>> 12)), tail 6, tail 0]
  else [UInt8.ofNat (0xF0 + (c >>> 18)), tail 12, tail 6, tail 0]

theorem length_encode (c : Nat) : (encode c).length = encodedSize c := by
  unfold encode encodedSize
  split
  · rfl
  · split
    · rfl
    · split <;> rfl

/-- `c` extended by the low six bits of a continuation byte. -/
def extend (c : Nat) (b : UInt8) : Nat := c * 0x40 + b.toNat % 0x40

/-- The code points of a text; its bytes are taken to be well-formed UTF-8. -/
def codePoints : Text → List Nat
  | [] => []
  | a :: rest =>
      let lead := a.toNat
      if lead < 0xC0 then lead :: codePoints rest
      else if lead < 0xE0 then
        match rest with
        | b :: rest => extend (lead % 0x20) b :: codePoints rest
        | [] => [lead]
      else if lead < 0xF0 then
        match rest with
        | b :: c :: rest => extend (extend (lead % 0x10) b) c :: codePoints rest
        | rest => lead :: codePoints rest
      else
        match rest with
        | b :: c :: d :: rest => extend (extend (extend (lead % 0x08) b) c) d :: codePoints rest
        | rest => lead :: codePoints rest

/-- The number of bytes that encode a list of code points. -/
def encodedLength : List Nat → Nat
  | [] => 0
  | c :: rest => encodedSize c + encodedLength rest

/-- The bytes that encode a list of code points. -/
def ofCodePoints (cs : List Nat) : Text := cs.flatMap encode

theorem length_ofCodePoints (cs : List Nat) : (ofCodePoints cs).length = encodedLength cs := by
  induction cs with
  | nil => rfl
  | cons c cs ih =>
    simp only [ofCodePoints, List.flatMap_cons, List.length_append, length_encode, encodedLength]
    simp only [ofCodePoints] at ih
    rw [ih]

end PatternGrammar.Text
