/-!
# Byte texts

Everything this library reads and writes is a sequence of UTF-8 bytes. Sizes, positions and the
order of names are those of the bytes; a string literal stands for its encoding.
-/

namespace PatternGrammar

/-- A text is the list of its bytes. -/
abbrev Text := List UInt8

namespace Text

/-- The UTF-8 bytes of a string. -/
def ofString (s : String) : Text := s.toUTF8.data.toList

instance : Coe String Text := ⟨ofString⟩

/-- The string that a text encodes; bytes that are no UTF-8 become replacement characters. -/
def toString (t : Text) : String :=
  (String.fromUTF8? ⟨t.toArray⟩).getD "\uFFFD"

/-- Least-significant-first decimal digits of `n`, with `fuel` at least the number of digits. -/
def digitsAux : Nat → Nat → Text
  | 0, _ => []
  | fuel + 1, n =>
      let digit := UInt8.ofNat (48 + n % 10)
      if n < 10 then [digit] else digit :: digitsAux fuel (n / 10)

/-- The decimal digits of a natural number, without leading zeros. -/
def ofNat (n : Nat) : Text := (digitsAux (n + 1) n).reverse

/-- The decimal digits of an integer, after a minus sign when it is negative. -/
def ofInt : Int → Text
  | .ofNat n => ofNat n
  | .negSucc n => 45 :: ofNat (n + 1)

/-- A text between double quotes, with nothing escaped. -/
def quote (t : Text) : Text := "\"" ++ t ++ "\""

/-- The texts joined, with `separator` between neighbours. -/
def join (separator : Text) : List Text → Text
  | [] => []
  | [t] => t
  | t :: rest => t ++ separator ++ join separator rest

@[simp] theorem join_nil (separator : Text) : join separator [] = [] := rfl

@[simp] theorem join_singleton (separator t : Text) : join separator [t] = t := rfl

/-- `n` spaces. -/
def spaces (n : Nat) : Text := List.replicate n 32

/-- Space, tab, line feed and carriage return. -/
def isBlank (b : UInt8) : Bool := b = 32 || b = 9 || b = 10 || b = 13

/-- The text from its first byte that is not blank. -/
def trimLeft (t : Text) : Text := t.dropWhile isBlank

def isDigit (b : UInt8) : Bool := 48 ≤ b && b ≤ 57

/-- The bytewise order of texts. -/
def before : Text → Text → Bool
  | [], [] => false
  | [], _ :: _ => true
  | _ :: _, [] => false
  | a :: s, b :: t => a < b || (a = b && before s t)

/-- What follows `start` in the text, if the text starts with it. -/
def afterStart? : (start text : Text) → Option Text
  | [], t => some t
  | _ :: _, [] => none
  | a :: s, b :: t => if a = b then afterStart? s t else none

/-- The text starts with these bytes. -/
def startsWith (t start : Text) : Bool := (afterStart? start t).isSome

theorem afterStart?_append (s t : Text) : afterStart? s (s ++ t) = some t := by
  induction s with
  | nil => rfl
  | cons a s ih => simp [afterStart?, ih]

theorem eq_append_of_afterStart? {s t rest : Text} (h : afterStart? s t = some rest) :
    t = s ++ rest := by
  induction s generalizing t with
  | nil => simpa [afterStart?] using h
  | cons a s ih =>
    cases t with
    | nil => simp [afterStart?] at h
    | cons b t =>
      by_cases hab : a = b
      · simp only [afterStart?, hab, if_true] at h
        simp [hab, ih h]
      · simp [afterStart?, hab] at h

end Text

end PatternGrammar
