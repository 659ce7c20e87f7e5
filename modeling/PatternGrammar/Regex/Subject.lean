import PatternGrammar.Regex.Settings
import PatternGrammar.Regex.Syntax
import PatternGrammar.Unicode.Cluster

/-!
# Subjects

A search runs over the bytes of a text, and a place in the text is an offset in bytes. Most places begin a
character. A place within a character is read byte by byte: a byte that continues a character stands for
itself there.
-/

namespace PatternGrammar.Regex

open Unicode

/-- A text to search in, with what counts as a line break in it. -/
structure Subject where
  bytes : ByteArray
  size : Nat
  lineBreak : LineBreak
  wideBreaks : Bool
  wideClasses : Bool

/-- The subject of a text. -/
def Subject.ofText (t : Text) (settings : Settings) : Subject :=
  let bytes : ByteArray := ⟨t.toArray⟩
  { bytes
    size := bytes.size
    lineBreak := settings.lineBreak
    wideBreaks := settings.wideBreaks
    wideClasses := settings.wideClasses }

namespace Subject

/-- The byte at a place; zero behind the end. -/
@[inline] def byteAt (s : Subject) (i : Nat) : Nat :=
  if h : i < s.bytes.size then s.bytes[i].toNat else 0

/-- The six bits of the byte at a place. -/
@[inline] def bitsAt (s : Subject) (i : Nat) : Nat := s.byteAt i % 0x40

/-- The number of bytes of a character that begins with this byte. -/
@[inline] def sizeOf (lead : Nat) : Nat :=
  if lead < 0xC0 then 1 else if lead < 0xE0 then 2 else if lead < 0xF0 then 3 else 4

/-- The character at a place that begins with this byte. -/
@[inline] def charFrom (s : Subject) (lead i : Nat) : Nat :=
  if lead < 0xC0 then lead
  else if lead < 0xE0 then lead % 0x20 * 0x40 + s.bitsAt (i + 1)
  else if lead < 0xF0 then (lead % 0x10 * 0x40 + s.bitsAt (i + 1)) * 0x40 + s.bitsAt (i + 2)
  else
    ((lead % 0x08 * 0x40 + s.bitsAt (i + 1)) * 0x40 + s.bitsAt (i + 2)) * 0x40 + s.bitsAt (i + 3)

/-- The character at a place. -/
def charAt (s : Subject) (i : Nat) : Nat := s.charFrom (s.byteAt i) i

/-- The byte at the place continues a character. -/
@[inline] def continues (s : Subject) (i : Nat) : Bool :=
  let b := s.byteAt i
  0x80 ≤ b && b < 0xC0

/-- The place behind the bytes that continue a character here. -/
def across (s : Subject) : (fuel : Nat) → Nat → Nat
  | 0, i => i
  | fuel + 1, i => if i < s.size && s.continues i then s.across fuel (i + 1) else i

/-- The place behind the character that begins here. -/
def next (s : Subject) (i : Nat) : Nat := s.across (s.size - i) (i + 1)

/-- The beginning of the character that this place is in, looking back. -/
def backTo (s : Subject) : Nat → Nat
  | 0 => 0
  | i + 1 => if s.continues (i + 1) then s.backTo i else i + 1

/-- The place of the character in front of this place. -/
def previous (s : Subject) (i : Nat) : Nat := s.backTo (i - 1)

/-- The place so many characters back, if there are as many. -/
def back? (s : Subject) : (count : Nat) → Nat → Option Nat
  | 0, i => some i
  | _ + 1, 0 => none
  | count + 1, i => s.back? count (s.previous i)

/-! ## Line breaks -/

/-- The number of bytes of the line break that begins here; zero if there is none. -/
def breakSize (s : Subject) (i : Nat) : Nat :=
  if s.size ≤ i then 0
  else
    let b := s.byteAt i
    let followed : Bool := i + 1 < s.size && s.byteAt (i + 1) = 10
    match s.lineBreak with
    | .lineFeed => if b = 10 then 1 else 0
    | .carriageReturn => if b = 13 then 1 else 0
    | .zero => if b = 0 then 1 else 0
    | .pair => if b = 13 && followed then 2 else 0
    | .pairOrEither => if b = 10 then 1 else if b = 13 then (if followed then 2 else 1) else 0
    | .any =>
        if b = 13 then (if followed then 2 else 1)
        else
          let c := s.charFrom b i
          if isVerticalSpace c then sizeOf b else 0

/-- A line break ends here. -/
def endsBreak (s : Subject) (i : Nat) : Bool :=
  if i = 0 then false
  else
    let b := s.byteAt (i - 1)
    match s.lineBreak with
    | .lineFeed => b = 10
    | .carriageReturn => b = 13
    | .zero => b = 0
    | .pair => b = 10 && 2 ≤ i && s.byteAt (i - 2) = 13
    | .pairOrEither => b = 10 || b = 13
    | .any => isVerticalSpace (s.charAt (s.previous i))

/-- Nothing follows but one line break at most. -/
def isFinal (s : Subject) (i : Nat) : Bool :=
  s.size ≤ i || (let n := s.breakSize i; 0 < n && i + n = s.size)

/-- The place behind what the escape for a line break takes here; the same place if it takes nothing. -/
def breakEnd (s : Subject) (i : Nat) : Nat :=
  if s.size ≤ i then i
  else
    let b := s.byteAt i
    if b = 13 then (if i + 1 < s.size && s.byteAt (i + 1) = 10 then i + 2 else i + 1)
    else if b = 10 then i + 1
    else if s.wideBreaks && isVerticalSpace (s.charFrom b i) then i + sizeOf b
    else i

/-! ## Words -/

/-- The character is part of a word. -/
def isWord (s : Subject) (c : Nat) : Bool :=
  if s.wideClasses then Property.word.holds c else CharKind.word.holds c

/-- A word begins or ends here. -/
def atBoundary (s : Subject) (i : Nat) : Bool :=
  let before := 0 < i && s.isWord (s.charAt (s.previous i))
  let after := i < s.size && s.isWord (s.charAt i)
  before != after

/-! ## Clusters -/

/-- The number of regional indicators in a row in front of a place. -/
def indicatorsBefore (s : Subject) : (fuel : Nat) → Nat → Nat
  | 0, _ => 0
  | _ + 1, 0 => 0
  | fuel + 1, i =>
      let p := s.previous i
      if clusterKind (s.charAt p) = .regionalIndicator then s.indicatorsBefore fuel p + 1 else 0

/-- Extends a cluster that reaches up to this place; `left` is the kind of its last character that counts,
and `joined` tells whether that joiner follows a pictograph. -/
def clusterFrom (s : Subject) : (fuel : Nat) → (left : ClusterKind) → (joined : Bool) → Nat → Nat
  | 0, _, _, i => i
  | fuel + 1, left, joined, i =>
      if s.size ≤ i then i
      else
        let right := clusterKind (s.charAt i)
        if !left.joins right then i
        else if left = .joiner && right = .pictograph && !joined then i
        else if left = .regionalIndicator && right = .regionalIndicator &&
            s.indicatorsBefore i (s.previous i) % 2 = 1 then i
        else
          let joined := left = .pictograph && right = .joiner
          let left := if right = .extend && left = .pictograph then left else right
          s.clusterFrom fuel left joined (i + sizeOf (s.byteAt i))

/-- The end of the cluster that begins here. -/
def clusterEnd (s : Subject) (i : Nat) : Nat :=
  s.clusterFrom (s.size - i) (clusterKind (s.charAt i)) false (i + sizeOf (s.byteAt i))

/-- Goes back from a character to the beginning of its cluster, but not beyond `start`. -/
def clusterBack (s : Subject) (start : Nat) : (fuel : Nat) → Nat → Nat
  | 0, i => i
  | fuel + 1, i =>
      if i ≤ start then i
      else
        let p := s.previous i
        if (clusterKind (s.charAt p)).joins (clusterKind (s.charAt i)) then s.clusterBack start fuel p
        else i

/-! ## Single items -/

/-- The place behind a character here that has the property; the same place if there is none. -/
@[inline] def takeIf (s : Subject) (i : Nat) (p : Nat → Bool) : Nat :=
  if s.size ≤ i then i
  else
    let b := s.byteAt i
    if p (s.charFrom b i) then i + sizeOf b else i

/-- The place behind what a single item takes here. It takes a byte at least, or else the place stays. -/
def take (s : Subject) (single : Single) (i : Nat) : Nat :=
  match single with
  | .literal c false => s.takeIf i fun d => d = c
  | .literal c true => s.takeIf i fun d => d = c || otherCase c = d
  | .notLiteral c false => s.takeIf i fun d => d ≠ c
  | .notLiteral c true => s.takeIf i fun d => d ≠ c && otherCase c ≠ d
  | .oneOf cases negated => s.takeIf i fun d => cases.contains d != negated
  | .kind k negated => s.takeIf i fun d => k.holds d != negated
  | .property p negated => s.takeIf i fun d => p.holds d != negated
  | .set set => s.takeIf i set.holds
  | .notNewline => if s.size ≤ i || 0 < s.breakSize i then i else s.next i
  | .any => if s.size ≤ i then i else s.next i
  | .byte => if s.size ≤ i then i else i + 1
  | .newline => s.breakEnd i
  | .cluster => if s.size ≤ i then i else s.clusterEnd i

/-- Takes a single item so many times. -/
def takeTimes? (s : Subject) (single : Single) : (count : Nat) → Nat → Option Nat
  | 0, i => some i
  | count + 1, i =>
      let behind := s.take single i
      if behind = i then none else s.takeTimes? single count behind

/-- Takes a single item as often as possible, up to `count` times. -/
def takeMost (s : Subject) (single : Single) : (count : Nat) → Nat → Nat
  | 0, i => i
  | count + 1, i =>
      let behind := s.take single i
      if behind = i then i else s.takeMost single count behind

/-- One repetition less of a single item that begins at `start`. -/
def giveBack (s : Subject) (single : Single) (start i : Nat) : Nat :=
  let p := s.previous i
  match single with
  | .newline => if start < p && s.byteAt p = 10 && s.byteAt (p - 1) = 13 then p - 1 else p
  | .cluster => s.clusterBack start p p
  | _ => p

/-- The place behind a text from `j` on that is the same, up to case, as the one from `i` to `last`. -/
def sameText? (s : Subject) : (fuel : Nat) → (i last j : Nat) → Option Nat
  | 0, i, last, j => if last ≤ i then some j else none
  | fuel + 1, i, last, j =>
      if last ≤ i then some j
      else if s.size ≤ j then none
      else if sameCase (s.charAt i) (s.charAt j) then
        s.sameText? fuel (i + sizeOf (s.byteAt i)) last (j + sizeOf (s.byteAt j))
      else none

/-- The characters from `i` up to `last`, behind those in `before`, the last one first. -/
def charsOnto (s : Subject) : (fuel : Nat) → (before : List Nat) → (i last : Nat) → List Nat
  | 0, before, _, _ => before
  | fuel + 1, before, i, last =>
      if last ≤ i then before
      else
        let b := s.byteAt i
        s.charsOnto fuel (s.charFrom b i :: before) (i + sizeOf b) last

/-- The characters from `i` up to `last`. -/
def charsBetween (s : Subject) (i last : Nat) : List Nat := (s.charsOnto (last - i) [] i last).reverse

/-- The same bytes stand at `i` and at `j`. -/
def sameBytes (s : Subject) : (count : Nat) → (i j : Nat) → Bool
  | 0, _, _ => true
  | count + 1, i, j => s.byteAt i = s.byteAt j && s.sameBytes count (i + 1) (j + 1)

/-- The place behind a repetition at `j` of the text from `i` to `last`. -/
def repeatText? (s : Subject) (ignoreCase : Bool) (i last j : Nat) : Option Nat :=
  if ignoreCase then s.sameText? (s.size + 1) i last j
  else
    let n := last - i
    if j + n ≤ s.size && s.sameBytes n i j then some (j + n) else none

/-- The condition holds at this place. -/
def holdsAt (s : Subject) (a : Anchor) (i : Nat) : Bool :=
  match a with
  | .subjectStart | .searchStart | .textStart => i = 0
  | .lineStart => i = 0 || (i < s.size && s.endsBreak i)
  | .subjectEnd => s.size ≤ i
  | .finalLineEnd | .textEnd => s.isFinal i
  | .lineEnd => s.size ≤ i || 0 < s.breakSize i
  | .wordBoundary => s.atBoundary i
  | .notWordBoundary => !s.atBoundary i

end Subject

end PatternGrammar.Regex
