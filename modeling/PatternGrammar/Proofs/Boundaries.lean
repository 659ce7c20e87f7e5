import Mathlib.Data.List.Basic
import Mathlib.Order.Nat
import PatternGrammar.Proofs.Characters

/-!
# Places that begin a character

A subject that is made of characters is taken apart at the places where they begin. A single item leads from such a
place to another one, and so does giving back what has been taken.
-/

namespace PatternGrammar.Regex

/-! ## Places ahead -/

/-- The place is where something began, or lies ahead of it and begins within the subject. -/
def Subject.Ahead (s : Subject) (i j : Nat) : Prop := j = i ∨ i < j ∧ i < s.size

namespace Subject

variable {s : Subject} {x : Single} {i j k n low : Nat}

theorem Ahead.refl : s.Ahead i i := .inl rfl

theorem Ahead.trans (h : s.Ahead i j) (h' : s.Ahead j k) : s.Ahead i k := by
  simp only [Ahead] at *
  omega

theorem Ahead.le (h : s.Ahead i j) : i ≤ j := by
  simp only [Ahead] at h
  omega

theorem across_le : i ≤ s.across n i := by
  induction n generalizing i with
  | zero => exact Nat.le_refl _
  | succ n ih =>
      rw [across]
      split
      · exact (Nat.le_succ i).trans ih
      · exact Nat.le_refl _

theorem lt_next : i < s.next i := across_le

theorem sizeOf_pos : 0 < sizeOf n := by
  unfold sizeOf
  split_ifs <;> omega

theorem clusterFrom_le {left : Unicode.ClusterKind} {joined : Bool} : i ≤ s.clusterFrom n left joined i := by
  induction n generalizing i left joined with
  | zero => exact Nat.le_refl _
  | succ n ih =>
      unfold clusterFrom
      dsimp only
      split_ifs
      · exact Nat.le_refl _
      · exact Nat.le_refl _
      · exact Nat.le_refl _
      · exact Nat.le_refl _
      · exact (Nat.le_add_right _ _).trans ih
      · exact (Nat.le_add_right _ _).trans ih

theorem takeIf_ahead (p : Nat → Bool) : s.Ahead i (s.takeIf i p) := by
  have hpos := @sizeOf_pos (s.byteAt i)
  unfold takeIf Ahead
  dsimp only
  split_ifs <;> omega

theorem breakEnd_ahead : s.Ahead i (s.breakEnd i) := by
  have hpos := @sizeOf_pos (s.byteAt i)
  unfold breakEnd Ahead
  dsimp only
  split_ifs <;> omega

theorem take_ahead : s.Ahead i (s.take x i) := by
  have hnext := @lt_next s i
  have hcluster : i < s.clusterEnd i :=
    (Nat.lt_add_of_pos_right sizeOf_pos).trans_le clusterFrom_le
  cases x with
  | literal c ignoreCase => cases ignoreCase <;> simp only [take, takeIf_ahead]
  | notLiteral c ignoreCase => cases ignoreCase <;> simp only [take, takeIf_ahead]
  | oneOf | kind | property | set => simp only [take, takeIf_ahead]
  | newline => exact breakEnd_ahead
  | notNewline | any | byte | cluster =>
      unfold take Ahead
      dsimp only
      split_ifs <;> grind

theorem takeTimes?_ahead (h : s.takeTimes? x n i = some j) : s.Ahead i j ∧ (0 < n → i < j) := by
  induction n generalizing i with
  | zero =>
      cases h
      exact ⟨.refl, nofun⟩
  | succ n ih =>
      rw [takeTimes?] at h
      split at h
      · cases h
      · next hne =>
          have htake := @take_ahead s x i
          obtain ⟨hrest, -⟩ := ih h
          refine ⟨htake.trans hrest, fun _ => ?_⟩
          have hle := hrest.le
          simp only [Ahead] at htake
          omega

theorem takeMost_ahead : s.Ahead i (s.takeMost x n i) := by
  induction n generalizing i with
  | zero => exact .refl
  | succ n ih =>
      rw [takeMost]
      split
      · exact .refl
      · exact take_ahead.trans ih

theorem backTo_le : s.backTo i ≤ i := by
  induction i with
  | zero => exact Nat.le_refl _
  | succ i ih =>
      rw [backTo]
      split
      · exact ih.trans (Nat.le_succ i)
      · exact Nat.le_refl _

theorem clusterBack_le : s.clusterBack low n i ≤ i := by
  induction n generalizing i with
  | zero => exact Nat.le_refl _
  | succ n ih =>
      unfold clusterBack
      dsimp only
      split_ifs
      · exact Nat.le_refl _
      · exact ih.trans (backTo_le.trans (Nat.sub_le _ _))
      · exact Nat.le_refl _

/-- Something is given back. -/
theorem giveBack_lt (h : 0 < i) : s.giveBack x low i < i := by
  have hp : s.previous i < i := (backTo_le (i := i - 1)).trans_lt (Nat.sub_lt h Nat.one_pos)
  unfold giveBack
  dsimp only
  split
  · split_ifs <;> omega
  · exact clusterBack_le.trans_lt hp
  · exact hp

end Subject

/-! ## Places that begin a character -/

/-- A character begins at this place, or it is the end. -/
inductive Subject.Begins (s : Subject) : Nat → Prop where
  | zero : s.Begins 0
  | next {i} : s.Begins i → i < s.size → s.Begins (s.next i)

/-- The subject is made of characters: each is as long as its first byte tells. -/
def Subject.IsText (s : Subject) : Prop := ∀ i, s.Begins i → i < s.size → s.next i = i + sizeOf (s.byteAt i)

namespace Subject

variable {s : Subject} {x : Single} {i j k n low : Nat}

/-- The bytes that are passed continue a character, and the byte behind them does not. -/
theorem across_spec (h : s.size ≤ i + n) :
    (∀ k, i ≤ k → k < s.across n i → s.continues k) ∧
      (s.across n i < s.size → s.continues (s.across n i) = false) ∧ (i ≤ s.size → s.across n i ≤ s.size) := by
  induction n generalizing i with
  | zero =>
      simp only [across]
      exact ⟨by omega, by omega, fun h => h⟩
  | succ n ih =>
      rw [across]
      split
      · next hc =>
          obtain ⟨hlt, hcontinues⟩ : i < s.size ∧ s.continues i := by simpa using hc
          obtain ⟨hall, hbehind, hle⟩ := @ih (i + 1) (by omega)
          refine ⟨fun k hk hlt => ?_, hbehind, fun _ => hle hlt⟩
          by_cases hki : k = i
          · exact hki ▸ hcontinues
          · exact hall k (by omega) hlt
      · next hc =>
          refine ⟨by omega, fun hlt => ?_, fun h => h⟩
          simpa [hlt] using hc

theorem next_le_size (h : i < s.size) : s.next i ≤ s.size := (across_spec (by omega)).2.2 h

theorem Begins.not_continues (h : s.Begins i) (hi : i < s.size) : i = 0 ∨ s.continues i = false := by
  cases h with
  | zero => exact .inl rfl
  | next h hlt => exact .inr ((across_spec (by omega)).2.1 hi)

theorem backTo_of_continues (hc : ∀ k, i < k → k ≤ j → s.continues k) (hi : i = 0 ∨ s.continues i = false)
    (hij : i ≤ j) : s.backTo j = i := by
  induction j with
  | zero =>
      obtain rfl : i = 0 := by omega
      rfl
  | succ j ih =>
      rw [backTo]
      by_cases hlast : i = j + 1
      · have hfalse : s.continues (j + 1) = false := hlast ▸ hi.resolve_left (by omega)
        rw [hfalse, hlast]
        rfl
      · rw [hc (j + 1) (by omega) (Nat.le_refl _), if_pos rfl]
        exact ih (fun k hk hkj => hc k hk (by omega)) (by omega)

theorem backTo_of_ascii (h : s.byteAt i < 0x80) : s.backTo i = i := by
  have hc : s.continues i = false := by
    simp only [continues, Bool.and_eq_false_iff, decide_eq_false_iff_not]
    omega
  exact backTo_of_continues (by omega) (.inr hc) (Nat.le_refl _)

theorem previous_next (h : s.Begins i) (hi : i < s.size) : s.previous (s.next i) = i := by
  have hlt := @lt_next s i
  obtain ⟨hall, -, -⟩ := @across_spec s (i + 1) (s.size - i) (by omega)
  exact backTo_of_continues (fun k hk hkj => hall k hk (by unfold next at hlt hkj; omega)) (h.not_continues hi)
    (by omega)

/-- No character begins within another one. -/
theorem Begins.next_le (hj : s.Begins j) (hi : i < s.size) (hij : i < j) : s.next i ≤ j := by
  by_contra hlt
  have hsize := next_le_size hi
  obtain ⟨hall, -, -⟩ := @across_spec s (i + 1) (s.size - i) (by omega)
  have hc := hall j hij (by unfold Subject.next at hlt; omega)
  have hn := (hj.not_continues (by omega)).resolve_left (by omega)
  exact Bool.false_ne_true (hn.symm.trans hc)

theorem Begins.le_size (h : s.Begins i) : i ≤ s.size := by
  cases h with
  | zero => exact Nat.zero_le _
  | next _ hlt => exact next_le_size hlt

/-- A character stands in front of every place but the first. -/
theorem Begins.previous (h : s.Begins i) (hi : 0 < i) :
    s.Begins (s.previous i) ∧ s.previous i < s.size ∧ s.next (s.previous i) = i := by
  cases h with
  | zero => cases hi
  | next h hlt =>
      rw [previous_next h hlt]
      exact ⟨h, hlt, rfl⟩

theorem Begins.le_previous (h : s.Begins i) (hlow : s.Begins low) (hlt : low < i) : low ≤ s.previous i := by
  obtain ⟨-, hsize, hnext⟩ := h.previous (by omega)
  by_contra hbefore
  have hle := hlow.next_le hsize (by omega)
  omega

theorem Begins.back? (h : s.Begins i) (hb : s.back? n i = some j) : s.Begins j := by
  induction n generalizing i with
  | zero =>
      cases hb
      exact h
  | succ n ih =>
      cases i with
      | zero => cases hb
      | succ i => exact ih (h.previous (Nat.succ_pos i)).1 hb

/-- A byte below 0x80 is a character by itself. -/
theorem IsText.next_ascii (hs : s.IsText) (h : s.Begins i) (hi : i < s.size) (hb : s.byteAt i < 0xC0) :
    s.next i = i + 1 := by
  rw [hs i h hi, sizeOf, if_pos hb]

theorem IsText.begins_add_size (hs : s.IsText) (h : s.Begins i) (hi : i < s.size) :
    s.Begins (i + sizeOf (s.byteAt i)) := by
  rw [← hs i h hi]
  exact h.next hi

theorem IsText.begins_takeIf (hs : s.IsText) (h : s.Begins i) (p : Nat → Bool) : s.Begins (s.takeIf i p) := by
  unfold takeIf
  dsimp only
  split_ifs with hle
  · exact h
  · exact hs.begins_add_size h (by omega)
  · exact h

theorem IsText.begins_breakEnd (hs : s.IsText) (h : s.Begins i) : s.Begins (s.breakEnd i) := by
  unfold breakEnd
  dsimp only
  split_ifs with hle hcr hlf hlf' hwide
  · exact h
  · obtain ⟨hlt, hbyte⟩ : i + 1 < s.size ∧ s.byteAt (i + 1) = 10 := by simpa using hlf
    have hone := hs.next_ascii h (by omega) (by omega)
    have hbegins : s.Begins (i + 1) := hone ▸ h.next (by omega)
    have htwo := hs.next_ascii hbegins hlt (by omega)
    exact htwo ▸ hbegins.next hlt
  · exact hs.next_ascii h (by omega) (by omega) ▸ h.next (by omega)
  · exact hs.next_ascii h (by omega) (by omega) ▸ h.next (by omega)
  · exact hs.begins_add_size h (by omega)
  · exact h

theorem IsText.begins_clusterFrom (hs : s.IsText) {left : Unicode.ClusterKind} {joined : Bool} (h : s.Begins i) :
    s.Begins (s.clusterFrom n left joined i) := by
  induction n generalizing i left joined with
  | zero => exact h
  | succ n ih =>
      unfold clusterFrom
      dsimp only
      split_ifs with hle
      · exact h
      · exact h
      · exact h
      · exact h
      · exact ih (hs.begins_add_size h (by omega))
      · exact ih (hs.begins_add_size h (by omega))

/-- A single item takes whole characters, unless it takes a byte. -/
theorem IsText.begins_take (hs : s.IsText) (hx : x ≠ .byte) (h : s.Begins i) : s.Begins (s.take x i) := by
  cases x with
  | literal c ignoreCase => cases ignoreCase <;> simp only [take, hs.begins_takeIf h]
  | notLiteral c ignoreCase => cases ignoreCase <;> simp only [take, hs.begins_takeIf h]
  | oneOf | kind | property | set => simp only [take, hs.begins_takeIf h]
  | newline => exact hs.begins_breakEnd h
  | byte => exact (hx rfl).elim
  | notNewline =>
      simp only [take]
      split_ifs with hc
      · exact h
      · exact h.next (by simp at hc; omega)
  | any =>
      simp only [take]
      split_ifs with hc
      · exact h
      · exact h.next (by omega)
  | cluster =>
      simp only [take]
      split_ifs with hc
      · exact h
      · exact hs.begins_clusterFrom (hs.begins_add_size h (by omega))

theorem IsText.begins_takeTimes? (hs : s.IsText) (hx : x ≠ .byte) (h : s.Begins i)
    (ht : s.takeTimes? x n i = some j) : s.Begins j := by
  induction n generalizing i with
  | zero =>
      cases ht
      exact h
  | succ n ih =>
      rw [takeTimes?] at ht
      split at ht
      · cases ht
      · exact ih (hs.begins_take hx h) ht

theorem IsText.begins_takeMost (hs : s.IsText) (hx : x ≠ .byte) (h : s.Begins i) :
    s.Begins (s.takeMost x n i) := by
  induction n generalizing i with
  | zero => exact h
  | succ n ih =>
      rw [takeMost]
      split
      · exact h
      · exact ih (hs.begins_take hx h)

theorem Begins.clusterBack (hlow : s.Begins low) (h : s.Begins i) (hle : low ≤ i) :
    s.Begins (s.clusterBack low n i) ∧ low ≤ s.clusterBack low n i := by
  induction n generalizing i with
  | zero => exact ⟨h, hle⟩
  | succ n ih =>
      unfold Subject.clusterBack
      dsimp only
      split_ifs with hstart
      · exact ⟨h, hle⟩
      · exact ih (h.previous (by omega)).1 (h.le_previous hlow (by omega))
      · exact ⟨h, hle⟩

/-- Whole characters are given back, and none in front of the repetition. -/
theorem Begins.giveBack (hlow : s.Begins low) (h : s.Begins i) (hlt : low < i) :
    s.Begins (s.giveBack x low i) ∧ low ≤ s.giveBack x low i := by
  obtain ⟨hp, -, -⟩ := h.previous (by omega)
  have hle := h.le_previous hlow hlt
  unfold Subject.giveBack
  dsimp only
  split
  · split_ifs with hpair
    · obtain ⟨⟨hstart, -⟩, hcr⟩ : (low < s.previous i ∧ s.byteAt (s.previous i) = 10) ∧
          s.byteAt (s.previous i - 1) = 13 := by simpa using hpair
      have hone : s.previous (s.previous i) = s.previous i - 1 := backTo_of_ascii (by omega)
      rw [← hone]
      exact ⟨(hp.previous (by omega)).1, hp.le_previous hlow hstart⟩
    · exact ⟨hp, hle⟩
  · exact hlow.clusterBack hp hle
  · exact ⟨hp, hle⟩

end Subject

/-- The place begins a character, and is where something began or lies ahead of it. -/
def Subject.Reaches (s : Subject) (i j : Nat) : Prop := s.Begins j ∧ s.Ahead i j

section
variable {s : Subject} {i j : Nat}

theorem Subject.Reaches.refl (h : s.Begins i) : s.Reaches i i := ⟨h, .refl⟩

theorem Subject.Reaches.trans {k : Nat} (h : s.Reaches i j) (h' : s.Reaches j k) : s.Reaches i k :=
  ⟨h'.1, h.2.trans h'.2⟩

end

/-! ## Texts -/

/-- The byte continues a character. -/
def isContinuation (b : UInt8) : Prop := 0x80 ≤ b.toNat ∧ b.toNat < 0xC0

/-- The first byte of a character does not continue one, and the others do. -/
theorem encode_eq_cons {c : Nat} (hc : c < 0x110000) : ∃ lead tail, Text.encode c = lead :: tail ∧
    ¬ isContinuation lead ∧ ∀ b ∈ tail, isContinuation b := by
  have hn {n : Nat} (hn : n < 256) : (UInt8.ofNat n).toNat = n := UInt8.toNat_ofNat_of_lt' hn
  have htail (shift : Nat) : isContinuation (UInt8.ofNat (0x80 + (c >>> shift) % 0x40)) := by
    rw [isContinuation, hn (by omega)]
    omega
  have h6 : c >>> 6 = c / 64 := Nat.shiftRight_eq_div_pow c 6
  have h12 : c >>> 12 = c / 4096 := Nat.shiftRight_eq_div_pow c 12
  have h18 : c >>> 18 = c / 262144 := Nat.shiftRight_eq_div_pow c 18
  have hlead {n : Nat} (hlt : n < 256) (h : n < 0x80 ∨ 0xC0 ≤ n) : ¬ isContinuation (UInt8.ofNat n) := by
    rw [isContinuation, hn hlt]
    omega
  unfold Text.encode
  dsimp only
  split_ifs
  · exact ⟨_, _, rfl, hlead (by omega) (by omega), nofun⟩
  · refine ⟨_, _, rfl, hlead (by omega) (by omega), ?_⟩
    exact List.forall_mem_singleton.mpr (htail 0)
  · refine ⟨_, _, rfl, hlead (by omega) (by omega), ?_⟩
    exact List.forall_mem_cons.mpr ⟨htail 6, List.forall_mem_singleton.mpr (htail 0)⟩
  · refine ⟨_, _, rfl, hlead (by omega) (by omega), ?_⟩
    exact List.forall_mem_cons.mpr ⟨htail 12, List.forall_mem_cons.mpr
      ⟨htail 6, List.forall_mem_singleton.mpr (htail 0)⟩⟩

namespace Subject

variable {settings : Settings} {front t : Text} {i j n : Nat} {s : Subject}

theorem continues_ofText {b : UInt8} (h : t[i]? = some b) :
    (ofText t settings).continues i ↔ isContinuation b := by
  rw [continues, byteAt_ofText, List.getD_eq_getElem?_getD, h]
  simp [isContinuation]

/-- All bytes that continue a character are passed. -/
theorem across_eq (hle : i ≤ j) (hn : j ≤ i + n) (hall : ∀ k, i ≤ k → k < j → k < s.size ∧ s.continues k)
    (hj : j < s.size → s.continues j = false) : s.across n i = j := by
  induction n generalizing i with
  | zero =>
      obtain rfl : j = i := by omega
      rfl
  | succ n ih =>
      rw [across]
      by_cases hij : i = j
      · subst hij
        rw [if_neg]
        simpa using hj
      · obtain ⟨hlt, hc⟩ := hall i (Nat.le_refl _) (by omega)
        rw [if_pos (by simp [hlt, hc])]
        exact ih (by omega) (by omega) fun k hk hkj => hall k (by omega) hkj

/-- A character is passed as a whole. -/
theorem next_encode {c : Nat} {rest : List Nat} (hc : c < 0x110000) (hrest : ∀ d ∈ rest, d < 0x110000) :
    (ofText (front ++ (Text.encode c ++ Text.ofCodePoints rest)) settings).next front.length =
      front.length + (Text.encode c).length := by
  obtain ⟨lead, tail, hencode, -, htail⟩ := encode_eq_cons hc
  have hsize : (ofText (front ++ (Text.encode c ++ Text.ofCodePoints rest)) settings).size =
      front.length + ((Text.encode c).length + (Text.ofCodePoints rest).length) := by
    rw [size_ofText, List.length_append, List.length_append]
  have hlength : (Text.encode c).length = tail.length + 1 := by rw [hencode, List.length_cons]
  refine across_eq (by omega) (by omega) (fun k hk hkj => ⟨by omega, ?_⟩) fun hlt => ?_
  · obtain ⟨i, rfl⟩ : ∃ i, k = front.length + (i + 1) := ⟨k - front.length - 1, by omega⟩
    have hi : i < tail.length := by omega
    have hbyte : (front ++ (Text.encode c ++ Text.ofCodePoints rest))[front.length + (i + 1)]? = some tail[i] := by
      rw [List.getElem?_append_right (by omega), Nat.add_sub_cancel_left, hencode, List.cons_append,
        List.getElem?_cons_succ, List.getElem?_append_left hi, List.getElem?_eq_getElem hi]
    rw [continues_ofText hbyte]
    exact htail _ (List.getElem_mem hi)
  · cases rest with
    | nil =>
        rw [hsize, Text.ofCodePoints, List.flatMap_nil, List.length_nil] at hlt
        omega
    | cons d rest =>
        obtain ⟨lead, tail, hd, hlead, -⟩ := encode_eq_cons (hrest d List.mem_cons_self)
        have hbyte : (front ++ (Text.encode c ++ Text.ofCodePoints (d :: rest)))[front.length +
            (Text.encode c).length]? = some lead := by
          rw [List.getElem?_append_right (by omega), Nat.add_sub_cancel_left, List.getElem?_append_right (by omega),
            Nat.sub_self, Text.ofCodePoints, List.flatMap_cons, hd]
          rfl
        rw [← Bool.not_eq_true, continues_ofText hbyte]
        exact hlead

/-- A text that spells characters is made of them. -/
theorem isText_ofText {cs : List Nat} (h : Spells t cs) : (ofText t settings).IsText := by
  obtain ⟨hvalid, rfl⟩ := h
  have hplaces {i : Nat} (hi : (ofText (Text.ofCodePoints cs) settings).Begins i) :
      ∃ front rest, cs = front ++ rest ∧ i = (Text.ofCodePoints front).length := by
    induction hi with
    | zero => exact ⟨[], cs, rfl, rfl⟩
    | next _ hlt ih =>
        obtain ⟨front, rest, rfl, rfl⟩ := ih
        cases rest with
        | nil =>
            rw [size_ofText, List.append_nil] at hlt
            omega
        | cons c rest =>
            refine ⟨front ++ [c], rest, by simp, ?_⟩
            have hsplit : Text.ofCodePoints (front ++ c :: rest) =
                Text.ofCodePoints front ++ (Text.encode c ++ Text.ofCodePoints rest) := by
              simp [Text.ofCodePoints]
            rw [hsplit, next_encode (hvalid c (by simp)) fun d hd => hvalid d (by simp [hd])]
            simp [Text.ofCodePoints]
  intro i hi hlt
  obtain ⟨front, rest, rfl, rfl⟩ := hplaces hi
  cases rest with
  | nil =>
      rw [size_ofText, List.append_nil] at hlt
      omega
  | cons c rest =>
      have hc := hvalid c (by simp)
      have hsplit : Text.ofCodePoints (front ++ c :: rest) =
          Text.ofCodePoints front ++ (Text.encode c ++ Text.ofCodePoints rest) := by
        simp [Text.ofCodePoints]
      rw [hsplit, next_encode hc fun d hd => hvalid d (by simp [hd]), (charFrom_encode hc).2]

end Subject

end PatternGrammar.Regex
