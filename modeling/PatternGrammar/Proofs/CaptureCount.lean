import PatternGrammar.Pattern.Construction
import PatternGrammar.Proofs.Enclosure
import PatternGrammar.Proofs.RuleCaptures
import PatternGrammar.Proofs.Spelling

/-!
# The engine counts the groups of the tree

When the engine reads every raw fragment as a whole, the groups that it counts are those of the nodes that
capture, in order, and those that the fragments bring along. The number of groups is therefore the one that
the tree knows of exactly if no fragment has a group of its own.
-/

namespace PatternGrammar

open Ascii

/-! ## Beginnings -/

/-- Behind the parenthesis of a group the text does not change what the parenthesis opens, and neither does
it open anything else than a group together with what follows. -/
def beginsItem : Text → Bool
  | [] => true
  | [b] => b != question && b != 42 && b != openParen
  | b :: c :: _ => b != question && b != 42 && !(b == openParen && c == 42)

theorem beginsItem_append {s t : Text} (hs : beginsItem s) (ht : s = [] → beginsItem t) :
    beginsItem (s ++ t) := by
  match s, t with
  | [], _ => exact ht rfl
  | [b], [] => exact hs
  | [b], c :: t =>
      simp only [beginsItem, Bool.and_eq_true, bne_iff_ne] at hs
      simp [beginsItem, hs]
  | b :: c :: s, _ => exact hs

theorem beginsItem_of_head? {b : UInt8} {t : Text} (h : t.head? = some b) (hq : b ≠ question)
    (hs : b ≠ 42) (ho : b ≠ openParen) : beginsItem t := by
  match t, h with
  | [_], rfl => simp [beginsItem, hq, hs, ho]
  | _ :: _ :: _, rfl => simp [beginsItem, hq, hs, ho]

theorem beginsItem_openParen {t : Text} (h : t.head? ≠ some 42) (hn : t ≠ []) :
    beginsItem (openParen :: t) := by
  obtain ⟨b, t, rfl⟩ := List.exists_cons_of_ne_nil hn
  have hb : b ≠ 42 := by simpa using h
  have ho : openParen ≠ question ∧ openParen ≠ 42 := by decide
  simp [beginsItem, hb, ho]

theorem head?_of_beginsItem {t : Text} (h : beginsItem t) :
    t.head? ≠ some question ∧ t.head? ≠ some 42 := by
  match t with
  | [] => simp
  | [b] =>
      simp only [beginsItem, Bool.and_eq_true, bne_iff_ne] at h
      simp [h]
  | b :: c :: t =>
      simp only [beginsItem, Bool.and_eq_true, bne_iff_ne] at h
      simp [h]

/-! ## Fragments -/

/-- The number of groups that the engine counts in a text on its own. -/
def groupsIn (t : Text) : Nat :=
  match Regex.readWhole t with
  | .ok result => result.groupCount
  | .error _ => 0

/-- The number of groups that a raw fragment brings along. A place for a reference has none. -/
def hiddenGroups (source : Text) : Nat :=
  if (startingPlace? source).isSome then 0 else groupsIn source

/-- Wherever the fragment stands, the engine reads it to its end and no further, and counts as many groups
in it as when it stands alone. -/
structure StandsAlone (source : Text) : Prop where
  unmarked : numberSign ∉ source
  begins : beginsItem source
  passes : ∃ opens, PassesText true source opens ∧ opens.length = groupsIn source

/-- The texts of the node are well-formed, and its raw fragment is read as a whole or is a place for a
reference. -/
structure Node.IsReadWhole (n : Node) : Prop where
  words : ∀ w ∈ n.options.wordCannotBeAnyOf.getD [], ∃ cs, Spells w cs
  literal : ∀ text, n.matcher = .literal text → ∃ cs, Spells text cs
  fragment : ∀ source, n.matcher = .fragment source →
    StandsAlone source ∨
      ∃ kind name, IsPlaceName name ∧ source = placeholder kind name

theorem Node.IsReadWhole.marksPlaces {n : Node} (h : n.IsReadWhole) : n.matcher.MarksPlaces := by
  cases hm : n.matcher with
  | fragment source => exact (h.fragment source hm).imp_left fun hs => hs.unmarked
  | literal _ | nested _ => trivial

theorem hiddenGroups_placeholder (kind : ReferenceKind) {name : Text} (h : IsPlaceName name) :
    hiddenGroups (placeholder kind name) = 0 := by
  have hs := startingPlace?_append kind h []
  rw [List.append_nil] at hs
  rw [hiddenGroups, hs]
  rfl

theorem hiddenGroups_of_unmarked {source : Text} (h : numberSign ∉ source) :
    hiddenGroups source = groupsIn source := by
  have hs : startingPlace? source = none := by
    cases hp : startingPlace? source with
    | none => rfl
    | some place =>
        obtain ⟨kind, name⟩ := place
        obtain ⟨after, rfl⟩ := eq_of_startingPlace? hp
        have ho : numberSign ∈ kind.opening := by cases kind <;> decide
        exact absurd (by simp [placeholder, ho]) h
  rw [hiddenGroups, hs]
  rfl

theorem PassesText.capture {digit : Bool} {t : Text} {a : List (List Nat)} (hb : beginsItem t)
    (h : PassesText false t a) :
    PassesText digit ("(" ++ t ++ ")")
      ((Text.codePoints t ++ [Regex.Sign.closeParen]) ::
        a.map (· ++ [Regex.Sign.closeParen])) := by
  obtain ⟨cs, hs, hp⟩ := h
  obtain ⟨hq, hv⟩ := head?_of_beginsItem hb
  have hopening : Spells "(" [Regex.Sign.openParen] :=
    Spells.ascii (List.all_iff_forall_prop.mp (by decide))
  have hh {c : Nat} (hc : c < 128) (hn : t.head? ≠ some (UInt8.ofNat c)) : cs.head? ≠ some c := by
    intro he
    obtain ⟨cs, rfl⟩ := List.head?_eq_some_iff.mp he
    rw [hs.eq_cons hc] at hn
    exact hn rfl
  rw [hs.codePoints_eq]
  exact ⟨_, (hopening.append hs).append .closeParen,
    Regex.Passes.capture (hh (by decide) hq) (hh (by decide) hv) hp⟩

/-! ## Groups among pieces -/

/-- Behind the parenthesis there is the resolved body of the node, and the parenthesis that closes it. -/
def BeginsBody (groups : List Group) (x : NodeId × Pattern) (after : List Nat) : Prop :=
  ∃ body rest, IsBody groups x body ∧
    after = Text.codePoints body ++ Regex.Sign.closeParen :: rest

theorem BeginsBody.append {groups : List Group} {x : NodeId × Pattern} {after : List Nat}
    (h : BeginsBody groups x after) (more : List Nat) : BeginsBody groups x (after ++ more) := by
  obtain ⟨body, rest, hb, rfl⟩ := h
  exact ⟨body, rest ++ more, hb, by rw [List.append_assoc, List.cons_append]⟩

/-- Filled in, the pieces are read as a whole, wherever they stand. The groups that the engine counts in
them are `hidden` ones and, in order, those of these nodes. -/
def OpensGroups (groups : List Group) (nodes : List (NodeId × Pattern)) (hidden : Nat)
    (pieces : List RegexPiece) : Prop :=
  ∀ digit t, fillBefore groups digit pieces = .ok t →
    beginsItem t ∧ ∃ opens own, PassesText digit t opens ∧ opens.length = nodes.length + hidden ∧
      own.Sublist opens ∧ List.Forall₂ (BeginsBody groups) nodes own

section
variable {groups : List Group} {nodes : List (NodeId × Pattern)} {hidden : Nat}
  {pieces : List RegexPiece}

/-- A digit at the beginning of the text is one of the bytes that are kept. -/
theorem digitAhead_of_startsWithDigit {digit : Bool} {t : Text} {cs : List Nat}
    (h : fillBefore groups digit pieces = .ok t) (hs : Spells t cs)
    (hd : Regex.startsWithDigit cs) : digitAhead digit pieces := by
  cases cs with
  | nil => cases hd
  | cons c cs =>
      have hc : 48 ≤ c ∧ c ≤ 57 := by
        simpa [Regex.startsWithDigit, Regex.isDigit, Regex.between] using hd
      have ht := hs.eq_cons (show c < 128 by omega)
      have hn : (UInt8.ofNat c).toNat = c := UInt8.toNat_ofNat_of_lt' (show c < 256 by omega)
      cases pieces with
      | nil =>
          rw [fillBefore_nil] at h
          cases (Except.ok.inj h).trans ht
      | cons piece rest =>
          cases piece with
          | byte b =>
              obtain ⟨u, -, rfl⟩ := fillBefore_byte.mp h
              obtain rfl := (List.cons.inj ht).1
              simpa [digitAhead, startsWithDigit, Text.isDigit, UInt8.le_iff_toNat_le, hn] using hc
          | place kind name =>
              obtain ⟨number, u, -, -, rfl⟩ := fillBefore_place.mp h
              have hh := head?_render kind number (digitAhead digit rest) u
              rw [ht, List.head?_cons, Option.some.injEq] at hh
              have hb : backslash.toNat = 92 := rfl
              rw [hh, hb] at hn
              omega

theorem OpensGroups.append {more : List (NodeId × Pattern)} {k : Nat} {others : List RegexPiece}
    (ha : OpensGroups groups nodes hidden pieces) (hb : OpensGroups groups more k others) :
    OpensGroups groups (nodes ++ more) (hidden + k) (pieces ++ others) := by
  intro digit t h
  obtain ⟨s, u, hs, hu, rfl⟩ := fillBefore_append.mp h
  obtain ⟨hbs, as, own, hps, hls, hss, hns⟩ := ha _ s hs
  obtain ⟨hbu, bs, others', hpu, hlu, hsu, hnu⟩ := hb _ u hu
  refine ⟨beginsItem_append hbs fun _ => hbu, _, own.map (· ++ Text.codePoints u) ++ others',
    hps.append hpu ?_ ?_, ?_, (hss.map _).append hsu, List.rel_append ?_ hnu⟩
  · obtain ⟨cs, hcs, -⟩ := hpu
    rw [hcs.codePoints_eq]
    exact digitAhead_of_startsWithDigit hu hcs
  · rintro rfl hd
    cases others with
    | nil => exact hd
    | cons piece rest => exact absurd rfl (fillBefore_ne_nil hu (List.cons_ne_nil _ _))
  · simp only [List.length_append, List.length_map, hls, hlu]
    omega
  · rw [List.forall₂_map_right_iff]
    exact hns.imp fun _ _ hx => hx.append _

theorem OpensGroups.keep {t : Text} (ht : PassesText true t []) (hb : beginsItem t) :
    OpensGroups groups [] 0 (keep t) := by
  intro digit u h
  rw [fillBefore_keep] at h
  obtain rfl := Except.ok.inj h
  exact ⟨hb, [], [], ht.mono fun _ => rfl, rfl, List.Sublist.refl _, .nil⟩

theorem OpensGroups.place (kind : ReferenceKind) (name : Text) :
    OpensGroups groups [] 0 [.place kind name] := by
  intro digit t h
  obtain ⟨number, u, -, hu, rfl⟩ := fillBefore_place.mp h
  obtain rfl := Except.ok.inj hu
  rw [List.append_nil]
  have hh := head?_render kind number digit []
  rw [List.append_nil] at hh
  exact ⟨beginsItem_of_head? hh (by decide) (by decide) (by decide), [], [],
    .render kind number, rfl, List.Sublist.refl _, .nil⟩

theorem OpensGroups.group {opening : Text} (ho : opening ∈ plainOpenings)
    (h : OpensGroups groups nodes hidden pieces) :
    OpensGroups groups nodes hidden (groupPieces opening pieces) := by
  intro digit t ht
  obtain ⟨u, hu, rfl⟩ := fillBefore_groupPieces.mp ht
  obtain ⟨-, opens, own, hp, hl, hss, hn⟩ := h _ u hu
  refine ⟨?_, _, own.map (· ++ [Regex.Sign.closeParen]), .group ho hp, ?_, hss.map _, ?_⟩
  · have hb : ∀ opening ∈ plainOpenings, beginsItem opening ∧ opening ≠ [] := by decide
    rw [List.append_assoc]
    exact beginsItem_append (hb _ ho).1 fun h => absurd h (hb _ ho).2
  · rw [List.length_map, hl]
  · rw [List.forall₂_map_right_iff]
    exact hn.imp fun _ _ hx => hx.append _

theorem OpensGroups.capture {x : NodeId × Pattern}
    (h : OpensGroups groups nodes hidden x.2.head.bodyPieces) :
    OpensGroups groups (x :: nodes) hidden (groupPieces "(" x.2.head.bodyPieces) := by
  intro digit t ht
  obtain ⟨u, hu, rfl⟩ := fillBefore_groupPieces.mp ht
  obtain ⟨hb, opens, own, hp, hl, hss, hn⟩ := h _ u hu
  refine ⟨?_, _, (Text.codePoints u ++ [Regex.Sign.closeParen]) ::
    own.map (· ++ [Regex.Sign.closeParen]), .capture hb hp, ?_, (hss.map _).cons_cons _,
    .cons ⟨u, [], ?_, rfl⟩ ?_⟩
  · have hn : u ++ (")" : Text) ≠ [] := List.append_ne_nil_of_right_ne_nil u (by decide)
    refine beginsItem_openParen ?_ hn
    cases u with
    | nil => decide
    | cons b u => exact (head?_of_beginsItem hb).2
  · simp only [List.length_cons, List.length_map, hl]
    omega
  · rw [IsBody, fillPieces_eq]
    exact hu
  · rw [List.forall₂_map_right_iff]
    exact hn.imp fun _ _ hx => hx.append _

theorem OpensGroups.quantified (hn : pieces ≠ []) (h : OpensGroups groups nodes hidden pieces)
    (q : Quantity) (possessive lazy : Bool) :
    OpensGroups groups nodes hidden
      (pieces ++ PatternGrammar.keep (q.quantifier possessive lazy)) := by
  intro digit t ht
  obtain ⟨s, hs, rfl⟩ := fillBefore_append_keep.mp ht
  obtain ⟨hb, opens, own, hp, hl, hss, hns⟩ := h _ s hs
  have hq : PassesText digit (q.quantifier possessive lazy) [] :=
    (PassesText.quantifier q possessive lazy).mono fun _ => rfl
  refine ⟨beginsItem_append hb fun he => absurd he (fillBefore_ne_nil hs hn), _,
    own.map (· ++ Text.codePoints (q.quantifier possessive lazy)), hp.append hq ?_ ?_, ?_, ?_, ?_⟩
  · obtain ⟨cs, hcs, -⟩ := hq
    rw [hcs.codePoints_eq]
    exact digitAhead_of_startsWithDigit (fillBefore_keep groups _ _) hcs
  · intro he hd
    rw [he]
    exact hd
  · simp [hl]
  · rw [List.append_nil]
    exact hss.map _
  · rw [List.forall₂_map_right_iff]
    exact hns.imp fun _ _ hx => hx.append _

end

theorem escapeRegex_beginsItem (t : Text) : beginsItem (escapeRegex t) := by
  cases t with
  | nil => rfl
  | cons b t =>
      rw [escapeRegex_cons]
      rcases escapeByte_cases b with ⟨c, hc⟩ | ⟨hb, hm⟩
      · rw [hc]
        exact beginsItem_of_head? rfl (by decide) (by decide) (by decide)
      · have ha : ∀ c ∈ ([question, 42, openParen] : Text), c ∈ escapedBytes :=
          List.all_iff_forall_prop.mp (by decide)
        have hne : ∀ c ∈ ([question, 42, openParen] : Text), b ≠ c := fun c hc hbc =>
          hm (hbc ▸ ha c hc)
        simp only [List.forall_mem_cons, List.not_mem_nil, false_imp_iff, implies_true,
          and_true] at hne
        rw [hb]
        exact beginsItem_of_head? rfl hne.1 hne.2.1 hne.2.2

theorem Quantity.beginsItem_wordsAssertion (words : Option (List Text)) :
    beginsItem (wordsAssertion words) := by
  match words with
  | none => rfl
  | some [] => rfl
  | some (w :: ws) =>
      rw [wordsAssertion_cons, List.append_assoc]
      exact beginsItem_append (by decide) fun h => absurd h (by decide)

theorem OpensGroups.composes (groups : List Group) :
    Composes Node.IsReadWhole hiddenGroups (OpensGroups groups) where
  append := OpensGroups.append
  group ho ha := ha.group ho
  capture := OpensGroups.capture
  quantified hn ha q possessive lazy := ha.quantified hn q possessive lazy
  bar := .keep (.singles (List.all_iff_forall_prop.mp (by decide))) (by decide)
  words n hn := .keep (.wordsAssertion hn.words) (Quantity.beginsItem_wordsAssertion _)
  literal n text hn hm := by
    obtain ⟨cs, hs⟩ := hn.literal text hm
    exact .keep (.escapeRegex hs) (escapeRegex_beginsItem text)
  fragment n source hn hm := by
    rcases hn.fragment source hm with h | ⟨kind, name, hp, rfl⟩
    · obtain ⟨opens, hpass, hl⟩ := h.passes
      rw [regexPieces_of_unmarked h.unmarked, hiddenGroups_of_unmarked h.unmarked]
      intro digit t ht
      rw [fillBefore_keep] at ht
      obtain rfl := Except.ok.inj ht
      refine ⟨h.begins, opens, [], hpass.mono fun _ => rfl, ?_, List.nil_sublist _, .nil⟩
      rw [hl, List.length_nil, Nat.zero_add]
    · rw [regexPieces_placeholder kind hp, hiddenGroups_placeholder kind hp]
      exact .place kind name

/-! ## The whole expression -/

/-- What follows each parenthesis of a text at which the engine begins a group, in the order of the groups'
numbers. -/
def groupStarts (t : Text) : List (List Nat) :=
  Regex.openings (t.length + 1) { size := t.length, rest := Text.codePoints t }

theorem frontSettingAt?_of_beginsItem {t : Text} {cs : List Nat} (h : beginsItem t)
    (hs : Spells t cs) : Regex.frontSettingAt? cs = none := by
  unfold Regex.frontSettingAt?
  split
  · next inner =>
      have hi : Spells (Text.ofCodePoints (Regex.Sign.star :: inner)) (Regex.Sign.star :: inner) :=
        ⟨(List.forall_mem_cons.mp hs.valid).2, rfl⟩
      rw [hs.eq_cons (by decide), hi.eq_cons (by decide)] at h
      cases h
  · rfl

/-- What a text says when it has been read to its end. -/
def Regex.ReadState.result (s : Regex.ReadState) : Regex.Reading.Result where
  regex := Regex.ofPieces s.pieces
  settings := { s.settings with limits := s.settings.limits.lowered {} }
  groupCount := s.opened
  names := s.names.reverse
  sharesNumbers := s.sharesNumbers
  namesBreak := s.namesBreak

/-- Without settings in front, the items of a text are read from its beginning. -/
theorem readWhole_eq_ok {t : Text} {result : Regex.Reading.Result}
    (hf : Regex.frontSettingAt? (Text.codePoints t) = none) :
    Regex.readWhole t = .ok result ↔
      ∃ s, Regex.readItems (t.length + 1) { size := t.length, rest := Text.codePoints t } = .ok ((), s) ∧
        s.enclosing = [] ∧ result = s.result := by
  rw [Regex.readWhole, Except.bind_eq_ok]
  constructor
  · rintro ⟨⟨limits, s⟩, hr, h⟩
    simp only [StateT.run, Regex.Reading.bind_eq_ok, Regex.readFront, Regex.Reading.rest_bind, hf,
      Regex.Reading.pure_eq_ok] at hr
    obtain ⟨_, _, ⟨rfl, rfl⟩, _, _, hi, rfl, rfl⟩ := hr
    dsimp only at h
    split at h
    · cases h
    · next he => exact ⟨s, hi, by simpa using he, (Except.ok.inj h).symm⟩
  · rintro ⟨s, hi, he, rfl⟩
    refine ⟨({}, s), ?_, ?_⟩
    · simp only [StateT.run, Regex.Reading.bind_eq_ok, Regex.readFront, Regex.Reading.rest_bind, hf,
        Regex.Reading.pure_eq_ok]
      exact ⟨_, _, ⟨rfl, rfl⟩, (), s, hi, rfl, rfl⟩
    · simp only [he]
      rfl

theorem readItems_of_readWhole {t : Text} {result : Regex.Reading.Result}
    (hf : Regex.frontSettingAt? (Text.codePoints t) = none) (h : Regex.readWhole t = .ok result) :
    ∃ s, Regex.readItems (t.length + 1) { size := t.length, rest := Text.codePoints t } =
      .ok ((), s) ∧ result.groupCount = s.opened ∧ result.regex = Regex.ofPieces s.pieces := by
  obtain ⟨s, hi, -, rfl⟩ := (readWhole_eq_ok hf).mp h
  exact ⟨s, hi, rfl, rfl⟩

theorem readItems_of_rest_eq_nil (fuel : Nat) {s : Regex.ReadState} (h : s.rest = []) :
    Regex.readItems fuel s = .ok ((), s) ∧ Regex.openings fuel s = [] := by
  cases fuel with
  | zero => exact ⟨rfl, rfl⟩
  | succ fuel =>
      simp only [Regex.readItems, Regex.openings, Regex.Reading.rest_bind, h]
      exact ⟨rfl, trivial⟩

theorem length_le_encodedLength (cs : List Nat) : cs.length ≤ Text.encodedLength cs := by
  induction cs with
  | nil => exact Nat.le_refl 0
  | cons c cs ih =>
      have hc : 1 ≤ Text.encodedSize c := by
        unfold Text.encodedSize
        grind
      rw [List.length_cons, Text.encodedLength]
      omega

/-- A text that is read as a whole has as many groups as begin in it. -/
theorem groupCount_of_passesText {t : Text} {opens : List (List Nat)} (hb : beginsItem t)
    (hp : PassesText false t opens) {result : Regex.Reading.Result}
    (h : Regex.readWhole t = .ok result) :
    result.groupCount = opens.length ∧ groupStarts t = opens := by
  obtain ⟨cs, hs, hp⟩ := hp
  have hc := hs.codePoints_eq
  obtain ⟨s, hi, hcount, -⟩ := readItems_of_readWhole (hc ▸ frontSettingAt?_of_beginsItem hb hs) h
  have hl : t.length + 1 = cs.length + (t.length + 1 - cs.length) := by
    have hle := length_le_encodedLength cs
    rw [← Text.length_ofCodePoints, ← hs.eq] at hle
    omega
  rw [hc, hl] at hi
  obtain ⟨s', spare, ha, hi', ho⟩ := hp _ s [] _ ⟨rfl, rfl, rfl, rfl, rfl, rfl⟩
    (List.append_nil cs).symm nofun hi
  obtain ⟨hend, hnone⟩ := readItems_of_rest_eq_nil (t.length + 1 - cs.length + spare) ha.rest
  obtain rfl : s' = s := by
    rw [hend] at hi'
    cases hi'
    rfl
  refine ⟨hcount.trans (ha.opened.trans (Nat.zero_add _)), ?_⟩
  rw [groupStarts, hc, hl, ho, hnone]
  simp

theorem Pattern.toRegex_eq_ok {p : Pattern} {c : Regex.Compiled} (h : p.toRegex = .ok c) :
    ∃ result, p.evaluate = .ok c.source ∧ Regex.readWhole c.source = .ok result ∧
      c.captureCount = result.groupCount := by
  rw [Pattern.toRegex, Except.bind_eq_ok] at h
  obtain ⟨t, ht, h⟩ := h
  cases hk : Regex.checked t with
  | error e => simp [Regex.compile, hk] at h
  | ok r =>
      obtain ⟨result, groups, widths⟩ := r
      simp only [Regex.compile, hk] at h
      obtain rfl := Except.ok.inj h
      simp only [Regex.checked, Except.bind_eq_ok] at hk
      obtain ⟨result', hr, widths', -, _, -, _, -, he⟩ := hk
      cases he
      exact ⟨result, ht, hr, rfl⟩

/-- The engine's group under the number of this group is the one that its node writes: behind the parenthesis
there is the resolved body of the node, and the parenthesis that closes it. -/
def Pattern.NamesEngineGroup (p : Pattern) (expression : Text) (g : Group) : Prop :=
  ∃ (n : Nat) (q : Pattern) (body : Text) (rest : List Nat),
    g = q.head.group (n + 1) g.owner ∧ (g.owner, q) ∈ p.nodes {} ∧ q.head.captures ∧
      resolveReferences p.groups q.head.body = .ok body ∧
      (groupStarts expression)[n]? = some (Text.codePoints body ++ Regex.Sign.closeParen :: rest)

/-- When the engine reads every raw fragment as a whole, it counts the groups that the tree knows of exactly
if no fragment has a group of its own. Then every number from one on names the engine's group of its node,
and every capture stands under the number of the group whose node declared it. -/
theorem Pattern.captureCount_toRegex (p : Pattern) (hp : p.Every Node.IsReadWhole)
    {c : Regex.Compiled} (h : p.toRegex = .ok c) :
    (c.captureCount = (p.groups.filter (1 ≤ ·.number)).length ↔
        ∀ x ∈ p.nodes {}, x.2.head.matcher.sourceCount hiddenGroups = 0) ∧
      ((∀ x ∈ p.nodes {}, x.2.head.matcher.sourceCount hiddenGroups = 0) →
        (∀ g ∈ p.groups, 1 ≤ g.number → p.NamesEngineGroup c.source g) ∧
          ∀ expression captures name, p.toRule = .ok (.mk expression captures name) →
            ∀ x ∈ captures, ∃ g ∈ p.groups, g.Declares p.groups x.1 x.2) := by
  have hm : p.Every (·.matcher.MarksPlaces) := hp.imp fun _ h => h.marksPlaces
  obtain ⟨result, he, hr, hc⟩ := Pattern.toRegex_eq_ok h
  rw [p.evaluate_eq hm, fillPieces_eq] at he
  obtain ⟨hb, opens, own, hpass, hl, hs, hn⟩ :=
    (OpensGroups.composes p.groups).wholePieces p hp false _ he
  obtain ⟨hcount, hstarts⟩ := groupCount_of_passesText hb hpass hr
  have hgroups : (p.groups.filter (1 ≤ ·.number)).length = p.counted.length := by
    rw [p.filter_groups, List.length_mapIdx]
  have hzero := sourceCount_eq_zero_iff hiddenGroups (p.nodes {})
  refine ⟨?_, fun hnone => ⟨fun g hg hnumber => ?_, fun _ _ _ => Pattern.declares_of_toRule⟩⟩
  · rw [← hzero, hc, hcount, hl, hgroups]
    omega
  · -- without hidden groups the engine's groups are those of the nodes
    have hown : own = opens := by
      refine hs.eq_of_length ?_
      rw [← hn.length_eq, hl, hzero.mpr hnone]
      rfl
    have hf : g ∈ p.groups.filter (1 ≤ ·.number) :=
      List.mem_filter.mpr ⟨hg, decide_eq_true hnumber⟩
    obtain ⟨n, hg⟩ := List.mem_iff_getElem?.mp hf
    obtain ⟨x, hx, hnode, hcaptures, rfl⟩ := Pattern.counted_of_getElem? hg
    obtain ⟨after, hafter, body, rest, hbody, rfl⟩ := exists_getElem?_of_forall₂ hn hx
    refine ⟨n, x.2, body, rest, ?_, hnode, hcaptures, ?_, ?_⟩
    · rw [Int.add_comm]
      rfl
    · exact (Pattern.isBody_iff hm hnode _ _).mp hbody
    · rw [hstarts, ← hown, hafter]

/-- A choice between a fragment in a group, with a reference to the group, and a literal. -/
def repeatedChoice : Pattern :=
  .link (.mk .plain (.fragment "(?:a|b)+") none { tagAs := some "t", reference := some "x" } {})
    (.link (.mk .backReference (.fragment (placeholder .backReference "x")) none {} {})
      (.last (.mk .orElse (.literal "é(1") none { tagAs := some "o" } ⟨some 0, none⟩)))

/-- A fragment with a group and a reference to the group behind it, in front of a tagged literal. -/
def referenceAhead : Pattern :=
  .link (.mk .plain (.fragment "(a)\\2c") none {} {})
    (.last (.mk .plain (.literal "b") none { tagAs := some "x" } {}))

theorem repeatedChoice_isReadWhole : repeatedChoice.Every Node.IsReadWhole := by
  have ho : ("(?:" : Text) ∈ plainOpenings := by decide
  have hchoice : PassesText false "a|b" [] := .singles (List.all_iff_forall_prop.mp (by decide))
  have hplus : PassesText true "+" [] := .singles (List.all_iff_forall_prop.mp (by decide))
  have halone : StandsAlone "(?:a|b)+" :=
    ⟨by decide, by decide, [], (PassesText.group ho hchoice).append_nil hplus, by decide +kernel⟩
  have hplace : IsPlaceName "x" := by decide
  have hliteral : Spells "é(1" [233, 40, 49] := ⟨by decide, by decide⟩
  refine ⟨⟨⟨nofun, nofun, ?_⟩, trivial⟩, ⟨⟨nofun, nofun, ?_⟩, trivial⟩, ⟨nofun, ?_, nofun⟩, trivial⟩
  · rintro _ ⟨⟩
    exact .inl halone
  · rintro _ ⟨⟩
    exact .inr ⟨.backReference, "x", hplace, rfl⟩
  · rintro _ ⟨⟩
    exact ⟨_, hliteral⟩

theorem referenceAhead_isReadWhole : referenceAhead.Every Node.IsReadWhole := by
  have ha : PassesText false "a" [] := .singles (List.all_iff_forall_prop.mp (by decide))
  have hc : PassesText true "c" [] := .singles (List.all_iff_forall_prop.mp (by decide))
  have hreference : PassesText true "\\2c" [] :=
    (PassesText.backReference 2).append hc (by decide) nofun
  have hfragment : PassesText true "(a)\\2c" [Text.codePoints "a)\\2c"] :=
    (PassesText.capture (by decide) ha).append hreference (fun _ => rfl) nofun
  have halone : StandsAlone "(a)\\2c" := ⟨by decide, by decide, _, hfragment, by decide +kernel⟩
  have hliteral : Spells "b" [98] := ⟨by decide, by decide⟩
  refine ⟨⟨⟨nofun, nofun, ?_⟩, trivial⟩, ⟨nofun, ?_, nofun⟩, trivial⟩
  · rintro _ ⟨⟩
    exact .inl halone
  · rintro _ ⟨⟩
    exact ⟨_, hliteral⟩

theorem repeatedChoice_referenceAhead_captureCount :
    (∃ c, repeatedChoice.toRegex = .ok c ∧
        c.captureCount = (repeatedChoice.groups.filter (1 ≤ ·.number)).length) ∧
      ∃ c, referenceAhead.toRegex = .ok c ∧
        c.captureCount ≠ (referenceAhead.groups.filter (1 ≤ ·.number)).length := by
  have hnone : ∀ x ∈ repeatedChoice.nodes {},
      x.2.head.matcher.sourceCount hiddenGroups = 0 := by
    decide +kernel
  have hone : ¬ ∀ x ∈ referenceAhead.nodes {},
      x.2.head.matcher.sourceCount hiddenGroups = 0 := by
    decide +kernel
  have hcompiles : repeatedChoice.toRegex.isOk ∧ referenceAhead.toRegex.isOk := by
    decide +kernel
  constructor
  · cases hc : repeatedChoice.toRegex with
    | error e => simp [hc, Except.isOk, Except.toBool] at hcompiles
    | ok c =>
        exact ⟨c, rfl,
          (repeatedChoice.captureCount_toRegex repeatedChoice_isReadWhole hc).1.mpr hnone⟩
  · cases hc : referenceAhead.toRegex with
    | error e => simp [hc, Except.isOk, Except.toBool] at hcompiles
    | ok c =>
        exact ⟨c, rfl,
          mt (referenceAhead.captureCount_toRegex referenceAhead_isReadWhole hc).1.mp hone⟩

/-- The fragment is accepted, as the reference in it keeps it from compiling on trial. In front of the literal
it does compile, with one group more than the tree knows of. -/
theorem referenceAhead_captureCount :
    (do
        let fragment ← Pattern.create .plain (.fragment "(a)\\2c") {}
        let literal ← Pattern.create .plain (.literal "b") { tagAs := some "x" }
        return fragment.append literal) = .ok referenceAhead ∧
      (referenceAhead.groups.filter (1 ≤ ·.number)).length = 1 ∧
      ∃ c, referenceAhead.toRegex = .ok c ∧ c.captureCount = 2 := by
  have hown : hasOwnGroup "(a)\\2c" = false := by decide +kernel
  have hcount : (match referenceAhead.toRegex with
      | .ok c => c.captureCount
      | .error _ => 0) = 2 := by
    decide +kernel
  refine ⟨?_, by decide, ?_⟩
  · simp only [Pattern.create, Matcher.check, hown]
    rfl
  · cases hc : referenceAhead.toRegex with
    | error e => simp [hc] at hcount
    | ok c => exact ⟨c, rfl, by simpa [hc] using hcount⟩

end PatternGrammar
