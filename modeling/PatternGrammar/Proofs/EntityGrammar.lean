import PatternGrammar.Proofs.Entity

/-!
# The grammar of single entities

What the scanners accept is a grammar: a class is brackets around escapes, classes and other bytes, a
group is parentheses around escapes, classes, groups, comments and other bytes. The scanners count
depths where the grammar nests.
-/

namespace PatternGrammar

open Ascii

/-! ## The grammar -/

/-- The text behind the byte `b`, if it begins with that. -/
def dropOptional (b : UInt8) : Text → Text
  | [] => []
  | c :: t => if c = b then t else c :: t

/-- What is left of a class behind its opening bracket, an optional caret and an optional closing
bracket, which is a member there. -/
def behindLead (inner : Text) : Text :=
  dropOptional closeBracket (dropOptional caret inner)

inductive BracketForm where
  | whole
  | items

/-- Classes and the items in them. -/
inductive IsBracket : BracketForm → Text → Prop where
  | whole {inner items : Text} : behindLead inner = items ++ [closeBracket] → IsBracket .items items →
      IsBracket .whole (openBracket :: inner)
  | nil : IsBracket .items []
  | escape (b : UInt8) {t : Text} : IsBracket .items t → IsBracket .items (backslash :: b :: t)
  | nested {c t : Text} : IsBracket .whole c → IsBracket .items t → IsBracket .items (c ++ t)
  | byte {b : UInt8} {t : Text} : b ∉ ("\\[]" : Text) → IsBracket .items t → IsBracket .items (b :: t)

/-- A comment ends at its first closing parenthesis. -/
inductive IsComment : Text → Prop where
  | mk {t : Text} : closeParen ∉ t → IsComment ("(?#" ++ t ++ [closeParen])

inductive GroupForm where
  | whole
  | items

/-- Groups and the items in them. -/
inductive IsGroup : GroupForm → Text → Prop where
  | whole {items : Text} : ¬ "?#" <+: items → IsGroup .items items →
      IsGroup .whole (openParen :: items ++ [closeParen])
  | nil : IsGroup .items []
  | escape (b : UInt8) {t : Text} : IsGroup .items t → IsGroup .items (backslash :: b :: t)
  | bracket {c t : Text} : IsBracket .whole c → IsGroup .items t → IsGroup .items (c ++ t)
  | nested {g t : Text} : IsGroup .whole g → IsGroup .items t → IsGroup .items (g ++ t)
  | comment {c t : Text} : IsComment c → IsGroup .items t → IsGroup .items (c ++ t)
  | byte {b : UInt8} {t : Text} : b ∉ scanStops → IsGroup .items t → IsGroup .items (b :: t)

/-- One byte, one escape, a class, a group or a comment. -/
inductive IsEntity : Text → Prop where
  | byte (b : UInt8) : IsEntity [b]
  | escape (b : UInt8) : IsEntity [backslash, b]
  | bracket {t : Text} : IsBracket .whole t → IsEntity t
  | group {t : Text} : IsGroup .whole t → IsEntity t
  | comment {t : Text} : IsComment t → IsEntity t

theorem IsBracket.begins {c : Text} (h : IsBracket .whole c) :
    ∃ inner, inner ≠ [] ∧ c = openBracket :: inner := by
  cases h with
  | @whole inner items hi _ =>
      refine ⟨inner, ?_, rfl⟩
      rintro rfl
      exact absurd hi.symm (List.append_ne_nil_of_right_ne_nil _ (List.cons_ne_nil _ _))

theorem IsGroup.begins {g : Text} (h : IsGroup .whole g) : ∃ inner, inner ≠ [] ∧ g = openParen :: inner := by
  cases h with
  | whole => exact ⟨_, List.append_ne_nil_of_right_ne_nil _ (List.cons_ne_nil _ _), rfl⟩

theorem IsComment.begins {c : Text} (h : IsComment c) : ∃ inner, inner ≠ [] ∧ c = openParen :: inner := by
  cases h with
  | mk => exact ⟨_, List.cons_ne_nil _ _, rfl⟩

/-! ## Leads -/

theorem dropOptional_eq_self {b : UInt8} {t : Text} (h : ∀ u, t = b :: u → False) : dropOptional b t = t := by
  cases t with
  | nil => rfl
  | cons c t => exact if_neg fun hc : c = b => h t (hc ▸ rfl)

/-- A lead is a caret and a closing bracket, one of them, or nothing. -/
theorem behindLead_cases {motive : Text → Text → Prop}
    (both : ∀ t, motive (caret :: closeBracket :: t) t)
    (onlyCaret : ∀ t, (∀ u, t = closeBracket :: u → False) → motive (caret :: t) t)
    (onlyBracket : ∀ t, motive (closeBracket :: t) t)
    (neither : ∀ t, (∀ u, t = caret :: u → False) → (∀ u, t = closeBracket :: u → False) → motive t t)
    (inner : Text) : motive inner (behindLead inner) := by
  by_cases hc : ∃ t, inner = caret :: t
  · obtain ⟨t, rfl⟩ := hc
    by_cases hb : ∃ u, t = closeBracket :: u
    · obtain ⟨u, rfl⟩ := hb
      exact both u
    · have hn : ∀ u, t = closeBracket :: u → False := fun u hu => hb ⟨u, hu⟩
      have hl : behindLead (caret :: t) = t := dropOptional_eq_self hn
      rw [hl]
      exact onlyCaret t hn
  · have hn : ∀ u, inner = caret :: u → False := fun u hu => hc ⟨u, hu⟩
    by_cases hb : ∃ u, inner = closeBracket :: u
    · obtain ⟨u, rfl⟩ := hb
      exact onlyBracket u
    · have hm : ∀ u, inner = closeBracket :: u → False := fun u hu => hb ⟨u, hu⟩
      rw [behindLead, dropOptional_eq_self hn, dropOptional_eq_self hm]
      exact neither inner hn hm

theorem length_behindLead_le (inner : Text) : (behindLead inner).length ≤ inner.length := by
  refine behindLead_cases (motive := fun s t => t.length ≤ s.length) ?_ ?_ ?_ ?_ inner
  · exact fun t => Nat.le_add_right _ 2
  · exact fun t _ => Nat.le_succ _
  · exact fun t => Nat.le_succ _
  · exact fun t _ _ => Nat.le_refl _

theorem dropOptional_append {b : UInt8} {t : Text} (h : t ≠ []) (s : Text) :
    dropOptional b (t ++ s) = dropOptional b t ++ s := by
  cases t with
  | nil => exact absurd rfl h
  | cons c t =>
      rw [List.cons_append, dropOptional, dropOptional]
      split <;> rfl

theorem behindLead_append {inner : Text} (h : behindLead inner ≠ []) (s : Text) :
    behindLead (inner ++ s) = behindLead inner ++ s := by
  have hd : dropOptional caret inner ≠ [] := fun hd => h (by rw [behindLead, hd, dropOptional])
  have hi : inner ≠ [] := by
    rintro rfl
    exact hd rfl
  rw [behindLead, dropOptional_append hi, dropOptional_append hd, behindLead]

/-- What stands behind what is left of a class has no part in the lead. -/
theorem exists_append_of_behindLead {inner front s : Text} (h : behindLead inner = front ++ s)
    (hf : front ≠ []) : ∃ inner', inner = inner' ++ s ∧ behindLead inner' = front := by
  obtain ⟨b, front, rfl⟩ := List.exists_cons_of_ne_nil hf
  revert h
  refine behindLead_cases
    (motive := fun u t => t = b :: front ++ s → ∃ v, u = v ++ s ∧ behindLead v = b :: front) ?_ ?_ ?_ ?_ inner
  · rintro t rfl
    exact ⟨caret :: closeBracket :: b :: front, rfl, rfl⟩
  · rintro t hn rfl
    have hb : b ≠ closeBracket := fun hb => hn (front ++ s) (hb ▸ rfl)
    exact ⟨caret :: b :: front, rfl, if_neg hb⟩
  · rintro t rfl
    exact ⟨closeBracket :: b :: front, rfl, rfl⟩
  · rintro t hc hn rfl
    have hb : b ≠ closeBracket := fun hb => hn (front ++ s) (hb ▸ rfl)
    have hd : b ≠ caret := fun hd => hc (front ++ s) (hd ▸ rfl)
    exact ⟨b :: front, rfl, by rw [behindLead, dropOptional, if_neg hd, dropOptional, if_neg hb]⟩

/-! ## The scanner of classes -/

theorem classEnd?_openBracket (depth : Nat) (inner : Text) :
    classEnd? depth (openBracket :: inner) = classEnd? (depth + 1) (behindLead inner) :=
  behindLead_cases
    (motive := fun s t => classEnd? depth (openBracket :: s) = classEnd? (depth + 1) t)
    (fun _ => rfl) (classEnd?.eq_5 depth) (fun _ => rfl)
    (fun t hc hb => classEnd?.eq_7 depth t (fun _ => hc _) hc hb) inner

theorem classEnd?_closeBracket (depth : Nat) (rest : Text) :
    classEnd? (depth + 1) (closeBracket :: rest) = if depth = 0 then some rest else classEnd? depth rest := by
  cases depth with
  | zero => rfl
  | succ depth => rfl

theorem classEnd?_cons {b : UInt8} (h : b ∉ ("\\[]" : Text)) (depth : Nat) (rest : Text) :
    classEnd? depth (b :: rest) = classEnd? depth rest := by
  have hb : ∀ c ∈ ("\\[]" : Text), b ≠ c := fun c hc hbc => h (hbc ▸ hc)
  have hs : b ≠ backslash := hb backslash (by decide)
  have ho : b ≠ openBracket := hb openBracket (by decide)
  have hc : b ≠ closeBracket := hb closeBracket (by decide)
  rw [classEnd?]
  all_goals simp_all

/-- Inside a class, the scanner passes over classes and items. -/
theorem IsBracket.classEnd?_append {form : BracketForm} {t : Text} (h : IsBracket form t) (depth : Nat)
    (rest : Text) : classEnd? (depth + 1) (t ++ rest) = classEnd? (depth + 1) rest := by
  induction h generalizing depth rest with
  | @whole inner items hi _ ih =>
      have hne : behindLead inner ≠ [] := hi ▸ List.append_ne_nil_of_right_ne_nil _ (List.cons_ne_nil _ _)
      rw [List.cons_append, classEnd?_openBracket, behindLead_append hne, hi, List.append_assoc, ih,
        List.singleton_append, classEnd?_closeBracket, if_neg (Nat.succ_ne_zero _)]
  | nil => rfl
  | escape b _ ih => exact ih depth rest
  | nested _ _ ihc iht => rw [List.append_assoc, ihc, iht]
  | byte hb _ ih => rw [List.cons_append, classEnd?_cons hb, ih]

/-- In front of a class, the scanner finds where it ends. -/
theorem IsBracket.classEnd?_whole {c : Text} (h : IsBracket .whole c) (rest : Text) :
    classEnd? 0 (c ++ rest) = some rest := by
  cases h with
  | @whole inner items hi ht =>
      have hne : behindLead inner ≠ [] := hi ▸ List.append_ne_nil_of_right_ne_nil _ (List.cons_ne_nil _ _)
      rw [List.cons_append, classEnd?_openBracket, behindLead_append hne, hi, List.append_assoc,
        ht.classEnd?_append, List.singleton_append, classEnd?_closeBracket, if_pos rfl]

/-- Inside a class, the scanner has gone over items to a closing bracket. -/
theorem exists_items_of_classEnd? {depth : Nat} {t rest : Text} (h : classEnd? (depth + 1) t = some rest) :
    ∃ items behind, IsBracket .items items ∧ t = items ++ closeBracket :: behind ∧
      (if depth = 0 then some behind else classEnd? depth behind) = some rest := by
  -- The text behind an inner class is shorter than the text, but not a tail that the scanner stepped to.
  induction hn : t.length using Nat.strongRecOn generalizing depth t with
  | ind n ih =>
    subst hn
    match t with
    | [] => cases h
    | b :: t =>
      by_cases hb : b ∈ ("\\[]" : Text)
      · have hm : ∀ c ∈ ("\\[]" : Text), c = backslash ∨ c = openBracket ∨ c = closeBracket :=
          List.all_iff_forall_prop.mp (by decide)
        obtain rfl | rfl | rfl := hm b hb
        · match t with
          | [] => cases h
          | c :: t =>
            have hs : classEnd? (depth + 1) t = some rest := h
            obtain ⟨items, behind, hi, rfl, hr⟩ := ih t.length (Nat.lt_succ_of_lt (Nat.lt_succ_self _)) hs rfl
            exact ⟨_, behind, .escape c hi, rfl, hr⟩
        · rw [classEnd?_openBracket] at h
          have hl : (behindLead t).length < (openBracket :: t).length :=
            Nat.lt_succ_of_le (length_behindLead_le t)
          obtain ⟨inside, middle, hi, hm, hr⟩ := ih _ hl h rfl
          rw [if_neg (Nat.succ_ne_zero _)] at hr
          have hlead : behindLead t = (inside ++ [closeBracket]) ++ middle := by simp [hm]
          obtain ⟨inner, rfl, hinner⟩ := exists_append_of_behindLead hlead (by simp)
          have hshorter : middle.length < (openBracket :: (inner ++ middle)).length := by
            rw [List.length_cons, List.length_append]
            omega
          obtain ⟨items, behind, ht, rfl, hb⟩ := ih middle.length hshorter hr rfl
          exact ⟨(openBracket :: inner) ++ items, behind, .nested (.whole hinner hi) ht, by simp, hb⟩
        · exact ⟨[], t, .nil, rfl, (classEnd?_closeBracket depth t).symm.trans h⟩
      · rw [classEnd?_cons hb] at h
        obtain ⟨items, behind, hi, rfl, hr⟩ := ih t.length (by simp) h rfl
        exact ⟨_, behind, .byte hb hi, rfl, hr⟩

/-- In front of an opening bracket, the scanner finds the end of the class and nothing else. -/
theorem classEnd?_eq_some {inner rest : Text} :
    classEnd? 0 (openBracket :: inner) = some rest ↔
      ∃ c, IsBracket .whole c ∧ openBracket :: inner = c ++ rest := by
  constructor
  · intro h
    rw [classEnd?_openBracket] at h
    obtain ⟨items, behind, hi, hb, hr⟩ := exists_items_of_classEnd? h
    obtain rfl := Option.some.inj hr
    have hlead : behindLead inner = (items ++ [closeBracket]) ++ behind := by simp [hb]
    obtain ⟨inner', rfl, hinner⟩ := exists_append_of_behindLead hlead (by simp)
    exact ⟨openBracket :: inner', .whole hinner hi, rfl⟩
  · rintro ⟨c, hc, he⟩
    rw [he, hc.classEnd?_whole]

/-! ## The scanner of groups -/

/-- Inside a class, the scanner of groups does what the scanner of classes does. -/
theorem groupEnd?_brackets (inner depth : Nat) (t : Text) :
    groupEnd? (.brackets inner) depth t = (classEnd? inner t).bind (groupEnd? .items depth) := by
  fun_induction classEnd? inner t with
  | case1 | case2 => rfl
  | case3 inner b rest ih => exact ih
  | case4 inner rest ih => exact ih
  | case5 inner rest hb ih => rw [← ih, groupEnd?.eq_7 depth inner rest hb]
  | case6 inner rest ih => exact ih
  | case7 inner rest hcb hc hb ih => rw [← ih, groupEnd?.eq_9 depth inner rest hcb hc hb]
  | case8 inner rest hl => rw [groupEnd?, if_pos hl, Option.bind_some]
  | case9 inner rest hl ih => rw [groupEnd?, if_neg hl, ih]
  | case10 inner b rest h₁ h₂ h₃ h₄ h₅ h₆ h₇ ih =>
      rw [← ih, groupEnd?.eq_11 depth inner b rest h₁ h₂ h₃ h₄ h₅ h₆ h₇]

theorem groupEnd?_openBracket (depth : Nat) (inner : Text) :
    groupEnd? .items depth (openBracket :: inner) =
      (classEnd? 0 (openBracket :: inner)).bind (groupEnd? .items depth) := by
  rw [classEnd?_openBracket, ← groupEnd?_brackets]
  exact behindLead_cases
    (motive := fun s t => groupEnd? .items depth (openBracket :: s) = groupEnd? (.brackets 1) depth t)
    (fun _ => rfl) (groupEnd?.eq_13 depth) (fun _ => rfl)
    (fun t hc hb => groupEnd?.eq_15 depth t (fun _ => hc _) hc hb) inner

theorem groupEnd?_closeParen (depth : Nat) (rest : Text) :
    groupEnd? .items (depth + 1) (closeParen :: rest) =
      if depth = 0 then some rest else groupEnd? .items depth rest := by
  cases depth with
  | zero => rfl
  | succ depth => rfl

theorem groupEnd?_openParen {t : Text} (h : ¬ "?#" <+: t) (depth : Nat) :
    groupEnd? .items depth (openParen :: t) = groupEnd? .items (depth + 1) t :=
  groupEnd?.eq_17 depth t fun u hu => h ⟨u, hu.symm⟩

/-- A parenthesis that closes a group behind its items does not make them begin a comment. -/
theorem isPrefixOf_of_append_closeParen {items rest : Text} (h : "?#" <+: items ++ closeParen :: rest) :
    "?#" <+: items := by
  obtain ⟨u, hu⟩ := h
  match items with
  | [] => cases hu
  | [b] => cases hu
  | b :: c :: items =>
      obtain ⟨hb, ht⟩ := List.cons.inj hu
      obtain ⟨hc, -⟩ := List.cons.inj ht
      exact ⟨items, by rw [← hb, ← hc]; rfl⟩

theorem IsComment.groupEnd?_append {c : Text} (h : IsComment c) (depth : Nat) (rest : Text) :
    groupEnd? .items depth (c ++ rest) = if depth = 0 then some rest else groupEnd? .items depth rest := by
  cases h with
  | @mk t ht =>
      have hc : "(?#" ++ t ++ [closeParen] ++ rest =
          openParen :: question :: numberSign :: (t ++ closeParen :: rest) := by
        simp only [List.append_assoc, List.singleton_append]
        rfl
      rw [hc]
      exact groupEnd?_comment ht depth rest

/-- Inside a group, the scanner passes over groups and items. -/
theorem IsGroup.groupEnd?_append {form : GroupForm} {t : Text} (h : IsGroup form t) (depth : Nat)
    (rest : Text) : groupEnd? .items (depth + 1) (t ++ rest) = groupEnd? .items (depth + 1) rest := by
  induction h generalizing depth rest with
  | @whole items hq _ ih =>
      have hn : ¬ "?#" <+: items ++ closeParen :: rest := fun h => hq (isPrefixOf_of_append_closeParen h)
      rw [List.append_assoc, List.cons_append, List.singleton_append, groupEnd?_openParen hn, ih,
        groupEnd?_closeParen, if_neg (Nat.succ_ne_zero _)]
  | nil => rfl
  | escape b _ ih => exact ih depth rest
  | bracket hc _ ih =>
      have he := hc.classEnd?_whole
      obtain ⟨inner, -, rfl⟩ := hc.begins
      rw [List.append_assoc, List.cons_append, groupEnd?_openBracket, ← List.cons_append, he,
        Option.bind_some, ih]
  | nested _ _ ihg iht => rw [List.append_assoc, ihg, iht]
  | comment hc _ ih => rw [List.append_assoc, hc.groupEnd?_append, if_neg (Nat.succ_ne_zero _), ih]
  | byte hb _ ih => rw [List.cons_append, groupEnd?_cons hb, ih]

/-- In front of a group, the scanner finds where it ends. -/
theorem IsGroup.groupEnd?_whole {g : Text} (h : IsGroup .whole g) (rest : Text) :
    groupEnd? .items 0 (g ++ rest) = some rest := by
  cases h with
  | @whole items hq hi =>
      have hn : ¬ "?#" <+: items ++ closeParen :: rest := fun h => hq (isPrefixOf_of_append_closeParen h)
      rw [List.append_assoc, List.cons_append, List.singleton_append, groupEnd?_openParen hn,
        hi.groupEnd?_append, groupEnd?_closeParen, if_pos rfl]

/-- Inside a comment, the scanner has gone over its text to the first closing parenthesis. -/
theorem exists_comment_of_groupEnd? {depth : Nat} {t rest : Text}
    (h : groupEnd? .comment depth t = some rest) :
    ∃ text behind, closeParen ∉ text ∧ t = text ++ closeParen :: behind ∧
      (if depth = 0 then some behind else groupEnd? .items depth behind) = some rest := by
  induction t with
  | nil => cases h
  | cons b t ih =>
      by_cases hb : b = closeParen
      · subst hb
        exact ⟨[], t, List.not_mem_nil, rfl, h⟩
      · rw [groupEnd?.eq_3 depth b t hb] at h
        obtain ⟨text, behind, ht, rfl, hr⟩ := ih h
        exact ⟨b :: text, behind, List.not_mem_cons_of_ne_of_not_mem (Ne.symm hb) ht, rfl, hr⟩

/-- Inside a group, the scanner has gone over items to a closing parenthesis. -/
theorem exists_items_of_groupEnd? {depth : Nat} {t rest : Text}
    (h : groupEnd? .items (depth + 1) t = some rest) :
    ∃ items behind, IsGroup .items items ∧ t = items ++ closeParen :: behind ∧
      (if depth = 0 then some behind else groupEnd? .items depth behind) = some rest := by
  induction hn : t.length using Nat.strongRecOn generalizing depth t with
  | ind n ih =>
    subst hn
    match t with
    | [] => cases h
    | b :: t =>
      by_cases hb : b ∈ scanStops
      · have hm : ∀ c ∈ scanStops, c = backslash ∨ c = openBracket ∨ c = openParen ∨ c = closeParen :=
          List.all_iff_forall_prop.mp (by decide)
        obtain rfl | rfl | rfl | rfl := hm b hb
        · match t with
          | [] => cases h
          | c :: t =>
            have hs : groupEnd? .items (depth + 1) t = some rest := h
            obtain ⟨items, behind, hi, rfl, hr⟩ := ih t.length (Nat.lt_succ_of_lt (Nat.lt_succ_self _)) hs rfl
            exact ⟨_, behind, .escape c hi, rfl, hr⟩
        · rw [groupEnd?_openBracket, Option.bind_eq_some_iff] at h
          obtain ⟨middle, hend, hs⟩ := h
          obtain ⟨c, hc, he⟩ := classEnd?_eq_some.mp hend
          obtain ⟨inner, -, rfl⟩ := hc.begins
          have hl : middle.length < (openBracket :: t).length := by
            rw [he, List.length_append, List.length_cons]
            omega
          obtain ⟨items, behind, hi, rfl, hr⟩ := ih middle.length hl hs rfl
          exact ⟨_, behind, .bracket hc hi, by rw [he, List.append_assoc], hr⟩
        · by_cases hq : "?#" <+: t
          · obtain ⟨u, rfl⟩ := hq
            obtain ⟨text, middle, ht, rfl, hs⟩ := exists_comment_of_groupEnd? h
            rw [if_neg (Nat.succ_ne_zero _)] at hs
            obtain ⟨items, behind, hi, rfl, hr⟩ := ih middle.length (by simp; omega) hs rfl
            refine ⟨_, behind, .comment (.mk ht) hi, ?_, hr⟩
            simp only [List.append_assoc, List.singleton_append]
            rfl
          · rw [groupEnd?_openParen hq] at h
            obtain ⟨inside, middle, hi, rfl, hs⟩ := ih t.length (Nat.lt_succ_self _) h rfl
            rw [if_neg (Nat.succ_ne_zero _)] at hs
            obtain ⟨items, behind, ht, rfl, hr⟩ := ih middle.length (by simp; omega) hs rfl
            have hn : ¬ "?#" <+: inside := fun h => hq (h.trans (List.prefix_append _ _))
            exact ⟨_, behind, .nested (.whole hn hi) ht, by simp, hr⟩
        · exact ⟨[], t, .nil, rfl, (groupEnd?_closeParen depth t).symm.trans h⟩
      · rw [groupEnd?_cons hb] at h
        obtain ⟨items, behind, hi, rfl, hr⟩ := ih t.length (Nat.lt_succ_self _) h rfl
        exact ⟨_, behind, .byte hb hi, rfl, hr⟩

/-- In front of an opening parenthesis, the scanner finds the end of the group or comment and nothing
else. -/
theorem groupEnd?_eq_some {t rest : Text} :
    groupEnd? .items 0 (openParen :: t) = some rest ↔
      ∃ g, (IsGroup .whole g ∨ IsComment g) ∧ openParen :: t = g ++ rest := by
  constructor
  · intro h
    by_cases hq : "?#" <+: t
    · obtain ⟨u, rfl⟩ := hq
      obtain ⟨text, behind, ht, rfl, hr⟩ := exists_comment_of_groupEnd? h
      obtain rfl := Option.some.inj hr
      refine ⟨_, .inr (.mk ht), ?_⟩
      simp only [List.append_assoc, List.singleton_append]
      rfl
    · rw [groupEnd?_openParen hq] at h
      obtain ⟨items, behind, hi, rfl, hr⟩ := exists_items_of_groupEnd? h
      obtain rfl := Option.some.inj hr
      have hn : ¬ "?#" <+: items := fun h => hq (h.trans (List.prefix_append _ _))
      exact ⟨_, .inl (.whole hn hi), by simp⟩
  · rintro ⟨g, hg | hg, he⟩
    · rw [he, hg.groupEnd?_whole]
    · rw [he, hg.groupEnd?_append, if_pos rfl]

/-! ## Single entities -/

theorem isSingleEntity_openBracket {t : Text} (h : t ≠ []) :
    isSingleEntity (openBracket :: t) = decide (classEnd? 0 (openBracket :: t) = some []) :=
  isSingleEntity.eq_4 t h

/-- The texts that a quantifier may stand directly behind are those of the grammar. -/
theorem isSingleEntity_iff (t : Text) : isSingleEntity t ↔ IsEntity t := by
  constructor
  · intro h
    unfold isSingleEntity at h
    split at h
    · cases h
    · exact .byte _
    · next rest _ =>
        obtain ⟨b, rfl⟩ := List.length_eq_one_iff.mp (of_decide_eq_true h)
        exact .escape b
    · next rest _ =>
        obtain ⟨c, hc, he⟩ := classEnd?_eq_some.mp (of_decide_eq_true h)
        rw [List.append_nil] at he
        exact .bracket (he ▸ hc)
    · next rest _ =>
        obtain ⟨g, hg, he⟩ := groupEnd?_eq_some.mp (of_decide_eq_true h)
        rw [List.append_nil] at he
        subst he
        exact hg.elim .group .comment
    · cases h
  · intro h
    cases h with
    | byte b => rfl
    | escape b => rfl
    | bracket hc =>
        have he := hc.classEnd?_whole []
        obtain ⟨inner, hi, rfl⟩ := hc.begins
        rw [List.append_nil] at he
        rw [isSingleEntity_openBracket hi, he, decide_eq_true_eq]
    | group hg =>
        have he := hg.groupEnd?_whole []
        obtain ⟨inner, hi, rfl⟩ := hg.begins
        rw [List.append_nil] at he
        rw [isSingleEntity_openParen hi, he, decide_eq_true_eq]
    | comment hc =>
        have he := hc.groupEnd?_append 0 []
        obtain ⟨inner, hi, rfl⟩ := hc.begins
        rw [List.append_nil, if_pos rfl] at he
        rw [isSingleEntity_openParen hi, he, decide_eq_true_eq]

end PatternGrammar
