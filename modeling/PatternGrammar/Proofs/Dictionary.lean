import Mathlib.Data.List.Induction
import Mathlib.Data.List.Sort
import PatternGrammar.Text.Dictionary

/-!
# Dictionaries by their look-ups

A dictionary lists its keys in order, each key once, so that it is determined by what stands under each key.
-/

namespace PatternGrammar

/-- The bytewise order of texts is the lexicographic one. -/
theorem Text.before_iff_lt {s t : Text} : Text.before s t = true ↔ s < t := by
  induction s generalizing t with
  | nil => cases t <;> simp [before]
  | cons a s ih =>
      cases t with
      | nil => simp [before]
      | cons b t => simp [before, List.cons_lt_cons_iff, ih]

theorem Text.lt_of_not_before {s t : Text} (hne : s ≠ t) (h : ¬ Text.before t s = true) : s < t := by
  rw [Text.before_iff_lt] at h
  by_contra hn
  exact hne (Std.Trichotomous.trichotomous s t hn h)

namespace Dictionary

variable {α : Type} {key : Text} {value : α} {d e : Dictionary α} {x : Text × α}

theorem eq_or_mem_of_mem_insert (h : x ∈ insert key value d) : x = (key, value) ∨ x ∈ d := by
  induction d with
  | nil => exact .inl (List.mem_singleton.mp h)
  | cons m rest ih =>
      rw [insert] at h
      split at h
      · rcases List.mem_cons.mp h with rfl | h
        · exact .inl rfl
        · exact .inr (List.mem_cons_of_mem _ h)
      · split at h
        · exact List.mem_cons.mp h
        · rcases List.mem_cons.mp h with rfl | h
          · exact .inr List.mem_cons_self
          · exact (ih h).imp_right (List.mem_cons_of_mem _)

theorem mem_of_get? (h : get? key d = some value) : (key, value) ∈ d := by
  induction d with
  | nil => cases h
  | cons m rest ih =>
      rw [get?] at h
      split at h
      · next hk =>
          cases h
          rw [← hk]
          exact List.mem_cons_self
      · exact List.mem_cons_of_mem _ (ih h)

theorem get?_append (key : Text) (d e : Dictionary α) : get? key (d ++ e) = (get? key d).or (get? key e) := by
  induction d with
  | nil => rfl
  | cons m rest ih =>
      rw [List.cons_append, get?, get?]
      split
      · rfl
      · exact ih

/-- The keys are in order, and each stands there once. -/
def Sorted (d : Dictionary α) : Prop := d.Pairwise fun x y => x.1 < y.1

theorem sorted_nil : Sorted ([] : Dictionary α) := .nil

theorem Sorted.insert (h : Sorted d) : Sorted (insert key value d) := by
  induction d with
  | nil => exact List.pairwise_singleton _ _
  | cons m rest ih =>
      obtain ⟨hm, hr⟩ := List.pairwise_cons.mp h
      rw [Dictionary.insert]
      split
      · next hk =>
          subst hk
          exact List.pairwise_cons.mpr ⟨hm, hr⟩
      · next hk =>
          split
          · next hb =>
              have hlt := Text.before_iff_lt.mp hb
              refine List.pairwise_cons.mpr ⟨?_, h⟩
              intro x hx
              rcases List.mem_cons.mp hx with rfl | hx
              · exact hlt
              · exact List.lt_trans hlt (hm x hx)
          · next hb =>
              refine List.pairwise_cons.mpr ⟨?_, ih hr⟩
              intro x hx
              rcases eq_or_mem_of_mem_insert hx with rfl | hx
              · exact Text.lt_of_not_before hk hb
              · exact hm x hx

theorem Sorted.foldl (pairs : List (Text × α)) (h : Sorted d) :
    Sorted (pairs.foldl (fun d (k, v) => Dictionary.insert k v d) d) := by
  induction pairs generalizing d with
  | nil => exact h
  | cons x pairs ih => exact ih h.insert

theorem sorted_ofList (pairs : List (Text × α)) : Sorted (ofList pairs) :=
  sorted_nil.foldl pairs

theorem Sorted.filter (p : Text × α → Bool) (h : Sorted d) : Sorted (d.filter p) :=
  List.Pairwise.filter p h

theorem Sorted.nodup_keys (h : Sorted d) : (d.map (·.1)).Nodup := by
  rw [List.nodup_iff_pairwise_ne, List.pairwise_map]
  refine List.Pairwise.imp ?_ h
  intro x y hlt he
  rw [he] at hlt
  exact List.lt_irrefl _ hlt

theorem Sorted.get?_of_mem (h : Sorted d) (hm : (key, value) ∈ d) : get? key d = some value := by
  induction d with
  | nil => cases hm
  | cons m rest ih =>
      obtain ⟨hlt, hr⟩ := List.pairwise_cons.mp h
      rw [get?]
      rcases List.mem_cons.mp hm with rfl | hm
      · exact if_pos rfl
      · have hne : m.1 ≠ key := by
          intro he
          have hk := hlt _ hm
          rw [he] at hk
          exact List.lt_irrefl _ hk
        rw [if_neg hne]
        exact ih hr hm

theorem Sorted.mem_iff (h : Sorted d) : (key, value) ∈ d ↔ get? key d = some value :=
  ⟨h.get?_of_mem, mem_of_get?⟩

theorem Sorted.eq_of_mem_iff (hd : Sorted d) (he : Sorted e) (h : ∀ x, x ∈ d ↔ x ∈ e) : d = e := by
  have hirrefl : Std.Irrefl fun x y : Text × α => x.1 < y.1 := ⟨fun x => List.lt_irrefl x.1⟩
  have hantisymm : Std.Antisymm fun x y : Text × α => x.1 < y.1 :=
    ⟨fun x y hx hy => absurd (List.lt_trans hx hy) (List.lt_irrefl x.1)⟩
  exact List.Pairwise.eq_of_mem_iff hd he h

/-- Two dictionaries with the same look-ups are the same. -/
theorem Sorted.eq_of_get? (hd : Sorted d) (he : Sorted e) (h : ∀ key, get? key d = get? key e) :
    d = e := by
  apply hd.eq_of_mem_iff he
  intro x
  rw [hd.mem_iff, he.mem_iff, h]

theorem get?_insert (other : Text) :
    get? other (insert key value d) = if other = key then some value else get? other d := by
  by_cases h : other = key
  · rw [if_pos h, h, get?_insert_self]
  · rw [if_neg h, get?_insert_of_ne h]

theorem Sorted.get?_filter (h : Sorted d) (p : Text × α → Bool) (key : Text) :
    get? key (d.filter p) = (get? key d).filter fun v => p (key, v) := by
  ext value
  rw [← (h.filter p).mem_iff, List.mem_filter, h.mem_iff, Option.filter_eq_some_iff]

/-- Of pairs with one key the last wins. -/
theorem get?_ofList (pairs : List (Text × α)) :
    get? key (ofList pairs) = (pairs.reverse.find? (·.1 = key)).map (·.2) := by
  induction pairs using List.reverseRecOn with
  | nil => rfl
  | append_singleton pairs x ih =>
      rw [ofList, List.foldl_append, ← ofList, List.foldl_cons, List.foldl_nil, get?_insert, ih]
      rw [List.reverse_append, List.reverse_singleton, List.singleton_append, List.find?_cons]
      by_cases h : key = x.1
      · simp [h]
      · simp [h, Ne.symm h]

/-- Of pairs with different keys each counts. -/
theorem mem_ofList {pairs : List (Text × α)} (h : (pairs.map (·.1)).Nodup) :
    x ∈ ofList pairs ↔ x ∈ pairs := by
  rw [(sorted_ofList pairs).mem_iff, get?_ofList, Option.map_eq_some_iff]
  constructor
  · intro hfound
    obtain ⟨y, hy, hv⟩ := hfound
    have hk : y.1 = x.1 := by simpa using List.find?_some hy
    have hyx : y = x := Prod.ext hk hv
    rw [← hyx]
    exact List.mem_reverse.mp (List.mem_of_find?_eq_some hy)
  · intro hm
    cases hf : pairs.reverse.find? (·.1 = x.1) with
    | none =>
        have hne := List.find?_eq_none.mp hf x (List.mem_reverse.mpr hm)
        exact absurd (decide_eq_true rfl) hne
    | some y =>
        have hk : y.1 = x.1 := by simpa using List.find?_some hf
        have hy := List.mem_reverse.mp (List.mem_of_find?_eq_some hf)
        exact ⟨y, rfl, congrArg _ (List.inj_on_of_nodup_map h hy hm hk)⟩

end Dictionary

end PatternGrammar
