import PatternGrammar.Text.Basic

/-!
# Dictionaries

Values under texts, listed in the bytewise order of the keys with each key once. The order is the one in
which members are visited and printed.
-/

namespace PatternGrammar

abbrev Dictionary (α : Type) := List (Text × α)

namespace Dictionary

/-- A value put in its place; an earlier value of the same key is replaced. -/
def insert (key : Text) (value : α) : Dictionary α → Dictionary α
  | [] => [(key, value)]
  | (k, v) :: rest =>
      if k = key then (key, value) :: rest
      else if Text.before key k then (key, value) :: (k, v) :: rest
      else (k, v) :: insert key value rest

/-- The value under a key. -/
def get? (key : Text) : Dictionary α → Option α
  | [] => none
  | (k, v) :: rest => if k = key then some v else get? key rest

/-- Some value stands under the key. -/
def holds (key : Text) (d : Dictionary α) : Bool := (get? key d).isSome

/-- The dictionary of these pairs; of pairs with one key the last wins. -/
def ofList (pairs : List (Text × α)) : Dictionary α :=
  pairs.foldl (fun d (k, v) => insert k v d) []

@[simp] theorem get?_nil (key : Text) : get? key ([] : Dictionary α) = none := rfl

theorem get?_insert_self (key : Text) (value : α) (d : Dictionary α) :
    get? key (insert key value d) = some value := by
  induction d with
  | nil => simp [insert, get?]
  | cons m rest ih =>
    obtain ⟨k, v⟩ := m
    by_cases h : k = key
    · simp [insert, h, get?]
    · by_cases hb : Text.before key k
      · simp [insert, h, hb, get?]
      · simp [insert, h, hb, get?, ih]

theorem get?_insert_of_ne {key other : Text} (h : other ≠ key) (value : α) (d : Dictionary α) :
    get? other (insert key value d) = get? other d := by
  induction d with
  | nil => simp [insert, get?, h.symm]
  | cons m rest ih =>
    obtain ⟨k, v⟩ := m
    by_cases hk : k = key
    · subst hk
      simp [insert, get?, h.symm]
    · by_cases hb : Text.before key k
      · simp [insert, hk, hb, get?, h.symm]
      · simp [insert, hk, hb, get?, ih]

end Dictionary

end PatternGrammar
