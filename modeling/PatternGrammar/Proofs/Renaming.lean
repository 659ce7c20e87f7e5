import Mathlib.Data.List.Forall2
import PatternGrammar.Proofs.Mapping

/-!
# Renaming tags

The renames of one change of tags are applied one after the other, each to the tag that those before it have
left. That is the same as renaming all old tags at once, unless a rename that concerns a node gives it a tag
that is renamed further on.
-/

namespace PatternGrammar

/-! ## What becomes of a tag -/

/-- The node goes by this name: it is its tag or its reference. -/
def Options.GoesBy (o : Options) (name : Text) : Prop := o.tagAs = some name ∨ o.reference = some name

instance (o : Options) (name : Text) : Decidable (o.GoesBy name) :=
  inferInstanceAs (Decidable (o.tagAs = some name ∨ o.reference = some name))

/-- No rename takes up a tag that an earlier one has given to the node, unless the node went by it before. -/
def ReTag.Apart (r : ReTag) (o : Options) : Prop :=
  r.renames.Pairwise fun earlier later => o.GoesBy earlier.1 → earlier.2 = later.1 → o.GoesBy later.1

instance (r : ReTag) (o : Options) : Decidable (r.Apart o) :=
  inferInstanceAs (Decidable (List.Pairwise _ r.renames))

/-- The tag with the suffix, if there is one. -/
def ReTag.extended (r : ReTag) (tag : Text) : Text :=
  match r.suffix with
  | some suffix => tag ++ "." ++ suffix
  | none => tag

/-- The tag is the new name of a rename of one of the names that the node went by. -/
def ReTag.GivesNew (r : ReTag) (o : Options) (tag : Option Text) : Prop :=
  ∃ x ∈ r.renames, o.GoesBy x.1 ∧ tag = some (r.extended x.2)

instance (r : ReTag) (o : Options) (tag : Option Text) : Decidable (r.GivesNew o tag) :=
  inferInstanceAs (Decidable (∃ x ∈ r.renames, o.GoesBy x.1 ∧ tag = some (r.extended x.2)))

/-- The tag is the one that the node had, if it is to be kept. -/
def ReTag.LeavesOld (r : ReTag) (o : Options) (tag : Option Text) : Prop :=
  tag = if r.keep = true ∨ r.suffix.isSome then o.tagAs.map r.extended else none

/-! ## The renames one by one -/

section
variable {renames : Dictionary Text} {tag : Option Text}

theorem applyRenames_of_forall_not {r : Option Text} (h : ∀ x ∈ renames, ¬ (tag = some x.1 ∨ r = some x.1)) :
    applyRenames r renames tag = (tag, false) := by
  induction renames with
  | nil => rfl
  | cons first rest ih =>
      obtain ⟨hfirst, hrest⟩ := List.forall_mem_cons.mp h
      rw [applyRenames, if_neg (by simpa using hfirst), ih hrest]

/-- Of renames that do not take up each other's tags, one that applies applies to a name that the node went by
from the start. -/
theorem applyRenames_of_pairwise {o : Options}
    (hp : renames.Pairwise fun earlier later => o.GoesBy earlier.1 → earlier.2 = later.1 → o.GoesBy later.1)
    (ht : ∀ x ∈ renames, tag = some x.1 → o.GoesBy x.1)
    (hm : ∃ x ∈ renames, tag = some x.1 ∨ o.reference = some x.1) :
    ∃ x ∈ renames, o.GoesBy x.1 ∧ applyRenames o.reference renames tag = (some x.2, true) := by
  induction renames generalizing tag with
  | nil =>
      obtain ⟨x, hx, -⟩ := hm
      cases hx
  | cons first rest ih =>
      obtain ⟨key, new⟩ := first
      obtain ⟨hfirst, hrest⟩ := List.pairwise_cons.mp hp
      obtain ⟨hkey, htrest⟩ := List.forall_mem_cons.mp ht
      rw [applyRenames]
      by_cases hk : tag = some key ∨ o.reference = some key
      · have hgoes : o.GoesBy key := hk.elim hkey .inr
        rw [if_pos (by simpa using hk)]
        by_cases hnext : ∃ x ∈ rest, some new = some x.1 ∨ o.reference = some x.1
        · have hnew : ∀ x ∈ rest, some new = some x.1 → o.GoesBy x.1 :=
            fun x hx he => hfirst x hx hgoes (Option.some.inj he)
          obtain ⟨x, hx, hg, he⟩ := ih hrest hnew hnext
          exact ⟨x, List.mem_cons_of_mem _ hx, hg, by rw [he]⟩
        · have he := applyRenames_of_forall_not (r := o.reference) fun x hx h => hnext ⟨x, hx, h⟩
          exact ⟨_, List.mem_cons_self, hgoes, by rw [he]⟩
      · obtain ⟨y, hy, hmatch⟩ := hm
        have hmrest : ∃ x ∈ rest, tag = some x.1 ∨ o.reference = some x.1 := by
          rcases List.mem_cons.mp hy with rfl | hy
          · exact absurd hmatch hk
          · exact ⟨y, hy, hmatch⟩
        obtain ⟨x, hx, hg, he⟩ := ih hrest htrest hmrest
        rw [if_neg (by simpa using hk)]
        exact ⟨x, List.mem_cons_of_mem _ hx, hg, he⟩

end

namespace ReTag

variable {r : ReTag} {a : Attributes}

theorem leavesOld_newTag (h : ∀ x ∈ r.renames, ¬ a.GoesBy x.1) : r.LeavesOld a.toOptions (r.newTag a) := by
  have he := applyRenames_of_forall_not h
  unfold LeavesOld newTag extended
  rw [he]
  cases r.suffix with
  | none => simp
  | some suffix => simp

theorem givesNew_newTag (hp : r.Apart a.toOptions) (h : ∃ x ∈ r.renames, a.GoesBy x.1) :
    r.GivesNew a.toOptions (r.newTag a) := by
  obtain ⟨x, hx, hg, he⟩ := applyRenames_of_pairwise hp (fun _ _ => .inl) h
  refine ⟨x, hx, hg, ?_⟩
  unfold newTag extended
  rw [he]
  cases r.suffix with
  | none => simp
  | some suffix => rfl

end ReTag

/-- The tag of each node, which stays at its place, comes from the tag and the reference that the node had. A node
that no rename concerns keeps its tag, with the suffix if there is one, or loses it if tags are not to be kept. A
node that a rename concerns gets a new tag from such a rename, if no rename takes up what another one has given. -/
theorem Pattern.reTag_renames_old (p : Pattern) (r : ReTag) :
    List.Forall₂
      (fun x y => y.1 = x.1 ∧
        ((∀ z ∈ r.renames, ¬ x.2.head.options.GoesBy z.1) →
          r.LeavesOld x.2.head.options y.2.head.options.tagAs) ∧
        ((∃ z ∈ r.renames, x.2.head.options.GoesBy z.1) → r.Apart x.2.head.options →
          r.GivesNew x.2.head.options y.2.head.options.tagAs))
      (p.nodes {}) ((p.reTag r).nodes {}) := by
  rw [Pattern.reTag, p.nodes_mapAttributes, List.forall₂_map_right_iff, List.forall₂_same]
  intro x _
  have htag : (nodesMapped (fun a => { a with tagAs := r.newTag a }) x).2.head.options.tagAs =
      r.newTag x.2.head.attributes := by
    rw [nodesMapped, Pattern.head_mapAttributes, Node.options_mapAttributes]
  rw [htag]
  exact ⟨rfl, fun h => ReTag.leavesOld_newTag (a := x.2.head.attributes) h,
    fun h hp => ReTag.givesNew_newTag (a := x.2.head.attributes) hp h⟩

/-- Two letters with tags, the second of which has a reference too. -/
def taggedLetters : Pattern :=
  .link (.mk .plain (.literal "x") none { tagAs := some "a" } {})
    (.last (.mk .plain (.literal "y") none { tagAs := some "b", reference := some "r" } {}))

/-- The tags of the two letters after a change. -/
def ReTag.ofLetters (r : ReTag) : List Text :=
  ((taggedLetters.reTag r).nodes {}).filterMap (·.2.head.options.tagAs)

/-- One node is renamed by its tag, and the other one by its reference. -/
def renamedByBoth : ReTag := { suffix := some "s", renames := [("a", "t"), ("r", "u")] }

theorem taggedLetters_renamed :
    let o : Options := { tagAs := some "b", reference := some "r" }
    (∃ z ∈ renamedByBoth.renames, o.GoesBy z.1) ∧ renamedByBoth.Apart o ∧
      renamedByBoth.GivesNew o (some "u.s") ∧ renamedByBoth.ofLetters = (["t.s", "u.s"] : List Text) := by
  have h : List.Forall₂ _ [_, _] [_, _] := taggedLetters.reTag_renames_old renamedByBoth
  obtain ⟨-, h⟩ := List.forall₂_cons.mp h
  obtain ⟨⟨-, -, hnew⟩, -⟩ := List.forall₂_cons.mp h
  have hgoes : ∃ z ∈ renamedByBoth.renames, Options.GoesBy { tagAs := some "b", reference := some "r" } z.1 :=
    ⟨("r", "u"), by decide, .inr rfl⟩
  have hapart : renamedByBoth.Apart { tagAs := some "b", reference := some "r" } := by decide
  exact ⟨hgoes, hapart, hnew hgoes hapart, rfl⟩

/-- Two tags are to change places. -/
def swap : ReTag := { renames := [("a", "b"), ("b", "a")] }

/-- A tag is to become the next one, and that the one after it. -/
def movedUp : ReTag := { renames := [("a", "b"), ("b", "c")] }

/-- The first tag becomes the second one and is then taken for it, so that both nodes end with one tag. -/
theorem swap_takes_up_new_tag :
    (∃ z ∈ swap.renames, Options.GoesBy { tagAs := some "a" } z.1) ∧
      swap.ofLetters = (["a", "a"] : List Text) ∧ ¬ swap.GivesNew { tagAs := some "a" } (some "a") ∧
      movedUp.ofLetters = (["c", "c"] : List Text) ∧ ¬ movedUp.GivesNew { tagAs := some "a" } (some "c") :=
  ⟨⟨("a", "b"), List.mem_cons_self, .inl rfl⟩, rfl, by decide, rfl, by decide⟩

end PatternGrammar
