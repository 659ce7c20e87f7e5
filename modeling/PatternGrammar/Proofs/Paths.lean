import PatternGrammar.Document

/-!
# The path to a description

The path to a description shows in the faults that are found in it, as the beginning of every path that they
name, and nowhere else: what is loaded does not depend on it.
-/

namespace PatternGrammar

/-- The fault as it is found in a description that stands at the end of this path. -/
def ConstructionFault.within (front : Text) : ConstructionFault → ConstructionFault
  | .notText path value => .notText (front ++ path) value
  | .notInteger path value => .notInteger (front ++ path) value
  | .countOutOfRange path value => .countOutOfRange (front ++ path) value
  | .notBoolean path value => .notBoolean (front ++ path) value
  | .notTextList path value => .notTextList (front ++ path) value
  | .notPattern path value => .notPattern (front ++ path) value
  | .unknownKind path name => .unknownKind (front ++ path) name
  | .severalMatchers path keys => .severalMatchers (front ++ path) keys
  | .noMatcher path => .noMatcher (front ++ path)
  | .kindConflict path key kind => .kindConflict (front ++ path) key kind
  | .matcherCount path count => .matcherCount (front ++ path) count
  | .unknownOption path key => .unknownOption (front ++ path) key
  | .notInclude path => .notInclude (front ++ path)
  | .notChain path => .notChain (front ++ path)
  | .capturingFragment source => .capturingFragment source
  | .noRepository => .noRepository
  | .repositoryNotObject => .repositoryNotObject
  | .invalidJson => .invalidJson

/-- The error as it arises in a description that stands at the end of this path. -/
def Error.within (front : Text) : Error → Error
  | .construction fault => .construction (fault.within front)
  | e => e

theorem ConstructionFault.within_injective (front : Text) : Function.Injective (within front) := by
  intro a b h
  cases a <;> cases b <;> simp_all [within]

theorem Error.within_injective (front : Text) : Function.Injective (within front) := by
  intro a b h
  cases a <;> cases b <;> simp_all [within]
  next fault fault' => exact ConstructionFault.within_injective front h

/-- The path that the step is given leads on to the paths that it reports, and that is all it does. -/
def FollowsPath {α : Type} (x : Text → Except Error α) : Prop :=
  ∀ front path, x (front ++ path) = (x path).mapError (Error.within front)

theorem memberPath_append (front path key : Text) :
    memberPath (front ++ path) key = front ++ memberPath path key := by
  simp only [memberPath, List.append_assoc]

theorem itemPath_append (front path : Text) (index : Nat) :
    itemPath (front ++ path) index = front ++ itemPath path index := by
  simp only [itemPath, List.append_assoc]

namespace FollowsPath

variable {α β : Type} {x : Text → Except Error α}

theorem ok (a : α) : FollowsPath fun _ => .ok a := fun _ _ => rfl

/-- A fault that is reported at the path. -/
theorem error {fault : Text → ConstructionFault}
    (h : ∀ front path, fault (front ++ path) = (fault path).within front) :
    FollowsPath fun path => (.error (.construction (fault path)) : Except Error α) := by
  intro front path
  exact congrArg (fun fault => Except.error (Error.construction fault)) (h front path)

theorem bind {f : α → Text → Except Error β} (hx : FollowsPath x) (hf : ∀ a, FollowsPath (f a)) :
    FollowsPath fun path => x path >>= fun a => f a path := by
  intro front path
  dsimp only
  rw [hx]
  cases x path with
  | error e => rfl
  | ok a => exact hf a front path

theorem map (hx : FollowsPath x) (f : α → β) : FollowsPath fun path => x path >>= fun a => pure (f a) :=
  hx.bind fun a => ok (f a)

theorem member (hx : FollowsPath x) (key : Text) : FollowsPath fun path => x (memberPath path key) := by
  intro front path
  dsimp only
  rw [memberPath_append, hx]

theorem item (hx : FollowsPath x) (index : Nat) : FollowsPath fun path => x (itemPath path index) := by
  intro front path
  dsimp only
  rw [itemPath_append, hx]

/-- Where a node is built no path is known. -/
theorem create (kind : Kind) (matcher : Matcher) (a : Attributes) :
    FollowsPath fun _ => Pattern.create kind matcher a := by
  have hcheck : FollowsPath fun _ => matcher.check := by
    intro _ _
    cases matcher with
    | fragment source =>
        simp only [Matcher.check]
        split <;> rfl
    | _ => rfl
  have hparts : FollowsPath fun _ => Node.ofParts kind matcher a := by
    intro _ _
    simp only [Node.ofParts]
    split <;> rfl
  exact hcheck.bind fun _ => hparts.map _

/-- The path makes no difference to what is found. -/
theorem eq_ok_iff (hx : FollowsPath x) (path path' : Text) {a : α} : x path = .ok a ↔ x path' = .ok a := by
  have hnil (path : Text) : x path = .ok a ↔ x [] = .ok a := by
    have h := hx path []
    rw [List.append_nil] at h
    rw [h]
    cases x [] with
    | ok b => exact Iff.rfl
    | error e => constructor <;> intro h <;> cases h
  rw [hnil path, hnil path']

end FollowsPath

/-! ## Values -/

theorem Json.asText_followsPath (v : Json) : FollowsPath (v.asText ·) := by
  cases v with
  | string t => exact .ok t
  | _ => exact .error fun _ _ => rfl

theorem Json.asCount_followsPath (v : Json) : FollowsPath (v.asCount ·) := by
  cases v with
  | int n =>
      intro front path
      simp only [asCount]
      split <;> rfl
  | _ => exact .error fun _ _ => rfl

theorem Json.asBool_followsPath (v : Json) : FollowsPath (v.asBool ·) := by
  cases v with
  | bool b => exact .ok b
  | _ => exact .error fun _ _ => rfl

theorem Json.itemsAsTexts_followsPath (index : Nat) (items : List Json) :
    FollowsPath (itemsAsTexts · index items) := by
  induction items generalizing index with
  | nil => exact .ok []
  | cons v rest ih => exact (v.asText_followsPath.item index).bind fun t => (ih (index + 1)).map (t :: ·)

theorem Json.asTexts_followsPath (v : Json) : FollowsPath (v.asTexts ·) := by
  cases v with
  | string t => exact .ok [t]
  | array items => exact itemsAsTexts_followsPath 0 items
  | _ => exact .error fun _ _ => rfl

/-! ## Parts of a description -/

theorem describedKind?_followsPath (members : Dictionary Json) : FollowsPath (describedKind? · members) := by
  unfold describedKind?
  cases Dictionary.get? "kind" members with
  | none => exact .ok none
  | some value =>
      refine (value.asText_followsPath.member "kind").bind fun name => ?_
      cases Kind.ofName? name with
      | none => exact .error fun _ _ => rfl
      | some kind => exact .ok (some kind)

theorem onlyMatcher_followsPath (members : Dictionary Json) : FollowsPath (onlyMatcher · members) := by
  unfold onlyMatcher
  dsimp only
  split
  · exact .error fun _ _ => rfl
  · exact .ok _
  · exact .error fun _ _ => rfl

theorem describedReference_followsPath (key : MatcherKey) (reference : ReferenceKind) (kind : Option Kind)
    (value : Json) : FollowsPath (describedReference · key reference kind value) := by
  unfold describedReference
  dsimp only
  have hname : FollowsPath fun path => do
      let name ← value.asText (memberPath path key.name)
      return (Matcher.fragment (placeholder reference name), reference.nodeKind) :=
    (value.asText_followsPath.member key.name).map _
  cases kind with
  | none => exact hname
  | some other =>
      by_cases h : other = reference.nodeKind
      · simpa only [h, ne_eq, not_true_eq_false, if_false] using hname
      · simp only [ne_eq, h, not_false_eq_true, if_true]
        exact .error fun _ _ => rfl

section
variable {plugins : List Plugin} {load : Text → Json → Except Error Pattern}
  (hload : ∀ v, FollowsPath (load · v))
include hload

theorem describedLiteral_followsPath (v : Json) : FollowsPath (describedLiteral load · v) := by
  cases v with
  | array items =>
      obtain _ | ⟨one, _ | ⟨second, items⟩⟩ := items
      · exact .error fun _ _ => rfl
      · cases one with
        | string t => exact .ok _
        | object members => exact (hload (.object members)).map _
        | _ => exact .error fun _ _ => rfl
      · exact .error fun _ _ => rfl
  | string t => exact .ok _
  | object members => exact (hload (.object members)).map _
  | _ => exact .error fun _ _ => rfl

theorem MatcherKey.read_followsPath (key : MatcherKey) (kind : Option Kind) (v : Json) :
    FollowsPath (key.read load · kind v) := by
  cases key with
  | literal => exact ((describedLiteral_followsPath hload v).member _).map _
  | regex => exact (v.asText_followsPath.member _).map _
  | matchResultOf => exact describedReference_followsPath .matchResultOf .backReference kind v
  | recursivelyMatch => exact describedReference_followsPath .recursivelyMatch .subroutine kind v

theorem describedMatcher_followsPath (members : Dictionary Json) :
    FollowsPath (describedMatcher load · members) :=
  (describedKind?_followsPath members).bind fun kind =>
    (onlyMatcher_followsPath members).bind fun x => x.1.read_followsPath hload kind x.2

theorem describedInclude_followsPath (v : Json) : FollowsPath (describedInclude load · v) := by
  cases v with
  | string t => exact .ok _
  | object members => exact (hload (.object members)).map _
  | _ => exact .error fun _ _ => rfl

theorem describedIncludesFrom_followsPath (index : Nat) (items : List Json) :
    FollowsPath (describedIncludesFrom load · index items) := by
  induction items generalizing index with
  | nil => exact .ok []
  | cons v rest ih =>
      exact ((describedInclude_followsPath hload v).item index).bind fun entry =>
        (ih (index + 1)).map (entry :: ·)

theorem describedIncludes_followsPath (v : Json) : FollowsPath (describedIncludes load · v) := by
  cases v with
  | array items => exact describedIncludesFrom_followsPath hload 0 items
  | _ => exact (describedInclude_followsPath hload _).map _

theorem OptionReader.read_followsPath (reader : OptionReader) (v : Json) (d : AttributeDraft) :
    FollowsPath fun path => reader.read load path v d := by
  cases reader with
  | apart => exact .ok d
  | includes => exact (describedIncludes_followsPath hload v).map _
  | text put => exact v.asText_followsPath.map _
  | texts put => exact v.asTexts_followsPath.map _
  | count put => exact v.asCount_followsPath.map _
  | flag put => exact v.asBool_followsPath.map _

theorem AttributeDraft.add_followsPath (d : AttributeDraft) (key : Text) (v : Json) :
    FollowsPath fun path => d.add plugins load path key v := by
  unfold AttributeDraft.add
  cases Dictionary.get? key optionReaders with
  | some reader => exact (reader.read_followsPath hload v d).member key
  | none =>
      dsimp only
      split
      · exact .ok _
      · exact FollowsPath.member (@FollowsPath.error _ (fun path => .unknownOption path key) fun _ _ => rfl) key

theorem addOptions_followsPath (members : Dictionary Json) (d : AttributeDraft) :
    FollowsPath (addOptions plugins load · members d) := by
  induction members generalizing d with
  | nil => exact .ok d
  | cons m rest ih => exact (AttributeDraft.add_followsPath hload d m.1 m.2).bind ih

theorem appendDescribed_followsPath (index : Nat) (items : List Json) (p : Pattern) :
    FollowsPath (appendDescribed load · index items p) := by
  induction items generalizing index p with
  | nil => exact .ok p
  | cons v rest ih => exact ((hload v).item index).bind fun q => ih (index + 1) (p.append q)

theorem describedObject_followsPath (members : Dictionary Json) :
    FollowsPath (describedObject plugins load · members) := by
  refine (describedMatcher_followsPath hload members).bind fun x => ?_
  refine (addOptions_followsPath hload members {}).bind fun draft => ?_
  refine FollowsPath.bind (.create x.2 x.1 draft.finish) fun p => ?_
  cases Dictionary.get? "then" members with
  | none => exact .ok p
  | some w =>
      cases w with
      | array items => exact (appendDescribed_followsPath hload 0 items p).member "then"
      | _ => exact FollowsPath.member (@FollowsPath.error _ .notChain fun _ _ => rfl) "then"

end

/-! ## Descriptions -/

theorem loadWithin_followsPath (plugins : List Plugin) (fuel : Nat) (v : Json) :
    FollowsPath (loadWithin plugins fuel · v) := by
  induction fuel generalizing v with
  | zero =>
      cases v with
      | string t => exact .ok _
      | _ => exact .error fun _ _ => rfl
  | succ fuel ih =>
      cases v with
      | string t => exact .ok _
      | object members => exact describedObject_followsPath ih members
      | _ => exact .error fun _ _ => rfl

theorem loadPatternAt_followsPath (plugins : List Plugin) (d : Json) :
    FollowsPath (loadPatternAt plugins · d) :=
  loadWithin_followsPath plugins d.depth d

/-- Loading at a path gives what loading alone gives, and an error there is one that says so with the path in
front. -/
theorem loadPatternAt_eq (plugins : List Plugin) (path : Text) (d : Json) :
    loadPatternAt plugins path d = (loadPatternAt plugins [] d).mapError (Error.within path) := by
  have h := loadPatternAt_followsPath plugins d path []
  rwa [List.append_nil] at h

end PatternGrammar
