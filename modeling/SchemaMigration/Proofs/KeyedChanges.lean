import SchemaMigration.Proofs.Keyed

/-!
# Changes, one key at a time

Both `changesByKey` and `Schema.diff` go through the declared list, look each key up in the observed one, and add what
is left of the observed list (`differencesByKey`). Where keys are unique on either side, the differences with a key `k`
are `differenceAt?` of what the two lists hold at `k`, and nothing else (`filter_differencesByKey`): no other element of
either list matters, and no difference is listed twice.
-/

namespace SchemaMigration

section Differences

variable {α β : Type} {key : α → String} {keyOf : β → String} {both : α → α → Option β} {added removed : α → β}
  {declared observed : List α}

/-- What differs between two lists: `both` of the elements whose key is in both, `added` of those that are only
declared, and then `removed` of those that are only observed. -/
def differencesByKey (key : α → String) (both : α → α → Option β) (added removed : α → β)
    (declared observed : List α) : List β :=
  (declared.filterMap fun x =>
    match lastWithKey key (key x) observed with
    | some y => both x y
    | none => some (added x)) ++
  (observed.filter fun y => !(declared.any fun x => key x == key y)).map removed

/-- What differs at one key, from what the two sides hold there. -/
def differenceAt? (both : α → α → Option β) (added removed : α → β) : Option α → Option α → Option β
  | some x, some y => both x y
  | some x, none => some (added x)
  | none, some y => some (removed y)
  | none, none => none

/-- The differences have the keys of the elements they are about. -/
structure KeepsKey (key : α → String) (keyOf : β → String) (both : α → α → Option β) (added removed : α → β) :
    Prop where
  both : ∀ {x y b}, key x = key y → both x y = some b → keyOf b = key x
  added : ∀ x, keyOf (added x) = key x
  removed : ∀ y, keyOf (removed y) = key y

/-- The differences with one key depend on that key only. -/
theorem filter_differencesByKey (h : KeepsKey key keyOf both added removed) (hd : KeysUnique key declared)
    (ho : KeysUnique key observed) (k : String) :
    (differencesByKey key both added removed declared observed).filter (fun b => keyOf b == k) =
      (differenceAt? both added removed (withKey? key k declared) (withKey? key k observed)).toList := by
  let onDeclared (x : α) : Option β :=
    match withKey? key (key x) observed with
    | some y => both x y
    | none => some (added x)
  have hkey : ∀ x b, onDeclared x = some b → keyOf b = key x := by
    intro x b hb
    simp only [onDeclared] at hb
    cases hy : withKey? key (key x) observed with
    | none => rw [hy] at hb; cases hb; exact h.added x
    | some y => rw [hy] at hb; exact h.both (key_of_withKey? hy).symm hb
  have hfirst : (declared.filterMap onDeclared).filter (fun b => keyOf b == k) =
      (withKey? key k declared).toList.filterMap onDeclared := by
    rw [← hd.filter_key, List.filterMap_filter, List.filter_filterMap]
    refine List.filterMap_congr fun x _ => ?_
    cases hb : onDeclared x with
    | none => simp
    | some b => simp [Option.filter, hkey x b hb]
  have hsecond : ((observed.filter fun y => !(declared.any fun x => key x == key y)).map removed).filter
      (fun b => keyOf b == k) =
      ((withKey? key k observed).toList.filter fun y => !(declared.any fun x => key x == key y)).map removed := by
    rw [← ho.filter_key, List.filter_map, List.filter_filter, List.filter_filter]
    congr 1
    refine List.filter_congr fun y _ => ?_
    simp [h.removed, Bool.and_comm]
  simp only [differencesByKey, ho.lastWithKey_eq, List.filter_append]
  rw [show (declared.filterMap fun x => match withKey? key (key x) observed with
    | some y => both x y
    | none => some (added x)) = declared.filterMap onDeclared from rfl, hfirst, hsecond]
  cases hx : withKey? key k declared with
  | none =>
    have hout : ∀ x ∈ declared, key x ≠ k := withKey?_eq_none_iff.1 hx
    cases hy : withKey? key k observed with
    | none => simp [differenceAt?]
    | some y =>
      have hyk := key_of_withKey? hy
      have hany : (declared.any fun x => key x == key y) = false := by simpa [hyk] using hout
      simp [differenceAt?, hany]
  | some x =>
    obtain ⟨hxm, rfl⟩ := hd.withKey?_eq_some_iff.1 hx
    cases hy : withKey? key (key x) observed with
    | none => simp [differenceAt?, onDeclared, hy]
    | some y =>
      have hany : (declared.any fun z => key z == key y) = true :=
        List.any_eq_true.2 ⟨x, hxm, by simp [key_of_withKey? hy]⟩
      cases hb : both x y <;> simp [differenceAt?, onDeclared, hy, hany, hb]

/-- No two differences have the same key. -/
theorem differencesByKey_keysUnique (h : KeepsKey key keyOf both added removed) (hd : KeysUnique key declared)
    (ho : KeysUnique key observed) : KeysUnique keyOf (differencesByKey key both added removed declared observed) := by
  refine KeysUnique.of_filter_length_le fun k => ?_
  rw [filter_differencesByKey h hd ho]
  cases differenceAt? both added removed (withKey? key k declared) (withKey? key k observed) <;> simp

theorem withKey?_differencesByKey (h : KeepsKey key keyOf both added removed) (hd : KeysUnique key declared)
    (ho : KeysUnique key observed) (k : String) :
    withKey? keyOf k (differencesByKey key both added removed declared observed) =
      differenceAt? both added removed (withKey? key k declared) (withKey? key k observed) := by
  have hfilter := filter_differencesByKey h hd ho k
  rw [(differencesByKey_keysUnique h hd ho).filter_key] at hfilter
  simpa using congrArg List.head? hfilter

/-- A difference is listed if it is the one at its key. -/
theorem mem_differencesByKey_iff (h : KeepsKey key keyOf both added removed) (hd : KeysUnique key declared)
    (ho : KeysUnique key observed) {b : β} :
    b ∈ differencesByKey key both added removed declared observed ↔
      differenceAt? both added removed (withKey? key (keyOf b) declared) (withKey? key (keyOf b) observed) =
        some b := by
  rw [← withKey?_differencesByKey h hd ho, (differencesByKey_keysUnique h hd ho).withKey?_eq_some_iff]
  simp

end Differences

/-! ## Changes of objects with a key -/

/-- The key of the object that changes. -/
def Change.key {α : Type} (key : α → String) : Change α → String
  | .added x | .altered x _ => key x
  | .removed y => key y

theorem Change.key_declared {α : Type} {key : α → String} {c : Change α} {x : α} (h : c.declared? = some x) :
    c.key key = key x := by
  cases c with
  | added y | altered y _ => cases h; rfl
  | removed _ => cases h

/-- Both sides of a change have the same key. -/
def Change.Matched {α : Type} (key : α → String) (c : Change α) : Prop :=
  ∀ x ∈ c.declared?, ∀ y ∈ c.observed?, key x = key y

section Changes

variable {α : Type} {key : α → String} {same : α → α → Bool} {declared observed : List α}

/-- The change between two objects, unless they are the same. -/
def alteredUnless (same : α → α → Bool) (x y : α) : Option (Change α) :=
  if same x y then none else some (.altered x y)

/-- The change at one key, from what the two sides hold there. -/
def changeAt? (same : α → α → Bool) : Option α → Option α → Option (Change α) :=
  differenceAt? (alteredUnless same) .added .removed

/-- The change at a key has the sides that the two lists hold there. -/
theorem sides_of_changeAt? {x? y? : Option α} {c : Change α} (h : changeAt? same x? y? = some c) :
    c.declared? = x? ∧ c.observed? = y? := by
  cases x? with
  | none =>
    cases y? with
    | none => cases h
    | some y => cases h; exact ⟨rfl, rfl⟩
  | some x =>
    cases y? with
    | none => cases h; exact ⟨rfl, rfl⟩
    | some y =>
      simp only [changeAt?, differenceAt?, alteredUnless, Option.ite_none_left_eq_some] at h
      cases h.2
      exact ⟨rfl, rfl⟩

theorem keepsKey_change : KeepsKey key (Change.key key) (alteredUnless same) .added .removed where
  both := by
    intro x y c _ hc
    simp only [alteredUnless, Option.ite_none_left_eq_some] at hc
    cases hc.2
    rfl
  added _ := rfl
  removed _ := rfl

theorem filter_changesByKey (hd : KeysUnique key declared) (ho : KeysUnique key observed) (k : String) :
    (changesByKey key same declared observed).filter (fun c => c.key key == k) =
      (changeAt? same (withKey? key k declared) (withKey? key k observed)).toList :=
  filter_differencesByKey keepsKey_change hd ho k

/-- The change that a list of changes holds has the sides that the two lists hold at its key. -/
theorem sides_of_mem_changesByKey (hd : KeysUnique key declared) (ho : KeysUnique key observed) {c : Change α}
    (h : c ∈ changesByKey key same declared observed) :
    c.declared? = withKey? key (c.key key) declared ∧ c.observed? = withKey? key (c.key key) observed :=
  sides_of_changeAt? ((mem_differencesByKey_iff keepsKey_change hd ho).1 h)

/-- The two sides of a change in the list have the same key. -/
theorem matched_of_mem_changesByKey (hd : KeysUnique key declared) (ho : KeysUnique key observed) {c : Change α}
    (h : c ∈ changesByKey key same declared observed) : c.Matched key := by
  obtain ⟨hx, hy⟩ := sides_of_mem_changesByKey hd ho h
  intro x hxc y hyc
  rw [hx] at hxc
  rw [hy] at hyc
  rw [key_of_withKey? hxc, key_of_withKey? hyc]

theorem changesByKey_keysUnique (hd : KeysUnique key declared) (ho : KeysUnique key observed) :
    KeysUnique (Change.key key) (changesByKey key same declared observed) :=
  differencesByKey_keysUnique keepsKey_change hd ho

theorem withKey?_changesByKey (hd : KeysUnique key declared) (ho : KeysUnique key observed) (k : String) :
    withKey? (Change.key key) k (changesByKey key same declared observed) =
      changeAt? same (withKey? key k declared) (withKey? key k observed) :=
  withKey?_differencesByKey keepsKey_change hd ho k

end Changes

end SchemaMigration
