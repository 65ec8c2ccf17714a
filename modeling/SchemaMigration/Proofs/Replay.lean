import SchemaMigration.Proofs.KeyedChanges

/-!
# Replaying changes

Changes can be replayed on a list: added objects are put at its end, removed ones are taken out, and an altered one
gives way to its declared side (`Change.replay`). `ExactChanges` says that a list of changes is exactly what leads from
an observed list to a declared one: it says nothing twice, invents no object, changes nothing that could stay, and its
replay gives the declared objects. The changes found by key are that, for any comparison (`exactChanges_changesByKey`);
in particular there are none exactly if the two lists hold the same objects (`ExactChanges.eq_nil_iff`).
-/

namespace SchemaMigration

section Replay

variable {α : Type} [DecidableEq α] {key : α → String} {xs : List α} {c : Change α} {cs : List (Change α)}

/-- The list once a change is made. -/
def Change.applyTo (xs : List α) : Change α → List α
  | .added x => xs ++ [x]
  | .removed y => xs.filter (· ≠ y)
  | .altered x y => xs.map fun z => if z = y then x else z

/-- The list once changes are made in their order. -/
def Change.replay (cs : List (Change α)) (xs : List α) : List α :=
  cs.foldl Change.applyTo xs

/-- A change with matching sides whose observed side is what a list holds at its key. -/
structure Change.Fits (key : α → String) (xs : List α) (c : Change α) : Prop where
  matched : c.Matched key
  observed : c.observed? = withKey? key (c.key key) xs

theorem Change.Fits.keysUnique_applyTo (h : c.Fits key xs) (hx : KeysUnique key xs) :
    KeysUnique key (c.applyTo xs) := by
  cases c with
  | added x =>
    have hout : ∀ y ∈ xs, key y ≠ key x := withKey?_eq_none_iff.1 h.observed.symm
    rw [applyTo, KeysUnique, List.map_append, List.map_singleton]
    refine List.Nodup.append hx (List.nodup_singleton _) fun k hk hkx => ?_
    obtain ⟨y, hy, rfl⟩ := List.mem_map.1 hk
    exact hout y hy (List.mem_singleton.1 hkx)
  | removed y => exact hx.filter _
  | altered x y =>
    have hkeys : (xs.map fun z => if z = y then x else z).map key = xs.map key := by
      rw [List.map_map]
      refine List.map_congr_left fun z _ => ?_
      by_cases hz : z = y
      · simp [hz, h.matched x rfl y rfl]
      · simp [hz]
    rw [applyTo, KeysUnique, hkeys]
    exact hx

/-- A change replaces what has its key. -/
theorem Change.Fits.mem_applyTo_iff (h : c.Fits key xs) (hx : KeysUnique key xs) (z : α) :
    z ∈ c.applyTo xs ↔ c.declared? = some z ∨ (z ∈ xs ∧ key z ≠ c.key key) := by
  cases c with
  | added x =>
    have hout : ∀ y ∈ xs, key y ≠ key x := withKey?_eq_none_iff.1 h.observed.symm
    simp only [applyTo, declared?, Change.key, List.mem_append, List.mem_singleton, Option.some.injEq]
    constructor
    · rintro (hz | rfl)
      · exact .inr ⟨hz, hout z hz⟩
      · exact .inl rfl
    · rintro (rfl | hz)
      · exact .inr rfl
      · exact .inl hz.1
  | removed y =>
    have hy : y ∈ xs := mem_of_withKey? h.observed.symm
    simp only [applyTo, declared?, Change.key, List.mem_filter, decide_eq_true_eq, reduceCtorEq, false_or]
    refine and_congr_right fun hz => not_congr ⟨congrArg key, fun hk => hx.eq_of_key_eq hz hy hk⟩
  | altered x y =>
    have hxy : key x = key y := h.matched x rfl y rfl
    have hy : y ∈ xs := mem_of_withKey? h.observed.symm
    simp only [applyTo, declared?, Change.key, List.mem_map, Option.some.injEq]
    constructor
    · rintro ⟨w, hw, rfl⟩
      by_cases hwy : w = y
      · exact .inl (if_pos hwy).symm
      · rw [if_neg hwy]
        exact .inr ⟨hw, fun hk => hwy (hx.eq_of_key_eq hw hy (hk.trans hxy))⟩
    · rintro (rfl | ⟨hz, hk⟩)
      · exact ⟨y, hy, if_pos rfl⟩
      · have hzy : z ≠ y := fun he => hk (by rw [he, hxy])
        exact ⟨z, hz, if_neg hzy⟩

/-- After a change its declared side stands at its key, and nothing else is different. -/
theorem Change.Fits.withKey?_applyTo (h : c.Fits key xs) (hx : KeysUnique key xs) (k : String) :
    withKey? key k (c.applyTo xs) = if c.key key = k then c.declared? else withKey? key k xs := by
  ext z
  rw [(h.keysUnique_applyTo hx).withKey?_eq_some_iff, h.mem_applyTo_iff hx]
  by_cases hk : c.key key = k
  · subst hk
    simp only [ite_true]
    constructor
    · rintro ⟨hz | hz, hkey⟩
      · exact hz
      · exact absurd hkey hz.2
    · exact fun hz => ⟨.inl hz, (Change.key_declared hz).symm⟩
  · rw [if_neg hk, hx.withKey?_eq_some_iff]
    constructor
    · rintro ⟨hz | hz, rfl⟩
      · exact absurd (Change.key_declared hz) hk
      · exact ⟨hz.1, rfl⟩
    · rintro ⟨hz, rfl⟩
      exact ⟨.inr ⟨hz, Ne.symm hk⟩, rfl⟩

/-- After changes with different keys the list holds at each key the declared side of the change there, if there is one,
and what it held before, if not. -/
theorem Change.withKey?_replay (hcs : KeysUnique (Change.key key) cs) (hx : KeysUnique key xs)
    (h : ∀ c ∈ cs, c.Fits key xs) :
    KeysUnique key (Change.replay cs xs) ∧ ∀ k, withKey? key k (Change.replay cs xs) =
      match withKey? (Change.key key) k cs with
      | some c => c.declared?
      | none => withKey? key k xs := by
  induction cs generalizing xs with
  | nil => exact ⟨hx, fun _ => rfl⟩
  | cons c cs ih =>
    obtain ⟨hc, hrest⟩ := List.forall_mem_cons.1 h
    have hout : ∀ b ∈ cs, c.key key ≠ b.key key := fun b hb he =>
      (List.nodup_cons.1 hcs).1 (he ▸ List.mem_map_of_mem hb)
    -- the other changes have other keys, where the list is as it was
    have hfits : ∀ b ∈ cs, b.Fits key (c.applyTo xs) := fun b hb =>
      ⟨(hrest b hb).matched, by rw [hc.withKey?_applyTo hx, if_neg (hout b hb)]; exact (hrest b hb).observed⟩
    obtain ⟨hunique, hread⟩ := ih hcs.tail (hc.keysUnique_applyTo hx) hfits
    refine ⟨hunique, fun k => ?_⟩
    have hstep : Change.replay (c :: cs) xs = Change.replay cs (c.applyTo xs) := rfl
    rw [hstep, hread k, hc.withKey?_applyTo hx]
    by_cases hk : c.key key = k
    · subst hk
      have hnone : withKey? (Change.key key) (c.key key) cs = none :=
        withKey?_eq_none_iff.2 fun b hb => Ne.symm (hout b hb)
      simp [withKey?_cons, hnone]
    · simp [withKey?_cons, hk]

end Replay

/-! ## Exactly the changes -/

section Exact

variable {α : Type} [DecidableEq α] {key : α → String} {R : α → α → Prop} {same : α → α → Bool}
  {declared observed : List α} {cs : List (Change α)}

/-- A change that is needed between two lists: an object that is on one side only, or one that differs. -/
def Change.Needed (key : α → String) (R : α → α → Prop) (declared observed : List α) : Change α → Prop
  | .added x => ∀ y ∈ observed, key y ≠ key x
  | .removed y => ∀ x ∈ declared, key x ≠ key y
  | .altered x y => key x = key y ∧ ¬ R x y

/-- The changes are exactly those from `observed` to `declared`, two objects with one key being the same if `R` says
so. -/
structure ExactChanges (key : α → String) (R : α → α → Prop) (declared observed : List α) (cs : List (Change α)) :
    Prop where
  /-- No two changes are about one key. -/
  once : KeysUnique (Change.key key) cs
  /-- Declared sides are declared. -/
  declared_mem : ∀ c ∈ cs, ∀ x ∈ c.declared?, x ∈ declared
  /-- Observed sides are observed. -/
  observed_mem : ∀ c ∈ cs, ∀ y ∈ c.observed?, y ∈ observed
  /-- There is no change that could be left out. -/
  needed : ∀ c ∈ cs, c.Needed key R declared observed
  /-- No change is missing. -/
  complete : SameByKey key R declared (Change.replay cs observed)

theorem exactChanges_changesByKey (hd : KeysUnique key declared) (ho : KeysUnique key observed)
    (hsame : ∀ {x y}, key x = key y → (same x y = true ↔ R x y)) (hrefl : ∀ x, R x x) :
    ExactChanges key R declared observed (changesByKey key same declared observed) where
  once := changesByKey_keysUnique hd ho
  declared_mem c hc x hx := by
    rw [(sides_of_mem_changesByKey hd ho hc).1] at hx
    exact mem_of_withKey? hx
  observed_mem c hc y hy := by
    rw [(sides_of_mem_changesByKey hd ho hc).2] at hy
    exact mem_of_withKey? hy
  needed c hc := by
    have hmatched := matched_of_mem_changesByKey hd ho hc
    have hat := (mem_differencesByKey_iff keepsKey_change hd ho).1 hc
    obtain ⟨hx, hy⟩ := sides_of_mem_changesByKey hd ho hc
    rw [← hx, ← hy] at hat
    cases c with
    | added x => exact withKey?_eq_none_iff.1 hy.symm
    | removed y => exact withKey?_eq_none_iff.1 hx.symm
    | altered x y =>
      have hkey : key x = key y := hmatched x rfl y rfl
      refine ⟨hkey, fun hR => ?_⟩
      simp [Change.declared?, Change.observed?, differenceAt?, alteredUnless, (hsame hkey).2 hR] at hat
  complete := by
    have hfits : ∀ c ∈ changesByKey key same declared observed, c.Fits key observed := fun c hc =>
      ⟨matched_of_mem_changesByKey hd ho hc, (sides_of_mem_changesByKey hd ho hc).2⟩
    obtain ⟨hunique, hread⟩ := Change.withKey?_replay (changesByKey_keysUnique hd ho) ho hfits
    refine (sameByKey_iff hd hunique).2 fun k => ?_
    rw [hread k, withKey?_changesByKey hd ho]
    cases hx : withKey? key k declared with
    | none => cases hy : withKey? key k observed <;> exact .none
    | some x =>
      cases hy : withKey? key k observed with
      | none => exact .some (hrefl x)
      | some y =>
        have hkey : key x = key y := (key_of_withKey? hx).trans (key_of_withKey? hy).symm
        cases hs : same x y with
        | true => simpa [changeAt?, differenceAt?, alteredUnless, hs] using (hsame hkey).1 hs
        | false => simpa [changeAt?, differenceAt?, alteredUnless, hs, Change.declared?] using hrefl x

/-- Exact changes are none if and only if both sides hold the same objects. -/
theorem ExactChanges.eq_nil_iff (h : ExactChanges key R declared observed cs) :
    cs = [] ↔ SameByKey key R declared observed := by
  constructor
  · rintro rfl
    exact h.complete
  · intro hsame
    refine List.eq_nil_iff_forall_not_mem.2 fun c hc => ?_
    have hneeded := h.needed c hc
    cases c with
    | added x =>
      have hx : key x ∈ observed.map key := hsame.keys.mem_iff.1 (List.mem_map_of_mem (h.declared_mem _ hc x rfl))
      obtain ⟨y, hy, hk⟩ := List.mem_map.1 hx
      exact hneeded y hy hk
    | removed y =>
      have hy : key y ∈ declared.map key := hsame.keys.mem_iff.2 (List.mem_map_of_mem (h.observed_mem _ hc y rfl))
      obtain ⟨x, hx, hk⟩ := List.mem_map.1 hy
      exact hneeded x hx hk
    | altered x y =>
      obtain ⟨hk, hR⟩ := hneeded
      exact hR (hsame.related x (h.declared_mem _ hc x rfl) y (h.observed_mem _ hc y rfl) hk)

end Exact

end SchemaMigration
