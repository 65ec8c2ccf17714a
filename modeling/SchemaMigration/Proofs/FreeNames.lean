import SchemaMigration.Proofs.PlannedFiles
import Mathlib.Data.Finset.Card
import Mathlib.Data.List.Forall2

/-!
# Names that are free

The search for the name of a new migration goes through the base name and then the names with the numbers two, three and
so on behind it. These are all different (`Naming.candidate_injective`), so where finitely many names are taken, one of
the first ones is free, and the search ends with it, however the surroundings are asked
(`Naming.Runner.exists_run_choose`). Every name before it is asked for once, and the number does not get too great
(`choose_gives_first_free`).
-/

namespace SchemaMigration.Naming

/-! ## What the names look like -/

/-- The characters that a name may take over from the user: letters and digits of ASCII, and hyphens. -/
def Keeps (c : Char) : Prop :=
  ('A' ≤ c ∧ c ≤ 'Z') ∨ ('a' ≤ c ∧ c ≤ 'z') ∨ ('0' ≤ c ∧ c ≤ '9') ∨ c = '-'

/-- How one character of the user's name is shown. -/
inductive Shows : Char → Char → Prop
  | kept {c : Char} (h : Keeps c) : Shows c c
  | replaced {c : Char} (h : ¬ Keeps c) : Shows c '_'

/-- The base name as it is documented: the date, and behind an underscore the user's name, if there is one that is not
empty, shown character by character. -/
inductive IsBase (now : Instant) : Option String → List Char → Prop
  | unnamed : IsBase now none (stamp now)
  | empty : IsBase now (some "") (stamp now)
  | named {user : String} {shown : List Char} (hne : user ≠ "") (h : List.Forall₂ Shows user.toList shown) :
    IsBase now (some user) (stamp now ++ '_' :: shown)

theorem isNameChar_iff (c : Char) : isNameChar c = true ↔ Keeps c := by
  simp only [isNameChar, Text.isLetter, Text.isDigit, Keeps, Bool.or_eq_true, Bool.and_eq_true, decide_eq_true_eq,
    beq_iff_eq]
  tauto

theorem shows_sanitize (cs : List Char) : List.Forall₂ Shows cs (sanitize cs) := by
  refine List.forall₂_map_right_iff.2 (List.forall₂_same.2 fun c _ => ?_)
  by_cases hc : isNameChar c = true
  · rw [if_pos hc]
    exact .kept ((isNameChar_iff c).1 hc)
  · rw [if_neg hc]
    exact .replaced fun h => hc ((isNameChar_iff c).2 h)

theorem isBase_baseName (now : Instant) (user : Option String) : IsBase now user (baseName now user) := by
  cases user with
  | none => exact .unnamed
  | some user =>
    by_cases huser : user = ""
    · subst huser
      exact .empty
    · have hbase : baseName now (some user) = stamp now ++ '_' :: sanitize user.toList := by
        simp [baseName, huser]
      rw [hbase]
      exact .named huser (shows_sanitize _)

/-! ## The names in turn -/

/-- The names that are tried, in this order: the base name, then those with the numbers from two on. -/
def candidate (base : List Char) : Nat → String
  | 0 => String.ofList base
  | i + 1 => numbered base (i + 2)

theorem numbered_inj {base : List Char} {k l : Nat} (h : numbered base k = numbered base l) : k = l := by
  have htext : Text.natText k = Text.natText l :=
    List.tail_eq_of_cons_eq (List.append_cancel_left (String.ofList_injective h))
  have hvalue := congrArg (Text.decimalValue 0) htext
  rwa [Number.decimalValue_natText, Number.decimalValue_natText] at hvalue

theorem numbered_ne_base (base : List Char) (k : Nat) : numbered base k ≠ String.ofList base := by
  intro h
  have hlength := congrArg List.length (String.ofList_injective h)
  simp at hlength

theorem candidate_injective (base : List Char) : Function.Injective (candidate base) := by
  intro i j h
  match i, j with
  | 0, 0 => rfl
  | 0, j + 1 => exact absurd h.symm (numbered_ne_base base (j + 2))
  | i + 1, 0 => exact absurd h (numbered_ne_base base (i + 2))
  | i + 1, j + 1 =>
    have hnumbers := numbered_inj h
    omega

/-- If the first `l` names are among finitely many ones, then these are not fewer. -/
theorem le_card_of_candidates {base : List Char} {names : Finset String} {l : Nat}
    (h : ∀ j < l, candidate base j ∈ names) : l ≤ names.card := by
  have hsubset : (Finset.range l).image (candidate base) ⊆ names := by
    intro name hname
    obtain ⟨j, hj, rfl⟩ := Finset.mem_image.1 hname
    exact h j (Finset.mem_range.1 hj)
  have hcard := Finset.card_le_card hsubset
  rwa [Finset.card_image_of_injective _ (candidate_injective base), Finset.card_range] at hcard

/-! ## The search -/

/-- A way to run programs on a state that is passed along. -/
structure Runner (m : Type → Type) [Monad m] (σ : Type) where
  run : ∀ {α : Type}, m α → σ → α × σ
  run_pure : ∀ {α : Type} (a : α) (s : σ), run (pure a) s = (a, s)
  run_bind : ∀ {α β : Type} (x : m α) (f : α → m β) (s : σ), run (x >>= f) s = run (f (run x s).1) (run x s).2

namespace Runner

variable {m : Type → Type} [Monad m] {σ : Type} (r : Runner m σ) {isTaken : String → m Bool} {taken : String → Bool}
  {after : List String → σ}
  (hask : ∀ asked name, r.run (isTaken name) (after asked) = (taken name, after (asked ++ [name])))

include hask

/-- The search through the names with numbers ends behind names that are taken: with one that is free, or with the one
after all those that it asks for. -/
theorem exists_run_firstFree (base : List Char) (fuel k : Nat) (asked : List String) :
    ∃ l n, k ≤ l ∧ (∀ j, k ≤ j → j < l → taken (numbered base j) = true) ∧
      r.run (firstFree isTaken base fuel k) (after asked) =
        (numbered base l, after (asked ++ (List.range' k n).map (numbered base))) ∧
      (k + n = l + 1 ∧ taken (numbered base l) = false ∨ k + n = l ∧ n = fuel) := by
  induction fuel generalizing k asked with
  | zero =>
    refine ⟨k, 0, Nat.le_refl k, fun j hlow hhigh => by omega, ?_, .inr ⟨rfl, rfl⟩⟩
    rw [firstFree, r.run_pure, List.range'_zero, List.map_nil, List.append_nil]
  | succ fuel ih =>
    rw [firstFree, r.run_bind, hask]
    cases hk : taken (numbered base k) with
    | true =>
      obtain ⟨l, n, hle, htaken, hrun, hend⟩ := ih (k + 1) (asked ++ [numbered base k])
      refine ⟨l, n + 1, by omega, fun j hlow hhigh => ?_, ?_, ?_⟩
      · rcases Nat.lt_or_eq_of_le hlow with hlt | rfl
        · exact htaken j hlt hhigh
        · exact hk
      · rw [if_pos rfl, hrun, List.range'_succ, List.map_cons, List.append_assoc, List.singleton_append]
      · exact hend.imp (fun h => ⟨by omega, h.2⟩) fun h => ⟨by omega, by omega⟩
    | false =>
      refine ⟨k, 1, Nat.le_refl k, fun j hlow hhigh => by omega, ?_, .inl ⟨rfl, hk⟩⟩
      rw [if_neg Bool.false_ne_true, r.run_pure]
      rfl

/-- The search ends behind names that are taken: with the first one that is free, or at the greatest number. -/
theorem exists_run_choose (now : Instant) (user : Option String) :
    ∃ l n, (∀ j < l, taken (candidate (baseName now user) j) = true) ∧
      r.run (choose isTaken now user) (after []) =
        (candidate (baseName now user) l, after ((List.range n).map (candidate (baseName now user)))) ∧
      (n = l + 1 ∧ taken (candidate (baseName now user) l) = false ∨ n = l ∧ l = greatestNumber) := by
  rw [choose_eq, r.run_bind, hask]
  generalize baseName now user = base
  cases hbase : taken (String.ofList base) with
  | false =>
    refine ⟨0, 1, fun j hj => absurd hj (Nat.not_lt_zero j), ?_, .inl ⟨rfl, hbase⟩⟩
    rw [if_neg Bool.false_ne_true, r.run_pure]
    rfl
  | true =>
    obtain ⟨l, n, hle, htaken, hrun, hend⟩ :=
      r.exists_run_firstFree hask base (greatestNumber - 1) 2 [String.ofList base]
    obtain ⟨i, rfl⟩ := Nat.exists_eq_add_of_le' hle
    have hasked : (List.range (n + 1)).map (candidate base) =
        [String.ofList base] ++ (List.range' 2 n).map (numbered base) := by
      rw [List.range_succ_eq_map, List.map_cons, List.map_map, List.range'_eq_map_range, List.map_map]
      refine congrArg (String.ofList base :: ·) (List.map_congr_left fun j _ => ?_)
      rw [Function.comp_apply, Function.comp_apply, Nat.add_comm 2 j]
      rfl
    refine ⟨i + 1, n + 1, fun j hj => ?_, ?_, ?_⟩
    · match j with
      | 0 => exact hbase
      | j + 1 => exact htaken (j + 2) (by omega) (by omega)
    · rw [if_pos rfl, hasked]
      exact hrun
    · refine hend.imp (fun h => ⟨by omega, h.2⟩) fun h => ⟨by omega, ?_⟩
      have hgreatest : greatestNumber - 1 + 1 = greatestNumber := rfl
      omega

end Runner

/-- Programs that pass the names along that they have asked for. -/
def noting : Runner (StateM (List String)) (List String) where
  run x asked := x.run asked
  run_pure _ _ := rfl
  run_bind _ _ _ := rfl

/-- Asking whether a name is taken, and noting that it was asked for. -/
def asking (taken : String → Bool) (name : String) : StateM (List String) Bool := do
  modify (· ++ [name])
  pure (taken name)

theorem run_asking (taken : String → Bool) (asked : List String) (name : String) :
    noting.run (asking taken name) asked = (taken name, asked ++ [name]) := rfl

/-! ## Main statement -/

/-- The search for a name ends, having asked for one name more than are taken at most; the name is free; it is the base
name, if that is free, and otherwise the base name with the least number from two on for which it is free; and the
number after that one is still one of 32 bits. -/
theorem choose_gives_first_free (taken : String → Bool) (names : Finset String)
    (hnames : ∀ name, taken name = true ↔ name ∈ names) (hfew : names.card < 2 ^ 31 - 2) (now : Instant)
    (user : Option String) :
    ∃ base name asked, IsBase now user base ∧ (choose (asking taken) now user).run [] = (name, asked) ∧
      asked.length ≤ names.card + 1 ∧ taken name = false ∧
      (taken (String.ofList base) = false → name = String.ofList base) ∧
      (taken (String.ofList base) = true → ∃ k, 2 ≤ k ∧ k + 1 ≤ greatestNumber ∧ name = numbered base k ∧
        ∀ j, 2 ≤ j → j < k → taken (numbered base j) = true) := by
  obtain ⟨l, n, htaken, hrun, hend⟩ := noting.exists_run_choose (run_asking taken) now user
  have hcard : l ≤ names.card := le_card_of_candidates fun j hj => (hnames _).1 (htaken j hj)
  have hl : l + 2 ≤ greatestNumber := by
    unfold greatestNumber
    omega
  obtain ⟨rfl, hfree⟩ : n = l + 1 ∧ taken (candidate (baseName now user) l) = false :=
    hend.resolve_right fun h => by omega
  refine ⟨_, _, _, isBase_baseName now user, hrun, ?_, hfree, ?_, ?_⟩
  · rw [List.length_map, List.length_range]
    omega
  · intro hbase
    cases l with
    | zero => rfl
    | succ l => exact absurd ((htaken 0 (Nat.succ_pos l)).symm.trans hbase) Bool.noConfusion
  · intro hbase
    cases l with
    | zero => exact absurd (hbase.symm.trans hfree) Bool.noConfusion
    | succ l =>
      refine ⟨l + 2, Nat.le_add_left 2 l, hl, rfl, fun j hlow hhigh => ?_⟩
      obtain ⟨i, rfl⟩ := Nat.exists_eq_add_of_le' hlow
      exact htaken (i + 1) (by omega)

namespace Sample

/-- Two names that are given at one o'clock on a day in February. -/
def names : Finset String :=
  {"2024-045-03600_x", "2024-045-03600_x-2"}

end Sample

theorem choose_gives_first_free_third :
    (∀ name, decide (name ∈ Sample.names) = true ↔ name ∈ Sample.names) ∧ Sample.names.card < 2 ^ 31 - 2 ∧
      ∃ asked, (choose (asking fun name => decide (name ∈ Sample.names)) { seconds := 1707872400 } (some "x")).run [] =
        ("2024-045-03600_x-3", asked) ∧ asked.length ≤ Sample.names.card + 1 := by
  have hnames : ∀ name, decide (name ∈ Sample.names) = true ↔ name ∈ Sample.names := fun _ => decide_eq_true_iff
  have hfew : Sample.names.card < 2 ^ 31 - 2 := by decide
  obtain ⟨_, name, asked, -, hrun, hlength, -⟩ :=
    choose_gives_first_free _ Sample.names hnames hfew { seconds := 1707872400 } (some "x")
  have hthird : ((choose (asking fun name => decide (name ∈ Sample.names)) { seconds := 1707872400 } (some "x")).run
      []).1 = "2024-045-03600_x-3" := by decide +kernel
  obtain rfl : name = "2024-045-03600_x-3" := by rw [← hthird, hrun]
  exact ⟨hnames, hfew, asked, hrun, hlength⟩

end SchemaMigration.Naming
