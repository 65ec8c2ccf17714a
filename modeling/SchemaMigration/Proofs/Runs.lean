import SchemaMigration.Session

/-!
# What programs may do

Where replies are not determined, a program has many runs: each of its requests may be met by any reply, and lead to any
state, that a relation allows (`Program.Replies`). `Program.Runs` relates the state before a run to its value and the
state after it. Runs are put together along `>>=` (`Program.runs_bind`), for actions with the case that the first part
ends with an error (`Action.runs_bind`).
-/

namespace SchemaMigration

namespace Program

section

variable {I : Interface} {σ α β : Type}

/-- Which replies and states may follow a request in a state. -/
def Replies (I : Interface) (σ : Type) : Type :=
  (r : I.Request) → σ → I.Reply r → σ → Prop

/-- A program, begun in a state, may end with a value in another state. -/
def Runs (replies : Replies I σ) : Program I α → σ → α → σ → Prop
  | done a, s, b, s' => b = a ∧ s' = s
  | ask r next, s, b, s' => ∃ x s₁, replies r s x s₁ ∧ (next x).Runs replies s₁ b s'

variable {replies : Replies I σ} {s s' : σ}

@[simp]
theorem runs_done (a b : α) : (done a : Program I α).Runs replies s b s' ↔ b = a ∧ s' = s := Iff.rfl

@[simp]
theorem runs_request (r : I.Request) (x : I.Reply r) :
    (request r).Runs replies s x s' ↔ replies r s x s' := by
  constructor
  · rintro ⟨y, s₁, hy, rfl, rfl⟩
    exact hy
  · exact fun h => ⟨x, s', h, rfl, rfl⟩

theorem runs_bind (p : Program I α) (f : α → Program I β) (b : β) :
    (p >>= f).Runs replies s b s' ↔ ∃ a s₁, p.Runs replies s a s₁ ∧ (f a).Runs replies s₁ b s' := by
  induction p generalizing s with
  | done a =>
    constructor
    · exact fun h => ⟨a, s, ⟨rfl, rfl⟩, h⟩
    · rintro ⟨a', s₁, ⟨rfl, rfl⟩, h⟩
      exact h
  | ask r next ih =>
    constructor
    · rintro ⟨x, s₁, hx, h⟩
      obtain ⟨a, s₂, ha, hf⟩ := (ih x).1 h
      exact ⟨a, s₂, ⟨x, s₁, hx, ha⟩, hf⟩
    · rintro ⟨a, s₂, ⟨x, s₁, hx, ha⟩, hf⟩
      exact ⟨x, s₁, hx, (ih x).2 ⟨a, s₂, ha, hf⟩⟩

end

end Program

namespace Action

section

variable {σ α β : Type} {replies : Program.Replies Session σ} {s s' : σ}

/-- An action, begun in a state, may end with a value or an error in another state. -/
def Runs (replies : Program.Replies Session σ) (a : Action α) (s : σ) (result : Except MigrationError α) (s' : σ) :
    Prop :=
  Program.Runs replies (ExceptT.run a) s result s'

@[simp]
theorem runs_pure (x : α) (result : Except MigrationError α) :
    Runs replies (pure x) s result s' ↔ result = .ok x ∧ s' = s := Iff.rfl

@[simp]
theorem runs_throw (e : MigrationError) (result : Except MigrationError α) :
    Runs replies (throw e) s result s' ↔ result = .error e ∧ s' = s := Iff.rfl

@[simp]
theorem runs_ofExcept {ε : Type} (onError : ε → MigrationError) (x : Except ε α) (result : Except MigrationError α) :
    Runs replies (ofExcept onError x) s result s' ↔ result = x.mapError onError ∧ s' = s := Iff.rfl

/-- Either the first part ends with an error, or the second part goes on with its value. -/
theorem runs_bind (a : Action α) (f : α → Action β) (result : Except MigrationError β) :
    Runs replies (a >>= f) s result s' ↔
      (∃ e, Runs replies a s (.error e) s' ∧ result = .error e) ∨
        ∃ x s₁, Runs replies a s (.ok x) s₁ ∧ Runs replies (f x) s₁ result s' := by
  show Program.Runs replies (ExceptT.run a >>= ExceptT.bindCont f) s result s' ↔ _
  rw [Program.runs_bind]
  constructor
  · rintro ⟨x, s₁, ha, hf⟩
    cases x with
    | error e =>
      obtain ⟨rfl, rfl⟩ := hf
      exact .inl ⟨e, ha, rfl⟩
    | ok x => exact .inr ⟨x, s₁, ha, hf⟩
  · rintro (⟨e, ha, rfl⟩ | ⟨x, s₁, ha, hf⟩)
    · exact ⟨.error e, s', ha, rfl, rfl⟩
    · exact ⟨.ok x, s₁, ha, hf⟩

theorem Runs.bind {a : Action α} {f : α → Action β} {x : α} {s₁ : σ} {result : Except MigrationError β}
    (ha : a.Runs replies s (.ok x) s₁) (hf : (f x).Runs replies s₁ result s') : (a >>= f).Runs replies s result s' :=
  (runs_bind _ _ _).2 (.inr ⟨x, s₁, ha, hf⟩)

theorem runs_attempt {ε : Type} (onError : ε → MigrationError) (p : Program Session (Except ε α))
    (result : Except MigrationError α) :
    Runs replies (attempt onError p) s result s' ↔
      ∃ reply, p.Runs replies s reply s' ∧ result = reply.mapError onError := by
  show Program.Runs replies (p >>= fun reply => pure (reply.mapError onError)) s result s' ↔ _
  rw [Program.runs_bind]
  constructor
  · rintro ⟨reply, s₁, hp, rfl, rfl⟩
    exact ⟨reply, hp, rfl⟩
  · rintro ⟨reply, hp, rfl⟩
    exact ⟨reply, s', hp, rfl, rfl⟩

theorem runs_ofProgram (p : Program Session α) (result : Except MigrationError α) :
    Runs replies (ofProgram p) s result s' ↔ ∃ x, p.Runs replies s x s' ∧ result = .ok x := by
  show Program.Runs replies (p >>= fun x => pure (.ok x)) s result s' ↔ _
  rw [Program.runs_bind]
  constructor
  · rintro ⟨x, s₁, hp, rfl, rfl⟩
    exact ⟨x, hp, rfl⟩
  · rintro ⟨x, hp, rfl⟩
    exact ⟨x, s', hp, rfl, rfl⟩

end

end Action

end SchemaMigration
