import SchemaMigration.Proofs.Requests
import SchemaMigration.Proofs.Runs
import Mathlib.Algebra.BigOperators.Group.Finset.Piecewise

/-!
# Programs side by side

Several programs may run on one state at the same time. Their requests are then met one by one, in any order that keeps
the order of each program (`Program.Interleaves`), and what one of them does between two requests of another shows in
the reply to the second. A program may also be left waiting for ever.

What a program has done so far is told by its exchanges, that is by its requests with the replies to them
(`Program.Yields`), whatever the others do. The exchanges of `a >>= f` are those of `a` and then those of `f`
(`Program.yields_bind`), for actions with the case that `a` ends with an error (`Action.yields_bind`).
-/

namespace SchemaMigration

namespace Program

/-- A request and the reply to it. -/
structure Exchange (I : Interface) where
  request : I.Request
  reply : I.Reply request

section

variable {I : Interface} {α β : Type}

/-- A program makes some exchanges, and then it has ended with a value or waits for a reply. -/
def Yields : Program I α → List (Exchange I) → Option α → Prop
  | done a, xs, outcome => xs = [] ∧ outcome = some a
  | ask r next, xs, outcome =>
    (xs = [] ∧ outcome = none) ∨ ∃ reply rest, xs = ⟨r, reply⟩ :: rest ∧ (next reply).Yields rest outcome

variable {xs : List (Exchange I)}

/-- Either the first part still waits, or it has ended and the second part goes on with its value. -/
theorem yields_bind (p : Program I α) (f : α → Program I β) (outcome : Option β) :
    (p >>= f).Yields xs outcome ↔
      (p.Yields xs none ∧ outcome = none) ∨
        ∃ a ys zs, xs = ys ++ zs ∧ p.Yields ys (some a) ∧ (f a).Yields zs outcome := by
  induction p generalizing xs with
  | done a =>
    constructor
    · exact fun h => .inr ⟨a, [], xs, rfl, ⟨rfl, rfl⟩, h⟩
    · rintro (⟨⟨-, hnone⟩, -⟩ | ⟨_, _, zs, rfl, ⟨rfl, ⟨⟩⟩, h⟩)
      · cases hnone
      · exact h
  | ask r next ih =>
    constructor
    · rintro (⟨rfl, rfl⟩ | ⟨reply, rest, rfl, h⟩)
      · exact .inl ⟨.inl ⟨rfl, rfl⟩, rfl⟩
      · rcases (ih reply).1 h with ⟨hwaits, rfl⟩ | ⟨a, ys, zs, rfl, hp, hf⟩
        · exact .inl ⟨.inr ⟨reply, rest, rfl, hwaits⟩, rfl⟩
        · exact .inr ⟨a, ⟨r, reply⟩ :: ys, zs, rfl, .inr ⟨reply, ys, rfl, hp⟩, hf⟩
    · rintro (⟨⟨rfl, -⟩ | ⟨reply, rest, rfl, h⟩, rfl⟩ | ⟨a, ys, zs, rfl, ⟨-, hnone⟩ | ⟨reply, rest, rfl, hp⟩, hf⟩)
      · exact .inl ⟨rfl, rfl⟩
      · exact .inr ⟨reply, rest, rfl, (ih reply).2 (.inl ⟨h, rfl⟩)⟩
      · cases hnone
      · exact .inr ⟨reply, rest ++ zs, rfl, (ih reply).2 (.inr ⟨a, rest, zs, rfl, hp, hf⟩)⟩

/-- A program whose value is passed on in another form. -/
theorem yields_map (p : Program I α) (f : α → β) (outcome : Option β) :
    (p >>= fun a => pure (f a)).Yields xs outcome ↔
      (p.Yields xs none ∧ outcome = none) ∨ ∃ a, p.Yields xs (some a) ∧ outcome = some (f a) := by
  rw [yields_bind]
  refine or_congr Iff.rfl (exists_congr fun a => ⟨?_, ?_⟩)
  · rintro ⟨ys, _, rfl, hp, rfl, rfl⟩
    exact ⟨by rwa [List.append_nil], rfl⟩
  · rintro ⟨hp, rfl⟩
    exact ⟨xs, [], by rw [List.append_nil], hp, rfl, rfl⟩

/-- The first part still waits, or it has ended with an error, or the second part goes on with its value. -/
theorem yields_bindCont {ε : Type} (p : Program I (Except ε α)) (f : α → ExceptT ε (Program I) β)
    (outcome : Option (Except ε β)) :
    Yields (p >>= ExceptT.bindCont f) xs outcome ↔
      (p.Yields xs none ∧ outcome = none) ∨ (∃ e, p.Yields xs (some (.error e)) ∧ outcome = some (.error e)) ∨
        ∃ x ys zs, xs = ys ++ zs ∧ p.Yields ys (some (.ok x)) ∧ (ExceptT.run (f x)).Yields zs outcome := by
  rw [yields_bind]
  refine or_congr Iff.rfl ⟨?_, ?_⟩
  · rintro ⟨x, ys, zs, rfl, hp, hf⟩
    cases x with
    | error e =>
      obtain ⟨rfl, rfl⟩ := hf
      exact .inl ⟨e, by rwa [List.append_nil], rfl⟩
    | ok x => exact .inr ⟨x, ys, zs, rfl, hp, hf⟩
  · rintro (⟨e, hp, rfl⟩ | ⟨x, ys, zs, rfl, hp, hf⟩)
    · exact ⟨.error e, xs, [], by rw [List.append_nil], hp, rfl, rfl⟩
    · exact ⟨.ok x, ys, zs, rfl, hp, hf⟩

/-- A program that asks only allowed requests makes no other exchanges. -/
theorem Uses.of_mem_yields {allowed : I.Request → Prop} {p : Program I α} (hp : p.Uses allowed)
    {outcome : Option α} (h : p.Yields xs outcome) : ∀ x ∈ xs, allowed x.request := by
  induction p generalizing xs with
  | done a =>
    obtain ⟨rfl, -⟩ := h
    exact fun x hx => absurd hx List.not_mem_nil
  | ask r next ih =>
    rcases h with ⟨rfl, -⟩ | ⟨reply, rest, rfl, h⟩
    · exact fun x hx => absurd hx List.not_mem_nil
    · exact List.forall_mem_cons.2 ⟨hp.1, ih reply (hp.2 reply) h⟩

end

/-! ## Turns -/

/-- An exchange of one of several programs, and the states around it. -/
structure Turn (ι : Type) (I : Interface) (σ : Type) where
  who : ι
  exchange : Exchange I
  before : σ
  after : σ

section

variable {ι : Type} {I : Interface} {σ α : Type} {replies : ι → Replies I σ} {s s' : σ} {turns : List (Turn ι I σ)}

/-- The exchanges of one program, in their order. -/
def exchangesOf [DecidableEq ι] (i : ι) (turns : List (Turn ι I σ)) : List (Exchange I) :=
  (turns.filter fun e => e.who = i).map Turn.exchange

/-- Each turn begins where the one before it ended, and is one that the replies to its program allow. -/
def Passes (replies : ι → Replies I σ) : σ → List (Turn ι I σ) → σ → Prop
  | s, [], s' => s' = s
  | s, e :: turns, s' =>
    e.before = s ∧ replies e.who e.exchange.request s e.exchange.reply e.after ∧ Passes replies e.after turns s'

/-- Programs run side by side from one state to another, each as far as its outcome says. -/
structure Interleaves [DecidableEq ι] (replies : ι → Replies I σ) (programs : ι → Program I α) (s : σ)
    (turns : List (Turn ι I σ)) (outcome : ι → Option α) (s' : σ) : Prop where
  passes : Passes replies s turns s'
  yields : ∀ i, (programs i).Yields (exchangesOf i turns) (outcome i)

theorem passes_append (es fs : List (Turn ι I σ)) :
    Passes replies s (es ++ fs) s' ↔ ∃ s₁, Passes replies s es s₁ ∧ Passes replies s₁ fs s' := by
  induction es generalizing s with
  | nil =>
    constructor
    · exact fun h => ⟨s, rfl, h⟩
    · rintro ⟨_, rfl, h⟩
      exact h
  | cons e es ih =>
    constructor
    · rintro ⟨hbefore, hreply, h⟩
      obtain ⟨s₁, hes, hfs⟩ := ih.1 h
      exact ⟨s₁, ⟨hbefore, hreply, hes⟩, hfs⟩
    · rintro ⟨s₁, ⟨hbefore, hreply, hes⟩, hfs⟩
      exact ⟨hbefore, hreply, ih.2 ⟨s₁, hes, hfs⟩⟩

theorem Passes.of_mem (h : Passes replies s turns s') {e : Turn ι I σ} (he : e ∈ turns) :
    replies e.who e.exchange.request e.before e.exchange.reply e.after := by
  obtain ⟨es, fs, rfl⟩ := List.append_of_mem he
  obtain ⟨_, -, rfl, hreply, -⟩ := (passes_append es (e :: fs)).1 h
  exact hreply

/-- What holds from before to after each turn holds from one end to the other. -/
theorem Passes.relates {R : σ → σ → Prop} (hrefl : ∀ s, R s s) (htrans : ∀ {s₁ s₂ s₃}, R s₁ s₂ → R s₂ s₃ → R s₁ s₃)
    (h : Passes replies s turns s') (hturn : ∀ e ∈ turns, R e.before e.after) : R s s' := by
  induction turns generalizing s with
  | nil =>
    obtain rfl : s' = s := h
    exact hrefl s'
  | cons e turns ih =>
    obtain ⟨rfl, -, hrest⟩ := h
    obtain ⟨he, hturns⟩ := List.forall_mem_cons.1 hturn
    exact htrans he (ih hrest hturns)

variable [DecidableEq ι]

theorem exchangesOf_append (i : ι) (es fs : List (Turn ι I σ)) :
    exchangesOf i (es ++ fs) = exchangesOf i es ++ exchangesOf i fs := by
  rw [exchangesOf, List.filter_append, List.map_append]
  rfl

theorem exchangesOf_cons_self (e : Turn ι I σ) (turns : List (Turn ι I σ)) :
    exchangesOf e.who (e :: turns) = e.exchange :: exchangesOf e.who turns := by
  simp [exchangesOf]

theorem exchange_mem_exchangesOf {e : Turn ι I σ} (he : e ∈ turns) : e.exchange ∈ exchangesOf e.who turns :=
  List.mem_map_of_mem (List.mem_filter.2 ⟨he, decide_eq_true rfl⟩)

/-- The exchanges of a program before, at and after one of its turns. -/
theorem exchangesOf_around (es : List (Turn ι I σ)) (e : Turn ι I σ) (fs : List (Turn ι I σ)) :
    exchangesOf e.who (es ++ e :: fs) = exchangesOf e.who es ++ e.exchange :: exchangesOf e.who fs := by
  rw [exchangesOf_append, exchangesOf_cons_self]

/-- Counting by program counts all. -/
theorem sum_countP_exchangesOf [Fintype ι] (p : Exchange I → Bool) (turns : List (Turn ι I σ)) :
    ∑ i, (exchangesOf i turns).countP p = turns.countP fun e => p e.exchange := by
  induction turns with
  | nil => simp [exchangesOf]
  | cons e turns ih =>
    have hstep : ∀ i, (exchangesOf i (e :: turns)).countP p =
        (exchangesOf i turns).countP p + if e.who = i then (if p e.exchange then 1 else 0) else 0 := by
      intro i
      by_cases h : e.who = i
      · subst h
        rw [exchangesOf_cons_self, List.countP_cons, if_pos rfl]
      · simp [exchangesOf, h]
    rw [Finset.sum_congr rfl fun i _ => hstep i, Finset.sum_add_distrib, ih, List.countP_cons]
    simp

end

end Program

namespace Action

section

variable {α β : Type} {xs : List (Program.Exchange Session)}

/-- An action makes some exchanges, and then it has ended with a value or an error, or waits for a reply. -/
def Yields (a : Action α) (xs : List (Program.Exchange Session)) (outcome : Option (Except MigrationError α)) : Prop :=
  Program.Yields (ExceptT.run a) xs outcome

/-- The first part still waits, or it has ended with an error, or the second part goes on with its value. -/
theorem yields_bind (a : Action α) (f : α → Action β) (outcome : Option (Except MigrationError β)) :
    (a >>= f).Yields xs outcome ↔
      (a.Yields xs none ∧ outcome = none) ∨ (∃ e, a.Yields xs (some (.error e)) ∧ outcome = some (.error e)) ∨
        ∃ x ys zs, xs = ys ++ zs ∧ a.Yields ys (some (.ok x)) ∧ (f x).Yields zs outcome :=
  Program.yields_bindCont (ExceptT.run a) f outcome

theorem Yields.bind {a : Action α} {f : α → Action β} {x : α} {ys : List (Program.Exchange Session)}
    {outcome : Option (Except MigrationError β)} (ha : a.Yields xs (some (.ok x))) (hf : (f x).Yields ys outcome) :
    (a >>= f).Yields (xs ++ ys) outcome :=
  (yields_bind _ _ _).2 (.inr (.inr ⟨x, xs, ys, rfl, ha, hf⟩))

end

end Action

end SchemaMigration
