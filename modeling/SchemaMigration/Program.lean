/-!
# Programs that ask their surroundings

An interface lists what can be asked and the type of each reply. A program over it is either done or asks one request
and goes on with the reply, so that it is a value: `interpret` runs it in any monad that can answer, be that the real
world, a state that is passed along, or programs over another interface.
-/

namespace SchemaMigration

/-- What can be asked, and the type of the reply to each request. -/
structure Interface where
  Request : Type
  Reply : Request → Type

/-- A program that asks requests of an interface and ends with a value. -/
inductive Program (I : Interface) (α : Type) : Type where
  | done (value : α)
  | ask (request : I.Request) (next : I.Reply request → Program I α)

namespace Program

variable {I : Interface} {α β : Type}

/-- One program after the other. -/
def andThen (p : Program I α) (f : α → Program I β) : Program I β :=
  match p with
  | done a => f a
  | ask r next => ask r fun x => (next x).andThen f

instance : Monad (Program I) where
  pure := done
  bind := andThen

/-- A single request. -/
def request (r : I.Request) : Program I (I.Reply r) :=
  ask r done

@[simp]
theorem done_bind (a : α) (f : α → Program I β) : (done a >>= f) = f a := rfl

@[simp]
theorem pure_eq_done (a : α) : (pure a : Program I α) = done a := rfl

@[simp]
theorem ask_bind (r : I.Request) (next : I.Reply r → Program I α) (f : α → Program I β) :
    (ask r next >>= f) = ask r fun x => next x >>= f := rfl

theorem bind_done (p : Program I α) : (p >>= done) = p := by
  induction p with
  | done a => rfl
  | ask r next ih => exact congrArg (ask r) (funext ih)

theorem bind_assoc {γ : Type} (p : Program I α) (f : α → Program I β) (g : β → Program I γ) :
    (p >>= f >>= g) = p >>= fun a => f a >>= g := by
  induction p with
  | done a => rfl
  | ask r next ih => exact congrArg (ask r) (funext ih)

instance : LawfulMonad (Program I) :=
  LawfulMonad.mk' (Program I) (fun p => bind_done p) (fun _ _ => rfl) bind_assoc

/-- A program run in a monad that answers requests. -/
def interpret {m : Type → Type} [Monad m] (answer : (r : I.Request) → m (I.Reply r)) : Program I α → m α
  | done a => pure a
  | ask r next => do
    let reply ← answer r
    interpret answer (next reply)

/-- A program run on a state that each request may change. -/
def run {σ : Type} (answer : (r : I.Request) → σ → I.Reply r × σ) (p : Program I α) (s : σ) : α × σ :=
  match p with
  | done a => (a, s)
  | ask r next => (next (answer r s).1).run answer (answer r s).2

@[simp]
theorem run_done {σ : Type} (answer : (r : I.Request) → σ → I.Reply r × σ) (a : α) (s : σ) :
    (done a).run answer s = (a, s) := rfl

@[simp]
theorem run_ask {σ : Type} (answer : (r : I.Request) → σ → I.Reply r × σ) (r : I.Request)
    (next : I.Reply r → Program I α) (s : σ) :
    (ask r next).run answer s = (next (answer r s).1).run answer (answer r s).2 := rfl

theorem run_bind {σ : Type} (answer : (r : I.Request) → σ → I.Reply r × σ) (p : Program I α)
    (f : α → Program I β) (s : σ) :
    (p >>= f).run answer s = (f (p.run answer s).1).run answer (p.run answer s).2 := by
  induction p generalizing s with
  | done a => rfl
  | ask r next ih => exact ih _ _

end Program

end SchemaMigration
