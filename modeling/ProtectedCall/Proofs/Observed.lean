import ProtectedCall.Proofs.Resolution

/-!
# Observed runs

A run does two things that can be seen from outside: it calls bodies, and it hands plans to the
engine. Bodies may keep a state of their own.

* `Event`, `Observed`: what happens, and runs that keep all of it in order.
* `Runtime.observed`: a runtime whose bodies and whose engine leave an event behind.
* `Runtime.handOver`, `Runtime.handOver_failover`: what `Engine.failover` does with a plan.
* `Runtime.perform_direct`, `Runtime.perform_deferred_ok`, `Runtime.perform_deferred_error`: what
  executing an action comes to.
-/

namespace ProtectedCall

variable {σ ι β : Type}

/-- What happens in a run: a body is called, or a plan is handed to the engine with a batch. -/
inductive Event (ι β : Type) where
  | called (body : β) (state : ι) (args : List Value)
  | entered (plan : Plan ι β) (batch : Batch)

namespace Event

/-- The call of a body. -/
def call? : Event ι β → Option (β × ι × List Value)
  | .called body state args => some (body, state, args)
  | .entered _ _ => none

/-- The plan that is handed to the engine, with its batch. -/
def plan? : Event ι β → Option (Plan ι β × Batch)
  | .called _ _ _ => none
  | .entered plan batch => some (plan, batch)

section

variable {body : β} {state : ι} {args : List Value} {plan : Plan ι β} {batch : Batch}

@[simp] theorem call?_called : (called body state args).call? = some (body, state, args) := rfl

@[simp] theorem call?_entered : (entered plan batch).call? = none := rfl

@[simp] theorem plan?_called : (called body state args).plan? = none := rfl

@[simp] theorem plan?_entered : (entered plan batch).plan? = some (plan, batch) := rfl

end

end Event

/-- Runs that change the state of the bodies and keep the events so far. -/
abbrev Observed (σ ι β : Type) : Type → Type := StateM (σ × List (Event ι β))

namespace Observed

/-- Keeps an event. -/
def note (event : Event ι β) : Observed σ ι β Unit := fun (s, log) => ((), s, log ++ [event])

/-- Runs a body and keeps that it was called. -/
def body (body : β → ι → List Value → StateM σ Outcome) (b : β) (state : ι) (args : List Value) :
    Observed σ ι β Outcome := fun (s, log) =>
  let (outcome, s') := body b state args s
  (outcome, s', log ++ [.called b state args])

/-- A run goes on with what it has come to. -/
theorem bind_eq {α γ : Type} {x : OptionT (Observed σ ι β) α}
    {f : α → OptionT (Observed σ ι β) γ} {a : α} {st st' : σ × List (Event ι β)}
    (h : x st = (some a, st')) : (x >>= f) st = f a st' := by
  show (OptionT.mk (m := Observed σ ι β) (fun _ => x st) >>= f) st = f a st'
  rw [h]
  rfl

end Observed

/-- An engine that leaves an event behind for every plan. -/
def Engine.observed (engine : Engine (Observed σ ι β) ι β) : Engine (Observed σ ι β) ι β :=
  fun execute plan batch => do
    OptionT.lift (Observed.note (.entered plan batch))
    engine execute plan batch

namespace Runtime

/-- Hands a plan to the engine, together with a batch. -/
def handOver {m : Type → Type} [Monad m] (rt : Runtime m ι β) (registry : Registry β) (depth : Nat)
    (plan : Plan ι β) (batch : Batch) : OptionT m Outcome :=
  rt.engine (rt.perform registry depth) plan batch

/-- A runtime whose bodies and whose engine leave events behind. -/
def observed (body : β → ι → List Value → StateM σ Outcome)
    (engine : Engine (Observed σ ι β) ι β) : Runtime (Observed σ ι β) ι β :=
  ⟨Observed.body body, engine.observed⟩

variable {body : β → ι → List Value → StateM σ Outcome} {engine : Engine (Observed σ ι β) ι β}
variable {registry : Registry β} {depth : Nat} {s : σ} {log : List (Event ι β)}

/-- A direct call that fits calls the body once. -/
theorem perform_direct {call : DirectCall ι β} (fits : call.method.Fits call.target call.args) :
    (observed body engine).perform registry depth (.direct call) none (s, log) =
      match body call.method.body call.target.state call.args s with
      | (outcome, s') =>
        (some outcome, s', log ++ [.called call.method.body call.target.state call.args]) := by
  have hd : (observed body engine).perform registry depth (.direct call) none =
      OptionT.lift (Observed.body body call.method.body call.target.state call.args) := by
    rw [perform, DirectCall.perform, Method.invoke, fits.dispatch]
    rfl
  rw [hd]
  rfl

/-- A deferred command that is not resolved does nothing. -/
theorem perform_deferred_error {d : DeferredCommand ι β} {e : CallError}
    (refused : d.plan registry none = .error e) :
    (observed body engine).perform registry (depth + 1) (.deferred d) none (s, log) =
      (some (.error e), s, log) := by
  rw [perform, refused]
  rfl

/-- A deferred command that is resolved is handed over with its batch. -/
theorem perform_deferred_ok {d : DeferredCommand ι β} {plan : Plan ι β}
    (resolved : d.plan registry none = .ok plan) :
    (observed body engine).perform registry (depth + 1) (.deferred d) none =
      (observed body engine).handOver registry depth plan d.batch := by
  rw [perform, resolved]
  rfl

/-- The engine `Engine.failover` calls the command and, if that fails, executes the fallback if
there is one. -/
theorem handOver_failover {plan : Plan ι β} {call : DirectCall ι β} {batch : Batch}
    (command : plan.actions.command = .direct call)
    (fits : call.method.Fits call.target call.args) :
    (observed body Engine.failover).handOver registry depth plan batch (s, log) =
      match body call.method.body call.target.state call.args s, plan.actions.fallback with
      | (.error _, s'), some fallback =>
        (observed body Engine.failover).perform registry depth fallback none
          (s', log ++ [.entered plan batch, .called call.method.body call.target.state call.args])
      | (outcome, s'), _ =>
        (some outcome, s',
          log ++ [.entered plan batch, .called call.method.body call.target.state call.args]) := by
  have hcall := @perform_direct _ _ _ body Engine.failover registry depth s
    (log ++ [.entered plan batch]) call fits
  rw [← command] at hcall
  have hd : (observed body Engine.failover).handOver registry depth plan batch (s, log) =
      Engine.failover ((observed body Engine.failover).perform registry depth) plan batch
        (s, log ++ [.entered plan batch]) := rfl
  generalize body call.method.body call.target.state call.args s = result at hcall ⊢
  obtain ⟨outcome, s'⟩ := result
  rw [hd, Engine.failover, Observed.bind_eq hcall, List.append_assoc]
  cases outcome with
  | ok v => rfl
  | error e => cases plan.actions.fallback <;> rfl

end Runtime

end ProtectedCall
