import ProtectedCall.Proofs.Descent
import ProtectedCall.Proofs.Observed

/-!
# Cascades

An engine that executes the fallback of a command that failed goes along the chain of fallbacks.
What comes of it can be told without actions and engines: `Cascade` calls the methods along the links
one after another, until one of them succeeds, or there is no further one, or the next one has an
obstacle.

* `Cascade.called_eq`, `Cascade.mapM_called`, `Cascade.ending`: which methods are called, what their
  calls come to, and what the outcome is.
* `Cascade.exists_of_follow`: there is a cascade wherever the links end.
* `Invocation.HandsOverAs`, `Invocation.RunsAs`: what handing over the plan of a call comes to, and
  what executing the call does.
* `Cascade.handsOverAs`: with `Engine.failover` it is the cascade from the method.
* `failover_cascade`: the whole for every captured call that is resolved.
-/

namespace ProtectedCall

variable {σ ι β : Type}

/-- Calls methods along the links of fallbacks, where `run` calls one of them. `Cascade r run m s
called outcomes outcome s'` starts with `m` in the state `s` and ends in `s'`. -/
inductive Cascade (r : Resolver β) (run : Method β → StateM σ Outcome) :
    Method β → σ → List (Method β) → List Outcome → Outcome → σ → Prop where
  | succeeded {m : Method β} {s s' : σ} {v : Value} (call : run m s = (.ok v, s')) :
      Cascade r run m s [m] [.ok v] (.ok v) s'
  | exhausted {m : Method β} {s s' : σ} {e : CallError} (call : run m s = (.error e, s'))
      (last : r.registry.next? m = none) : Cascade r run m s [m] [.error e] (.error e) s'
  | blocked {m f : Method β} {s s' : σ} {e e' : CallError} (call : run m s = (.error e, s'))
      (next : r.registry.next? m = some f) (obstacle : r.obstacle? f = some e') :
      Cascade r run m s [m] [.error e] (.error e') s'
  | passed {m f : Method β} {s s₁ s' : σ} {e : CallError} {called : List (Method β)}
      {outcomes : List Outcome} {outcome : Outcome} (call : run m s = (.error e, s₁))
      (next : r.registry.next? m = some f) (clear : r.obstacle? f = none)
      (rest : Cascade r run f s₁ called outcomes outcome s') :
      Cascade r run m s (m :: called) (.error e :: outcomes) outcome s'

namespace Cascade

variable {r : Resolver β} {run : Method β → StateM σ Outcome} {m : Method β} {s s' : σ}
variable {called : List (Method β)} {outcomes : List Outcome} {outcome : Outcome}

theorem ne_nil (h : Cascade r run m s called outcomes outcome s') : outcomes ≠ [] := by
  cases h <;> simp

theorem exists_later (h : Cascade r run m s called outcomes outcome s') :
    ∃ later, called = m :: later := by
  cases h <;> exact ⟨_, rfl⟩

/-- The methods that are called are the first ones along the links. -/
theorem called_eq (h : Cascade r run m s called outcomes outcome s') :
    called.map some = (List.range called.length).map (r.registry.follow m) := by
  induction h with
  | succeeded call => rfl
  | exhausted call last => rfl
  | blocked call next obstacle => rfl
  | passed call next clear rest ih =>
    rw [List.length_cons, List.range_succ_eq_map, List.map_cons, List.map_cons, List.map_map, ih]
    congr 1
    exact List.map_congr_left fun n _ => (Registry.follow_succ next n).symm

theorem follow_eq (h : Cascade r run m s called outcomes outcome s') {i : Nat}
    (hi : i < called.length) : r.registry.follow m i = some called[i] := by
  have := congrArg (·[i]?) h.called_eq
  simpa [hi] using this.symm

private theorem mapM_cons {s₁ : σ} (call : run m s = (outcome, s₁))
    (rest : called.mapM run s₁ = (outcomes, s')) :
    (m :: called).mapM run s = (outcome :: outcomes, s') := by
  simp only [List.mapM_cons, bind, StateT.bind, call, rest]
  rfl

/-- Each call starts in the state that the one before has left. -/
theorem mapM_called (h : Cascade r run m s called outcomes outcome s') :
    called.mapM run s = (outcomes, s') := by
  induction h with
  | succeeded call => exact mapM_cons call rfl
  | exhausted call last => exact mapM_cons call rfl
  | blocked call next obstacle => exact mapM_cons call rfl
  | passed call next clear rest ih => exact mapM_cons call ih

/-- All calls but the last one fail. -/
theorem failed (h : Cascade r run m s called outcomes outcome s') :
    ∀ o ∈ outcomes.dropLast, ∃ e, o = .error e := by
  induction h with
  | succeeded call => simp
  | exhausted call last => simp
  | blocked call next obstacle => simp
  | passed call next clear rest ih =>
    rw [List.dropLast_cons_of_ne_nil rest.ne_nil]
    simpa using ih

/-- No method is called that has an obstacle, the first one apart. -/
theorem clear (h : Cascade r run m s called outcomes outcome s') :
    ∀ f ∈ called.tail, r.obstacle? f = none := by
  induction h with
  | succeeded call => simp
  | exhausted call last => simp
  | blocked call next obstacle => simp
  | passed call next clear rest ih =>
    obtain ⟨later, rfl⟩ := rest.exists_later
    intro f hf
    rcases List.mem_cons.mp hf with rfl | hf
    · exact clear
    · exact ih f hf

/-- The outcome is that of the last call, unless it failed and the next method has an obstacle. -/
theorem ending (h : Cascade r run m s called outcomes outcome s') :
    ∃ last, outcomes.getLast? = some last ∧
      match last with
      | .ok v => outcome = .ok v
      | .error e =>
        match r.registry.follow m called.length with
        | none => outcome = .error e
        | some f => ∃ e', r.obstacle? f = some e' ∧ outcome = .error e' := by
  induction h with
  | succeeded call => exact ⟨_, rfl, rfl⟩
  | @exhausted m _ _ e call last =>
    have hend : r.registry.follow m 1 = none := last
    refine ⟨.error e, rfl, ?_⟩
    simp only [List.length_singleton, hend]
  | @blocked m f _ _ e e' call next obstacle =>
    have hend : r.registry.follow m 1 = some f := next
    refine ⟨.error e, rfl, ?_⟩
    simp only [List.length_singleton, hend]
    exact ⟨e', obstacle, rfl⟩
  | passed call next clear rest ih =>
    obtain ⟨last, hlast, hend⟩ := ih
    refine ⟨last, ?_, ?_⟩
    · rw [List.getLast?_cons, hlast]
      rfl
    · rw [List.length_cons, Registry.follow_succ next]
      exact hend

/-- There is a cascade from every method whose links come to an end. -/
theorem exists_of_follow (r : Resolver β) (run : Method β → StateM σ Outcome) {m : Method β}
    {n : Nat} (hn : r.registry.follow m n = none) (s : σ) :
    ∃ called outcomes outcome s', Cascade r run m s called outcomes outcome s' := by
  -- By induction on the number of links: a run goes on along one of them, or it is over.
  induction n generalizing m s with
  | zero => cases hn
  | succ n ih =>
    cases hcall : run m s with
    | mk o s₁ =>
      cases o with
      | ok v => exact ⟨_, _, _, _, .succeeded hcall⟩
      | error e =>
        cases hnext : r.registry.next? m with
        | none => exact ⟨_, _, _, _, .exhausted hcall hnext⟩
        | some f =>
          cases hobs : r.obstacle? f with
          | some e' => exact ⟨_, _, _, _, .blocked hcall hnext hobs⟩
          | none =>
            rw [Registry.follow_succ hnext] at hn
            obtain ⟨called, outcomes, outcome, s', rest⟩ := ih hn s₁
            exact ⟨_, _, _, _, .passed hcall hnext hobs rest⟩

end Cascade

/-! ## Runs are cascades -/

/-- The events of a run that called the methods `called` and handed plans of the methods `entered`
to the engine: each body was called on the state of the target with the arguments, and each plan,
whose command is the method, came with the batch. -/
structure Event.Records (target : Target ι) (args : List Value) (batch : Batch)
    (called entered : List (Method β)) (events : List (Event ι β)) : Prop where
  calls : events.filterMap Event.call? = called.map fun f => (f.body, target.state, args)
  plans : (events.filterMap Event.plan?).map (fun e => (e.1.actions.command, e.2)) =
    entered.map fun f => (.direct ⟨target, f, args⟩, batch)

namespace Event

variable {target : Target ι} {args : List Value} {batch : Batch} {called entered : List (Method β)}
variable {events : List (Event ι β)} {f : Method β}

theorem Records.nil : Records (β := β) target args batch [] [] [] := ⟨rfl, rfl⟩

theorem Records.cons_called (h : Records target args batch called entered events) :
    Records target args batch (f :: called) entered
      (.called f.body target.state args :: events) where
  calls := by simp [h.calls]
  plans := by simp [List.filterMap_cons, h.plans]

theorem Records.cons_entered (h : Records target args batch called entered events) {plan : Plan ι β}
    (hp : plan.actions.command = .direct ⟨target, f, args⟩) :
    Records target args batch called (f :: entered) (.entered plan batch :: events) where
  calls := by simp [List.filterMap_cons, h.calls]
  plans := by simp [hp, h.plans]

end Event

namespace Invocation

/-- The action that executes a call: a command is deferred, a plain method is called. -/
def action (inv : Invocation ι β) (policy : Policy) (batch : Batch) : Action ι β :=
  if inv.method.isCommand then .deferred ⟨policy, inv, batch⟩
  else .direct ⟨inv.target, inv.method, inv.args⟩

/-- Executing a call with `Engine.failover` in the state `s` calls the methods `called` and ends
with `outcome` in the state `s'`, at every depth at which the links of the method end. -/
def RunsAs (registry : Registry β) (body : β → ι → List Value → StateM σ Outcome)
    (inv : Invocation ι β) (policy : Policy) (batch : Batch) (s : σ) (called : List (Method β))
    (outcome : Outcome) (s' : σ) : Prop :=
  ∃ events, Event.Records inv.target inv.args batch called (called.filter (·.isCommand)) events ∧
    ∀ depth, registry.follow inv.method depth = none → ∀ log,
      (Runtime.observed body Engine.failover).perform registry depth (inv.action policy batch) none
        (s, log) = (some outcome, s', log ++ events)

/-- Handing the plan of a call to the engine, with any batch, calls the method, then the methods
`later`, and ends with `outcome` in the state `s'`. -/
def HandsOverAs (registry : Registry β) (body : β → ι → List Value → StateM σ Outcome)
    (inv : Invocation ι β) (plan : Plan ι β) (batch : Batch) (s : σ) (later : List (Method β))
    (outcome : Outcome) (s' : σ) : Prop :=
  ∃ events, Event.Records inv.target inv.args batch (inv.method :: later)
      (later.filter (·.isCommand)) events ∧
    ∀ depth, registry.follow inv.method (depth + 1) = none → ∀ given log,
      (Runtime.observed body Engine.failover).handOver registry depth plan given (s, log) =
        (some outcome, s', log ++ .entered plan given :: events)

section Frozen

variable {registrations : List (Registration β)} {registry : Registry β} {policy : Policy}
variable {body : β → ι → List Value → StateM σ Outcome} {inv : Invocation ι β} {batch : Batch}
variable {plan : Plan ι β} {s s₁ s' : σ} {called : List (Method β)} {outcome : Outcome}
variable {f : Method β}

/-- The engine stops after the command if that succeeds or has no fallback. -/
theorem HandsOverAs.alone (fits : inv.method.Fits inv.target inv.args)
    (actions : plan.actions = Resolver.actionsOf ⟨registry, policy⟩ inv batch)
    (call : body inv.method.body inv.target.state inv.args s = (outcome, s'))
    (last : (∃ v, outcome = .ok v) ∨ registry.next? inv.method = none) :
    inv.HandsOverAs registry body plan batch s [] outcome s' := by
  have command : plan.actions.command = .direct ⟨inv.target, inv.method, inv.args⟩ := by
    rw [actions]
    rfl
  refine ⟨_, Event.Records.nil.cons_called, fun depth _ given log => ?_⟩
  rw [Runtime.handOver_failover command fits, call, actions]
  rcases last with ⟨v, rfl⟩ | last
  · rfl
  · rw [Resolver.actionsOf, last]
    cases outcome <;> rfl

/-- The engine goes on with the fallback if the command fails. -/
theorem HandsOverAs.fallback (fits : inv.method.Fits inv.target inv.args)
    (actions : plan.actions = Resolver.actionsOf ⟨registry, policy⟩ inv batch) {e : CallError}
    (call : body inv.method.body inv.target.state inv.args s = (.error e, s₁))
    (next : registry.next? inv.method = some f)
    (rest : (inv.ofFallback f).RunsAs registry body policy batch s₁ called outcome s') :
    inv.HandsOverAs registry body plan batch s called outcome s' := by
  have command : plan.actions.command = .direct ⟨inv.target, inv.method, inv.args⟩ := by
    rw [actions]
    rfl
  have fallback : plan.actions.fallback = some ((inv.ofFallback f).action policy batch) := by
    rw [actions, Resolver.actionsOf, next]
    rfl
  obtain ⟨events, records, hrest⟩ := rest
  refine ⟨_, records.cons_called, fun depth hd given log => ?_⟩
  rw [Registry.follow_succ next] at hd
  rw [Runtime.handOver_failover command fits, call, fallback]
  have := hrest depth hd (log ++ [.entered plan given,
    .called inv.method.body inv.target.state inv.args])
  rw [List.append_assoc] at this
  exact this

/-- A command that is resolved is handed over. -/
theorem HandsOverAs.runsAs (hc : inv.method.isCommand)
    (resolved : Resolver.plan ⟨registry, policy⟩ inv batch = .ok plan)
    (command : plan.actions.command = .direct ⟨inv.target, inv.method, inv.args⟩)
    (h : inv.HandsOverAs registry body plan batch s called outcome s') :
    inv.RunsAs registry body policy batch s (inv.method :: called) outcome s' := by
  obtain ⟨events, records, hrun⟩ := h
  refine ⟨.entered plan batch :: events, ?_, fun depth hd log => ?_⟩
  · rw [List.filter_cons_of_pos hc]
    exact records.cons_entered command
  · cases depth with
    | zero => cases hd
    | succ depth =>
      have hp := @Runtime.perform_deferred_ok _ _ _ body Engine.failover registry depth
        ⟨policy, inv, batch⟩ plan resolved
      rw [action, if_pos hc, hp]
      exact hrun depth hd batch log

/-- A command that is not resolved calls nothing. -/
theorem RunsAs.refused (hc : inv.method.isCommand) {e : CallError}
    (hp : Resolver.plan ⟨registry, policy⟩ inv batch = .error e) :
    inv.RunsAs registry body policy batch s [] (.error e) s := by
  refine ⟨[], Event.Records.nil, fun depth hd log => ?_⟩
  cases depth with
  | zero => cases hd
  | succ depth =>
    rw [action, if_pos hc, List.append_nil]
    exact Runtime.perform_deferred_error hp

/-- A plain method is called. -/
theorem RunsAs.plain (fits : inv.method.Fits inv.target inv.args)
    (hc : inv.method.isCommand = false)
    (call : body inv.method.body inv.target.state inv.args s = (outcome, s')) :
    inv.RunsAs registry body policy batch s [inv.method] outcome s' := by
  refine ⟨[.called inv.method.body inv.target.state inv.args], ?_, fun depth _ log => ?_⟩
  · rw [List.filter_cons_of_neg (by simp [hc])]
    exact Event.Records.nil.cons_called
  · rw [action, if_neg (by simp [hc]), Runtime.perform_direct fits, call]

end Frozen

end Invocation

namespace Cascade

section Frozen

variable {registrations : List (Registration β)} {registry : Registry β} {policy : Policy}
variable {body : β → ι → List Value → StateM σ Outcome} {batch : Batch} {target : Target ι}
variable {args : List Value} {m : Method β} {s s' : σ} {called : List (Method β)}
variable {outcomes : List Outcome} {outcome : Outcome}

/-- A cascade from a plain method is its call. -/
theorem of_plain {r : Resolver β} {run : Method β → StateM σ Outcome}
    (h : Cascade r run m s called outcomes outcome s') (hend : r.registry.next? m = none) :
    called = [m] ∧ run m s = (outcome, s') := by
  cases h with
  | succeeded call => exact ⟨rfl, call⟩
  | exhausted call last => exact ⟨rfl, call⟩
  | blocked call next obstacle =>
    rw [hend] at next
    cases next
  | passed call next clear rest =>
    rw [hend] at next
    cases next

/-- Handing over the plan of a call is the cascade from its method. -/
theorem handsOverAs (frozen : Registry.freeze registrations = .ok registry)
    (h : Cascade ⟨registry, policy⟩ (fun f => body f.body target.state args) m s called outcomes
      outcome s')
    {inv : Invocation ι β} (sound : inv.Sound registry) (hm : inv.method = m)
    (ht : inv.target = target) (ha : inv.args = args) (fresh : ∀ n, ¬ registry.Repeats m n)
    {plan : Plan ι β} (actions : plan.actions = Resolver.actionsOf ⟨registry, policy⟩ inv batch) :
    ∃ later, called = m :: later ∧ inv.HandsOverAs registry body plan batch s later outcome s' := by
  -- Along the cascade: each further call is sound, and no key recurs behind it.
  induction h generalizing inv plan with
  | succeeded call =>
    subst hm ht ha
    exact ⟨[], rfl, .alone sound.fits actions call (.inl ⟨_, rfl⟩)⟩
  | exhausted call last =>
    subst hm ht ha
    exact ⟨[], rfl, .alone sound.fits actions call (.inr last)⟩
  | @blocked m f _ s' _ e' call next obstacle =>
    subst hm ht ha
    have hsound := sound.ofFallback frozen next
    have hfresh : ∀ n, ¬ registry.Repeats f n := fun n hn =>
      fresh _ (hn.of_next? frozen sound.registered next)
    have hrefused := @Resolver.plan_eq_error_of_fresh _ _ _ ⟨registry, policy⟩ (inv.ofFallback f)
      frozen hsound hfresh _ obstacle batch
    have hrest := @Invocation.RunsAs.refused _ _ _ registry policy body (inv.ofFallback f) batch s'
      (Resolver.isCommand_of_obstacle? obstacle) _ hrefused
    exact ⟨[], rfl, .fallback sound.fits actions call next hrest⟩
  | @passed m f _ s₁ _ _ called _ _ call next clear rest ih =>
    subst hm ht ha
    have hsound := sound.ofFallback frozen next
    have hfresh : ∀ n, ¬ registry.Repeats f n := fun n hn =>
      fresh _ (hn.of_next? frozen sound.registered next)
    refine ⟨called, rfl, .fallback sound.fits actions call next ?_⟩
    -- A command goes on with the rest of the cascade. A plain method has no link, so it ends it.
    by_cases hf : f.isCommand
    · obtain ⟨plan, resolved, hactions⟩ := @Resolver.exists_plan _ _ ⟨registry, policy⟩
        (inv.ofFallback f) batch _ frozen hsound hf
        (Resolver.checkCycle_of_fresh frozen hsound.registered hfresh) clear
      obtain ⟨later, rfl, hrest⟩ := ih hsound rfl rfl rfl hfresh hactions
      exact hrest.runsAs hf resolved (by rw [hactions]; rfl)
    · have hend : registry.next? f = none := Registry.next?_eq_none frozen hsound.registered hf
      obtain ⟨rfl, call⟩ := rest.of_plain hend
      exact Invocation.RunsAs.plain hsound.fits (Bool.eq_false_iff.mpr hf) call

end Frozen

end Cascade

/-- What a chain of fallbacks comes to. The plan of a captured call is handed to an engine that
executes the command and, if it fails, the fallback if there is one. Given enough depth the run
ends, and the methods that are called are the first ones along the links of fallbacks, each once, on
the target and with the arguments of the call. The engine is entered for those that are commands and
for no other. All calls but the last one fail. If the last one succeeds, its value is the outcome.
If it fails and there is no further method, its error is. Otherwise the next method is a command
that is not resolved, because of a pool setting or of a missing fallback, and the error of that is
the outcome. -/
theorem failover_cascade {registrations : List (Registration β)} {registry : Registry β}
    {policy : Policy} {draft : Invocation.Draft ι β} {inv : Invocation ι β} {batch : Batch}
    {plan : Plan ι β} (frozen : Registry.freeze registrations = .ok registry)
    (detecting : policy.detectCycles) (captured : draft.build = .ok inv)
    (registered : inv.method ∈ registry.methods)
    (resolved : Resolver.plan ⟨registry, policy⟩ inv batch = .ok plan)
    (body : β → ι → List Value → StateM σ Outcome) (given : Batch) (s : σ) :
    ∃ called outcomes outcome events s',
      (∀ depth, (registry.peers inv.method).length ≤ depth →
        (Runtime.observed body Engine.failover).handOver registry depth plan given (s, []) =
          (some outcome, s', .entered plan given :: events)) ∧
      Event.Records inv.target inv.args batch called (called.tail.filter (·.isCommand)) events ∧
      called ≠ [] ∧ called.Nodup ∧
      called.map some = (List.range called.length).map (registry.follow inv.method) ∧
      (called.mapM fun f => body f.body inv.target.state inv.args).run s = (outcomes, s') ∧
      (∀ o ∈ outcomes.dropLast, ∃ e, o = .error e) ∧
      (∀ f ∈ called.tail, Resolver.obstacle? ⟨registry, policy⟩ f = none) ∧
      ∃ last, outcomes.getLast? = some last ∧
        match last with
        | .ok v => outcome = .ok v
        | .error e =>
          match registry.follow inv.method called.length with
          | none => outcome = .error e
          | some f => ∃ e', Resolver.obstacle? ⟨registry, policy⟩ f = some e' ∧
            (∀ nested : Invocation ι β, nested.Sound registry → nested.method = f →
              Resolver.plan ⟨registry, policy⟩ nested batch = .error e') ∧
            outcome = .error e' := by
  have sound := Invocation.Sound.of_build captured registered
  obtain ⟨hcmd, -, -, hactions⟩ := Resolver.of_plan_eq_ok frozen sound resolved
  have fresh := Resolver.fresh_of_plan_eq_ok frozen detecting sound resolved
  have hend := fun n => Registry.follow_eq_none (n := n) frozen registered hcmd fresh
  -- No key recurs behind a call that is resolved, so its links end and there is a cascade.
  obtain ⟨called, outcomes, outcome, s', h⟩ := Cascade.exists_of_follow ⟨registry, policy⟩
    (fun f => body f.body inv.target.state inv.args) (hend _ (Nat.lt_succ_self _)) s
  obtain ⟨later, rfl, events, records, hrun⟩ :=
    h.handsOverAs frozen sound rfl rfl rfl fresh hactions
  refine ⟨inv.method :: later, outcomes, outcome, events, s', fun depth hd => ?_, records,
    List.cons_ne_nil _ _, ?_, h.called_eq, h.mapM_called, h.failed, h.clear, ?_⟩
  · exact hrun depth (hend _ (Nat.lt_succ_of_le hd)) given []
  · refine List.Nodup.of_map some ?_
    rw [h.called_eq]
    refine List.Nodup.map_on (fun i hi j hj he => ?_) List.nodup_range
    have hfi := h.follow_eq (List.mem_range.mp hi)
    exact Registry.follow_injective frozen registered fresh hfi (he.symm.trans hfi)
  · obtain ⟨last, hlast, hout⟩ := h.ending
    refine ⟨last, hlast, ?_⟩
    cases last with
    | ok v => exact hout
    | error e =>
      cases hf : registry.follow inv.method (inv.method :: later).length with
      | none =>
        rw [hf] at hout
        exact hout
      | some f =>
        rw [hf] at hout
        obtain ⟨e', hobs, hout⟩ := hout
        refine ⟨e', hobs, ?_, hout⟩
        rintro nested hsound rfl
        -- A key that recurs behind the next method recurs behind the first one.
        have hchain := Registry.chain_of_follow frozen registered hf
          (Resolver.isCommand_of_obstacle? hobs)
        exact Resolver.plan_eq_error_of_fresh frozen hsound
          (fun n hn => fresh _ (Registry.Repeats.of_add hchain hn)) hobs batch

/-- Bodies of the shop, of which only the last one succeeds. They count their calls. -/
def Shop.body (name : String) (_ : Unit) (_ : List Value) : StateM Nat Outcome := fun count =>
  (if name = "note" then .ok .null else .error (.execution (.raised name)), count + 1)

theorem failover_cascade_shop :
    ∃ plan, ∃ called : List (Method String), ∃ outcome events count,
      Registry.freeze Shop.registrations = .ok Shop.registry ∧
      Shop.draft.build = .ok Shop.payment ∧ Shop.payment.method ∈ Shop.registry.methods ∧
      Resolver.plan ⟨Shop.registry, {}⟩ Shop.payment default = .ok plan ∧
      (∀ depth, 2 ≤ depth →
        (Runtime.observed Shop.body Engine.failover).handOver Shop.registry depth plan default
          (0, []) = (some outcome, count, .entered plan default :: events)) ∧
      called.Nodup ∧
      called.map some = (List.range called.length).map (Shop.registry.follow Shop.payment.method) ∧
      events.filterMap Event.call? = called.map fun f => (f.body, (), [.integer 5]) := by
  obtain ⟨plan, resolved⟩ := Shop.payment_resolved
  obtain ⟨called, -, outcome, events, count, run, records, -, nodup, links, -⟩ :=
    failover_cascade Shop.freeze_eq rfl Shop.build_draft Shop.payment_mem resolved Shop.body
      default 0
  have peers : (Shop.registry.peers Shop.payment.method).length = 2 := by decide +kernel
  rw [peers] at run
  exact ⟨plan, called, outcome, events, count, Shop.freeze_eq, Shop.build_draft, Shop.payment_mem,
    resolved, run, nodup, links, records.calls⟩

/-- All three methods of the shop are called. -/
example :
    (Resolver.plan ⟨Shop.registry, {}⟩ Shop.payment default).toOption.map (fun plan =>
      ((Runtime.observed Shop.body Engine.failover).handOver Shop.registry 2 plan default
        (0, [])).2.1) = some 3 := by
  decide +kernel

end ProtectedCall
