import ProtectedCall.Proofs.CapturedArguments

/-!
# Substitute arguments

An action may be executed with other arguments than those that it captured. They are checked first,
by a direct call against its method and by a deferred command against the method of its call. All of
these methods have the same parameters, so one list of arguments is taken or refused by all actions
that stand in for one call.

* `Signature.Misfit`: what is wrong with arguments. `Signature.checkArgs_eq_error_iff`: the check
  reports just that.
* `Action.Refuses`: executed with the arguments, the action comes to a fault and to nothing else.
  `Action.Sound.refuses_iff`: a sound action refuses exactly what is wrong for its method.
* `Resolver.PlansBelow.params`: the parameters of a call's method are those of all commands and
  fallbacks below the call.
* `Resolver.substitutes_taken_alike`: the whole for every captured call.
-/

namespace ProtectedCall

variable {m : Type → Type} {ι β : Type}

/-! ## What is wrong with arguments -/

namespace Signature

/-- What is wrong with arguments for a method: how many there are, or else the first of them that
its parameter does not take. -/
inductive Misfit (s : Signature) (args : List Value) : InvocationFault → Prop where
  | count (unequal : args.length ≠ s.params.length) : Misfit s args (.wrongCount s args.length)
  | argument {index : Nat} {param : ParamKind} {arg : Value}
      (equal : args.length = s.params.length)
      (found : (s.params.zip args)[index]? = some (param, arg))
      (refused : param.accepts arg = false)
      (first : ∀ p ∈ (s.params.zip args).take index, p.1.accepts p.2) :
    Misfit s args (.wrongArgument index s param arg.kindName)

theorem mismatch?_eq_some_iff {start index : Nat} {params : List ParamKind} {args : List Value}
    {param : ParamKind} {arg : Value} :
    mismatch? start params args = some (index, param, arg) ↔
      ∃ i, index = start + i ∧ (params.zip args)[i]? = some (param, arg) ∧
        param.accepts arg = false ∧ ∀ p ∈ (params.zip args).take i, p.1.accepts p.2 := by
  induction params generalizing start args with
  | nil => simp [mismatch?]
  | cons p params ih =>
    cases args with
    | nil => simp [mismatch?]
    | cons a args =>
      rw [mismatch?, List.zip_cons_cons]
      -- A parameter that takes its argument moves the mismatch by one, or else it is the mismatch.
      cases ha : p.accepts a with
      | true =>
        rw [if_pos rfl, ih]
        constructor
        · rintro ⟨i, rfl, hfound, hrefused, hfirst⟩
          refine ⟨i + 1, by omega, hfound, hrefused, ?_⟩
          rw [List.take_succ_cons, List.forall_mem_cons]
          exact ⟨ha, hfirst⟩
        · rintro ⟨i, rfl, hfound, hrefused, hfirst⟩
          cases i with
          | zero =>
            cases hfound
            rw [ha] at hrefused
            cases hrefused
          | succ i =>
            rw [List.take_succ_cons, List.forall_mem_cons] at hfirst
            exact ⟨i, by omega, hfound, hrefused, hfirst.2⟩
      | false =>
        rw [if_neg Bool.false_ne_true]
        constructor
        · rintro ⟨⟩
          exact ⟨0, rfl, rfl, ha, by simp⟩
        · rintro ⟨i, rfl, hfound, hrefused, hfirst⟩
          cases i with
          | zero =>
            cases hfound
            rfl
          | succ i =>
            rw [List.take_succ_cons, List.forall_mem_cons] at hfirst
            rw [ha] at hfirst
            cases hfirst.1

/-- The check reports what is wrong with the arguments. -/
theorem checkArgs_eq_error_iff {s : Signature} {args : List Value} {e : CallError} :
    s.checkArgs args = .error e ↔ ∃ fault, s.Misfit args fault ∧ e = .invalidInvocation fault := by
  unfold checkArgs
  by_cases hl : args.length = s.params.length
  · rw [if_neg (not_not.mpr hl)]
    constructor
    · intro h
      split at h
      · rename_i index param arg hm
        obtain ⟨i, rfl, hfound, hrefused, hfirst⟩ := mismatch?_eq_some_iff.mp hm
        rw [Nat.zero_add] at h
        exact ⟨_, .argument hl hfound hrefused hfirst, (Except.error.inj h).symm⟩
      · cases h
    · rintro ⟨fault, misfit, rfl⟩
      cases misfit with
      | count unequal => exact absurd hl unequal
      | argument _ hfound hrefused hfirst =>
        rw [mismatch?_eq_some_iff.mpr ⟨_, (Nat.zero_add _).symm, hfound, hrefused, hfirst⟩]
  · rw [if_pos hl]
    constructor
    · rintro ⟨⟩
      exact ⟨_, .count hl, rfl⟩
    · rintro ⟨fault, misfit, rfl⟩
      cases misfit with
      | count => rfl
      | argument equal => exact absurd equal hl

/-- Something is wrong if the number is, or if some parameter does not take its argument. -/
theorem exists_misfit_iff {s : Signature} {args : List Value} :
    (∃ fault, s.Misfit args fault) ↔
      args.length ≠ s.params.length ∨ ∃ p ∈ s.params.zip args, p.1.accepts p.2 = false := by
  have hok := @checkArgs_eq_ok_iff s args
  cases hc : s.checkArgs args with
  | ok u =>
    obtain ⟨hl, ha⟩ := hok.mp hc
    constructor
    · rintro ⟨fault, misfit⟩
      rw [checkArgs_eq_error_iff.mpr ⟨fault, misfit, rfl⟩] at hc
      cases hc
    · rintro (hne | ⟨p, hp, hrefused⟩)
      · exact absurd hl hne
      · rw [ha p hp] at hrefused
        cases hrefused
  | error e =>
    obtain ⟨fault, misfit, -⟩ := checkArgs_eq_error_iff.mp hc
    refine iff_of_true ⟨fault, misfit⟩ ?_
    cases misfit with
    | count unequal => exact .inl unequal
    | argument _ hfound hrefused _ => exact .inr ⟨_, List.mem_of_getElem? hfound, hrefused⟩

end Signature

/-! ## Refusing arguments -/

namespace Action

/-- Executed with the arguments, the action comes to the fault, and nothing is done for it: no body
and no engine can make a difference. -/
def Refuses (registry : Registry β) (a : Action ι β) (args : List Value) (fault : InvocationFault) :
    Prop :=
  ∀ {m : Type → Type} [Monad m] [LawfulMonad m] (rt : Runtime m ι β) (depth : Nat),
    rt.perform registry (depth + 1) a (some args) = pure (.error (.invalidInvocation fault))

variable {registry : Registry β} {a : Action ι β} {args : List Value} {fault : InvocationFault}

/-- A refusal leaves no events behind, and leaves the state of the bodies as it was. -/
theorem Refuses.observed (h : a.Refuses registry args fault) {σ : Type}
    (body : β → ι → List Value → StateM σ Outcome) (engine : Engine (Observed σ ι β) ι β)
    (depth : Nat) (s : σ) (log : List (Event ι β)) :
    (Runtime.observed body engine).perform registry (depth + 1) a (some args) (s, log) =
      (some (.error (.invalidInvocation fault)), s, log) :=
  congrFun (h (Runtime.observed body engine) depth) (s, log)

/-- What the check refuses, the action refuses. -/
theorem perform_of_checkArgs [Monad m] [LawfulMonad m] {e : CallError}
    (h : a.method.signature.checkArgs args = .error e) (rt : Runtime m ι β) (depth : Nat) :
    rt.perform registry (depth + 1) a (some args) = pure (.error e) := by
  cases a with
  | direct call =>
    have hcheck : call.method.signature.checkArgs args = .error e := h
    rw [Runtime.perform, DirectCall.perform, hcheck]
    exact OptionT.lift_pure _
  | deferred d =>
    have hcheck : d.invocation.method.signature.checkArgs args = .error e := h
    have hplan : d.plan registry (some args) = .error e := by
      rw [DeferredCommand.plan, Invocation.withArgs, hcheck]
      rfl
    rw [Runtime.perform, hplan]

end Action

/-- A runtime in which every body and the engine come to null. -/
def Runtime.silent : Runtime Id ι β := ⟨fun _ _ _ => .ok .null, fun _ _ _ => pure (.ok .null)⟩

/-- What the check takes, a sound action takes. It may fail nevertheless, but not for its
arguments. -/
theorem Action.Sound.perform_silent {registrations : List (Registration β)}
    {registry : Registry β} (frozen : Registry.freeze registrations = .ok registry)
    {a : Action ι β} (sound : a.Sound registry) {args : List Value}
    (h : a.method.signature.checkArgs args = .ok ()) (depth : Nat) (fault : InvocationFault) :
    Runtime.silent.perform registry (depth + 1) a (some args) ≠
      pure (.error (.invalidInvocation fault)) := by
  cases a with
  | direct call =>
    have hcheck : call.method.signature.checkArgs args = .ok () := h
    have fits : call.method.Fits call.target call.args := sound
    rw [Runtime.perform, DirectCall.perform, hcheck, Method.invoke, (fits.replace hcheck).dispatch]
    intro heq
    cases Option.some.inj heq
  | deferred d =>
    obtain ⟨hs, hn⟩ := sound
    have hcheck : d.invocation.method.signature.checkArgs args = .ok () := h
    have hplan : d.plan registry (some args) =
        Resolver.plan ⟨registry, d.policy⟩ { d.invocation with args } d.batch := by
      rw [DeferredCommand.plan, Invocation.withArgs_eq_ok_iff.mpr ⟨hcheck, rfl⟩]
      rfl
    rw [Runtime.perform, hplan]
    -- A sound call is refused for its method, a cycle or an obstacle, never for its arguments.
    cases hp : Resolver.plan ⟨registry, d.policy⟩ { d.invocation with args } d.batch with
    | error e =>
      intro heq
      cases Option.some.inj heq
      rcases Resolver.shape_of_plan_eq_error frozen (hs.replace hn hcheck) hp with
        he | ⟨s, he⟩ | ⟨keys, he⟩ <;> cases he
    | ok plan =>
      intro heq
      cases Option.some.inj heq

/-- A sound action refuses what is wrong for its method, and nothing else. -/
theorem Action.Sound.refuses_iff {registrations : List (Registration β)}
    {registry : Registry β} (frozen : Registry.freeze registrations = .ok registry)
    {a : Action ι β} (sound : a.Sound registry) {args : List Value} {fault : InvocationFault} :
    a.Refuses registry args fault ↔ a.method.signature.Misfit args fault := by
  constructor
  · intro refuses
    have hsilent := refuses Runtime.silent 0
    cases hc : a.method.signature.checkArgs args with
    | ok u => exact absurd hsilent (sound.perform_silent frozen hc 0 fault)
    | error e =>
      obtain ⟨actual, misfit, rfl⟩ := Signature.checkArgs_eq_error_iff.mp hc
      rw [perform_of_checkArgs hc] at hsilent
      cases Option.some.inj hsilent
      exact misfit
  · intro misfit m _ _ rt depth
    exact perform_of_checkArgs (Signature.checkArgs_eq_error_iff.mpr ⟨fault, misfit, rfl⟩) rt depth

/-! ## Parameters below a call -/

section Frozen

variable {registrations : List (Registration β)} {r : Resolver β} {inv : Invocation ι β}
variable {batch : Batch} {p : Plan ι β}

/-- The command and the fallback of a sound call have the parameters of its method. -/
theorem Resolver.params_actionsOf (frozen : Registry.freeze registrations = .ok r.registry)
    (sound : inv.Sound r.registry) {a : Action ι β}
    (ha : a = (r.actionsOf inv batch).command ∨ (r.actionsOf inv batch).fallback = some a) :
    a.method.signature.params = inv.method.signature.params := by
  rcases ha with rfl | ha
  · rfl
  · obtain ⟨f, hf, rfl⟩ := Option.map_eq_some_iff.mp ha
    have hparams := (Registry.next?_shape frozen sound.registered hf).2.2
    unfold fallbackOf
    split <;> exact hparams

/-- Only the fallback of a call is deferred. -/
theorem Resolver.fallback_of_deferred_mem {d : DeferredCommand ι β}
    (h : .deferred d ∈ (r.actionsOf inv batch).toList) :
    (r.actionsOf inv batch).fallback = some (.deferred d) := by
  obtain ⟨f, hf, rfl⟩ := deferred_mem_actionsOf_iff.mp h
  obtain ⟨hf, hcmd⟩ := Registry.nextCommand?_eq_some_iff.mp hf
  rw [actionsOf, hf, Option.map_some, fallbackOf, if_pos hcmd]

/-- The same for the plan of a deferred command, whatever arguments it was executed with. -/
theorem DeferredCommand.params_of_plan (frozen : Registry.freeze registrations = .ok r.registry)
    {d : DeferredCommand ι β} (sound : (Action.deferred d).Sound r.registry)
    {given : Option (List Value)} (resolved : d.plan r.registry given = .ok p) {a : Action ι β}
    (ha : a = p.actions.command ∨ p.actions.fallback = some a) :
    a.method.signature.params = d.invocation.method.signature.params := by
  obtain ⟨call, hcall, hm, hactions⟩ := exists_call_of_plan frozen sound resolved
  rw [hactions] at ha
  rw [← hm]
  exact Resolver.params_actionsOf (r := ⟨r.registry, d.policy⟩) frozen hcall ha

/-- Every deferred command that is reached from a call has the parameters of its method. -/
theorem DeferredCommand.Reached.params (frozen : Registry.freeze registrations = .ok r.registry)
    (sound : inv.Sound r.registry) (settled : inv.Settled) {args : List Value}
    {d : DeferredCommand ι β} (reached : Reached r inv batch args d) :
    d.invocation.method.signature.params = inv.method.signature.params := by
  have step {given : Option (List Value)} {args : List Value} {d next : DeferredCommand ι β}
      {p : Plan ι β} (reached : Reached r inv batch args d)
      (resolved : d.plan r.registry given = .ok p) (mem : .deferred next ∈ p.actions.toList) :
      next.invocation.method.signature.params = d.invocation.method.signature.params := by
    have hd := reached.action_sound frozen sound settled
    obtain ⟨call, -, -, hactions⟩ := exists_call_of_plan frozen hd resolved
    rw [hactions] at mem
    have hnext := Resolver.fallback_of_deferred_mem mem
    rw [← hactions] at hnext
    exact params_of_plan frozen hd resolved (.inr hnext)
  induction reached with
  | first resolved mem =>
    rw [(Resolver.of_plan_eq_ok frozen sound resolved).2.2.2] at mem
    exact Resolver.params_actionsOf frozen sound (.inr (Resolver.fallback_of_deferred_mem mem))
  | captured reached resolved mem ih => exact (step reached resolved mem).trans ih
  | substituted reached resolved mem ih => exact (step reached resolved mem).trans ih

/-- The commands and the fallbacks of all plans below a call have the parameters of its method. -/
theorem Resolver.PlansBelow.params (frozen : Registry.freeze registrations = .ok r.registry)
    (sound : inv.Sound r.registry) (settled : inv.Settled) (below : r.PlansBelow inv batch p)
    {a : Action ι β} (ha : a = p.actions.command ∨ p.actions.fallback = some a) :
    a.method.signature.params = inv.method.signature.params := by
  cases below with
  | own resolved =>
    rw [(of_plan_eq_ok frozen sound resolved).2.2.2] at ha
    exact params_actionsOf frozen sound ha
  | nested reached resolved =>
    have hd := reached.action_sound frozen sound settled
    exact (DeferredCommand.params_of_plan frozen hd resolved ha).trans
      (reached.params frozen sound settled)

end Frozen

namespace Resolver

/-- Substitute arguments are taken or refused alike. Let a plan be that of a captured call, or that
of a deferred command below it. Its command and its fallback, be that a direct call or deferred,
have the parameters of the call's method. Each of them refuses arguments if their number is another
one or if some parameter does not take its argument, so one refuses them if the other does. What is
refused comes to the fault of the action's own method, which names the first argument that is wrong
if the number is right. No body is called for it, no plan is handed to the engine, and the state of
the bodies stays as it was. -/
theorem substitutes_taken_alike {registrations : List (Registration β)} {registry : Registry β}
    {policy : Policy} {draft : Invocation.Draft ι β} {inv : Invocation ι β}
    (frozen : Registry.freeze registrations = .ok registry) (captured : draft.build = .ok inv)
    (registered : inv.method ∈ registry.methods) (batch : Batch) (args : List Value) :
    ∀ p, PlansBelow ⟨registry, policy⟩ inv batch p →
      (∀ f, p.actions.fallback = some f →
        ((∃ fault, p.actions.command.Refuses registry args fault) ↔
          ∃ fault, f.Refuses registry args fault)) ∧
      ∀ a, a = p.actions.command ∨ p.actions.fallback = some a →
        a.method.signature.params = inv.method.signature.params ∧
        ((∃ fault, a.Refuses registry args fault) ↔
          args.length ≠ inv.method.arity ∨
            ∃ q ∈ inv.method.signature.params.zip args, q.1.accepts q.2 = false) ∧
        ∀ fault, (a.Refuses registry args fault ↔ a.method.signature.Misfit args fault) ∧
          (a.Refuses registry args fault →
            ∀ {σ : Type} (body : β → ι → List Value → StateM σ Outcome) engine depth s log,
              (Runtime.observed body engine).perform registry (depth + 1) a (some args) (s, log) =
                (some (.error (.invalidInvocation fault)), s, log)) := by
  intro p below
  have sound : inv.Sound registry := .of_build captured registered
  have settled : inv.Settled := .of_build captured
  have params {a : Action ι β} (ha : a = p.actions.command ∨ p.actions.fallback = some a) :
      a.method.signature.params = inv.method.signature.params :=
    below.params frozen sound settled ha
  have refuses {a : Action ι β} (ha : a = p.actions.command ∨ p.actions.fallback = some a)
      (fault : InvocationFault) :
      a.Refuses registry args fault ↔ a.method.signature.Misfit args fault := by
    have mem : a ∈ p.actions.toList := by
      rcases ha with rfl | ha
      · exact List.mem_cons_self
      · simp [ActionSet.toList, ha]
    exact (below.sound frozen sound settled mem).refuses_iff frozen
  have some_iff {a : Action ι β} (ha : a = p.actions.command ∨ p.actions.fallback = some a) :
      (∃ fault, a.Refuses registry args fault) ↔
        args.length ≠ inv.method.arity ∨
          ∃ q ∈ inv.method.signature.params.zip args, q.1.accepts q.2 = false := by
    simp only [refuses ha, Signature.exists_misfit_iff, params ha]
    rfl
  refine ⟨fun f hf => (some_iff (.inl rfl)).trans (some_iff (.inr hf)).symm, fun a ha => ?_⟩
  exact ⟨params ha, some_iff ha, fun fault => ⟨refuses ha fault, fun h => h.observed⟩⟩

end Resolver

/-- A text where the kiosk takes an integer. The command refuses it as its fallback does, each under
its own name, before the fallback resolves its own fallback. -/
theorem Kiosk.substitutes_taken_alike_kiosk :
    Registry.freeze registrations = .ok registry ∧ draft.build = .ok call ∧
      call.method ∈ registry.methods ∧
      ∃ p, Resolver.PlansBelow ⟨registry, {}⟩ call default p ∧
        p.actions.fallback = some (.deferred retry) ∧
        p.actions.command.Refuses registry [.text "jar"]
          (.wrongArgument 0 (method 0).signature .integer "TEXT") ∧
        (Action.deferred retry).Refuses registry [.text "jar"]
          (.wrongArgument 0 (method 1).signature .integer "TEXT") ∧
        ∀ (body : Unit → Unit → List Value → StateM Nat Outcome) depth s log,
          (Runtime.observed body Engine.failover).perform registry (depth + 1) (.deferred retry)
              (some [.text "jar"]) (s, log) =
            (some (.error (.invalidInvocation
              (.wrongArgument 0 (method 1).signature .integer "TEXT"))), s, log) := by
  obtain ⟨p, hp, hactions⟩ := resolved call_sound
  have below : Resolver.PlansBelow ⟨registry, {}⟩ call default p := .own hp
  have command : p.actions.command.method = method 0 := by
    rw [hactions]
    rfl
  have fallback : p.actions.fallback = some (.deferred retry) := by
    rw [hactions]
    refine Resolver.fallback_of_deferred_mem ?_
    exact Resolver.deferred_mem_actionsOf_iff.mpr ⟨_, next_command 0, rfl⟩
  have alike := (Resolver.substitutes_taken_alike freeze_registrations build_draft call_mem default
    [.text "jar"] p below).2
  obtain ⟨refuses, -⟩ := (alike _ (.inl rfl)).2.2
    (.wrongArgument 0 (method 0).signature .integer "TEXT")
  obtain ⟨refusesToo, quiet⟩ := (alike _ (.inr fallback)).2.2
    (.wrongArgument 0 (method 1).signature .integer "TEXT")
  have misfit (i : Fin 3) : (method i).signature.Misfit [.text "jar"]
      (.wrongArgument 0 (method i).signature .integer "TEXT") := by
    have params : (method i).signature.params = [.integer] := by
      revert i
      decide
    have found : ((method i).signature.params.zip [.text "jar"])[0]? =
        some (ParamKind.integer, Value.text "jar") := by rw [params]; rfl
    exact .argument (by rw [params]; rfl) found rfl (by simp)
  refine ⟨freeze_registrations, rfl, call_mem, p, below, fallback, ?_, ?_, ?_⟩
  · rw [refuses, command]
    exact misfit 0
  · exact refusesToo.mpr (misfit 1)
  · exact fun body => quiet (refusesToo.mpr (misfit 1)) body Engine.failover

end ProtectedCall
