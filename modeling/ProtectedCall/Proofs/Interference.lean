import ProtectedCall.Proofs.Descent
import ProtectedCall.Proofs.Precedence
import ProtectedCall.Proofs.Separation

/-!
# Services do not interfere

The same calls are resolved in a registry and in a larger one. Each method of a call is replaced by
the method of the same signature in the larger registry (`Invocation.within`, `Plan.within`).

* `Invocation.Captured`: the calls that there are, those with other arguments included.
* `Invocation.bare`: a call without its cache-key method, which resolution only copies
  (`Resolver.plan_bare`).
* `Registry.Enlarged.plan_eq`: a call of a method that is apart has the same plan, or the same error
  but for the overloads of a missing fallback.
* `Registry.Enlarged.yields_iff`: one step down leads to the same deferred commands, so every number
  of steps does (`Registry.Enlarged.reached_iff`).
* `Registry.services_apart`: methods of other owners change nothing, methods with other parameters
  only the overloads that are listed.
-/

namespace ProtectedCall

variable {ι β : Type}

/-! ## Calls in a larger registry -/

namespace Invocation

/-- The same call without a cache-key method. -/
def bare (inv : Invocation ι β) : Invocation ι β := { inv with cacheKeyMethod := none }

/-- A call as there can be one: captured, or with arguments that have replaced others. -/
inductive Captured : Invocation ι β → Prop where
  | built {draft : Draft ι β} {inv : Invocation ι β} (h : draft.build = .ok inv) : Captured inv
  | replaced {inv other : Invocation ι β} {args : List Value} (captured : Captured inv)
      (h : inv.withArgs args = .ok other) : Captured other

/-- The same call, with its methods as they are in another registry. -/
def within (inv : Invocation ι β) (registry : Registry β) : Invocation ι β :=
  { inv with
    method := inv.method.within registry
    cacheKeyMethod := inv.cacheKeyMethod.map (·.within registry) }

/-- What is supplied about a call, with the methods as they are in another registry. -/
def Draft.within (draft : Draft ι β) (registry : Registry β) : Draft ι β :=
  { draft with
    method := draft.method.map (·.within registry)
    cacheKeyMethod := draft.cacheKeyMethod.map (·.within registry) }

variable {inv other : Invocation ι β} {registry : Registry β} {args : List Value}

theorem Sound.bare (h : inv.Sound registry) : inv.bare.Sound registry where
  registered := h.registered
  fits := h.fits
  cacheKey := by
    intro c hc
    cases hc

/-- The method of a call fits it, even if the cache-key method does not any more. -/
theorem Captured.sound (h : inv.Captured) (hm : inv.method ∈ registry.methods) :
    inv.bare.Sound registry := by
  induction h with
  | built h => exact (Sound.of_build h hm).bare
  | replaced _ h ih =>
    obtain ⟨hargs, rfl⟩ := withArgs_eq_ok_iff.mp h
    exact (ih hm).replace rfl hargs

/-- Other arguments are checked in the same way in both registries. -/
theorem withArgs_within (inv : Invocation ι β) (registry : Registry β) (args : List Value) :
    (inv.within registry).withArgs args = (inv.withArgs args).map (·.within registry) := by
  have hs : (inv.within registry).method.signature = inv.method.signature :=
    Method.signature_within _ _
  unfold withArgs
  rw [hs]
  cases inv.method.signature.checkArgs args <;> rfl

/-- Other arguments are refused as arguments. -/
theorem withArgs_fault {e : CallError} (h : inv.withArgs args = .error e) :
    ∃ fault, e = .invalidInvocation fault := by
  unfold withArgs at h
  cases hc : inv.method.signature.checkArgs args with
  | ok u =>
    rw [hc] at h
    cases h
  | error e' =>
    rw [hc] at h
    cases h
    exact Signature.checkArgs_fault hc

end Invocation

/-- The same deferred command, with its methods as they are in another registry. -/
def DeferredCommand.within (d : DeferredCommand ι β) (registry : Registry β) :
    DeferredCommand ι β :=
  { d with invocation := d.invocation.within registry }

/-- The same action, with its methods as they are in another registry. -/
def Action.within (a : Action ι β) (registry : Registry β) : Action ι β :=
  match a with
  | .direct call => .direct { call with method := call.method.within registry }
  | .deferred d => .deferred (d.within registry)

/-- The same actions, with their methods as they are in another registry. -/
def ActionSet.within (s : ActionSet ι β) (registry : Registry β) : ActionSet ι β where
  command := s.command.within registry
  fallback := s.fallback.map (·.within registry)
  cacheKey := s.cacheKey.map (·.within registry)

/-- The same plan, with the methods of its actions as they are in another registry. -/
def Plan.within (p : Plan ι β) (registry : Registry β) : Plan ι β :=
  { p with actions := p.actions.within registry }

theorem ActionSet.toList_within (s : ActionSet ι β) (registry : Registry β) :
    (s.within registry).toList = s.toList.map (·.within registry) := by
  cases s with
  | mk command fallback cacheKey => cases fallback <;> cases cacheKey <;> rfl

theorem ActionSet.deferred_mem_within {s : ActionSet ι β} {registry : Registry β}
    {e : DeferredCommand ι β} :
    .deferred e ∈ (s.within registry).toList ↔
      ∃ d, .deferred d ∈ s.toList ∧ e = d.within registry := by
  rw [ActionSet.toList_within, List.mem_map]
  constructor
  · rintro ⟨a, ha, he⟩
    cases a with
    | direct call => cases he
    | deferred d =>
      cases he
      exact ⟨d, ha, rfl⟩
  · rintro ⟨d, hd, rfl⟩
    exact ⟨.deferred d, hd, rfl⟩

theorem Method.Fits.within {m : Method β} {target : Target ι} {args : List Value}
    (h : m.Fits target args) (registry : Registry β) : (m.within registry).Fits target args :=
  h.congr (by rw [Method.owner, Method.signature_within, Method.owner])
    (by rw [Method.signature_within])

namespace Resolver

variable {r : Resolver β} {inv : Invocation ι β} {batch : Batch}

/-- The cache-key method of a call only comes back as an action. -/
theorem plan_bare (r : Resolver β) (inv : Invocation ι β) (batch : Batch) :
    r.plan inv batch = (r.plan inv.bare batch).map fun p =>
      { p with
        actions := { p.actions with
          cacheKey := inv.cacheKeyMethod.map fun m => .direct ⟨inv.target, m, inv.args⟩ } } := by
  have haction : r.fallbackAction inv.bare batch = r.fallbackAction inv batch := rfl
  have hcommand : inv.bare.command = inv.command := rfl
  have hmethod : inv.bare.method = inv.method := rfl
  unfold plan actions
  rw [hcommand, hmethod, haction]
  cases inv.command with
  | none => rfl
  | some decl =>
    cases r.checkCycle inv.method with
    | error e => rfl
    | ok u =>
      cases hp : PoolOverlay.ofSettings? decl.poolSettings with
      | error e => simp [bind, Except.bind, Except.map, hp]
      | ok pool =>
        cases r.fallbackAction inv batch with
        | error e => simp [bind, Except.bind, Except.map, hp]
        | ok fallback =>
          simp [bind, Except.bind, pure, Except.pure, Except.map, hp, Invocation.bare]

/-- Resolution reads no more of a registry than the fallback of the method. -/
theorem plan_congr {registry larger : Registry β} {policy : Policy}
    (h : larger.fallback inv.method = registry.fallback inv.method) :
    Resolver.plan ⟨larger, policy⟩ inv batch = Resolver.plan ⟨registry, policy⟩ inv batch := by
  have haction : Resolver.fallbackAction ⟨larger, policy⟩ inv batch =
      Resolver.fallbackAction ⟨registry, policy⟩ inv batch := by
    unfold fallbackAction
    rw [h]
    rfl
  unfold plan actions
  rw [haction]
  rfl

end Resolver

/-- Nor does the resolution of a deferred command, with its own arguments or with others. -/
theorem DeferredCommand.plan_congr {registry larger : Registry β} {d : DeferredCommand ι β}
    (h : larger.fallback d.invocation.method = registry.fallback d.invocation.method)
    (args : Option (List Value)) : d.plan larger args = d.plan registry args := by
  cases args with
  | none => exact Resolver.plan_congr h
  | some args =>
    simp only [DeferredCommand.plan]
    cases hw : d.invocation.withArgs args with
    | error e => rfl
    | ok other =>
      obtain ⟨-, rfl⟩ := Invocation.withArgs_eq_ok_iff.mp hw
      exact Resolver.plan_congr h

namespace Registry.Enlarged

variable {registrations added : List (Registration β)} {registry larger : Registry β}
variable {inv : Invocation ι β} {batch : Batch} {policy : Policy} {m f : Method β} {e : CallError}

/-- What is captured with the methods of the one registry is captured with those of the other. -/
theorem build_within (h : Enlarged registrations added registry larger)
    {draft : Invocation.Draft ι β} (captured : draft.build = .ok inv)
    (hm : inv.method ∈ registry.methods) (apart : inv.method.signature.Apart added) :
    (draft.within larger).build = .ok (inv.within larger) := by
  obtain ⟨target, method, ht, hd, hf, hc, rfl⟩ := Invocation.Draft.build_eq_ok_iff.mp captured
  have hreg : (method.within larger).toRegistration = method.toRegistration := by
    rw [(h.mem_within hm apart).2]
    rfl
  refine Invocation.Draft.build_eq_ok_iff.mpr
    ⟨target, method.within larger, ht, by simp [Invocation.Draft.within, hd], hf.within larger,
      ?_, ?_⟩
  · intro c hcw
    obtain ⟨c, hcm, rfl⟩ := Option.map_eq_some_iff.mp hcw
    exact (hc c hcm).within larger
  · simp only [Invocation.within, Invocation.Draft.within, Method.name, hreg]

theorem captured_within (h : Enlarged registrations added registry larger) (captured : inv.Captured)
    (hm : inv.method ∈ registry.methods) (apart : inv.method.signature.Apart added) :
    (inv.within larger).Captured := by
  induction captured with
  | built hb => exact .built (h.build_within hb hm apart)
  | @replaced inv other args _ hr ih =>
    have haccepted : (inv.within larger).withArgs args = .ok (other.within larger) := by
      rw [Invocation.withArgs_within, hr]
      rfl
    obtain ⟨-, rfl⟩ := Invocation.withArgs_eq_ok_iff.mp hr
    exact .replaced (ih hm apart) haccepted

theorem sound_within (h : Enlarged registrations added registry larger) (sound : inv.Sound registry)
    (apart : inv.method.signature.Apart added) : (inv.within larger).Sound larger where
  registered := by
    obtain ⟨hmem, hw⟩ := h.mem_within sound.registered apart
    show inv.method.within larger ∈ larger.methods
    rw [hw]
    exact hmem
  fits := sound.fits.within larger
  cacheKey := by
    intro c hcw
    obtain ⟨c, hcm, rfl⟩ := Option.map_eq_some_iff.mp hcw
    exact (sound.cacheKey c hcm).within larger

theorem ofFallback_within (h : Enlarged registrations added registry larger)
    (hf : f ∈ registry.methods) (apart : f.signature.Apart added) :
    (inv.within larger).ofFallback (f.within larger) = (inv.ofFallback f).within larger := by
  have hreg : (f.within larger).toRegistration = f.toRegistration := by
    rw [(h.mem_within hf apart).2]
    rfl
  simp only [Invocation.ofFallback, Invocation.within, Method.name, hreg, Option.map_none]

/-! ## Plans in a larger registry -/

/-- A missing fallback is missing in both registries. -/
theorem missing?_eq (h : Enlarged registrations added registry larger) (hm : m ∈ registry.methods)
    (apart : m.signature.Apart added) :
    Resolver.missing? ⟨larger, policy⟩ (m.within larger) =
      (Resolver.missing? ⟨registry, policy⟩ m).map (CallError.withOverloads added) := by
  unfold Resolver.missing?
  rw [h.fallback_eq hm apart]
  cases registry.fallback m with
  | ok f => rfl
  | error e => cases policy.missingFallback <;> rfl

/-- So an obstacle is one in both registries. -/
theorem obstacle?_eq (h : Enlarged registrations added registry larger) (hm : m ∈ registry.methods)
    (apart : m.signature.Apart added) :
    Resolver.obstacle? ⟨larger, policy⟩ (m.within larger) =
      (Resolver.obstacle? ⟨registry, policy⟩ m).map (CallError.withOverloads added) := by
  have hcommand : (m.within larger).command = m.command := by
    rw [(h.mem_within hm apart).2]
    rfl
  unfold Resolver.obstacle?
  rw [hcommand, h.missing?_eq hm apart]
  cases m.command with
  | none => rfl
  | some decl =>
    cases hp : PoolOverlay.ofSettings? decl.poolSettings with
    | ok pool => simp only [hp]
    | error e =>
      have hfault := PoolOverlay.ofSettings?_eq_error_iff.mp hp
      obtain ⟨s, -, hs⟩ := List.exists_of_findSome?_eq_some hfault
      simp only [hp, Option.map_some]
      rcases Setting.shape_of_fault? hs with rfl | ⟨fault, rfl⟩ <;> rfl

theorem checkCycle_eq (h : Enlarged registrations added registry larger) (hm : m ∈ registry.methods)
    (apart : m.signature.Apart added) :
    Resolver.checkCycle ⟨larger, policy⟩ (m.within larger) =
      Resolver.checkCycle ⟨registry, policy⟩ m := by
  unfold Resolver.checkCycle
  rw [(h.mem_within hm apart).2, Method.cycle?_withOverloads]

/-- The actions of a call are the same. -/
theorem actionsOf_eq (h : Enlarged registrations added registry larger) (sound : inv.Sound registry)
    (apart : inv.method.signature.Apart added) :
    Resolver.actionsOf ⟨larger, policy⟩ (inv.within larger) batch =
      (Resolver.actionsOf ⟨registry, policy⟩ inv batch).within larger := by
  have hnext : larger.next? (inv.within larger).method =
      (registry.next? inv.method).map (·.within larger) := h.next?_eq sound.registered apart
  rw [Resolver.actionsOf, Resolver.actionsOf, ActionSet.within, ActionSet.mk.injEq, hnext,
    Option.map_map, Option.map_map]
  refine ⟨rfl, ?_, ?_⟩
  · refine Option.map_congr fun f hn => ?_
    obtain ⟨hf, hapart⟩ := h.next?_apart sound.registered apart hn
    simp only [Function.comp_apply, Resolver.fallbackOf, h.isCommand_within hf hapart,
      h.ofFallback_within hf hapart]
    split <;> rfl
  · rw [Option.map_map, Invocation.within, Option.map_map]
    rfl

/-- The plan of a sound call is the same, and so is its error but for the overloads of a missing
fallback. -/
theorem plan_eq_of_sound (h : Enlarged registrations added registry larger)
    (sound : inv.Sound registry) (apart : inv.method.signature.Apart added) :
    Resolver.plan ⟨larger, policy⟩ (inv.within larger) batch =
      ((Resolver.plan ⟨registry, policy⟩ inv batch).map (·.within larger)).mapError
        (CallError.withOverloads added) := by
  obtain ⟨all, -, frozenAll⟩ := h.enlarged
  have hm := sound.registered
  have soundWithin := h.sound_within sound apart
  have hmethod : (inv.within larger).method = inv.method.within larger := rfl
  have hcommand : (inv.within larger).command = inv.command := by
    rw [Invocation.command, hmethod, (h.mem_within hm apart).2]
    rfl
  -- All that resolution asks of the method stays, the listed overloads apart.
  cases hp : Resolver.plan ⟨registry, policy⟩ inv batch with
  | ok p =>
    obtain ⟨decl, pool, hd, hcyc, hpool, hmiss, rfl⟩ :=
      (Resolver.plan_eq_ok_iff h.frozen sound).mp hp
    refine (Resolver.plan_eq_ok_iff frozenAll soundWithin).mpr
      ⟨decl, pool, hcommand.trans hd, (h.checkCycle_eq hm apart).trans hcyc, hpool, ?_, ?_⟩
    · rw [hmethod, h.missing?_eq hm apart, hmiss, Option.map_none]
    · rw [h.actionsOf_eq sound apart]
      rfl
  | error e =>
    refine (Resolver.plan_eq_error_iff frozenAll soundWithin).mpr ?_
    rw [hmethod, h.isCommand_within hm apart, h.checkCycle_eq hm apart, h.obstacle?_eq hm apart,
      Method.signature_within]
    rcases (Resolver.plan_eq_error_iff h.frozen sound).mp hp with
      ⟨hn, rfl⟩ | ⟨hc, he⟩ | ⟨hcyc, he⟩
    · exact .inl ⟨hn, rfl⟩
    · obtain ⟨keys, -, rfl⟩ := Resolver.checkCycle_eq_error he
      exact .inr (.inl ⟨hc, he⟩)
    · exact .inr (.inr ⟨hcyc, by rw [he, Option.map_some]⟩)

/-- It is so even if the cache-key method does not fit the call any more. -/
theorem plan_eq (h : Enlarged registrations added registry larger)
    (sound : inv.bare.Sound registry) (apart : inv.method.signature.Apart added) :
    Resolver.plan ⟨larger, policy⟩ (inv.within larger) batch =
      ((Resolver.plan ⟨registry, policy⟩ inv batch).map (·.within larger)).mapError
        (CallError.withOverloads added) := by
  have hbare : (inv.within larger).bare = inv.bare.within larger := rfl
  rw [Resolver.plan_bare _ (inv.within larger), Resolver.plan_bare _ inv, hbare,
    h.plan_eq_of_sound sound apart]
  cases Resolver.plan ⟨registry, policy⟩ inv.bare batch with
  | error e => rfl
  | ok p =>
    simp only [Except.map, Except.mapError, Plan.within, ActionSet.within, Invocation.within,
      Option.map_map]
    rfl

/-- The same holds for a deferred command, with its own arguments or with others. -/
theorem deferred_plan_eq (h : Enlarged registrations added registry larger)
    {d : DeferredCommand ι β} (sound : d.invocation.bare.Sound registry)
    (apart : d.invocation.method.signature.Apart added) (args : Option (List Value)) :
    (d.within larger).plan larger args =
      ((d.plan registry args).map (·.within larger)).mapError (CallError.withOverloads added) := by
  cases args with
  | none => exact h.plan_eq sound apart
  | some args =>
    have hinv : (d.within larger).invocation = d.invocation.within larger := rfl
    simp only [DeferredCommand.plan, hinv, Invocation.withArgs_within]
    cases hw : d.invocation.withArgs args with
    | error e =>
      obtain ⟨fault, rfl⟩ := Invocation.withArgs_fault hw
      rfl
    | ok other =>
      obtain ⟨hargs, rfl⟩ := Invocation.withArgs_eq_ok_iff.mp hw
      exact h.plan_eq (sound.replace rfl hargs) apart

end Registry.Enlarged

/-! ## Descent in a larger registry -/

namespace DeferredCommand

variable {registrations : List (Registration β)} {registry : Registry β}
variable {d e next : DeferredCommand ι β} {p : Plan ι β}

/-- What a plan defers does not come from the cache-key method. -/
theorem bare_resolved (resolved : d.plan registry none = .ok p)
    (mem : .deferred next ∈ p.actions.toList) :
    ∃ q, DeferredCommand.plan registry { d with invocation := d.invocation.bare } none = .ok q ∧
      .deferred next ∈ q.actions.toList := by
  rw [plan, Resolver.plan_bare] at resolved
  cases hq : Resolver.plan ⟨registry, d.policy⟩ d.invocation.bare d.batch with
  | error e =>
    rw [hq] at resolved
    cases resolved
  | ok q =>
    rw [hq] at resolved
    cases resolved
    refine ⟨q, hq, ?_⟩
    simp only [ActionSet.toList, List.mem_cons, List.mem_append, Option.mem_toList,
      Option.map_eq_some_iff] at mem ⊢
    -- A cache key is called directly, so it is not what is deferred.
    rcases mem with hc | hf | ⟨c, -, hc⟩
    · exact .inl hc
    · exact .inr (.inl hf)
    · cases hc

theorem Yields.bare (step : d.Yields registry e) :
    Yields registry { d with invocation := d.invocation.bare } e := by
  cases step with
  | captured resolved mem =>
    obtain ⟨q, hq, hmem⟩ := bare_resolved resolved mem
    exact .captured hq hmem
  | replaced resolved mem accepted =>
    obtain ⟨q, hq, hmem⟩ := bare_resolved resolved mem
    exact .replaced hq hmem accepted

/-- A step leads to a method of the same owner and the same parameters, and its call fits it. -/
theorem Yields.shape (frozen : Registry.freeze registrations = .ok registry)
    (sound : d.invocation.bare.Sound registry) (step : d.Yields registry e) :
    e.invocation.bare.Sound registry ∧ e.invocation.method.owner = d.invocation.method.owner ∧
      e.invocation.method.signature.params = d.invocation.method.signature.params := by
  have hsound := step.bare.sound frozen sound
  obtain ⟨-, f, args, hf, -, rfl⟩ := (yields_iff frozen sound).mp step.bare
  obtain ⟨-, ho, hp⟩ :=
    Registry.next?_shape frozen sound.registered (Registry.nextCommand?_eq_some_iff.mp hf).1
  exact ⟨hsound.bare, ho, hp⟩

theorem shape_of_reached (frozen : Registry.freeze registrations = .ok registry)
    (sound : d.invocation.bare.Sound registry)
    (reached : Relation.ReflTransGen (Yields registry) d e) :
    e.invocation.bare.Sound registry ∧ e.invocation.method.owner = d.invocation.method.owner ∧
      e.invocation.method.signature.params = d.invocation.method.signature.params := by
  induction reached with
  | refl => exact ⟨sound, rfl, rfl⟩
  | tail _ step ih =>
    obtain ⟨hsound, ho, hp⟩ := ih
    obtain ⟨hsound, ho', hp'⟩ := step.shape frozen hsound
    exact ⟨hsound, ho'.trans ho, hp'.trans hp⟩

end DeferredCommand

/-- Where every step of one system is one of another, up to `f`, so is every number of steps. -/
private theorem reached_map_iff {α : Type} {R S : α → α → Prop} {f : α → α} {inv : α → Prop}
    (keep : ∀ a b, inv a → R a b → inv b)
    (step : ∀ a c, inv a → (S (f a) c ↔ ∃ b, R a b ∧ c = f b)) {a c : α} (h : inv a) :
    Relation.ReflTransGen S (f a) c ↔ ∃ b, Relation.ReflTransGen R a b ∧ c = f b := by
  have hkeep {b : α} (hr : Relation.ReflTransGen R a b) : inv b := by
    induction hr with
    | refl => exact h
    | tail _ hstep ih => exact keep _ _ ih hstep
  constructor
  · intro hs
    induction hs with
    | refl => exact ⟨a, .refl, rfl⟩
    | tail _ hstep ih =>
      obtain ⟨b, hr, rfl⟩ := ih
      obtain ⟨d, hd, rfl⟩ := (step b _ (hkeep hr)).mp hstep
      exact ⟨d, hr.tail hd, rfl⟩
  · rintro ⟨b, hr, rfl⟩
    induction hr with
    | refl => exact .refl
    | tail hr hstep ih => exact ih.tail ((step _ _ (hkeep hr)).mpr ⟨_, hstep, rfl⟩)

namespace Registry.Enlarged

variable {registrations added : List (Registration β)} {registry larger : Registry β}
variable {d e : DeferredCommand ι β} {m : Method β}

/-- One step down leads to the same deferred commands. -/
theorem yields_iff (h : Enlarged registrations added registry larger)
    (sound : d.invocation.bare.Sound registry)
    (apart : d.invocation.method.signature.Apart added) :
    (d.within larger).Yields larger e ↔ ∃ b, d.Yields registry b ∧ e = b.within larger := by
  have hplan := h.deferred_plan_eq sound apart none
  -- Both plans are there or none is.
  have hok {q : Plan ι β} (hq : (d.within larger).plan larger none = .ok q) :
      ∃ p, d.plan registry none = .ok p ∧ q = p.within larger := by
    rw [hplan] at hq
    cases hp : d.plan registry none with
    | error e =>
      rw [hp] at hq
      cases hq
    | ok p =>
      rw [hp] at hq
      exact ⟨p, rfl, (Except.ok.inj hq).symm⟩
  constructor
  · intro step
    cases step with
    | captured resolved mem =>
      obtain ⟨p, hp, rfl⟩ := hok resolved
      obtain ⟨next, hn, rfl⟩ := ActionSet.deferred_mem_within.mp mem
      exact ⟨next, .captured hp hn, rfl⟩
    | @replaced _ _ args _ resolved mem accepted =>
      obtain ⟨p, hp, rfl⟩ := hok resolved
      obtain ⟨next, hn, rfl⟩ := ActionSet.deferred_mem_within.mp mem
      have haccepted := Invocation.withArgs_within next.invocation larger args
      rw [show next.invocation.within larger = (next.within larger).invocation from rfl,
        accepted] at haccepted
      cases hw : next.invocation.withArgs args with
      | error e =>
        rw [hw] at haccepted
        cases haccepted
      | ok other =>
        rw [hw] at haccepted
        cases haccepted
        exact ⟨_, .replaced hp hn hw, rfl⟩
  · rintro ⟨b, step, rfl⟩
    cases step with
    | captured resolved mem =>
      rw [resolved] at hplan
      exact .captured hplan (ActionSet.deferred_mem_within.mpr ⟨_, mem, rfl⟩)
    | @replaced _ next args other resolved mem accepted =>
      rw [resolved] at hplan
      have haccepted :
          (next.within larger).invocation.withArgs args = .ok (other.within larger) := by
        rw [DeferredCommand.within, Invocation.withArgs_within, accepted]
        rfl
      have hmem := (@ActionSet.deferred_mem_within _ _ _ larger _).mpr ⟨_, mem, rfl⟩
      have hstep := DeferredCommand.Yields.replaced hplan hmem haccepted
      exact hstep

/-- So does every number of steps. -/
theorem reached_iff (h : Enlarged registrations added registry larger)
    (sound : d.invocation.bare.Sound registry)
    (apart : d.invocation.method.signature.Apart added) :
    Relation.ReflTransGen (DeferredCommand.Yields larger) (d.within larger) e ↔
      ∃ b, Relation.ReflTransGen (DeferredCommand.Yields registry) d b ∧ e = b.within larger := by
  refine @reached_map_iff _ _ _ (·.within larger)
    (fun a => a.invocation.bare.Sound registry ∧ a.invocation.method.signature.Apart added)
    (fun a b ha step => ?_) (fun a c ha => h.yields_iff ha.1 ha.2) d e ⟨sound, apart⟩
  obtain ⟨hs, ho, hp⟩ := step.shape h.frozen ha.1
  exact ⟨hs, ha.2.congr ho hp⟩

/-- Where methods of other owners are added, one step down leads to the same deferred commands. -/
theorem yields_iff_of_foreign (h : Enlarged registrations added registry larger)
    (sound : d.invocation.bare.Sound registry)
    (foreign : ∀ x ∈ added, x.signature.owner ≠ d.invocation.method.owner) :
    d.Yields larger e ↔ d.Yields registry e := by
  have hplan : d.plan larger none = d.plan registry none :=
    DeferredCommand.plan_congr (h.fallback_of_foreign sound.registered foreign) none
  constructor
  · intro step
    cases step with
    | captured resolved mem => exact .captured (hplan ▸ resolved) mem
    | replaced resolved mem accepted => exact .replaced (hplan ▸ resolved) mem accepted
  · intro step
    cases step with
    | captured resolved mem => exact .captured (hplan ▸ resolved) mem
    | replaced resolved mem accepted => exact .replaced (hplan ▸ resolved) mem accepted

/-- So does every number of steps. -/
theorem reached_iff_of_foreign (h : Enlarged registrations added registry larger)
    (sound : d.invocation.bare.Sound registry)
    (foreign : ∀ x ∈ added, x.signature.owner ≠ d.invocation.method.owner) :
    Relation.ReflTransGen (DeferredCommand.Yields larger) d e ↔
      Relation.ReflTransGen (DeferredCommand.Yields registry) d e := by
  have hreached := @reached_map_iff _ (DeferredCommand.Yields registry)
    (DeferredCommand.Yields larger) id
    (fun a => a.invocation.bare.Sound registry ∧
      ∀ x ∈ added, x.signature.owner ≠ a.invocation.method.owner)
    (fun a b ha step => by
      obtain ⟨hs, ho, -⟩ := step.shape h.frozen ha.1
      exact ⟨hs, by rw [ho]; exact ha.2⟩)
    (fun a c ha => by
      rw [id, h.yields_iff_of_foreign ha.1 ha.2]
      simp) d e ⟨sound, foreign⟩
  simpa using hreached

end Registry.Enlarged

/-! ## Services -/

open DeferredCommand Relation in
/-- Two registries have the same method, with the same fallback, and resolve the same calls of it to
the same: the call itself, and every deferred command below it. -/
structure Registry.Agree (registry larger : Registry β) (m : Method β) : Prop where
  found : registry.find? m.signature = some m ∧ larger.find? m.signature = some m
  fallback : larger.fallback m = registry.fallback m
  reached {ι : Type} {inv : Invocation ι β} (captured : inv.Captured) (called : inv.method = m)
    (policy : Policy) (batch : Batch) (d : DeferredCommand ι β) :
    ReflTransGen (Yields larger) ⟨policy, inv, batch⟩ d ↔
      ReflTransGen (Yields registry) ⟨policy, inv, batch⟩ d
  resolved {ι : Type} {inv : Invocation ι β} (captured : inv.Captured) (called : inv.method = m)
    (policy : Policy) (batch : Batch) (d : DeferredCommand ι β)
    (reached : ReflTransGen (Yields registry) ⟨policy, inv, batch⟩ d)
    (args : Option (List Value)) : d.plan larger args = d.plan registry args

open DeferredCommand Relation in
/-- Two registries have the same method but for the overloads of a missing fallback, and resolve the
same calls of it to the same but for those: the call itself, and every deferred command below it. -/
structure Registry.AgreeButOverloads (added : List (Registration β)) (registry larger : Registry β)
    (m : Method β) : Prop where
  found : larger.find? m.signature = some (m.withOverloads added)
  peers : ∀ f ∈ registry.methods, f.owner = m.owner → f.signature.params = m.signature.params →
    f.within larger = f.withOverloads added
  cycle : (m.within larger).cycle? = m.cycle?
  fallback :
    larger.fallback (m.within larger) =
      ((registry.fallback m).map (Option.map (·.within larger))).mapError
        (CallError.withOverloads added)
  captured {ι : Type} {inv : Invocation ι β} (captured : inv.Captured) (called : inv.method = m) :
    (inv.within larger).Captured
  reached {ι : Type} {inv : Invocation ι β} (captured : inv.Captured) (called : inv.method = m)
    (policy : Policy) (batch : Batch) (e : DeferredCommand ι β) :
    ReflTransGen (Yields larger) ⟨policy, inv.within larger, batch⟩ e ↔
      ∃ d, ReflTransGen (Yields registry) ⟨policy, inv, batch⟩ d ∧ e = d.within larger
  resolved {ι : Type} {inv : Invocation ι β} (captured : inv.Captured) (called : inv.method = m)
    (policy : Policy) (batch : Batch) (d : DeferredCommand ι β)
    (reached : ReflTransGen (Yields registry) ⟨policy, inv, batch⟩ d)
    (args : Option (List Value)) :
    (d.within larger).plan larger args =
      ((d.plan registry args).map (·.within larger)).mapError (CallError.withOverloads added)

namespace Registry

variable {registrations added : List (Registration β)} {registry larger : Registry β}
variable {m : Method β}

theorem Enlarged.agree (h : Enlarged registrations added registry larger)
    (hm : m ∈ registry.methods) (foreign : ∀ x ∈ added, x.signature.owner ≠ m.owner) :
    registry.Agree larger m where
  found := by
    obtain ⟨all, -, frozenAll⟩ := h.enlarged
    exact ⟨(find?_eq_some_iff h.frozen).mpr ⟨hm, rfl⟩,
      (find?_eq_some_iff frozenAll).mpr ⟨(h.within_of_foreign hm foreign).1, rfl⟩⟩
  fallback := h.fallback_of_foreign hm foreign
  reached := by
    rintro ι inv captured rfl policy batch d
    have sound := captured.sound hm
    exact @reached_iff_of_foreign _ _ _ _ _ _ ⟨policy, inv, batch⟩ d h sound foreign
  resolved := by
    rintro ι inv captured rfl policy batch d hd args
    obtain ⟨hs, ho, -⟩ := DeferredCommand.shape_of_reached h.frozen (captured.sound hm) hd
    refine DeferredCommand.plan_congr (h.fallback_of_foreign hs.registered ?_) args
    rw [ho]
    exact foreign

theorem Enlarged.agreeButOverloads (h : Enlarged registrations added registry larger)
    (hm : m ∈ registry.methods) (apart : m.signature.Apart added) :
    AgreeButOverloads added registry larger m where
  found := by
    obtain ⟨all, -, frozenAll⟩ := h.enlarged
    exact (find?_eq_some_iff frozenAll).mpr ⟨(h.mem_within hm apart).1, rfl⟩
  peers f hf ho hp := (h.mem_within hf (apart.congr ho hp)).2
  cycle := by rw [(h.mem_within hm apart).2, Method.cycle?_withOverloads]
  fallback := h.fallback_eq hm apart
  captured := by
    rintro ι inv captured rfl
    exact h.captured_within captured hm apart
  reached := by
    rintro ι inv captured rfl policy batch e
    exact @reached_iff _ _ _ _ _ _ ⟨policy, inv, batch⟩ e h (captured.sound hm) apart
  resolved := by
    rintro ι inv captured rfl policy batch d hd args
    obtain ⟨hs, ho, hp⟩ := DeferredCommand.shape_of_reached h.frozen (captured.sound hm) hd
    exact h.deferred_plan_eq hs (apart.congr ho hp) args

/-- Services do not interfere. If methods are added, in any places, whose owners are all other than
that of a method, the method stays as it is, and so does everything that its calls are resolved to.
If some have its owner but none has its parameters as well, this holds but for the overloads that
are listed where a fallback is missing: those may become more. -/
theorem services_apart {registrations added all : List (Registration β)}
    (distinct : (all.map (·.signature)).Nodup) (perm : all.Perm (registrations ++ added)) :
    ∃ registry larger, freeze registrations = .ok registry ∧ freeze all = .ok larger ∧
      ∀ m ∈ registry.methods,
        ((∀ x ∈ added, x.signature.owner ≠ m.owner) → registry.Agree larger m) ∧
          (m.signature.Apart added → AgreeButOverloads added registry larger m) := by
  have hsub := Registration.nodup_of_all distinct perm
  have h : Enlarged registrations added (linked registrations) (linked all) :=
    ⟨freeze_of_nodup hsub, all, perm, freeze_of_nodup distinct⟩
  exact ⟨_, _, freeze_of_nodup hsub, freeze_of_nodup distinct, fun m hm =>
    ⟨h.agree hm, h.agreeButOverloads hm⟩⟩

end Registry

/-! ## A quay -/

namespace Quay

/-- A ferry whose command lacks its fallback, and a till. -/
def registrations : List (Registration Unit) :=
  [("Ferry", "cross", [.integer], some "wait"), ("Till", "pay", [], some "note"),
    ("Till", "note", [], none)].map
    fun (owner, name, params, fallbackName) =>
      { signature := ⟨owner, name, params⟩, body := (),
        command := fallbackName.map fun name => { fallbackName := name } }

/-- An overload of the missing fallback, and a service apart. -/
def added : List (Registration Unit) :=
  [("Ferry", "wait", [.text]), ("Crane", "note", [])].map
    fun (owner, name, params) => { signature := ⟨owner, name, params⟩, body := () }

theorem services_apart_quay :
    ((added ++ registrations).map (·.signature)).Nodup ∧
      (added ++ registrations).Perm (registrations ++ added) ∧
      ∃ registry larger, Registry.freeze registrations = .ok registry ∧
        Registry.freeze (added ++ registrations) = .ok larger ∧
        (∃ m ∈ registry.methods, m.name = "pay" ∧ registry.Agree larger m) ∧
        ∃ m ∈ registry.methods,
          registry.fallback m = .error (.noSuchFallback "Ferry" "wait" [.integer] []) ∧
          larger.fallback (m.within larger) =
            .error (.noSuchFallback "Ferry" "wait" [.integer] ["Ferry::wait(TEXT)"]) := by
  have distinct : ((added ++ registrations).map (·.signature)).Nodup := by decide
  have perm : (added ++ registrations).Perm (registrations ++ added) := List.perm_append_comm
  obtain ⟨registry, larger, frozen, frozenAll, spec⟩ := Registry.services_apart distinct perm
  obtain rfl := (Registry.freeze_eq_ok_iff.mp frozen).2
  have missing := (spec _ List.mem_cons_self).2 (by decide)
  have listed : mergeOverloads [] added "Ferry" "wait" = ["Ferry::wait(TEXT)"] := by decide +kernel
  have refused : (Registry.linked registrations).fallback
      ((Registry.linked registrations).methods.head (List.cons_ne_nil _ _)) =
        .error (.noSuchFallback "Ferry" "wait" [.integer] []) := by decide +kernel
  refine ⟨distinct, perm, _, larger, frozen, frozenAll, ?_, _, List.mem_cons_self, refused, ?_⟩
  · refine ⟨_, List.mem_cons_of_mem _ List.mem_cons_self, rfl, (spec _ ?_).1 (by decide)⟩
    exact List.mem_cons_of_mem _ List.mem_cons_self
  · rw [← listed]
    exact missing.fallback.trans (congrArg _ (congrArg _ refused))

end Quay

end ProtectedCall
