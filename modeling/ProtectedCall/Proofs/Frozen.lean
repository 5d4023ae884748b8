import Mathlib.Data.List.Nodup
import ProtectedCall.Registry

/-!
# Frozen registries

What is known of a registry from `Registry.freeze registrations = .ok registry` alone. Other proofs
about registries go through these lemmas and never look into `Registry.freeze` again.

* `FallbackLink.of_eq`, `FallbackLink.walk_step`: the link of a registration, and the walk that
  records its cycle.
* `Registry.freeze_eq_ok_iff`: freezing succeeds exactly for distinct signatures, and adds a link to
  every registration. `Registry.freeze_eq_error_iff`: otherwise the first repetition is the error.
* `Registry.find?_eq_some_iff`: a method is found under its own signature and under no other.
  `Registry.find?_of_registered`, `Registry.find?_eq_none_iff`: the same by registrations.
* `Registry.fallback_of_mem`: following the link of a method is looking its fallback up by name.
-/

namespace ProtectedCall

variable {β : Type}

/-- The name of the declared fallback. It is empty where none is declared. -/
def Registration.fallbackName (r : Registration β) : String :=
  match r.command with
  | some d => d.fallbackName
  | none => ""

theorem Registration.fallbackName_of_command {r : Registration β} {d : CommandDecl}
    (h : r.command = some d) : r.fallbackName = d.fallbackName := by
  simp [fallbackName, h]

/-- A method that declares a fallback is a command. -/
theorem Registration.isSome_of_fallbackName {r : Registration β}
    (h : r.fallbackName.isEmpty = false) : r.command.isSome := by
  cases hc : r.command with
  | none => simp [fallbackName, hc] at h
  | some d => rfl

/-- The link of a registration depends on the name of its fallback and on the methods there are. -/
theorem FallbackLink.of_eq (registrations : List (Registration β)) (r : Registration β) :
    FallbackLink.of registrations r =
      if r.fallbackName.isEmpty then .undeclared
      else
        match Registration.lookup registrations (r.signature.sibling r.fallbackName) with
        | some f => .linked f.signature (cycle? registrations r)
        | none =>
          .missing r.fallbackName (overloads registrations r.signature.owner r.fallbackName) := by
  unfold FallbackLink.of
  cases hc : r.command with
  | none => simp [Registration.fallbackName, hc]
  | some d =>
    have hn := Registration.fallbackName_of_command hc
    generalize r.fallbackName = name at hn ⊢
    subst hn
    rfl

/-- One step of a walk, which finds a registration or ends. -/
theorem FallbackLink.walk_step (registrations : List (Registration β)) (start : Signature)
    (visited : List String) (next : String) :
    walk registrations start visited next =
      if next.isEmpty then none
      else
        match Registration.lookup registrations (start.sibling next) with
        | none => none
        | some r =>
          match r.command with
          | none => none
          | some d =>
            if r.key ∈ visited then some (visited ++ [r.key])
            else walk registrations start (visited ++ [r.key]) d.fallbackName := by
  rw [walk]
  by_cases hn : next.isEmpty
  · rw [if_pos hn, if_pos hn]
  · rw [if_neg hn, if_neg hn]
    -- The walk keeps what it has found, for its termination.
    split
    · rename_i hl
      rw [hl]
    · rename_i r hl
      cases hc : r.command <;> simp only [hl, hc]

namespace Registry

/-! ## Freezing -/

theorem firstRepeated?_eq_none_iff {seen signatures : List Signature} :
    firstRepeated? seen signatures = none ↔
      signatures.Nodup ∧ ∀ s ∈ signatures, s ∉ seen := by
  induction signatures generalizing seen with
  | nil => simp [firstRepeated?]
  | cons s rest ih =>
    unfold firstRepeated?
    by_cases hs : s ∈ seen
    · simp [hs]
    · rw [if_neg hs, ih]
      simp only [List.mem_cons, not_or, List.nodup_cons, forall_eq_or_imp]
      constructor
      · rintro ⟨hnd, hrest⟩
        exact ⟨⟨fun hmem => (hrest s hmem).1 rfl, hnd⟩, hs, fun t ht => (hrest t ht).2⟩
      · rintro ⟨⟨hnot, hnd⟩, -, hrest⟩
        exact ⟨hnd, fun t ht => ⟨fun e => hnot (e ▸ ht), hrest t ht⟩⟩

/-- What is found is the first element that has occurred before. -/
theorem firstRepeated?_eq_some_iff {seen signatures : List Signature} {s : Signature} :
    firstRepeated? seen signatures = some s ↔ ∃ before after, signatures = before ++ s :: after ∧
      firstRepeated? seen before = none ∧ (s ∈ seen ∨ s ∈ before) := by
  induction signatures generalizing seen with
  | nil => simp [firstRepeated?]
  | cons t rest ih =>
    by_cases ht : t ∈ seen
    · rw [firstRepeated?, if_pos ht, Option.some.injEq]
      constructor
      · rintro rfl
        exact ⟨[], rest, rfl, rfl, .inl ht⟩
      · rintro ⟨before, after, heq, hnone, -⟩
        cases before with
        | nil => exact (List.cons.inj heq).1
        | cons u before =>
          obtain ⟨rfl, -⟩ := List.cons.inj heq
          rw [firstRepeated?, if_pos ht] at hnone
          cases hnone
    · rw [firstRepeated?, if_neg ht, ih]
      constructor
      · rintro ⟨before, after, rfl, hnone, hs⟩
        refine ⟨t :: before, after, rfl, by rw [firstRepeated?, if_neg ht, hnone], ?_⟩
        simpa [or_left_comm, or_assoc] using hs
      · rintro ⟨before, after, heq, hnone, hs⟩
        cases before with
        | nil =>
          obtain ⟨rfl, -⟩ := List.cons.inj heq
          exact absurd hs (by simpa using ht)
        | cons u before =>
          obtain ⟨rfl, rfl⟩ := List.cons.inj heq
          rw [firstRepeated?, if_neg ht] at hnone
          exact ⟨before, after, rfl, hnone, by simpa [or_left_comm, or_assoc] using hs⟩

/-- Freezing succeeds exactly for distinct signatures, and adds a link to every registration. -/
theorem freeze_eq_ok_iff {registrations : List (Registration β)} {registry : Registry β} :
    freeze registrations = .ok registry ↔
      (registrations.map (·.signature)).Nodup ∧ registry =
        ⟨registrations.map fun r => { r with link := FallbackLink.of registrations r }⟩ := by
  have hnone := @firstRepeated?_eq_none_iff [] (registrations.map (·.signature))
  unfold freeze
  cases hr : firstRepeated? [] (registrations.map (·.signature)) with
  | some s =>
    have hdup : ¬ (registrations.map (·.signature)).Nodup := fun hnd => by
      rw [hnone.mpr ⟨hnd, by simp⟩] at hr
      cases hr
    simp [hdup]
  | none =>
    have hnd := (hnone.mp hr).1
    simp only [Except.ok.injEq, hnd, true_and]
    exact eq_comm

/-- Freezing fails exactly where a signature repeats, and reports the first one that does. -/
theorem freeze_eq_error_iff {registrations : List (Registration β)} {e : CallError} :
    freeze registrations = .error e ↔ ∃ before s after,
      registrations.map (·.signature) = before ++ s :: after ∧ before.Nodup ∧ s ∈ before ∧
        e = .duplicateMethod s := by
  unfold freeze
  cases hr : firstRepeated? [] (registrations.map (·.signature)) with
  | none =>
    have hnd := (firstRepeated?_eq_none_iff.mp hr).1
    simp only [reduceCtorEq, false_iff]
    rintro ⟨before, s, after, heq, -, hs, -⟩
    rw [heq] at hnd
    exact (List.nodup_append.mp hnd).2.2 s hs s List.mem_cons_self rfl
  | some s =>
    simp only [Except.error.injEq]
    constructor
    · rintro rfl
      obtain ⟨before, after, heq, hnone, hs⟩ := firstRepeated?_eq_some_iff.mp hr
      exact ⟨before, s, after, heq, (firstRepeated?_eq_none_iff.mp hnone).1, by simpa using hs, rfl⟩
    · rintro ⟨before, t, after, heq, hnd, ht, rfl⟩
      have hnone : firstRepeated? [] before = none :=
        firstRepeated?_eq_none_iff.mpr ⟨hnd, by simp⟩
      have ht := firstRepeated?_eq_some_iff.mpr ⟨before, after, heq, hnone, .inr ht⟩
      rw [Option.some.inj (hr.symm.trans ht)]

/-- Registrations with their links. -/
def linked (registrations : List (Registration β)) : Registry β :=
  ⟨registrations.map fun r => { r with link := FallbackLink.of registrations r }⟩

theorem freeze_of_nodup {registrations : List (Registration β)}
    (distinct : (registrations.map (·.signature)).Nodup) :
    freeze registrations = .ok (linked registrations) :=
  freeze_eq_ok_iff.mpr ⟨distinct, rfl⟩

/-- Repeated signatures are an error, which names one of them. -/
theorem freeze_of_not_nodup {registrations : List (Registration β)}
    (repeated : ¬ (registrations.map (·.signature)).Nodup) :
    ∃ s, freeze registrations = .error (.duplicateMethod s) ∧
      2 ≤ (registrations.map (·.signature)).count s := by
  cases hf : freeze registrations with
  | ok registry => exact absurd (freeze_eq_ok_iff.mp hf).1 repeated
  | error e =>
    obtain ⟨before, s, after, heq, -, hs, rfl⟩ := freeze_eq_error_iff.mp hf
    refine ⟨s, rfl, ?_⟩
    have hpos : 0 < before.count s := List.count_pos_iff.mpr hs
    rw [heq, List.count_append, List.count_cons_self]
    omega

/-- Freezing fails if a signature repeats. -/
theorem freeze_fails_iff {registrations : List (Registration β)} :
    (∃ e, freeze registrations = .error e) ↔ ¬ (registrations.map (·.signature)).Nodup := by
  constructor
  · rintro ⟨e, he⟩ distinct
    rw [freeze_of_nodup distinct] at he
    cases he
  · intro repeated
    obtain ⟨s, hs, -⟩ := freeze_of_not_nodup repeated
    exact ⟨_, hs⟩

/-- The error is that of the first registration that repeats an earlier one. -/
theorem freeze_eq_error_iff_repeats {registrations : List (Registration β)} {e : CallError} :
    freeze registrations = .error e ↔ ∃ before r after, registrations = before ++ r :: after ∧
      (before.map (·.signature)).Nodup ∧ (∃ earlier ∈ before, earlier.signature = r.signature) ∧
      e = .duplicateMethod r.signature := by
  rw [freeze_eq_error_iff]
  constructor
  · rintro ⟨_, s, _, hmap, distinct, hs, rfl⟩
    obtain ⟨before, rest, rfl, rfl, hrest⟩ := List.map_eq_append_iff.mp hmap
    obtain ⟨r, after, rfl, rfl, rfl⟩ := List.map_eq_cons_iff.mp hrest
    exact ⟨before, r, after, rfl, distinct, List.mem_map.mp hs, rfl⟩
  · rintro ⟨before, r, after, rfl, distinct, repeated, rfl⟩
    exact ⟨_, _, after.map (·.signature), by simp, distinct, List.mem_map.mpr repeated, rfl⟩

/-- The first element that satisfies `p` is the only one that does. -/
private theorem find?_of_unique {α : Type} {p : α → Bool} {a : α} {l : List α} (ha : a ∈ l)
    (hp : p a) (unique : ∀ b ∈ l, p b → b = a) : l.find? p = some a := by
  cases hf : l.find? p with
  | none => exact absurd hp (List.find?_eq_none.mp hf a ha)
  | some b => rw [unique b (List.mem_of_find?_eq_some hf) (List.find?_some hf)]

section Frozen

variable {registrations : List (Registration β)} {registry : Registry β}

/-- The methods are the registrations with their links. -/
theorem mem_methods_iff (frozen : freeze registrations = .ok registry) {m : Method β} :
    m ∈ registry.methods ↔ m.toRegistration ∈ registrations ∧
      m.link = FallbackLink.of registrations m.toRegistration := by
  obtain ⟨-, rfl⟩ := freeze_eq_ok_iff.mp frozen
  simp only [List.mem_map]
  constructor
  · rintro ⟨r, hr, rfl⟩
    exact ⟨hr, rfl⟩
  · rintro ⟨hr, hl⟩
    exact ⟨m.toRegistration, hr, by rw [← hl]⟩

/-- There are as many methods as registrations. -/
theorem size_of_freeze (frozen : freeze registrations = .ok registry) :
    registry.size = registrations.length := by
  obtain ⟨-, rfl⟩ := freeze_eq_ok_iff.mp frozen
  exact List.length_map _

/-- A method is known by its signature. -/
theorem eq_of_signature (frozen : freeze registrations = .ok registry) {a b : Method β}
    (ha : a ∈ registry.methods) (hb : b ∈ registry.methods) (h : a.signature = b.signature) :
    a = b := by
  obtain ⟨hnd, -⟩ := freeze_eq_ok_iff.mp frozen
  obtain ⟨har, hal⟩ := (mem_methods_iff frozen).mp ha
  obtain ⟨hbr, hbl⟩ := (mem_methods_iff frozen).mp hb
  have hr : a.toRegistration = b.toRegistration := List.inj_on_of_nodup_map hnd har hbr h
  cases a
  cases b
  simp_all

/-- A method is found under its own signature and under no other. -/
theorem find?_eq_some_iff (frozen : freeze registrations = .ok registry) {s : Signature}
    {m : Method β} : registry.find? s = some m ↔ m ∈ registry.methods ∧ m.signature = s := by
  constructor
  · intro h
    exact ⟨List.mem_of_find?_eq_some h, by simpa using List.find?_some h⟩
  · rintro ⟨hm, rfl⟩
    refine find?_of_unique hm (by simp) fun f hf hs => ?_
    exact eq_of_signature frozen hf hm (by simpa using hs)

/-- The registrations and the methods give the same answer to a signature. -/
theorem lookup_eq (frozen : freeze registrations = .ok registry) (s : Signature) :
    Registration.lookup registrations s = (registry.find? s).map (·.toRegistration) := by
  obtain ⟨-, rfl⟩ := freeze_eq_ok_iff.mp frozen
  have hid : (Method.toRegistration ∘ fun r : Registration β =>
      ({ r with link := FallbackLink.of registrations r } : Method β)) = id := rfl
  simp only [Registration.lookup, find?, List.find?_map, Option.map_map]
  rw [hid, Option.map_id]
  rfl

/-- What is registered is found under its signature. -/
theorem find?_of_registered (frozen : freeze registrations = .ok registry) {r : Registration β}
    (hr : r ∈ registrations) :
    registry.find? r.signature = some { r with link := FallbackLink.of registrations r } :=
  (find?_eq_some_iff frozen).mpr ⟨(mem_methods_iff frozen).mpr ⟨hr, rfl⟩, rfl⟩

/-- A method is looked up as it was registered. -/
theorem lookup_of_mem (frozen : freeze registrations = .ok registry) {m : Method β}
    (hm : m ∈ registry.methods) :
    Registration.lookup registrations m.signature = some m.toRegistration := by
  rw [lookup_eq frozen, (find?_eq_some_iff frozen).mpr ⟨hm, rfl⟩]
  rfl

/-- Nothing is found under a signature that nothing was registered with. -/
theorem find?_eq_none_iff (frozen : freeze registrations = .ok registry) {s : Signature} :
    registry.find? s = none ↔ ∀ r ∈ registrations, r.signature ≠ s := by
  rw [← Option.map_eq_none_iff (f := Method.toRegistration), ← lookup_eq frozen]
  simp [Registration.lookup]

/-! ## Links -/

/-- Following the link of a method is looking its fallback up by name. -/
theorem fallback_of_mem (frozen : freeze registrations = .ok registry) {m : Method β}
    (hm : m ∈ registry.methods) :
    registry.fallback m =
      if m.fallbackName.isEmpty then .ok none
      else
        match registry.find? (m.signature.sibling m.fallbackName) with
        | some f => .ok (some f)
        | none =>
          .error (.noSuchFallback m.owner m.fallbackName m.signature.params
            (FallbackLink.overloads registrations m.owner m.fallbackName)) := by
  have hl := ((mem_methods_iff frozen).mp hm).2
  rw [FallbackLink.of_eq, lookup_eq frozen] at hl
  unfold fallback
  by_cases he : m.fallbackName.isEmpty
  · rw [if_pos he] at hl ⊢
    rw [hl]
  · rw [if_neg he] at hl ⊢
    cases hf : registry.find? (m.signature.sibling m.fallbackName) with
    | none =>
      rw [hf] at hl
      rw [hl]
      rfl
    | some f =>
      -- The link has the signature of what was found, by which it is found again.
      obtain ⟨-, hs⟩ := (find?_eq_some_iff frozen).mp hf
      rw [hf] at hl
      simp only [Option.map_some, hs] at hl
      simp only [hl, hf]

/-- Only a missing fallback is an error, as the registry still has all its methods. -/
theorem noSuchFallback_of_error (frozen : freeze registrations = .ok registry) {m : Method β}
    (hm : m ∈ registry.methods) {e : CallError} (h : registry.fallback m = .error e) :
    ∃ owner name params available, e = .noSuchFallback owner name params available := by
  rw [fallback_of_mem frozen hm] at h
  split at h
  · cases h
  · split at h
    · cases h
    · exact ⟨_, _, _, _, (Except.error.inj h).symm⟩

end Frozen

end Registry

end ProtectedCall
