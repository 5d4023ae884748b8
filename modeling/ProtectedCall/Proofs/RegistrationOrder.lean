import ProtectedCall.Proofs.Interference

/-!
# The order of registration

Methods may be registered in any order, those of one service together or apart. The registry that
comes of it answers every question in the same way, or else none comes of it in any order.

* `Registry.Alike`: two registries give the same answers, and the same calls run alike in both.
* `Registry.fallback_congr`, `Runtime.perform_congr`: resolution and runs look at a registry through
  `Registry.find?` alone, so registries that find the same methods are alike
  (`Registry.Alike.of_found`).
* `Registry.mem_of_perm`, `Registry.find?_of_perm`: in another order the same methods are found,
  each with the same link.
* `Registry.order_immaterial`: the whole for lists of registrations.
-/

namespace ProtectedCall

variable {ι β : Type}

/-! ## Registries that are alike -/

/-- Two registries are of the same size and find the same methods, with the same fallbacks, the same
errors of missing ones and the same recorded cycles. Calls are resolved to the same in both, as are
deferred commands with their own arguments or with others, and every action runs alike. -/
structure Registry.Alike (registry other : Registry β) : Prop where
  size : registry.size = other.size
  found (s : Signature) : registry.find? s = other.find? s
  fallback (s : Signature) :
    (registry.find? s).map registry.fallback = (other.find? s).map other.fallback
  cycle (s : Signature) :
    (registry.find? s).bind Method.cycle? = (other.find? s).bind Method.cycle?
  resolved {ι : Type} (policy : Policy) (inv : Invocation ι β) (batch : Batch) :
    Resolver.plan ⟨registry, policy⟩ inv batch = Resolver.plan ⟨other, policy⟩ inv batch
  deferred {ι : Type} (d : DeferredCommand ι β) (args : Option (List Value)) :
    d.plan registry args = d.plan other args
  performed {ι : Type} {m : Type → Type} [Monad m] (rt : Runtime m ι β) (depth : Nat) :
    rt.perform registry depth = rt.perform other depth

section Alike

variable {registry other : Registry β}

/-- Following a link is a question of what is found. -/
theorem Registry.fallback_congr (found : ∀ s, registry.find? s = other.find? s) (m : Method β) :
    registry.fallback m = other.fallback m := by
  unfold fallback
  cases m.link with
  | undeclared => rfl
  | linked s cycle => simp only [found]
  | missing name overloads => rfl

/-- Runs look at a registry where they resolve deferred commands. -/
theorem Runtime.perform_congr {m : Type → Type} [Monad m]
    (same : ∀ f, registry.fallback f = other.fallback f) (rt : Runtime m ι β) (depth : Nat) :
    rt.perform registry depth = rt.perform other depth := by
  induction depth with
  | zero =>
    funext a args
    cases a <;> rfl
  | succ depth ih =>
    funext a args
    cases a with
    | direct call => rfl
    | deferred d => rw [perform, perform, DeferredCommand.plan_congr (same _), ih]

/-- Registries that find the same methods are alike. -/
theorem Registry.Alike.of_found (size : registry.size = other.size)
    (found : ∀ s, registry.find? s = other.find? s) : registry.Alike other where
  size := size
  found := found
  fallback s := by rw [found, funext (fallback_congr found)]
  cycle s := by rw [found]
  resolved _ _ _ := Resolver.plan_congr (fallback_congr found _)
  deferred _ args := DeferredCommand.plan_congr (fallback_congr found _) args
  performed rt depth := rt.perform_congr (fallback_congr found) depth

end Alike

/-! ## Registrations in another order -/

namespace Registry

section Perm

variable {registrations others : List (Registration β)} {registry other : Registry β}

/-- A method is linked in the same way, in whatever order the others are registered. -/
theorem mem_of_perm (frozen : freeze registrations = .ok registry)
    (frozenOther : freeze others = .ok other) (perm : others.Perm registrations) {m : Method β}
    (hm : m ∈ registry.methods) : m ∈ other.methods := by
  have h : Enlarged registrations [] registry other :=
    ⟨frozen, others, by rwa [List.append_nil], frozenOther⟩
  exact (h.within_of_foreign hm fun x hx => absurd hx List.not_mem_nil).1

theorem find?_of_perm (frozen : freeze registrations = .ok registry)
    (frozenOther : freeze others = .ok other) (perm : others.Perm registrations) (s : Signature) :
    other.find? s = registry.find? s := by
  refine Option.ext fun m => ?_
  rw [find?_eq_some_iff frozenOther, find?_eq_some_iff frozen]
  have mem : m ∈ other.methods ↔ m ∈ registry.methods :=
    ⟨mem_of_perm frozenOther frozen perm.symm, mem_of_perm frozen frozenOther perm⟩
  rw [mem]

end Perm

/-- The order of registration does not matter. Registrations with distinct signatures can be frozen
in every order, and the registries are alike: they find the same methods with the same links, list
the same overloads of a missing fallback in the same order, record the same cycles, and resolve and
run the same calls alike. If a signature repeats, they can be frozen in no order, and the error names
a signature that repeats. -/
theorem order_immaterial {registrations others : List (Registration β)}
    (perm : others.Perm registrations) :
    ((registrations.map (·.signature)).Nodup →
      ∃ registry other, freeze registrations = .ok registry ∧ freeze others = .ok other ∧
        other.Alike registry) ∧
    (¬ (registrations.map (·.signature)).Nodup →
      ∃ s, freeze others = .error (.duplicateMethod s) ∧
        2 ≤ (registrations.map (·.signature)).count s) := by
  have signatures := perm.map (·.signature)
  constructor
  · intro distinct
    have frozen := freeze_of_nodup distinct
    have frozenOther := freeze_of_nodup (signatures.nodup_iff.mpr distinct)
    refine ⟨_, _, frozen, frozenOther, .of_found ?_ (find?_of_perm frozen frozenOther perm)⟩
    rw [size_of_freeze frozenOther, size_of_freeze frozen, perm.length_eq]
  · intro repeated
    rw [← signatures.nodup_iff] at repeated
    obtain ⟨s, hs, hcount⟩ := freeze_of_not_nodup repeated
    exact ⟨s, hs, by rwa [← signatures.count_eq]⟩

end Registry

/-! ## A depot -/

namespace Depot

/-- Two commands that fall back to each other, and one whose fallback takes other parameters. -/
def registrations : List (Registration Unit) :=
  [("haul", [], some "tow"), ("load", [.integer], some "stow"), ("stow", [.boolean], none),
    ("tow", [], some "haul"), ("stow", [.text], none)].map
    fun (name, params, fallbackName) =>
      { signature := ⟨"Depot", name, params⟩, body := (),
        command := fallbackName.map fun name => { fallbackName := name } }

theorem order_immaterial_depot :
    registrations.reverse.Perm registrations ∧ (registrations.map (·.signature)).Nodup ∧
      (∃ registry other, Registry.freeze registrations = .ok registry ∧
        Registry.freeze registrations.reverse = .ok other ∧ other.Alike registry ∧
        (other.find? ⟨"Depot", "tow", []⟩).bind Method.cycle? = some ["tow", "haul", "tow"] ∧
        (other.find? ⟨"Depot", "load", [.integer]⟩).map other.fallback =
          some (.error (.noSuchFallback "Depot" "stow" [.integer]
            ["Depot::stow(BOOLEAN)", "Depot::stow(TEXT)"]))) ∧
      ¬ ((registrations ++ registrations).map (·.signature)).Nodup ∧
      ∃ s, Registry.freeze (registrations ++ registrations) = .error (.duplicateMethod s) := by
  have perm : registrations.reverse.Perm registrations := List.reverse_perm _
  have distinct : (registrations.map (·.signature)).Nodup := by decide
  have repeated : ¬ ((registrations ++ registrations).map (·.signature)).Nodup := by decide
  obtain ⟨registry, other, frozen, frozenOther, alike⟩ :=
    (Registry.order_immaterial perm).1 distinct
  obtain rfl := (Registry.freeze_eq_ok_iff.mp frozen).2
  obtain ⟨s, hs, -⟩ := (Registry.order_immaterial (.refl _)).2 repeated
  have listed : FallbackLink.overloads registrations "Depot" "stow" =
      ["Depot::stow(BOOLEAN)", "Depot::stow(TEXT)"] := List.mergeSort_of_pairwise (by decide +kernel)
  refine ⟨perm, distinct, ⟨_, other, frozen, frozenOther, alike, ?_, ?_⟩, repeated, s, hs⟩
  · rw [alike.cycle]
    decide +kernel
  · rw [alike.fallback, ← listed]
    rfl

end Depot

end ProtectedCall
