import Mathlib.Order.Bounds.Defs
import ProtectedCall.Proofs.Frozen

/-!
# Chains of fallbacks

* `Registry.follow`: the methods along the links of fallbacks, a plain one at the end included.
* `Registry.chain`: the same as far as the methods are commands; it may go on forever.
* `Registry.keyAt`, `Registry.Repeats`: the command keys along a chain, and where one comes back.
* `Registry.peers`: the commands that a chain can go through (`chain_mem_peers`).
* `Registry.lt_peers_of_chain`: a chain without repeated keys is shorter than the list of its peers,
  so the links end (`follow_eq_none`). No method comes back along them (`follow_injective`).
* `Registry.keyAt_add`: the keys from a later command on are a suffix, so a chain without repeated
  keys goes on without them (`Repeats.of_add`).
-/

namespace ProtectedCall

variable {β : Type}

namespace Registry

/-- The fallback of a method, if there is one. -/
def next? (registry : Registry β) (m : Method β) : Option (Method β) :=
  match registry.fallback m with
  | .ok fallback => fallback
  | .error _ => none

/-- The fallback of a method, if it is a command itself. -/
def nextCommand? (registry : Registry β) (m : Method β) : Option (Method β) :=
  (registry.next? m).filter (·.isCommand)

/-- What is `n` steps away. -/
def steps (step : Method β → Option (Method β)) (m : Method β) : Nat → Option (Method β)
  | 0 => some m
  | n + 1 => (steps step m n).bind step

/-- The method that is `n` fallbacks away. -/
def follow (registry : Registry β) : Method β → Nat → Option (Method β) := steps registry.next?

/-- The method that is `n` fallbacks away, all of them commands. -/
def chain (registry : Registry β) : Method β → Nat → Option (Method β) :=
  steps registry.nextCommand?

/-- The command key that is `n` fallbacks away. -/
def keyAt (registry : Registry β) (m : Method β) (n : Nat) : Option String :=
  (registry.chain m n).map (·.key)

/-- The command key that is `n` fallbacks away has occurred before. -/
def Repeats (registry : Registry β) (m : Method β) (n : Nat) : Prop :=
  ∃ i < n, ∃ key, registry.keyAt m i = some key ∧ registry.keyAt m n = some key

/-- The commands of a method's owner with the method's parameters. -/
def peers (registry : Registry β) (m : Method β) : List (Method β) :=
  registry.methods.filter fun f =>
    f.isCommand && f.owner = m.owner && f.signature.params = m.signature.params

theorem mem_peers_iff {registry : Registry β} {m f : Method β} :
    f ∈ registry.peers m ↔ f ∈ registry.methods ∧ f.isCommand ∧ f.owner = m.owner ∧
      f.signature.params = m.signature.params := by
  simp [peers, and_assoc]

/-! ## Steps -/

section Steps

variable {step : Method β → Option (Method β)}

@[simp] theorem steps_zero (m : Method β) : steps step m 0 = some m := rfl

theorem steps_add (m : Method β) (i j : Nat) :
    steps step m (i + j) = (steps step m i).bind fun f => steps step f j := by
  induction j with
  | zero => simp
  | succ j ih =>
    rw [← Nat.add_assoc, steps, ih, Option.bind_assoc]
    rfl

/-- The first step may be taken apart. -/
theorem steps_succ {m f : Method β} (h : step m = some f) (n : Nat) :
    steps step m (n + 1) = steps step f n := by
  rw [Nat.add_comm, steps_add, steps, steps_zero, Option.bind_some, h]
  rfl

theorem steps_isSome_of_le {m : Method β} {i n : Nat} (hi : i ≤ n)
    (h : (steps step m n).isSome) : (steps step m i).isSome := by
  obtain ⟨k, rfl⟩ := Nat.exists_eq_add_of_le hi
  rw [steps_add] at h
  cases hs : steps step m i with
  | none => simp [hs] at h
  | some f => rfl

end Steps

/-! ## One fallback -/

section Frozen

variable {registrations : List (Registration β)} {registry : Registry β}
variable {m f : Method β}

theorem next?_eq_some_iff (frozen : freeze registrations = .ok registry)
    (hm : m ∈ registry.methods) :
    registry.next? m = some f ↔ m.fallbackName.isEmpty = false ∧ f ∈ registry.methods ∧
      f.signature = m.signature.sibling m.fallbackName := by
  rw [next?, fallback_of_mem frozen hm, ← find?_eq_some_iff frozen]
  by_cases he : m.fallbackName.isEmpty
  · simp [he]
  · cases hf : registry.find? (m.signature.sibling m.fallbackName) <;> simp [he]

theorem nextCommand?_eq_some_iff :
    registry.nextCommand? m = some f ↔ registry.next? m = some f ∧ f.isCommand := by
  simp [nextCommand?, Option.filter_eq_some_iff]

/-- The fallback of a method is registered, and its owner and its parameters are the method's. -/
theorem next?_shape (frozen : freeze registrations = .ok registry) (hm : m ∈ registry.methods)
    (h : registry.next? m = some f) :
    f ∈ registry.methods ∧ f.owner = m.owner ∧ f.signature.params = m.signature.params := by
  obtain ⟨-, hf, hs⟩ := (next?_eq_some_iff frozen hm).mp h
  exact ⟨hf, by rw [Method.owner, hs]; rfl, by rw [hs]; rfl⟩

/-- A fallback has the name by which it is declared. -/
theorem name_of_next? (frozen : freeze registrations = .ok registry) (hm : m ∈ registry.methods)
    (h : registry.next? m = some f) : f.name = m.fallbackName ∧ m.fallbackName ≠ "" := by
  obtain ⟨named, -, hs⟩ := (next?_eq_some_iff frozen hm).mp h
  exact ⟨by rw [Method.name, hs]; rfl, by simpa using named⟩

/-- Only commands have fallbacks. -/
theorem isCommand_of_next? (frozen : freeze registrations = .ok registry)
    (hm : m ∈ registry.methods) (h : registry.next? m = some f) : m.isCommand :=
  Registration.isSome_of_fallbackName ((next?_eq_some_iff frozen hm).mp h).1

theorem next?_eq_none (frozen : freeze registrations = .ok registry) (hm : m ∈ registry.methods)
    (hc : ¬ m.isCommand) : registry.next? m = none := by
  cases hn : registry.next? m with
  | none => rfl
  | some f => exact absurd (isCommand_of_next? frozen hm hn) hc

/-! ## Whole chains -/

theorem follow_succ (h : registry.next? m = some f) (n : Nat) :
    registry.follow m (n + 1) = registry.follow f n := steps_succ h n

theorem chain_succ (h : registry.nextCommand? m = some f) (n : Nat) :
    registry.chain m (n + 1) = registry.chain f n := steps_succ h n

theorem follow_of_chain {n : Nat} (h : registry.chain m n = some f) :
    registry.follow m n = some f := by
  induction n generalizing f with
  | zero => exact h
  | succ n ih =>
    obtain ⟨g, hg, hf⟩ := Option.bind_eq_some_iff.mp h
    exact Option.bind_eq_some_iff.mpr ⟨g, ih hg, (nextCommand?_eq_some_iff.mp hf).1⟩

/-- Owner and parameters stay the same along the links. -/
theorem follow_shape (frozen : freeze registrations = .ok registry) (hm : m ∈ registry.methods)
    {n : Nat} (h : registry.follow m n = some f) :
    f ∈ registry.methods ∧ f.owner = m.owner ∧ f.signature.params = m.signature.params := by
  induction n generalizing f with
  | zero => cases h; exact ⟨hm, rfl, rfl⟩
  | succ n ih =>
    obtain ⟨g, hg, hf⟩ := Option.bind_eq_some_iff.mp h
    obtain ⟨hgm, hgo, hgp⟩ := ih hg
    obtain ⟨hfm, hfo, hfp⟩ := next?_shape frozen hgm hf
    exact ⟨hfm, hfo.trans hgo, hfp.trans hgp⟩

theorem isCommand_of_chain (hc : m.isCommand) {n : Nat} (h : registry.chain m n = some f) :
    f.isCommand := by
  cases n with
  | zero => cases h; exact hc
  | succ n =>
    obtain ⟨g, -, hf⟩ := Option.bind_eq_some_iff.mp h
    exact (nextCommand?_eq_some_iff.mp hf).2

/-- A chain of commands stays among the commands of one owner and one list of parameters. -/
theorem chain_mem_peers (frozen : freeze registrations = .ok registry)
    (hm : m ∈ registry.methods) (hc : m.isCommand) {n : Nat} (h : registry.chain m n = some f) :
    f ∈ registry.peers m := by
  obtain ⟨hfm, hfo, hfp⟩ := follow_shape frozen hm (follow_of_chain h)
  exact mem_peers_iff.mpr ⟨hfm, isCommand_of_chain hc h, hfo, hfp⟩

/-- All methods on the way to a command are commands. -/
theorem chain_of_follow (frozen : freeze registrations = .ok registry) (hm : m ∈ registry.methods)
    {n : Nat} (h : registry.follow m n = some f) (hf : f.isCommand) :
    registry.chain m n = some f := by
  induction n generalizing f with
  | zero => exact h
  | succ n ih =>
    obtain ⟨g, hg, hnext⟩ := Option.bind_eq_some_iff.mp h
    have hgc := isCommand_of_next? frozen (follow_shape frozen hm hg).1 hnext
    exact Option.bind_eq_some_iff.mpr ⟨g, ih hg hgc, nextCommand?_eq_some_iff.mpr ⟨hnext, hf⟩⟩

/-- Behind the end of a chain no key comes back. -/
theorem not_repeats_of_chain_none {i n : Nat} (h : registry.chain m i = none) (hi : i ≤ n) :
    ¬ registry.Repeats m n := by
  rintro ⟨-, -, key, -, hkey⟩
  have hsome : (registry.chain m n).isSome := by
    rw [keyAt] at hkey
    obtain ⟨f, hf, -⟩ := Option.map_eq_some_iff.mp hkey
    rw [hf]
    rfl
  have := steps_isSome_of_le hi hsome
  rw [← chain, h] at this
  cases this

/-- The keys from a later command on are the later keys. -/
theorem keyAt_add {i : Nat} (h : registry.chain m i = some f) (j : Nat) :
    registry.keyAt m (i + j) = registry.keyAt f j := by
  rw [keyAt, chain, steps_add]
  rw [chain] at h
  rw [h]
  rfl

/-- A key that comes back from a later command on comes back from the first one on. -/
theorem Repeats.of_add {i j : Nat} (h : registry.chain m i = some f) (hr : registry.Repeats f j) :
    registry.Repeats m (i + j) := by
  obtain ⟨k, hk, key, h₁, h₂⟩ := hr
  exact ⟨i + k, by omega, key, by rw [keyAt_add h, h₁], by rw [keyAt_add h, h₂]⟩

theorem keyAt_isSome_of_le {i n : Nat} (hi : i ≤ n) (h : (registry.keyAt m n).isSome) :
    (registry.keyAt m i).isSome := by
  rw [keyAt, Option.isSome_map] at h ⊢
  exact steps_isSome_of_le hi h

/-- Only from commands on do keys come back. -/
theorem isCommand_of_repeats (frozen : freeze registrations = .ok registry)
    (hm : m ∈ registry.methods) {n : Nat} (h : registry.Repeats m n) : m.isCommand := by
  cases hn : registry.nextCommand? m with
  | none =>
    have hpos : 1 ≤ n := by
      obtain ⟨i, hi, -⟩ := h
      omega
    have hend : registry.chain m 1 = none := hn
    exact (not_repeats_of_chain_none hend hpos h).elim
  | some f => exact isCommand_of_next? frozen hm (nextCommand?_eq_some_iff.mp hn).1

theorem Repeats.of_next? (frozen : freeze registrations = .ok registry)
    (hm : m ∈ registry.methods) (h : registry.next? m = some f) {n : Nat}
    (hr : registry.Repeats f n) : registry.Repeats m (1 + n) := by
  have hf := isCommand_of_repeats frozen (next?_shape frozen hm h).1 hr
  exact of_add (nextCommand?_eq_some_iff.mpr ⟨h, hf⟩) hr

/-- Before the first repetition the keys are distinct. -/
theorem nodup_keys {n : Nat} (some : ∀ i < n, (registry.keyAt m i).isSome)
    (fresh : ∀ i < n, ¬ registry.Repeats m i) :
    ((List.range n).map (registry.keyAt m)).Nodup := by
  refine List.Nodup.map_on (fun i hi j hj he => ?_) List.nodup_range
  rw [List.mem_range] at hi hj
  obtain ⟨key, hkey⟩ := Option.isSome_iff_exists.mp (some i hi)
  rcases Nat.lt_trichotomy i j with hlt | heq | hgt
  · exact (fresh j hj ⟨i, hlt, key, hkey, he ▸ hkey⟩).elim
  · exact heq
  · exact (fresh i hi ⟨j, hgt, key, he ▸ hkey, hkey⟩).elim

/-- Without repeated keys no method comes back along the links. -/
theorem follow_injective (frozen : freeze registrations = .ok registry)
    (hm : m ∈ registry.methods) (fresh : ∀ n, ¬ registry.Repeats m n) {i j : Nat}
    (hi : registry.follow m i = some f) (hj : registry.follow m j = some f) : i = j := by
  wlog hlt : i < j generalizing i j
  · rcases Nat.lt_or_eq_of_le (Nat.le_of_not_lt hlt) with hgt | heq
    · exact (this hj hi hgt).symm
    · exact heq.symm
  -- Links go on from the method at `i`, so it is a command and has a key.
  have hnext : (registry.follow m (i + 1)).isSome :=
    steps_isSome_of_le hlt (by rw [← follow, hj]; rfl)
  obtain ⟨g, hg⟩ := Option.isSome_iff_exists.mp hnext
  obtain ⟨f', hf', hfg⟩ := Option.bind_eq_some_iff.mp hg
  obtain rfl : f = f' := Option.some.inj (hi.symm.trans hf')
  have hcmd := isCommand_of_next? frozen (follow_shape frozen hm hi).1 hfg
  have hkey {n : Nat} (hn : registry.follow m n = some f) : registry.keyAt m n = some f.key := by
    rw [keyAt, chain_of_follow frozen hm hn hcmd]
    rfl
  exact (fresh j ⟨i, hlt, f.key, hkey hi, hkey hj⟩).elim

/-- A chain without repeated keys is shorter than the list of its peers. -/
theorem lt_peers_of_chain (frozen : freeze registrations = .ok registry)
    (hm : m ∈ registry.methods) (hc : m.isCommand) {n : Nat}
    (fresh : ∀ i, ¬ registry.Repeats m i) (h : registry.chain m n = some f) :
    n < (registry.peers m).length := by
  have hsome : ∀ i < n + 1, (registry.keyAt m i).isSome := fun i hi =>
    keyAt_isSome_of_le (Nat.le_of_lt_succ hi) (by simp [keyAt, h])
  have hnd := nodup_keys hsome fun i _ => fresh i
  have hsub : (List.range (n + 1)).map (registry.keyAt m) ⊆
      (registry.peers m).map fun f => some f.key := by
    intro key hkey
    obtain ⟨i, hi, rfl⟩ := List.mem_map.mp hkey
    obtain ⟨key, hkey⟩ := Option.isSome_iff_exists.mp (hsome i (List.mem_range.mp hi))
    obtain ⟨g, hg, rfl⟩ := Option.map_eq_some_iff.mp hkey
    exact List.mem_map.mpr ⟨g, chain_mem_peers frozen hm hc hg, by rw [hkey]⟩
  have hle := hnd.length_le_of_subset hsub
  simp only [List.length_map, List.length_range] at hle
  omega

/-- So are the links, up to a plain method at the end. -/
theorem follow_eq_none (frozen : freeze registrations = .ok registry)
    (hm : m ∈ registry.methods) (hc : m.isCommand) (fresh : ∀ i, ¬ registry.Repeats m i) {n : Nat}
    (hn : (registry.peers m).length < n) : registry.follow m n = none := by
  obtain ⟨k, rfl⟩ := Nat.exists_eq_add_of_lt hn
  cases hf : registry.follow m ((registry.peers m).length + k + 1) with
  | none => rfl
  | some f =>
    obtain ⟨g, hg, hnext⟩ := Option.bind_eq_some_iff.mp hf
    have hgc := isCommand_of_next? frozen (follow_shape frozen hm hg).1 hnext
    have := lt_peers_of_chain frozen hm hc fresh (chain_of_follow frozen hm hg hgc)
    omega

end Frozen

end Registry

end ProtectedCall
