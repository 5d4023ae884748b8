import Mathlib.Order.Bounds.Basic
import ProtectedCall.Proofs.Chain

/-!
# Recorded cycles

`FallbackLink.walk` follows fallbacks by name among registrations, `Registry.chain` follows the
links of a frozen registry. Both see the same commands (`Registry.walk_eq`), because owner and
parameters stay the same along a chain. So the walk stops at the first key that comes back, and it
stops without a result if there is none (`Registry.walk_spec`).

* `Registry.cycle?_spec`, `Registry.cycle?_eq_none_iff`: the recorded cycle in terms of the keys
  along the chain.
* `Registry.recorded_cycle_exact`: the same for every registry that can be frozen.
-/

namespace ProtectedCall

variable {β : Type}

namespace Registry

section Frozen

variable {registrations : List (Registration β)} {registry : Registry β} {m : Method β}

/-- A step of the walk goes to the fallback of the method that the walk is at. -/
theorem walk_eq (frozen : freeze registrations = .ok registry) (hm : m ∈ registry.methods)
    {start : Signature} (hs : ∀ name, start.sibling name = m.signature.sibling name)
    (visited : List String) :
    FallbackLink.walk registrations start visited m.fallbackName =
      match registry.nextCommand? m with
      | none => none
      | some f =>
        if f.key ∈ visited then some (visited ++ [f.key])
        else FallbackLink.walk registrations start (visited ++ [f.key]) f.fallbackName := by
  rw [FallbackLink.walk_step, nextCommand?, next?, fallback_of_mem frozen hm, hs, lookup_eq frozen]
  by_cases he : m.fallbackName.isEmpty
  · rw [if_pos he, if_pos he]
    rfl
  · rw [if_neg he, if_neg he]
    cases hf : registry.find? (m.signature.sibling m.fallbackName) with
    | none => rfl
    | some f =>
      cases hc : f.command with
      | none => simp [Option.filter, Method.isCommand, hc]
      | some d =>
        simp [Option.filter, Method.isCommand, hc, Registration.fallbackName_of_command hc]

/-- The cycle that is recorded for a method is what a walk from its own key finds. -/
theorem cycle?_eq_walk (frozen : freeze registrations = .ok registry) (hm : m ∈ registry.methods) :
    m.cycle? = FallbackLink.walk registrations m.signature [m.key] m.fallbackName := by
  have hl := ((mem_methods_iff frozen).mp hm).2
  rw [FallbackLink.of_eq, lookup_eq frozen] at hl
  by_cases he : m.fallbackName.isEmpty
  · rw [if_pos he] at hl
    rw [Method.cycle?, hl, FallbackLink.walk, if_pos he]
  · rw [if_neg he] at hl
    cases hf : registry.find? (m.signature.sibling m.fallbackName) with
    | none =>
      -- Nothing is recorded at a missing fallback, and the walk ends there.
      have hn : registry.nextCommand? m = none := by
        simp [nextCommand?, next?, fallback_of_mem frozen hm, he, hf]
      rw [hf] at hl
      rw [walk_eq frozen hm (fun _ => rfl), hn, Method.cycle?, hl]
      rfl
    | some f =>
      have hc := Registration.isSome_of_fallbackName (Bool.not_eq_true _ ▸ he)
      obtain ⟨d, hd⟩ := Option.isSome_iff_exists.mp hc
      rw [hf] at hl
      simp only [Method.cycle?, hl, Option.map_some, FallbackLink.cycle?, hd,
        Registration.fallbackName_of_command hd]

/-- A walk has been at a key exactly if the key comes back. -/
theorem mem_visited_iff {i : Nat} {visited : List String} {key : String}
    (hv : visited.map some = (List.range i).map (registry.keyAt m))
    (hkey : registry.keyAt m i = some key) : key ∈ visited ↔ registry.Repeats m i := by
  have hsome : key ∈ visited ↔ some key ∈ visited.map some := by simp
  rw [hsome, hv]
  simp only [List.mem_map, List.mem_range, Repeats, hkey, Option.some.injEq]
  constructor
  · rintro ⟨j, hj, hk⟩
    exact ⟨j, hj, key, hk, rfl⟩
  · rintro ⟨j, hj, k, hk, rfl⟩
    exact ⟨j, hj, hk⟩

/-- What a walk finds from the `i`-th command on, with the keys up to there behind it, none of which
came back. -/
theorem walk_spec (frozen : freeze registrations = .ok registry) {start f : Method β}
    (hstart : start ∈ registry.methods) {i : Nat} (hf : registry.chain start i = some f)
    {visited : List String}
    (hv : visited.map some = (List.range (i + 1)).map (registry.keyAt start))
    (fresh : ∀ j ≤ i, ¬ registry.Repeats start j) :
    match FallbackLink.walk registrations start.signature visited f.fallbackName with
    | some keys => ∃ n, IsLeast {n | registry.Repeats start n} n ∧
        keys.map some = (List.range (n + 1)).map (registry.keyAt start)
    | none => ∀ n, ¬ registry.Repeats start n := by
  -- The walk ends because each key that it visits for the first time is a registered one.
  induction hu : Registration.unvisited registrations visited using Nat.strong_induction_on
    generalizing visited f i with
  | _ u ih =>
    obtain ⟨hfm, hfo, hfp⟩ := follow_shape frozen hstart (follow_of_chain hf)
    have hs : ∀ name, start.signature.sibling name = f.signature.sibling name := fun name => by
      rw [Method.owner, Method.owner] at hfo
      simp [Signature.sibling, hfo, hfp]
    have hnext : registry.chain start (i + 1) = registry.nextCommand? f := by
      rw [chain, steps, ← chain, hf]
      rfl
    rw [walk_eq frozen hfm hs]
    cases hn : registry.nextCommand? f with
    | none =>
      intro n
      rcases Nat.lt_or_ge i n with hlt | hge
      · exact not_repeats_of_chain_none (hnext.trans hn) hlt
      · exact fresh n hge
    | some g =>
      have hkey : registry.keyAt start (i + 1) = some g.key := by
        rw [keyAt, hnext, hn]
        rfl
      have hmem : g.key ∈ visited ↔ registry.Repeats start (i + 1) := mem_visited_iff hv hkey
      have hv' : (visited ++ [g.key]).map some =
          (List.range (i + 1 + 1)).map (registry.keyAt start) := by
        rw [List.range_succ, List.map_append, List.map_append, hv]
        simp [hkey]
      -- The next key is the first one that comes back, or it is new and the walk goes on behind it.
      by_cases hr : g.key ∈ visited
      · simp only [hr, ↓reduceIte]
        refine ⟨i + 1, ⟨hmem.mp hr, fun n hn => ?_⟩, hv'⟩
        by_contra hlt
        exact fresh n (by omega) hn
      · have hg := (next?_shape frozen hfm (nextCommand?_eq_some_iff.mp hn).1).1
        have hgr := ((mem_methods_iff frozen).mp hg).1
        simp only [hr, ↓reduceIte]
        have hlt := hu ▸ Registration.unvisited_lt hgr hr
        refine ih _ hlt (hnext.trans hn) hv' (fun j hj => ?_) rfl
        rcases Nat.lt_or_ge i j with hlt | hge
        · obtain rfl : j = i + 1 := by omega
          exact fun h => hr (hmem.mpr h)
        · exact fresh j hge

/-- The recorded cycle ends with the first key that comes back; none is recorded where none does. -/
theorem cycle?_spec (frozen : freeze registrations = .ok registry) (hm : m ∈ registry.methods) :
    match m.cycle? with
    | some keys => ∃ n, IsLeast {n | registry.Repeats m n} n ∧
        keys.map some = (List.range (n + 1)).map (registry.keyAt m)
    | none => ∀ n, ¬ registry.Repeats m n := by
  rw [cycle?_eq_walk frozen hm]
  refine walk_spec frozen hm (i := 0) rfl rfl fun j hj => ?_
  rintro ⟨i, hi, -⟩
  omega

theorem cycle?_eq_none_iff (frozen : freeze registrations = .ok registry)
    (hm : m ∈ registry.methods) : m.cycle? = none ↔ ∀ n, ¬ registry.Repeats m n := by
  have h := cycle?_spec frozen hm
  constructor
  · intro hc
    rw [hc] at h
    exact h
  · intro fresh
    cases hc : m.cycle? with
    | none => rfl
    | some keys =>
      rw [hc] at h
      obtain ⟨n, hn, -⟩ := h
      exact (fresh n hn.1).elim

/-- A recorded cycle is as short as it can be: its last key is the only one that occurred before. -/
theorem cycle?_shape (frozen : freeze registrations = .ok registry) (hm : m ∈ registry.methods)
    {keys : List String} (h : m.cycle? = some keys) :
    keys.dropLast.Nodup ∧ (∃ key ∈ keys.dropLast, keys.getLast? = some key) ∧
      2 ≤ keys.length := by
  have hspec := cycle?_spec frozen hm
  rw [h] at hspec
  obtain ⟨n, ⟨hn, hleast⟩, hkeys⟩ := hspec
  obtain ⟨i, hi, key, hki, hkn⟩ := id hn
  have hlen : keys.length = n + 1 := by simpa using congrArg List.length hkeys
  have hlast : keys.getLast?.map some = some (registry.keyAt m n) := by
    rw [← List.getLast?_map, hkeys, List.range_succ]
    simp
  have hinit : keys.dropLast.map some = (List.range n).map (registry.keyAt m) := by
    rw [List.map_dropLast, hkeys, List.range_succ]
    simp
  -- All keys but the last one are those in front of the first repetition.
  refine ⟨?_, ⟨key, ?_, ?_⟩, by omega⟩
  · refine List.Nodup.of_map some ?_
    rw [hinit]
    refine nodup_keys (fun j hj => ?_) fun j hj hr => absurd (hleast hr) (by omega)
    exact keyAt_isSome_of_le (Nat.le_of_lt hj) (by simp [hkn])
  · have hmem : some key ∈ keys.dropLast.map some := by
      rw [hinit]
      exact List.mem_map.mpr ⟨i, List.mem_range.mpr hi, hki⟩
    obtain ⟨k, hk, hks⟩ := List.mem_map.mp hmem
    cases hks
    exact hk
  · rw [hkn] at hlast
    simpa using hlast

end Frozen

/-- Cycle recording is exact. A cycle is recorded for a command some key of whose chain of commands
comes back, and for no other method; what is recorded are the keys up to the first one that does. -/
theorem recorded_cycle_exact {registrations : List (Registration β)}
    (distinct : (registrations.map (·.signature)).Nodup) :
    ∃ registry, freeze registrations = .ok registry ∧ ∀ m ∈ registry.methods,
      (m.cycle?.isSome ↔ m.isCommand ∧ ∃ i j, i < j ∧ ∃ key,
        registry.keyAt m i = some key ∧ registry.keyAt m j = some key) ∧
      ∀ keys, m.cycle? = some keys →
        (∃ n, IsLeast {n | ∃ i < n, ∃ key,
            registry.keyAt m i = some key ∧ registry.keyAt m n = some key} n ∧
          keys.map some = (List.range (n + 1)).map (registry.keyAt m)) ∧
        keys.dropLast.Nodup ∧ (∃ key ∈ keys.dropLast, keys.getLast? = some key) ∧
        2 ≤ keys.length := by
  obtain ⟨registry, frozen⟩ : ∃ registry, freeze registrations = .ok registry :=
    ⟨_, freeze_eq_ok_iff.mpr ⟨distinct, rfl⟩⟩
  refine ⟨registry, frozen, fun m hm => ⟨?_, fun keys h => ⟨?_, cycle?_shape frozen hm h⟩⟩⟩
  · rw [← not_iff_not, Bool.not_eq_true, Option.isSome_eq_false_iff, Option.isNone_iff_eq_none,
      cycle?_eq_none_iff frozen hm]
    constructor
    · rintro fresh ⟨-, i, j, hij, hkey⟩
      exact fresh j ⟨i, hij, hkey⟩
    · rintro hno n hr
      obtain ⟨i, hi, hkey⟩ := id hr
      exact hno ⟨isCommand_of_repeats frozen hm hr, i, n, hi, hkey⟩
  · have hspec := cycle?_spec frozen hm
    rw [h] at hspec
    exact hspec

/-- Three commands whose fallbacks go in a circle. The second and the third have the same key, so
the circle is left before it closes. -/
def circle : List (Registration Unit) :=
  [("pay", "", "retry"), ("retry", "", "queue"), ("queue", "retry", "pay")].map
    fun (name, commandKey, fallbackName) =>
      { signature := ⟨"Shop", name, [.integer]⟩, command := some { commandKey, fallbackName },
        body := () }

theorem recorded_cycle_exact_circle :
    (circle.map (·.signature)).Nodup ∧ ∃ registry, freeze circle = .ok registry ∧
      ∃ m ∈ registry.methods, m.cycle? = some ["pay", "retry", "retry"] ∧
        ∃ n, IsLeast {n | registry.Repeats m n} n ∧
          ["pay", "retry", "retry"].map some = (List.range (n + 1)).map (registry.keyAt m) := by
  have distinct : (circle.map (·.signature)).Nodup := by decide
  obtain ⟨registry, frozen, spec⟩ := recorded_cycle_exact distinct
  obtain ⟨-, rfl⟩ := freeze_eq_ok_iff.mp frozen
  have recorded : FallbackLink.cycle? circle circle[0] = some ["pay", "retry", "retry"] := by
    decide +kernel
  refine ⟨distinct, _, frozen, _, List.mem_cons_self, recorded, ?_⟩
  exact ((spec _ List.mem_cons_self).2 _ recorded).1

end Registry

end ProtectedCall
