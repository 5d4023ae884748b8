import Mathlib.Data.List.Sort
import ProtectedCall.Proofs.ByteOrder
import ProtectedCall.Proofs.Frozen
import ProtectedCall.Proofs.SignatureText

/-!
# Overloads and missing fallbacks

A fallback that is not registered is an error that lists the overloads of its name. Their texts tell
them apart, so a list in ascending order names each of them once.

* `FallbackLink.overloads_perm`, `FallbackLink.overloads_sorted`: what is listed, and in which
  order.
* `Registry.fallback_by_name`: following a link is looking the fallback up by its name, and what the
  error says where it is missing.
-/

namespace ProtectedCall

variable {β : Type}

/-! ## Overloads -/

namespace FallbackLink

/-- The overloads of a name are listed by their texts, in some order. -/
theorem overloads_perm (registrations : List (Registration β)) (owner name : String) :
    (overloads registrations owner name).Perm
      ((registrations.filter fun r => r.signature.owner = owner ∧ r.signature.name = name).map
        (·.signature.text)) := by
  simpa [overloads] using List.mergeSort_perm _ _

/-- The order does not fall. -/
theorem overloads_pairwise (registrations : List (Registration β)) (owner name : String) :
    (overloads registrations owner name).Pairwise (· ≤ ·) :=
  List.pairwise_mergeSort' _ _

/-- It rises, as the overloads have different texts. -/
theorem overloads_sorted {registrations : List (Registration β)}
    (distinct : (registrations.map (·.signature)).Nodup) (owner name : String) :
    (overloads registrations owner name).Pairwise (· < ·) := by
  have nodup : (overloads registrations owner name).Nodup := by
    rw [(overloads_perm registrations owner name).nodup_iff]
    refine List.Nodup.map_on (fun r hr s hs h => ?_) (distinct.of_map.filter _)
    simp only [List.mem_filter, decide_eq_true_eq] at hr hs
    have heq := Signature.eq_of_text (hr.2.1.trans hs.2.1.symm) h
    exact List.inj_on_of_nodup_map distinct hr.1 hs.1 heq
  exact (overloads_pairwise registrations owner name).imp₂ (fun _ _ => lt_of_le_of_ne) nodup

end FallbackLink

/-! ## Links and names -/

namespace Registry

/-- Following the link of a method is looking its fallback up by name. There is none to follow if
the method is no command or declares none. Otherwise it is the method of that name with the same
owner and the same parameters; and if there is no such method, the error lists the texts of all
methods of that owner and name, each once, in the ascending order of their bytes. -/
theorem fallback_by_name {registrations : List (Registration β)}
    (distinct : (registrations.map (·.signature)).Nodup) :
    ∃ registry, freeze registrations = .ok registry ∧ ∀ m ∈ registry.methods,
      (registry.fallback m = .ok none ↔
        m.isCommand = false ∨ ∃ decl, m.command = some decl ∧ decl.fallbackName = "") ∧
      ∀ decl, m.command = some decl → decl.fallbackName ≠ "" →
        match registry.find? ⟨m.owner, decl.fallbackName, m.signature.params⟩ with
        | some f => registry.fallback m = .ok (some f)
        | none => ∃ available e,
          registry.fallback m = .error e ∧
          e = .noSuchFallback m.owner decl.fallbackName m.signature.params available ∧
          e.message = "Fallback method '" ++ decl.fallbackName ++ "(" ++
            paramsText m.signature.params ++ ")' not found on type '" ++ m.owner ++
            "', registered overloads: " ++ Text.quoteList available ∧
          available.Perm ((registry.methods.filter fun f =>
            f.owner = m.owner ∧ f.name = decl.fallbackName).map (·.signature.text)) ∧
          (available.map Text.utf8).Pairwise (· < ·) := by
  have frozen := freeze_of_nodup distinct
  refine ⟨linked registrations, frozen, fun m hm => ⟨?_, fun decl hd hn => ?_⟩⟩
  · rw [fallback_of_mem frozen hm]
    cases hc : m.command with
    | none => simp [Method.isCommand, Registration.fallbackName, hc]
    | some decl =>
      have hname := Registration.fallbackName_of_command hc
      by_cases hn : decl.fallbackName = ""
      · simp [hname, hn]
      · cases hf : (linked registrations).find? (m.signature.sibling decl.fallbackName) <;>
          simp [Method.isCommand, hc, hname, hn, hf]
  · have hsibling : m.signature.sibling decl.fallbackName =
        ⟨m.owner, decl.fallbackName, m.signature.params⟩ := rfl
    rw [fallback_of_mem frozen hm, Registration.fallbackName_of_command hd, ← hsibling,
      if_neg (by simpa using hn)]
    cases hf : (linked registrations).find? (m.signature.sibling decl.fallbackName) with
    | some f => rfl
    | none =>
      refine ⟨_, _, rfl, rfl, rfl, ?_, ?_⟩
      · rw [linked, List.filter_map, List.map_map]
        exact FallbackLink.overloads_perm registrations m.owner decl.fallbackName
      · rw [List.pairwise_map]
        exact (FallbackLink.overloads_sorted distinct _ _).imp Text.utf8_lt_iff.mpr

end Registry

/-! ## A ferry -/

namespace Ferry

/-- A command whose fallback takes other parameters than the command, and one with a fallback. -/
def registrations : List (Registration Unit) :=
  [("cross", [.integer], some "wait"), ("wait", [.text], none), ("wait", [], none),
    ("leave", [], some "wait")].map
    fun (name, params, fallbackName) =>
      { signature := ⟨"Ferry", name, params⟩, body := (),
        command := fallbackName.map fun name => { fallbackName := name } }

theorem fallback_by_name_ferry :
    (registrations.map (·.signature)).Nodup ∧
      ∃ registry, Registry.freeze registrations = .ok registry ∧
        ∃ m ∈ registry.methods, ∃ available,
          registry.fallback m = .error (.noSuchFallback "Ferry" "wait" [.integer] available) ∧
          available.Perm ["Ferry::wait(TEXT)", "Ferry::wait()"] ∧
          (available.map Text.utf8).Pairwise (· < ·) := by
  have distinct : (registrations.map (·.signature)).Nodup := by decide
  obtain ⟨registry, frozen, spec⟩ := Registry.fallback_by_name distinct
  obtain rfl := (Registry.freeze_eq_ok_iff.mp frozen).2
  obtain ⟨available, e, he, rfl, -, hperm, hsorted⟩ :=
    (spec _ List.mem_cons_self).2 _ rfl (by decide)
  exact ⟨distinct, _, frozen, _, List.mem_cons_self, available, he, hperm, hsorted⟩

end Ferry

end ProtectedCall
