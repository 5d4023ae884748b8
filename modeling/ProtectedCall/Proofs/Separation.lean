import ProtectedCall.Proofs.Chain
import ProtectedCall.Proofs.Overloads

/-!
# Services apart

What a registry says about a method depends on the methods of the same owner and the same
parameters. So methods that differ in one of the two may be added, and most of it stays as it is.

* `Signature.Apart`: registrations that differ in the owner or in the parameters.
* `Registration.lookup_all`, `FallbackLink.walk_all`: neither a lookup nor a walk along fallbacks
  sees registrations that are apart.
* `FallbackLink.of_all`: so a link does not know of them, but for the overloads of a missing
  fallback, which `FallbackLink.withOverloads` adds.
* `Registry.Enlarged`: a registry and a larger one. `Registry.Enlarged.fallback_eq` compares the
  fallbacks that they have for a method.
-/

namespace ProtectedCall

variable {β : Type}

/-- None of the registrations has both the owner and the parameters of the signature. -/
def Signature.Apart (s : Signature) (added : List (Registration β)) : Prop :=
  ∀ x ∈ added, x.signature.owner = s.owner → x.signature.params ≠ s.params

instance (s : Signature) (added : List (Registration β)) : Decidable (s.Apart added) :=
  inferInstanceAs (Decidable (∀ x ∈ added, _))

/-- Other names do not matter. -/
theorem Signature.Apart.congr {s t : Signature} {added : List (Registration β)} (h : s.Apart added)
    (owner : t.owner = s.owner) (params : t.params = s.params) : t.Apart added := by
  intro x hx hox
  rw [params]
  exact h x hx (hox.trans owner)

theorem Signature.Apart.sibling {s : Signature} {added : List (Registration β)} (h : s.Apart added)
    (name : String) : (s.sibling name).Apart added := h.congr rfl rfl

theorem Signature.Apart.of_foreign {s : Signature} {added : List (Registration β)}
    (foreign : ∀ x ∈ added, x.signature.owner ≠ s.owner) : s.Apart added :=
  fun x hx ho => absurd ho (foreign x hx)

/-- The overloads of a missing fallback together with those among other registrations. -/
def mergeOverloads (available : List String) (added : List (Registration β)) (owner name : String) :
    List String :=
  (available ++ FallbackLink.overloads added owner name).mergeSort (· ≤ ·)

/-- The same error, with the overloads among other registrations if it lists overloads. -/
def CallError.withOverloads (added : List (Registration β)) : CallError → CallError
  | .noSuchFallback owner name params available =>
    .noSuchFallback owner name params (mergeOverloads available added owner name)
  | e => e

/-- The same link, with the overloads among other registrations if the fallback is missing. -/
def FallbackLink.withOverloads (added : List (Registration β)) (owner : String) :
    FallbackLink → FallbackLink
  | .missing name available => .missing name (mergeOverloads available added owner name)
  | link => link

section Added

variable {registrations added all : List (Registration β)}

namespace Registration

/-- Of distinct signatures, some are distinct. -/
theorem nodup_of_all (distinct : (all.map (·.signature)).Nodup)
    (perm : all.Perm (registrations ++ added)) : (registrations.map (·.signature)).Nodup := by
  have parts := (perm.map (·.signature)).nodup_iff.mp distinct
  rw [List.map_append] at parts
  exact parts.of_append_left

theorem lookup_eq_some_iff (distinct : (registrations.map (·.signature)).Nodup) {s : Signature}
    {r : Registration β} :
    lookup registrations s = some r ↔ r ∈ registrations ∧ r.signature = s := by
  constructor
  · intro h
    exact ⟨mem_of_lookup h, signature_of_lookup h⟩
  · rintro ⟨hr, rfl⟩
    cases hl : lookup registrations r.signature with
    | none => simpa using List.find?_eq_none.mp hl r hr
    | some q =>
      rw [List.inj_on_of_nodup_map distinct (mem_of_lookup hl) hr (signature_of_lookup hl)]

/-- A lookup does not see registrations that are apart. -/
theorem lookup_all (distinct : (all.map (·.signature)).Nodup)
    (perm : all.Perm (registrations ++ added)) {s : Signature} (apart : s.Apart added) :
    lookup all s = lookup registrations s := by
  have hsub := nodup_of_all distinct perm
  refine Option.ext fun r => ?_
  rw [lookup_eq_some_iff distinct, lookup_eq_some_iff hsub, perm.mem_iff, List.mem_append]
  constructor
  · rintro ⟨hr | hr, rfl⟩
    · exact ⟨hr, rfl⟩
    · exact absurd rfl (apart r hr rfl)
  · rintro ⟨hr, rfl⟩
    exact ⟨.inl hr, rfl⟩

end Registration

namespace FallbackLink

open Registration

/-- Nor does a walk along fallbacks. -/
theorem walk_all (distinct : (all.map (·.signature)).Nodup)
    (perm : all.Perm (registrations ++ added)) {start : Signature} (apart : start.Apart added)
    (visited : List String) (next : String) :
    walk all start visited next = walk registrations start visited next := by
  have hlookup (name : String) := lookup_all distinct perm (apart.sibling name)
  fun_induction walk registrations start visited next with
  | case1 visited next hn => simp [walk_step all, hn]
  | case2 visited next hn hl => simp [walk_step all, hn, hlookup, hl]
  | case3 visited next hn r hl hc => simp [walk_step all, hn, hlookup, hl, hc]
  | case4 visited next hn r hl d hc hk => simp [walk_step all, hn, hlookup, hl, hc, hk]
  | case5 visited next hn r hl d hc hk ih =>
    rw [walk_step all, if_neg hn, hlookup, hl]
    simp only [hc, hk, ↓reduceIte, ih]

/-- Nor does the recording of a cycle. -/
theorem cycle?_all (distinct : (all.map (·.signature)).Nodup)
    (perm : all.Perm (registrations ++ added)) {r : Registration β}
    (apart : r.signature.Apart added) : cycle? all r = cycle? registrations r := by
  unfold cycle?
  cases r.command with
  | none => rfl
  | some d => exact walk_all distinct perm apart _ _

/-- The overloads of a name are those among the one part and those among the other. -/
theorem overloads_all (perm : all.Perm (registrations ++ added)) (owner name : String) :
    overloads all owner name =
      mergeOverloads (overloads registrations owner name) added owner name := by
  -- Both sides are in order, so it is enough that they list the same.
  refine List.Perm.eq_of_pairwise' (overloads_pairwise all owner name)
    (List.pairwise_mergeSort' _ _) ?_
  refine (overloads_perm all owner name).trans ?_
  refine .trans ?_ (List.mergeSort_perm _ _).symm
  refine (((perm.filter _).map _).trans ?_)
  rw [List.filter_append, List.map_append]
  exact ((overloads_perm _ _ _).append (overloads_perm _ _ _)).symm

/-- A link knows of registrations that are apart by the overloads of a missing fallback only. -/
theorem of_all (distinct : (all.map (·.signature)).Nodup)
    (perm : all.Perm (registrations ++ added)) {r : Registration β}
    (apart : r.signature.Apart added) :
    FallbackLink.of all r =
      (FallbackLink.of registrations r).withOverloads added r.signature.owner := by
  have hlookup (name : String) := lookup_all distinct perm (apart.sibling name)
  rw [FallbackLink.of_eq, FallbackLink.of_eq, hlookup, cycle?_all distinct perm apart,
    overloads_all perm]
  split
  · rfl
  · split <;> rfl

/-- Methods of other owners are no overloads. -/
theorem mergeOverloads_of_foreign {owner : String}
    (foreign : ∀ x ∈ added, x.signature.owner ≠ owner) (name : String) :
    mergeOverloads (overloads registrations owner name) added owner name =
      overloads registrations owner name := by
  have hnone : overloads added owner name = [] := by
    refine List.Perm.eq_nil ((overloads_perm added owner name).trans ?_)
    rw [List.map_eq_nil_iff.mpr (List.filter_eq_nil_iff.mpr fun x hx => ?_)]
    simp [foreign x hx]
  rw [mergeOverloads, hnone, List.append_nil]
  exact List.mergeSort_of_pairwise (by simpa using overloads_pairwise registrations owner name)

theorem withOverloads_of_foreign {r : Registration β}
    (foreign : ∀ x ∈ added, x.signature.owner ≠ r.signature.owner) :
    (FallbackLink.of registrations r).withOverloads added r.signature.owner =
      FallbackLink.of registrations r := by
  rw [FallbackLink.of_eq]
  split
  · rfl
  · split
    · rfl
    · rw [FallbackLink.withOverloads, mergeOverloads_of_foreign foreign]

end FallbackLink

end Added

/-! ## Methods of a larger registry -/

namespace Method

/-- The method of the same signature in another registry. -/
def within (m : Method β) (registry : Registry β) : Method β :=
  (registry.find? m.signature).getD m

/-- The same method, with the overloads among other registrations if its fallback is missing. -/
def withOverloads (added : List (Registration β)) (m : Method β) : Method β :=
  { m with link := m.link.withOverloads added m.owner }

@[simp] theorem signature_within (m : Method β) (registry : Registry β) :
    (m.within registry).signature = m.signature := by
  unfold within
  cases hf : registry.find? m.signature with
  | none => rfl
  | some f => simpa using List.find?_some hf

@[simp] theorem toRegistration_withOverloads (added : List (Registration β)) (m : Method β) :
    (m.withOverloads added).toRegistration = m.toRegistration := rfl

@[simp] theorem cycle?_withOverloads (added : List (Registration β)) (m : Method β) :
    (m.withOverloads added).cycle? = m.cycle? := by
  unfold withOverloads cycle? FallbackLink.withOverloads
  cases m.link <;> rfl

end Method

/-- A registry and a larger one, which has the registrations `added` besides, in any order. -/
structure Registry.Enlarged (registrations added : List (Registration β))
    (registry larger : Registry β) : Prop where
  frozen : freeze registrations = .ok registry
  enlarged : ∃ all, all.Perm (registrations ++ added) ∧ freeze all = .ok larger

namespace Registry.Enlarged

variable {registrations added : List (Registration β)} {registry larger : Registry β}
variable {m f : Method β}

/-- A method that is apart from what is added stays, but for the overloads that it lists. -/
theorem mem_within (h : Enlarged registrations added registry larger) (hm : m ∈ registry.methods)
    (apart : m.signature.Apart added) :
    m.withOverloads added ∈ larger.methods ∧ m.within larger = m.withOverloads added := by
  obtain ⟨all, perm, frozenAll⟩ := h.enlarged
  obtain ⟨distinct, -⟩ := freeze_eq_ok_iff.mp frozenAll
  obtain ⟨hr, hl⟩ := (mem_methods_iff h.frozen).mp hm
  have hmem : m.withOverloads added ∈ larger.methods := by
    refine (mem_methods_iff frozenAll).mpr ⟨perm.mem_iff.mpr (List.mem_append_left _ hr), ?_⟩
    rw [Method.toRegistration_withOverloads, FallbackLink.of_all distinct perm apart, ← hl]
    rfl
  have hfind : larger.find? m.signature = some (m.withOverloads added) :=
    (find?_eq_some_iff frozenAll).mpr ⟨hmem, rfl⟩
  exact ⟨hmem, by rw [Method.within, hfind, Option.getD_some]⟩

/-- A signature that is apart is found in both registries or in none. -/
theorem find?_eq (h : Enlarged registrations added registry larger) {s : Signature}
    (apart : s.Apart added) : larger.find? s = (registry.find? s).map (·.within larger) := by
  obtain ⟨all, perm, frozenAll⟩ := h.enlarged
  obtain ⟨distinct, -⟩ := freeze_eq_ok_iff.mp frozenAll
  cases hf : registry.find? s with
  | none =>
    have hl := lookup_eq frozenAll s
    rw [Registration.lookup_all distinct perm apart, lookup_eq h.frozen, hf] at hl
    simpa using hl.symm
  | some f =>
    obtain ⟨hfm, rfl⟩ := (find?_eq_some_iff h.frozen).mp hf
    obtain ⟨hmem, hw⟩ := h.mem_within hfm apart
    rw [Option.map_some, hw]
    exact (find?_eq_some_iff frozenAll).mpr ⟨hmem, rfl⟩

/-- The fallback of a method is that of its counterpart, and so is the error of a missing one, but
for the overloads that it lists. -/
theorem fallback_eq (h : Enlarged registrations added registry larger) (hm : m ∈ registry.methods)
    (apart : m.signature.Apart added) :
    larger.fallback (m.within larger) =
      ((registry.fallback m).map (Option.map (·.within larger))).mapError
        (CallError.withOverloads added) := by
  obtain ⟨hmem, hw⟩ := h.mem_within hm apart
  obtain ⟨all, perm, frozenAll⟩ := h.enlarged
  have hname : (m.withOverloads added).fallbackName = m.fallbackName := rfl
  have hsignature : (m.withOverloads added).signature = m.signature := rfl
  rw [hw, fallback_of_mem h.frozen hm, fallback_of_mem frozenAll hmem, hname, hsignature,
    h.find?_eq (apart.sibling _), FallbackLink.overloads_all perm]
  by_cases hn : m.fallbackName.isEmpty
  · rw [if_pos hn, if_pos hn]
    rfl
  · rw [if_neg hn, if_neg hn]
    cases registry.find? (m.signature.sibling m.fallbackName) <;> rfl

theorem next?_eq (h : Enlarged registrations added registry larger) (hm : m ∈ registry.methods)
    (apart : m.signature.Apart added) :
    larger.next? (m.within larger) = (registry.next? m).map (·.within larger) := by
  rw [next?, next?, h.fallback_eq hm apart]
  cases registry.fallback m <;> rfl

/-- The fallback of a method is as far apart as the method. -/
theorem next?_apart (h : Enlarged registrations added registry larger) (hm : m ∈ registry.methods)
    (apart : m.signature.Apart added) (hn : registry.next? m = some f) :
    f ∈ registry.methods ∧ f.signature.Apart added := by
  obtain ⟨hf, ho, hp⟩ := next?_shape h.frozen hm hn
  exact ⟨hf, apart.congr ho hp⟩

theorem isCommand_within (h : Enlarged registrations added registry larger)
    (hm : m ∈ registry.methods) (apart : m.signature.Apart added) :
    (m.within larger).isCommand = m.isCommand := by
  rw [(h.mem_within hm apart).2]
  rfl

/-! ## Methods of other owners -/

/-- If what is added has other owners, a method stays as it is. -/
theorem within_of_foreign (h : Enlarged registrations added registry larger)
    (hm : m ∈ registry.methods) (foreign : ∀ x ∈ added, x.signature.owner ≠ m.owner) :
    m ∈ larger.methods ∧ m.within larger = m := by
  have hw : m.withOverloads added = m := by
    have hl := ((mem_methods_iff h.frozen).mp hm).2
    have hsame := @FallbackLink.withOverloads_of_foreign _ registrations added _ foreign
    rw [← hl] at hsame
    rw [Method.withOverloads, Method.owner, hsame]
  obtain ⟨hmem, hwithin⟩ := h.mem_within hm (.of_foreign foreign)
  rw [hw] at hmem hwithin
  exact ⟨hmem, hwithin⟩

/-- Its fallback stays, and so does the error of a missing one. -/
theorem fallback_of_foreign (h : Enlarged registrations added registry larger)
    (hm : m ∈ registry.methods) (foreign : ∀ x ∈ added, x.signature.owner ≠ m.owner) :
    larger.fallback m = registry.fallback m := by
  have apart : m.signature.Apart added := .of_foreign foreign
  have heq := h.fallback_eq hm apart
  rw [(h.within_of_foreign hm foreign).2] at heq
  rw [heq, fallback_of_mem h.frozen hm]
  split
  · rfl
  · split
    · rename_i f hf
      obtain ⟨hfm, hs⟩ := (find?_eq_some_iff h.frozen).mp hf
      have hforeign : ∀ x ∈ added, x.signature.owner ≠ f.owner := by
        rw [Method.owner, hs]
        exact foreign
      simp only [Except.map, Except.mapError, Option.map_some, (h.within_of_foreign hfm hforeign).2]
    · simp only [Except.map, Except.mapError, CallError.withOverloads,
        FallbackLink.mergeOverloads_of_foreign foreign]

end Registry.Enlarged

end ProtectedCall
