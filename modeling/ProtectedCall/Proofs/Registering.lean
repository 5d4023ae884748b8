import Mathlib.Data.List.Pairwise
import ProtectedCall.Proofs.Frozen
import ProtectedCall.Registry.Builder

/-!
# Registering methods

A builder takes one method after the other, and keeps a table of methods beside a list of
duplicates. Frozen, it is the registry of all that was registered.

* `Registry.Builder.Holds`: what the table and the duplicates say of the registrations so far.
  `Registry.Builder.Holds.insert`: one more registration; `Registry.Builder.holds_ofServices`: all
  of them, in blocks.
* `Registry.Builder.Holds.freeze_eq`: freezing the builder is freezing the registrations.
* `Registry.Builder.signatures_allRegistrations`, `Registry.Builder.mem_allRegistrations`: blocks
  and what is registered of them.
* `Registry.Builder.faithful`: the whole for blocks of services.
-/

namespace ProtectedCall

variable {β : Type}

/-! ## Registrations and signatures -/

namespace Registration

theorem lookup_append (registrations more : List (Registration β)) (s : Signature) :
    lookup (registrations ++ more) s = (lookup registrations s).or (lookup more s) :=
  List.find?_append

/-- A signature has a registration if it is the signature of one. -/
theorem isSome_lookup {registrations : List (Registration β)} {s : Signature} :
    (lookup registrations s).isSome ↔ s ∈ registrations.map (·.signature) := by
  simp [lookup]

/-- Signatures are distinct if no two registrations have the same one. -/
theorem nodup_signatures_iff {registrations : List (Registration β)} :
    (registrations.map (·.signature)).Nodup ↔ ∀ i j : Fin registrations.length, i < j →
      (registrations.get i).signature ≠ (registrations.get j).signature := by
  rw [List.Nodup, List.pairwise_map, List.pairwise_iff_get]

end Registration

namespace Registry

/-- The first repetition is among the signatures in front, or else it is the first one behind them
that repeats one of either. -/
theorem firstRepeated?_append (seen signatures more : List Signature) :
    firstRepeated? seen (signatures ++ more) =
      (firstRepeated? seen signatures).or (firstRepeated? (signatures.reverse ++ seen) more) := by
  induction signatures generalizing seen with
  | nil => simp [firstRepeated?]
  | cons s rest ih =>
    rw [List.cons_append, firstRepeated?, firstRepeated?]
    by_cases hs : s ∈ seen
    · simp [hs]
    · rw [if_neg hs, if_neg hs, ih, List.reverse_cons, List.append_assoc, List.singleton_append]

namespace Builder

/-! ## What a builder holds -/

/-- The methods of the table are registrations, in their order. Every registration is in the table
or counts as a duplicate. Under each signature the table has what was registered first, and the
first duplicate is the first signature that repeats. -/
structure Holds (b : Builder β) (registrations : List (Registration β)) : Prop where
  sublist : b.methods.Sublist registrations
  length : b.methods.length + b.duplicates.length = registrations.length
  lookup (s : Signature) :
    Registration.lookup b.methods s = Registration.lookup registrations s
  duplicate : b.duplicates.head? = firstRepeated? [] (registrations.map (·.signature))

variable {b : Builder β} {registrations : List (Registration β)}

/-- A method that is registered once more is not replaced. -/
theorem lookup_insert (b : Builder β) (r : Registration β) (s : Signature) :
    Registration.lookup (b.insert r).methods s =
      (Registration.lookup b.methods s).or (Registration.lookup [r] s) := by
  unfold insert
  split
  · rename_i known
    by_cases hs : r.signature = s
    · rw [hs, ← Registration.isSome_lookup] at known
      rw [Option.or_of_isSome known]
    · simp [Registration.lookup, hs]
  · exact Registration.lookup_append _ _ _

/-- One more registration. -/
theorem Holds.insert (h : b.Holds registrations) (r : Registration β) :
    (b.insert r).Holds (registrations ++ [r]) where
  sublist := by
    unfold Builder.insert
    split
    · exact h.sublist.trans (List.sublist_append_left _ _)
    · exact h.sublist.append (.refl _)
  length := by
    have hlength := h.length
    unfold Builder.insert
    split <;> simp only [List.length_append, List.length_singleton] <;> omega
  lookup s := by rw [lookup_insert, h.lookup, Registration.lookup_append]
  duplicate := by
    -- The table knows a signature if it was registered, so a repetition is noticed where it stands.
    have known : r.signature ∈ b.methods.map (·.signature) ↔
        r.signature ∈ registrations.map (·.signature) := by
      rw [← Registration.isSome_lookup, h.lookup, Registration.isSome_lookup]
    rw [List.map_append, firstRepeated?_append, ← h.duplicate]
    unfold Builder.insert
    split
    · rename_i hr
      simp [firstRepeated?, known.mp hr]
    · rename_i hr
      simp [firstRepeated?, mt known.mpr hr]

theorem holds_empty : (empty : Builder β).Holds [] := ⟨.slnil, rfl, fun _ => rfl, rfl⟩

theorem Holds.foldl (h : b.Holds registrations) (more : List (Registration β)) :
    (more.foldl Builder.insert b).Holds (registrations ++ more) := by
  induction more generalizing b registrations with
  | nil => rwa [List.append_nil]
  | cons r more ih =>
    rw [List.foldl_cons, List.append_cons]
    exact ih (h.insert r)

/-- Blocks do not matter: their methods are registered one after the other. -/
theorem ofServices_eq (services : List (Service β)) :
    ofServices services = (Service.allRegistrations services).foldl insert empty := by
  rw [ofServices, Service.allRegistrations, List.foldl_flatMap]
  congr 1
  funext b s
  rw [service, Service.registrations, List.foldl_map]

/-- All registrations, in blocks. -/
theorem holds_ofServices (services : List (Service β)) :
    (ofServices services).Holds (Service.allRegistrations services) := by
  rw [ofServices_eq]
  exact holds_empty.foldl _

/-! ## Freezing -/

/-- Freezing the builder is freezing the registrations. -/
theorem Holds.freeze_eq (h : b.Holds registrations) :
    b.freeze = Registry.freeze registrations := by
  unfold freeze Registry.freeze
  rw [← h.duplicate]
  cases hd : b.duplicates with
  | cons s duplicates => rfl
  | nil =>
    have hlength := h.length
    rw [hd, List.length_nil, Nat.add_zero] at hlength
    have hmethods := h.sublist.eq_of_length hlength
    simp only [List.head?_nil, hmethods]

/-- The methods are registered in the order of the blocks and of the declarations inside them, under
the owner of the block and the declared name and parameters. -/
theorem signatures_allRegistrations (services : List (Service β)) :
    (Service.allRegistrations services).map (·.signature) =
      services.flatMap fun s => s.methods.map fun d => ⟨s.owner, d.name, d.params⟩ := by
  simp only [Service.allRegistrations, Service.registrations, MethodDecl.ownedBy, List.map_flatMap,
    List.map_map, Function.comp_def]

/-- What a block declares is registered. -/
theorem mem_allRegistrations {services : List (Service β)} {s : Service β} {d : MethodDecl β}
    (hs : s ∈ services) (hd : d ∈ s.methods) :
    d.ownedBy s.owner ∈ Service.allRegistrations services :=
  List.mem_flatMap.mpr ⟨s, hs, List.mem_map_of_mem hd⟩

/-- A registry is an exact map of what was registered, in any number of blocks and with services
mentioned any number of times. Building it fails if two registrations have the same owner, name and
parameters. The error then names the first registration that repeats an earlier one. Otherwise it
has as many methods as were registered. What a block declares is found under the owner of the block
and the declared name and parameters, with all that was declared of it, and nothing is found under
any other owner, name or parameters. -/
theorem faithful (services : List (Service β)) :
    let registrations := Service.allRegistrations services
    let built := (ofServices services).freeze
    registrations.map (·.signature) =
      services.flatMap (fun s => s.methods.map fun d => ⟨s.owner, d.name, d.params⟩) ∧
    built = Registry.freeze registrations ∧
    ((∃ e, built = .error e) ↔ ∃ first again : Fin registrations.length, first < again ∧
      (registrations.get first).signature = (registrations.get again).signature) ∧
    (∀ e, built = .error e ↔ ∃ before r after, registrations = before ++ r :: after ∧
      (before.map (·.signature)).Nodup ∧ (∃ earlier ∈ before, earlier.signature = r.signature) ∧
      e = .duplicateMethod r.signature) ∧
    ∀ registry, built = .ok registry →
      registry.size = registrations.length ∧
      (∀ r ∈ registrations, ∃ m, registry.find? r.signature = some m ∧ m.toRegistration = r) ∧
      (∀ s ∈ services, ∀ d ∈ s.methods, ∃ m,
        registry.find? ⟨s.owner, d.name, d.params⟩ = some m ∧
        m.signature = ⟨s.owner, d.name, d.params⟩ ∧ m.returns = d.returns ∧
        m.command = d.command ∧ m.collapser = d.collapser ∧ m.body = d.body) ∧
      ∀ owner name params, registry.find? ⟨owner, name, params⟩ = none ↔
        ∀ s ∈ services, ∀ d ∈ s.methods,
          ¬ (s.owner = owner ∧ d.name = name ∧ d.params = params) := by
  intro registrations built
  have hbuilt : built = Registry.freeze registrations := (holds_ofServices services).freeze_eq
  refine ⟨signatures_allRegistrations services, hbuilt, ?_, ?_, ?_⟩
  · rw [hbuilt, freeze_fails_iff, Registration.nodup_signatures_iff]
    simp only [not_forall, ne_eq, not_not, exists_prop]
  · rw [hbuilt]
    exact fun e => freeze_eq_error_iff_repeats
  · intro registry frozen
    rw [hbuilt] at frozen
    have found : ∀ r ∈ registrations, ∃ m, registry.find? r.signature = some m ∧
        m.toRegistration = r := fun r hr => ⟨_, find?_of_registered frozen hr, rfl⟩
    refine ⟨size_of_freeze frozen, found, fun s hs d hd => ?_, fun owner name params => ?_⟩
    · obtain ⟨m, hm, declared⟩ := found _ (mem_allRegistrations hs hd)
      refine ⟨m, hm, ?_⟩
      rw [declared]
      exact ⟨rfl, rfl, rfl, rfl, rfl⟩
    · have unregistered (sig : Signature) : (∀ r ∈ registrations, r.signature ≠ sig) ↔
          sig ∉ registrations.map (·.signature) := by simp
      rw [find?_eq_none_iff frozen, unregistered, signatures_allRegistrations]
      simp

end Builder

end Registry

/-! ## A bakery -/

namespace Bakery

/-- A method with all that can be declared. -/
def label : MethodDecl String where
  name := "keep"
  params := [.text]
  returns := .future
  command := some { groupKey := "shelves", commandKey := "label", fallbackName := "sell" }
  collapser := some { key := "labels", batchMethod := "sell" }
  body := "printer"

/-- Two services with methods of the same name. One of them is mentioned twice. -/
def services : List (Service String) :=
  [⟨"Bakery", [{ name := "keep", params := [.integer], body := "shelf" }, label]⟩,
    ⟨"Cellar", [{ name := "keep", params := [.integer], body := "barrel" }]⟩,
    ⟨"Bakery", [{ name := "sell", params := [], body := "counter" }]⟩]

/-- Two more mentions. The first one repeats a method behind a new one. -/
def repeated : List (Service String) :=
  [⟨"Cellar", [{ name := "sell", params := [], body := "door" },
      { name := "keep", params := [.integer], body := "crate" }]⟩,
    ⟨"Bakery", [{ name := "sell", params := [], body := "window" }]⟩]

theorem faithful_bakery :
    (∃ registry, (Registry.Builder.ofServices services).freeze = .ok registry ∧
      registry.size = 4 ∧
      (∃ m, registry.find? ⟨"Bakery", "keep", [.text]⟩ = some m ∧ m.returns = .future ∧
        m.command = some { groupKey := "shelves", commandKey := "label", fallbackName := "sell" } ∧
        m.collapser = some { key := "labels", batchMethod := "sell" } ∧ m.body = "printer") ∧
      (∃ m, registry.find? ⟨"Cellar", "keep", [.integer]⟩ = some m ∧ m.returns = .value ∧
        m.command = none ∧ m.collapser = none ∧ m.body = "barrel") ∧
      registry.find? ⟨"Cellar", "sell", []⟩ = none) ∧
    (Registry.Builder.ofServices (services ++ repeated)).freeze =
      .error (.duplicateMethod ⟨"Cellar", "keep", [.integer]⟩) := by
  constructor
  · obtain ⟨-, hbuilt, -, -, found⟩ := Registry.Builder.faithful services
    have frozen := hbuilt.trans (Registry.freeze_of_nodup (by decide))
    obtain ⟨size, -, declared, unknown⟩ := found _ frozen
    obtain ⟨kept, hkept, -, keeps⟩ := declared _ (.head _) label (.tail _ (.head _))
    obtain ⟨stored, hstored, -, stores⟩ := declared _ (.tail _ (.head _)) _ (.head _)
    refine ⟨_, frozen, size, ⟨kept, hkept, keeps⟩, ⟨stored, hstored, stores⟩, ?_⟩
    exact (unknown _ _ _).mpr (by decide)
  · obtain ⟨-, -, -, fails, -⟩ := Registry.Builder.faithful (services ++ repeated)
    refine (fails _).mpr ?_
    exact ⟨(Service.allRegistrations (services ++ repeated)).take 5, _,
      (Service.allRegistrations (services ++ repeated)).drop 6, rfl, by decide, by decide, rfl⟩

end Bakery

end ProtectedCall
