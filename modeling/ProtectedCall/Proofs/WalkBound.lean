import ProtectedCall.Proofs.Cycle

/-!
# How long the walk along fallbacks takes

The walk that looks for a cycle is a loop without a counter: it goes on as long as a fallback is
declared. Every pass of the loop that does not end it adds a key to those behind it. They are
distinct, and they are keys of commands of one owner and one list of parameters, so there cannot be
more of them than there are such commands.

* `FallbackLink.pass`, `FallbackLink.walkWithin`: one pass of the loop, and the loop cut off after a
  number of passes. `FallbackLink.walk_of_walkWithin`: where it is not cut off, it is the walk.
* `Registry.pass_cases`: what a pass can do.
* `Registry.Behind`: what a walk has behind it; a pass that goes on keeps it (`Behind.snoc`).
* `Registry.walkWithin_ends`: so the loop ends by itself.
* `Registry.walk_bounded`: the bounds for every command.
-/

namespace ProtectedCall

variable {β : Type}

namespace FallbackLink

open Registration

/-- What a pass of the loop comes to. -/
inductive Pass where
  /-- The walk is over. -/
  | ends (result : Option (List String))
  /-- There is one more key behind it, and another fallback to look for. -/
  | goesOn (visited : List String) (next : String)

/-- One pass of the loop, with the keys `visited` behind it, at the fallback of the name `next`. -/
def pass (registrations : List (Registration β)) (start : Signature) (visited : List String)
    (next : String) : Pass :=
  match lookup registrations (start.sibling next) with
  | none => .ends none
  | some r =>
    match r.command with
    | none => .ends none
    | some d =>
      if r.key ∈ visited then .ends (some (visited ++ [r.key]))
      else .goesOn (visited ++ [r.key]) d.fallbackName

/-- The result of the walk, if it takes at most as many passes as given. -/
def walkWithin (registrations : List (Registration β)) (start : Signature) :
    Nat → List String → String → Option (Option (List String))
  | 0, _, next => if next.isEmpty then some none else none
  | passes + 1, visited, next =>
    if next.isEmpty then some none
    else
      match pass registrations start visited next with
      | .ends result => some result
      | .goesOn visited next => walkWithin registrations start passes visited next

theorem walk_eq_pass (registrations : List (Registration β)) (start : Signature)
    (visited : List String) (next : String) :
    walk registrations start visited next =
      if next.isEmpty then none
      else
        match pass registrations start visited next with
        | .ends result => result
        | .goesOn visited next => walk registrations start visited next := by
  rw [walk_step, pass]
  cases lookup registrations (start.sibling next) with
  | none => rfl
  | some r =>
    cases hc : r.command with
    | none => simp [hc]
    | some d => by_cases hr : r.key ∈ visited <;> simp [hc, hr]

/-- A loop that is not cut off gives the result of the walk. -/
theorem walk_of_walkWithin {registrations : List (Registration β)} {start : Signature}
    {passes : Nat} {visited : List String} {next : String} {result : Option (List String)}
    (h : walkWithin registrations start passes visited next = some result) :
    walk registrations start visited next = result := by
  induction passes generalizing visited next with
  | zero =>
    rw [walkWithin] at h
    rw [walk_eq_pass]
    split at h
    · rename_i he
      rw [if_pos he]
      exact Option.some.inj h
    · cases h
  | succ passes ih =>
    rw [walkWithin] at h
    rw [walk_eq_pass]
    split at h
    · rename_i he
      rw [if_pos he]
      exact Option.some.inj h
    · rename_i he
      rw [if_neg he]
      cases hp : pass registrations start visited next with
      | ends ended =>
        rw [hp] at h
        exact Option.some.inj h
      | goesOn visited' next' =>
        rw [hp] at h
        exact ih h

end FallbackLink

namespace Registry

open FallbackLink

section Frozen

variable {registrations : List (Registration β)} {registry : Registry β} {m : Method β}
variable {visited : List String}

/-- What a pass can do. It ends at a name that no command has, and at a key that comes back, and
otherwise it goes on to the fallback of another command with the owner and the parameters of the
first one. -/
theorem pass_cases (frozen : freeze registrations = .ok registry) (m : Method β)
    (visited : List String) (next : String) :
    pass registrations m.signature visited next = .ends none ∨
    ∃ f ∈ registry.peers m,
      (f.key ∈ visited ∧
        pass registrations m.signature visited next = .ends (some (visited ++ [f.key]))) ∨
      (f.key ∉ visited ∧
        pass registrations m.signature visited next =
          .goesOn (visited ++ [f.key]) f.fallbackName) := by
  rw [FallbackLink.pass, lookup_eq frozen]
  cases hf : registry.find? (m.signature.sibling next) with
  | none => exact .inl rfl
  | some f =>
    obtain ⟨hfm, hfs⟩ := (find?_eq_some_iff frozen).mp hf
    cases hc : f.command with
    | none => exact .inl (by simp [hc])
    | some d =>
      have hpeer : f ∈ registry.peers m := mem_peers_iff.mpr
        ⟨hfm, by simp [Method.isCommand, hc], by rw [Method.owner, hfs]; rfl, by rw [hfs]; rfl⟩
      refine .inr ⟨f, hpeer, ?_⟩
      by_cases hk : f.key ∈ visited
      · exact .inl ⟨hk, by simp [hc, hk]⟩
      · exact .inr ⟨hk, by simp [hc, hk, Registration.fallbackName_of_command hc]⟩

/-- What a walk from a command has behind it: distinct keys of its peers. -/
structure Behind (registry : Registry β) (m : Method β) (visited : List String) : Prop where
  distinct : visited.Nodup
  keys : ∀ key ∈ visited, ∃ f ∈ registry.peers m, f.key = key

/-- There cannot be more keys than peers. -/
theorem Behind.length_le (h : registry.Behind m visited) :
    visited.length ≤ (registry.peers m).length := by
  have hsub : visited ⊆ (registry.peers m).map (·.key) := fun key hkey => by
    obtain ⟨f, hf, rfl⟩ := h.keys key hkey
    exact List.mem_map_of_mem hf
  simpa using h.distinct.length_le_of_subset hsub

theorem Behind.first (hm : m ∈ registry.methods) (hc : m.isCommand) :
    registry.Behind m [m.key] where
  distinct := List.nodup_singleton _
  keys := by
    simp only [List.mem_singleton, forall_eq]
    exact ⟨m, mem_peers_iff.mpr ⟨hm, hc, rfl, rfl⟩, rfl⟩

theorem Behind.snoc (h : registry.Behind m visited) {f : Method β} (hf : f ∈ registry.peers m)
    (fresh : f.key ∉ visited) : registry.Behind m (visited ++ [f.key]) where
  distinct := by simpa using h.distinct.concat fresh
  keys := by
    simp only [List.mem_append, List.mem_singleton]
    rintro key (hkey | rfl)
    · exact h.keys key hkey
    · exact ⟨f, hf, rfl⟩

/-- The loop ends by itself if it may still make a pass for each peer whose key it does not have
behind it, and one more. -/
theorem walkWithin_ends (frozen : freeze registrations = .ok registry)
    (behind : registry.Behind m visited) (next : String) {passes : Nat}
    (enough : (registry.peers m).length < passes + visited.length) :
    ∃ result, walkWithin registrations m.signature passes visited next = some result ∧
      ∀ keys, result = some keys → keys.length ≤ (registry.peers m).length + 1 := by
  have hle := behind.length_le
  -- By induction on the passes: each one that goes on puts the key of another peer behind it.
  induction passes generalizing visited next with
  | zero => omega
  | succ passes ih =>
    rw [walkWithin]
    by_cases he : next.isEmpty
    · exact ⟨none, if_pos he, by simp⟩
    · rw [if_neg he]
      rcases pass_cases frozen m visited next with hp | ⟨f, hf, ⟨-, hp⟩ | ⟨fresh, hp⟩⟩
      · exact ⟨none, by rw [hp], by simp⟩
      · refine ⟨_, by rw [hp], ?_⟩
        rintro _ ⟨⟩
        simpa using hle
      · have hmore := behind.snoc hf fresh
        rw [hp]
        exact ih hmore _ (by simp only [List.length_append, List.length_singleton]; omega)
          hmore.length_le

end Frozen

/-- The walk from a command always ends. It takes at most as many passes as there are commands with
the owner and the parameters of the first one, so a cycle that is recorded has at most one key more;
and it is recorded for every command whose fallbacks can be followed forever through commands. -/
theorem walk_bounded {registrations : List (Registration β)}
    (distinct : (registrations.map (·.signature)).Nodup) :
    ∃ registry, freeze registrations = .ok registry ∧
      ∀ m ∈ registry.methods, m.isCommand →
        walkWithin registrations m.signature (registry.peers m).length [m.key] m.fallbackName =
          some (cycle? registrations m.toRegistration) ∧
        (∀ keys, m.cycle? = some keys → keys.length ≤ (registry.peers m).length + 1) ∧
        ((∀ n, (registry.chain m n).isSome) → m.cycle?.isSome) := by
  have frozen := freeze_of_nodup distinct
  refine ⟨linked registrations, frozen, fun m hm hc => ?_⟩
  have hwalk := cycle?_eq_walk frozen hm
  obtain ⟨decl, hd⟩ := Option.isSome_iff_exists.mp hc
  obtain ⟨result, hloop, hlength⟩ :=
    walkWithin_ends frozen (.first hm hc) m.fallbackName (Nat.lt_succ_self _)
  have hresult := walk_of_walkWithin hloop
  refine ⟨?_, fun keys hkeys => ?_, fun forever => ?_⟩
  · rw [hloop, ← hresult, cycle?, hd, Registration.fallbackName_of_command hd]
  · exact hlength keys (by rw [← hresult, ← hwalk, hkeys])
  -- A chain on which no key repeats is shorter than the list of peers.
  · by_contra hnone
    rw [Bool.not_eq_true, Option.isSome_eq_false_iff, Option.isNone_iff_eq_none] at hnone
    have fresh := (cycle?_eq_none_iff frozen hm).mp hnone
    obtain ⟨f, hf⟩ := Option.isSome_iff_exists.mp (forever ((linked registrations).peers m).length)
    exact Nat.lt_irrefl _ (lt_peers_of_chain frozen hm hc fresh hf)

/-- Three commands whose fallbacks go in a ring, and a plain method. -/
def ring : List (Registration Unit) :=
  [("pay", some "retry"), ("retry", some "queue"), ("queue", some "pay"), ("close", none)].map
    fun (name, fallbackName) =>
      { signature := ⟨"Shop", name, [.integer]⟩, body := (),
        command := fallbackName.map fun name => { fallbackName := name } }

/-- The ring is followed forever. -/
theorem isSome_chain_ring {m : Method Unit} (hm : m ∈ (linked ring).methods.take 3) (n : Nat) :
    ((linked ring).chain m n).isSome := by
  have step : ∀ f ∈ (linked ring).methods.take 3, ∃ g ∈ (linked ring).methods.take 3,
      (linked ring).nextCommand? f = some g := by
    decide +kernel
  have inside : ∃ f ∈ (linked ring).methods.take 3, (linked ring).chain m n = some f := by
    induction n with
    | zero => exact ⟨m, hm, rfl⟩
    | succ n ih =>
      obtain ⟨f, hf, hchain⟩ := ih
      obtain ⟨g, hg, hnext⟩ := step f hf
      exact ⟨g, hg, by rw [chain, steps, ← chain, hchain]; exact hnext⟩
  obtain ⟨f, -, hf⟩ := inside
  rw [hf]
  rfl

theorem walk_bounded_ring :
    (ring.map (·.signature)).Nodup ∧ ∃ registry, freeze ring = .ok registry ∧
      ∃ m ∈ registry.methods, m.isCommand ∧ (registry.peers m).length = 3 ∧
        walkWithin ring m.signature 3 [m.key] m.fallbackName =
          some (some ["pay", "retry", "queue", "pay"]) ∧
        (∀ n, (registry.chain m n).isSome) ∧ m.cycle?.isSome := by
  have distinct : (ring.map (·.signature)).Nodup := by decide
  obtain ⟨registry, frozen, bounded⟩ := walk_bounded distinct
  obtain rfl := (freeze_eq_ok_iff.mp frozen).2
  obtain ⟨walked, -, reported⟩ := bounded _ List.mem_cons_self rfl
  have recorded : FallbackLink.cycle? ring ring[0] = some ["pay", "retry", "queue", "pay"] := by
    decide +kernel
  have forever := isSome_chain_ring (m := (linked ring).methods[0]) List.mem_cons_self
  exact ⟨distinct, _, frozen, _, List.mem_cons_self, rfl, rfl,
    walked.trans (congrArg some recorded), forever, reported forever⟩

end Registry

end ProtectedCall
