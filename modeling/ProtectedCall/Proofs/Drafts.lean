import ProtectedCall.Proofs.PoolSettings
import ProtectedCall.Proofs.SubstituteArguments

/-!
# Drafts of calls

The parts of a call are supplied one after another, in any order and any number of times, and then
the call is captured. The last supply of each part counts and the order of different parts does not,
so the capture can be told from what was supplied last.

* `Invocation.Supply`, `Invocation.Draft.ofSupplies`: a supplied part, and the draft behind several.
* `Invocation.last?`: what was supplied last as a part. `Invocation.Draft.get_ofSupplies`: the draft
  has just that.
* `Invocation.Draft.Faulty`: the first thing that is wrong with a draft.
  `Invocation.Draft.build_eq_error_iff`: a capture is refused for just that.
* `Invocation.HoldsLast`: a call with everything as it was supplied last or by default.
* `Invocation.captured_as_supplied`: the whole for all supplies.
-/

namespace ProtectedCall

variable {ι β : Type}

namespace Invocation

/-! ## Supplies -/

/-- The parts of a call that can be supplied. -/
inductive Part where
  | target
  | method
  | args
  | collapser
  | groupKey
  | commandKey
  | collapserKey
  | cacheKeyMethod
  | mode
  deriving DecidableEq

/-- What is supplied as a part. A collapser may be supplied as absent. -/
abbrev Part.Content (ι β : Type) : Part → Type
  | .target => Target ι
  | .method => Method β
  | .args => List Value
  | .collapser => Option CollapseDecl
  | .groupKey => String
  | .commandKey => String
  | .collapserKey => String
  | .cacheKeyMethod => Method β
  | .mode => ExecutionMode

/-- A part as it is supplied. -/
structure Supply (ι β : Type) where
  part : Part
  content : part.Content ι β

/-- What is supplied as the given part, if it is that part. -/
def Supply.as? (s : Supply ι β) (part : Part) : Option (part.Content ι β) :=
  if h : s.part = part then some (h ▸ s.content) else none

/-- What was supplied last as the given part. -/
def last? (supplies : List (Supply ι β)) (part : Part) : Option (part.Content ι β) :=
  (supplies.filterMap (·.as? part)).getLast?

namespace Draft

/-- The draft behind one more supply. -/
def supply (d : Draft ι β) : Supply ι β → Draft ι β
  | ⟨.target, target⟩ => d.withTarget target
  | ⟨.method, method⟩ => d.withMethod method
  | ⟨.args, args⟩ => d.withArgs args
  | ⟨.collapser, collapser⟩ => d.withCollapser collapser
  | ⟨.groupKey, key⟩ => d.withGroupKey key
  | ⟨.commandKey, key⟩ => d.withCommandKey key
  | ⟨.collapserKey, key⟩ => d.withCollapserKey key
  | ⟨.cacheKeyMethod, method⟩ => d.withCacheKeyMethod method
  | ⟨.mode, mode⟩ => d.withMode mode

/-- The draft behind supplies, from the one to which nothing is supplied. -/
def ofSupplies (supplies : List (Supply ι β)) : Draft ι β := supplies.foldl supply {}

/-- What a draft has as a part. It always has arguments. -/
def get (d : Draft ι β) : (part : Part) → Option (part.Content ι β)
  | .target => d.target
  | .method => d.method
  | .args => some d.args
  | .collapser => d.collapser
  | .groupKey => d.groupKey
  | .commandKey => d.commandKey
  | .collapserKey => d.collapserKey
  | .cacheKeyMethod => d.cacheKeyMethod
  | .mode => d.mode

variable {d other : Draft ι β} {supplies : List (Supply ι β)}

theorem eq_of_get (h : ∀ part, d.get part = other.get part) : d = other := by
  cases d
  cases other
  simp only [mk.injEq]
  exact ⟨h .target, h .method, Option.some.inj (h .args), h .collapser, h .groupKey, h .commandKey,
    h .collapserKey, h .cacheKeyMethod, h .mode⟩

/-- A supply sets its own part and leaves the others alone. -/
theorem get_supply (d : Draft ι β) (s : Supply ι β) (part : Part) :
    (d.supply s).get part = (s.as? part).or (d.get part) := by
  obtain ⟨own, content⟩ := s
  cases own <;> cases part <;> rfl

/-- The draft behind supplies has what was supplied last. -/
theorem get_ofSupplies (supplies : List (Supply ι β)) (part : Part) :
    (ofSupplies supplies).get part = (last? supplies part).or (({} : Draft ι β).get part) :=
  foldl_last (·.get part) (fun d s => get_supply d s part) supplies {}

theorem ofSupplies_eq (supplies : List (Supply ι β)) :
    ofSupplies supplies = {
      target := last? supplies .target
      method := last? supplies .method
      args := (last? supplies .args).getD []
      collapser := last? supplies .collapser
      groupKey := last? supplies .groupKey
      commandKey := last? supplies .commandKey
      collapserKey := last? supplies .collapserKey
      cacheKeyMethod := last? supplies .cacheKeyMethod
      mode := last? supplies .mode } := by
  refine eq_of_get fun part => ?_
  rw [get_ofSupplies]
  cases part with
  | args =>
    show (last? supplies .args).or (some []) = some ((last? supplies .args).getD [])
    cases last? supplies .args <;> rfl
  | _ => exact Option.or_none

/-- Supplies of different parts may change places. -/
theorem supply_comm (d : Draft ι β) {s t : Supply ι β} (h : s.part ≠ t.part) :
    (d.supply s).supply t = (d.supply t).supply s := by
  refine eq_of_get fun part => ?_
  simp only [get_supply, ← Option.or_assoc]
  congr 1
  -- At most one of the two is the part that is looked at.
  unfold Supply.as?
  by_cases hs : s.part = part
  · rw [dif_neg fun ht : t.part = part => h (hs.trans ht.symm)]
    simp
  · rw [dif_neg hs]
    simp

/-- A later supply of the same part makes up for an earlier one. -/
theorem supply_supply (d : Draft ι β) {s t : Supply ι β} (h : s.part = t.part) :
    (d.supply s).supply t = d.supply t := by
  refine eq_of_get fun part => ?_
  simp only [get_supply]
  by_cases ht : t.part = part
  · simp [Supply.as?, ht]
  · simp [Supply.as?, h, ht]

end Draft

end Invocation

/-! ## Faults -/

/-- What is wrong with a method for a target and arguments: the method belongs to another type, or
else the arguments do not suit it. -/
inductive Method.Misfit (m : Method β) (target : Target ι) (args : List Value) :
    InvocationFault → Prop where
  | owner (foreign : m.owner ≠ target.typeName) :
    Misfit m target args (.foreignMethod m.signature target.typeName)
  | args {fault : InvocationFault} (own : m.owner = target.typeName)
      (misfit : m.signature.Misfit args fault) : Misfit m target args fault

namespace Invocation

namespace Draft

/-- The first thing that is wrong with a draft: there is no target, or else no method, or else the
method does not fit the call, or else the cache-key method does not. -/
inductive Faulty (d : Draft ι β) : InvocationFault → Prop where
  | target (missing : d.target = none) : Faulty d .targetRequired
  | method {target : Target ι} (on : d.target = some target) (missing : d.method = none) :
    Faulty d .methodRequired
  | misfit {target : Target ι} {method : Method β} {fault : InvocationFault}
      (on : d.target = some target) (of : d.method = some method)
      (misfit : method.Misfit target d.args fault) : Faulty d fault
  | cacheKey {target : Target ι} {method cacheKey : Method β} {fault : InvocationFault}
      (on : d.target = some target) (of : d.method = some method)
      (fits : method.Fits target d.args) (keyed : d.cacheKeyMethod = some cacheKey)
      (misfit : cacheKey.Misfit target d.args fault) : Faulty d fault

/-- A check reports what is wrong with the method. -/
theorem check_eq_error_iff {target : Target ι} {args : List Value} {m : Method β} {e : CallError} :
    check target args m = .error e ↔
      ∃ fault, m.Misfit target args fault ∧ e = .invalidInvocation fault := by
  unfold check Method.checkOwner
  rw [bind_eq_error_iff]
  by_cases ho : target.typeName = m.owner
  · rw [if_neg (not_not.mpr ho)]
    constructor
    · rintro (he | ⟨u, -, he⟩)
      · cases he
      · obtain ⟨fault, misfit, rfl⟩ := Signature.checkArgs_eq_error_iff.mp he
        exact ⟨fault, .args ho.symm misfit, rfl⟩
    · rintro ⟨fault, misfit, rfl⟩
      cases misfit with
      | owner foreign => exact absurd ho.symm foreign
      | args _ misfit =>
        exact .inr ⟨(), rfl, Signature.checkArgs_eq_error_iff.mpr ⟨fault, misfit, rfl⟩⟩
  · rw [if_pos ho]
    constructor
    · rintro (he | ⟨u, hu, -⟩)
      · exact ⟨_, .owner fun h => ho h.symm, (Except.error.inj he).symm⟩
      · cases hu
    · rintro ⟨fault, misfit, rfl⟩
      cases misfit with
      | owner => exact .inl rfl
      | args own => exact absurd own.symm ho

variable {d : Draft ι β}

/-- A draft with a target and a method is refused for the method, or else for the cache-key
method. -/
theorem build_eq_error_iff_check {target : Target ι} {method : Method β} {e : CallError}
    (on : d.target = some target) (of : d.method = some method) :
    d.build = .error e ↔ check target d.args method = .error e ∨
      method.Fits target d.args ∧
        ∃ c, d.cacheKeyMethod = some c ∧ check target d.args c = .error e := by
  unfold build
  rw [on, of, bind_eq_error_iff]
  refine or_congr_right ?_
  constructor
  · rintro ⟨⟨⟩, hcheck, h⟩
    refine ⟨check_eq_ok_iff.mp hcheck, ?_⟩
    cases hc : d.cacheKeyMethod with
    | none =>
      rw [hc] at h
      cases h
    | some c =>
      rw [hc] at h
      obtain hkey | ⟨u, -, h⟩ := bind_eq_error_iff.mp h
      · exact ⟨c, rfl, hkey⟩
      · cases h
  · rintro ⟨fits, c, keyed, hkey⟩
    refine ⟨(), check_eq_ok_iff.mpr fits, ?_⟩
    rw [keyed]
    exact bind_eq_error_iff.mpr (.inl hkey)

/-- A capture is refused for the first thing that is wrong with the draft. -/
theorem build_eq_error_iff {e : CallError} :
    d.build = .error e ↔ ∃ fault, d.Faulty fault ∧ e = .invalidInvocation fault := by
  constructor
  · intro h
    -- The cases are those of the capture, in the order of its checks.
    cases on : d.target with
    | none =>
      rw [build, on] at h
      exact ⟨_, .target on, (Except.error.inj h).symm⟩
    | some target =>
      cases of : d.method with
      | none =>
        rw [build, on, of] at h
        exact ⟨_, .method on of, (Except.error.inj h).symm⟩
      | some method =>
        obtain hm | ⟨fits, c, keyed, hkey⟩ := (build_eq_error_iff_check on of).mp h
        · obtain ⟨fault, misfit, rfl⟩ := check_eq_error_iff.mp hm
          exact ⟨fault, .misfit on of misfit, rfl⟩
        · obtain ⟨fault, misfit, rfl⟩ := check_eq_error_iff.mp hkey
          exact ⟨fault, .cacheKey on of fits keyed misfit, rfl⟩
  · rintro ⟨fault, faulty, rfl⟩
    cases faulty with
    | target missing => rw [build, missing]
    | method on missing => rw [build, on, missing]
    | misfit on of misfit =>
      exact (build_eq_error_iff_check on of).mpr (.inl (check_eq_error_iff.mpr ⟨_, misfit, rfl⟩))
    | cacheKey on of fits keyed misfit =>
      exact (build_eq_error_iff_check on of).mpr
        (.inr ⟨fits, _, keyed, check_eq_error_iff.mpr ⟨_, misfit, rfl⟩⟩)

end Draft

/-! ## Captures -/

/-- Everything in a call is as it was supplied last or, if it was not supplied, as it is by default.
The call runs under the declaration of its method, which cannot be supplied. A default key counts as
not supplied if it was last supplied empty, while a collapser that was last supplied as absent is
absent. -/
structure HoldsLast (supplies : List (Supply ι β)) (inv : Invocation ι β) : Prop where
  target : last? supplies .target = some inv.target
  method : last? supplies .method = some inv.method
  args : inv.args = (last? supplies .args).getD []
  command : inv.command = inv.method.command
  collapser : inv.collapser = (last? supplies .collapser).getD inv.method.collapser
  groupKey :
    inv.groupKey = ((last? supplies .groupKey).filter (· ≠ "")).getD inv.target.shortTypeName
  commandKey : inv.commandKey = ((last? supplies .commandKey).filter (· ≠ "")).getD inv.method.name
  collapserKey :
    inv.collapserKey = ((last? supplies .collapserKey).filter (· ≠ "")).getD inv.method.name
  cacheKeyMethod : inv.cacheKeyMethod = last? supplies .cacheKeyMethod
  mode : inv.mode = (last? supplies .mode).getD (.ofShape inv.method.returns)

theorem keyOr_eq (supplied : Option String) (default : String) :
    keyOr supplied default = (supplied.filter (· ≠ "")).getD default := by
  unfold keyOr
  rw [declaredOr_eq]
  cases supplied with
  | none => rfl
  | some key => by_cases hk : key = "" <;> simp [Option.filter, hk]

variable {supplies : List (Supply ι β)}

/-- What is captured fits and is as supplied, and what fits and is as supplied is captured. -/
theorem build_ofSupplies_eq_ok_iff {inv : Invocation ι β} :
    (Draft.ofSupplies supplies).build = .ok inv ↔
      inv.method.Fits inv.target inv.args ∧
        (∀ c, inv.cacheKeyMethod = some c → c.Fits inv.target inv.args) ∧
        HoldsLast supplies inv := by
  rw [Draft.ofSupplies_eq, Draft.build_eq_ok_iff]
  simp only [keyOr_eq]
  constructor
  · rintro ⟨target, method, on, of, fits, keyed, rfl⟩
    exact ⟨fits, keyed, on, of, rfl, rfl, rfl, rfl, rfl, rfl, rfl, rfl⟩
  · rintro ⟨fits, keyed, holds⟩
    refine ⟨inv.target, inv.method, holds.target, holds.method, ?_⟩
    rw [← holds.args, ← holds.collapser, ← holds.groupKey, ← holds.commandKey,
      ← holds.collapserKey, ← holds.cacheKeyMethod, ← holds.mode]
    exact ⟨fits, keyed, rfl⟩

/-- Captures are refused if the target or the method is missing, or if the method or the cache-key
method does not fit. -/
theorem exists_build_ofSupplies_eq_error_iff :
    (∃ e, (Draft.ofSupplies supplies).build = .error e) ↔
      last? supplies .target = none ∨ last? supplies .method = none ∨
        ∃ target method, last? supplies .target = some target ∧
          last? supplies .method = some method ∧
          (¬ method.Fits target ((last? supplies .args).getD []) ∨
            ∃ c, last? supplies .cacheKeyMethod = some c ∧
              ¬ c.Fits target ((last? supplies .args).getD [])) := by
  have refused : (∃ e, (Draft.ofSupplies supplies).build = .error e) ↔
      ¬ ∃ inv, (Draft.ofSupplies supplies).build = .ok inv := by
    cases (Draft.ofSupplies supplies).build <;> simp
  rw [refused, Draft.ofSupplies_eq]
  simp only [Draft.build_eq_ok_iff]
  cases on : last? supplies .target with
  | none => simp
  | some target =>
    cases of : last? supplies .method with
    | none => simp
    | some method =>
      simp only [Option.some.injEq, reduceCtorEq, false_or, exists_and_left, exists_eq_left',
        exists_eq, and_true, not_and_or, not_forall, exists_prop]

/-- What is captured can be told from what was supplied last as each part, whatever was supplied
before and in whatever order. Supplies of different parts may change places, and a later supply of
the same part makes up for an earlier one. A capture is refused if and only if the target or the
method is missing, the method does not fit, or a cache-key method was supplied and does not fit. The
error is the first of these faults. If there is none, the captured call is the one that has
everything as it was supplied last or by default. -/
theorem captured_as_supplied (supplies : List (Supply ι β)) :
    (∀ others : List (Supply ι β), (∀ part, last? others part = last? supplies part) →
      Draft.ofSupplies others = Draft.ofSupplies supplies) ∧
    (∀ s t : Supply ι β, ∀ later,
      (s.part ≠ t.part → Draft.ofSupplies (supplies ++ s :: t :: later) =
        Draft.ofSupplies (supplies ++ t :: s :: later)) ∧
      (s.part = t.part → Draft.ofSupplies (supplies ++ s :: t :: later) =
        Draft.ofSupplies (supplies ++ t :: later))) ∧
    ((∃ e, (Draft.ofSupplies supplies).build = .error e) ↔
      last? supplies .target = none ∨ last? supplies .method = none ∨
        ∃ target method, last? supplies .target = some target ∧
          last? supplies .method = some method ∧
          (¬ method.Fits target ((last? supplies .args).getD []) ∨
            ∃ c, last? supplies .cacheKeyMethod = some c ∧
              ¬ c.Fits target ((last? supplies .args).getD []))) ∧
    (∀ e, (Draft.ofSupplies supplies).build = .error e ↔
      ∃ fault, (Draft.ofSupplies supplies).Faulty fault ∧ e = .invalidInvocation fault) ∧
    ∀ inv, (Draft.ofSupplies supplies).build = .ok inv ↔
      inv.method.Fits inv.target inv.args ∧
        (∀ c, inv.cacheKeyMethod = some c → c.Fits inv.target inv.args) ∧
        HoldsLast supplies inv := by
  refine ⟨fun others same => ?_, fun s t later => ⟨fun apart => ?_, fun alike => ?_⟩,
    exists_build_ofSupplies_eq_error_iff, fun e => Draft.build_eq_error_iff,
    fun inv => build_ofSupplies_eq_ok_iff⟩
  · simp only [Draft.ofSupplies_eq, same]
  · simp only [Draft.ofSupplies, List.foldl_append, List.foldl_cons]
    rw [Draft.supply_comm _ apart]
  · simp only [Draft.ofSupplies, List.foldl_append, List.foldl_cons]
    rw [Draft.supply_supply _ alike]

namespace PriceList

/-- Quotes a price once for all who ask. -/
def shared : Method Unit := { quote with collapser := some { key := "quotes" } }

/-- A quote for an article, supplied from the arguments to the target. It is not to be shared, and
its group key is taken back. -/
def order : List (Supply Unit Unit) :=
  [⟨.args, [.text "jar"]⟩, ⟨.groupKey, "Goods"⟩, ⟨.cacheKeyMethod, number⟩, ⟨.method, shared⟩,
    ⟨.groupKey, ""⟩, ⟨.collapser, none⟩, ⟨.target, ⟨"Shop", 0, ()⟩⟩]

end PriceList

open PriceList in
/-- The name of the article is refused, and its number makes up for it. -/
theorem captured_as_supplied_number :
    (Draft.ofSupplies order).build =
        .error (.invalidInvocation (.wrongArgument 0 number.signature .integer "TEXT")) ∧
      (Draft.ofSupplies (order ++ [⟨.args, [.integer 5]⟩])).build =
        .ok { call 5 with method := shared } := by
  obtain ⟨-, -, -, refused, -⟩ := captured_as_supplied order
  obtain ⟨-, -, -, -, taken⟩ := captured_as_supplied (order ++ [⟨.args, [.integer 5]⟩])
  have misfit : number.signature.Misfit [.text "jar"]
      (.wrongArgument 0 number.signature .integer "TEXT") := by
    have found : (number.signature.params.zip [.text "jar"])[0]? =
        some (ParamKind.integer, Value.text "jar") := rfl
    exact .argument rfl found rfl (by simp)
  constructor
  · refine (refused _).mpr ⟨_, .cacheKey rfl rfl ⟨rfl, rfl, by decide⟩ rfl ?_, rfl⟩
    exact .args rfl misfit
  · refine (taken _).mpr ⟨⟨rfl, rfl, by decide⟩, ?_, ?_⟩
    · rintro _ ⟨⟩
      exact ⟨rfl, rfl, by decide⟩
    · constructor <;> rfl

end Invocation

end ProtectedCall
