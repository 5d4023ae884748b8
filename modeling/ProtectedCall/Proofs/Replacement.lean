import ProtectedCall.Proofs.Fit

/-!
# Replaced arguments

A call is captured once, and its arguments may be replaced any number of times after that
(`Invocation.Derived`). New arguments are checked against the method. A capture checks them against
the cache-key method as well, so the two part where that method is the stricter one.

* `Invocation.Settled`: a call whose default keys stay as they are when they are supplied again.
* `Invocation.again`, `Invocation.build_again`: capturing a call once more with other arguments is
  replacing its arguments and checking them against the cache-key method.
* `Invocation.replaced_eq_captured`: when replacing and capturing agree, and what every derived call
  keeps of its capture.
-/

namespace ProtectedCall

variable {ι β : Type}

namespace Invocation

/-- The default keys are as a capture leaves them: supplied again, they stay as they are. -/
structure Settled (inv : Invocation ι β) : Prop where
  groupKey : declaredOr inv.groupKey inv.target.shortTypeName = inv.groupKey
  commandKey : declaredOr inv.commandKey inv.method.name = inv.commandKey
  collapserKey : declaredOr inv.collapserKey inv.method.name = inv.collapserKey

/-- Calls that were captured and whose arguments were replaced any number of times since. -/
inductive Derived : Invocation ι β → Prop where
  | captured {d : Draft ι β} {inv : Invocation ι β} (h : d.build = .ok inv) : Derived inv
  | replaced {inv other : Invocation ι β} {args : List Value} (derived : Derived inv)
      (h : inv.withArgs args = .ok other) : Derived other

/-- The draft that supplies all of a call again, but for the arguments. -/
def again (inv : Invocation ι β) (args : List Value) : Draft ι β where
  target := some inv.target
  method := some inv.method
  args := args
  collapser := some inv.collapser
  groupKey := some inv.groupKey
  commandKey := some inv.commandKey
  collapserKey := some inv.collapserKey
  cacheKeyMethod := inv.cacheKeyMethod
  mode := some inv.mode

variable {inv other : Invocation ι β} {args : List Value}

theorem Settled.of_build {d : Draft ι β} (h : d.build = .ok inv) : inv.Settled := by
  obtain ⟨target, method, -, -, -, -, rfl⟩ := Draft.build_eq_ok_iff.mp h
  constructor <;> exact declaredOr_declaredOr _ _

/-! ## What replacing keeps -/

namespace Derived

theorem settled (derived : inv.Derived) : inv.Settled := by
  induction derived with
  | captured h => exact .of_build h
  | replaced _ h ih =>
    obtain ⟨-, rfl⟩ := withArgs_eq_ok_iff.mp h
    exact ⟨ih.groupKey, ih.commandKey, ih.collapserKey⟩

theorem fits (derived : inv.Derived) : inv.method.Fits inv.target inv.args := by
  induction derived with
  | captured h =>
    obtain ⟨target, method, -, -, hf, -, rfl⟩ := Draft.build_eq_ok_iff.mp h
    exact hf
  | replaced _ h ih =>
    obtain ⟨hargs, rfl⟩ := withArgs_eq_ok_iff.mp h
    exact ih.replace hargs

/-- The cache-key method still belongs to the target, whatever the arguments are by now. -/
theorem cacheKey_owner (derived : inv.Derived) :
    ∀ c, inv.cacheKeyMethod = some c → c.owner = inv.target.typeName := by
  induction derived with
  | captured h =>
    obtain ⟨target, method, -, -, -, hc, rfl⟩ := Draft.build_eq_ok_iff.mp h
    exact fun c hcache => (hc c hcache).owner
  | replaced _ h ih =>
    obtain ⟨-, rfl⟩ := withArgs_eq_ok_iff.mp h
    exact ih

end Derived

/-! ## Capturing once more -/

/-- Capturing a derived call once more replaces its arguments, as far as the cache-key method takes
the new ones. -/
theorem build_again (derived : inv.Derived) :
    (inv.again args).build = .ok other ↔ inv.withArgs args = .ok other ∧
      ∀ c, inv.cacheKeyMethod = some c → c.signature.checkArgs args = .ok () := by
  have hkeys := derived.settled
  rw [Draft.build_eq_ok_iff, withArgs_eq_ok_iff]
  constructor
  · rintro ⟨target, method, ⟨⟩, ⟨⟩, hf, hc, rfl⟩
    refine ⟨⟨hf.checkArgs, ?_⟩, fun c h => (hc c h).checkArgs⟩
    simp only [again, keyOr, Option.getD_some, hkeys.groupKey, hkeys.commandKey, hkeys.collapserKey]
  · rintro ⟨⟨hargs, rfl⟩, hc⟩
    refine ⟨inv.target, inv.method, rfl, rfl, derived.fits.replace hargs, fun c h => ?_, ?_⟩
    · obtain ⟨hl, ha⟩ := Signature.checkArgs_eq_ok_iff.mp (hc c h)
      exact ⟨derived.cacheKey_owner c h, hl, ha⟩
    · simp only [again, keyOr, Option.getD_some, hkeys.groupKey, hkeys.commandKey,
        hkeys.collapserKey]

/-- What the method refuses is refused with the same error. -/
theorem build_again_error (derived : inv.Derived) {e : CallError}
    (h : inv.method.signature.checkArgs args = .error e) : (inv.again args).build = .error e := by
  have howner : inv.method.checkOwner inv.target = .ok () := by
    rw [Method.checkOwner, if_neg (by simp [derived.fits.owner])]
  have hcheck : Draft.check inv.target args inv.method = .error e := by
    rw [Draft.check, howner]
    exact h
  show (Draft.check inv.target args inv.method >>= _) = .error e
  rw [hcheck]
  rfl

/-- Replacing the arguments of a derived call gives what capturing it once more with these arguments
gives, call or error, unless the method takes them and the cache-key method does not; then they are
replaced all the same. No call is captured that replacing refuses. The method and the cache-key
method always belong to the target and the method takes the arguments. The cache-key method takes
them in those derived calls that can be captured as they are, and in no others. -/
theorem replaced_eq_captured (derived : inv.Derived) :
    (∀ args, inv.withArgs args = (inv.again args).build ↔
      ∀ c, inv.cacheKeyMethod = some c → inv.method.signature.checkArgs args = .ok () →
        c.signature.checkArgs args = .ok ()) ∧
    (∀ args other, (inv.again args).build = .ok other → inv.withArgs args = .ok other) ∧
    inv.method.Fits inv.target inv.args ∧
    (∀ c, inv.cacheKeyMethod = some c → c.owner = inv.target.typeName) ∧
    ((∀ c, inv.cacheKeyMethod = some c → c.Fits inv.target inv.args) ↔
      ∃ d : Draft ι β, d.build = .ok inv) := by
  refine ⟨fun args => ?_, fun args other h => ((build_again derived).mp h).1, derived.fits,
    derived.cacheKey_owner, fun hc => ⟨inv.again inv.args, ?_⟩, fun ⟨d, hd⟩ => ?_⟩
  -- Arguments that the method refuses are refused either way. Otherwise only the capture asks the
  -- cache-key method.
  · cases hm : inv.method.signature.checkArgs args with
    | error e =>
      have hw : inv.withArgs args = .error e := by
        rw [withArgs, hm]
        rfl
      simp [hw, build_again_error derived hm]
    | ok u =>
      have hw := withArgs_eq_ok_iff.mpr ⟨hm, rfl⟩
      rw [hw, eq_comm, build_again derived]
      simp only [hw, true_and, forall_const]
  · refine (build_again derived).mpr ⟨?_, fun c h => (hc c h).checkArgs⟩
    exact withArgs_eq_ok_iff.mpr ⟨derived.fits.checkArgs, rfl⟩
  · obtain ⟨target, method, -, -, -, hc, rfl⟩ := Draft.build_eq_ok_iff.mp hd
    exact hc

/-! ## A price list -/

namespace PriceList

/-- Quotes a price for everything. -/
def quote : Method Unit :=
  { signature := ⟨"Shop", "quote", [.any]⟩, link := .undeclared, body := () }

/-- The cache key of a quote, for numbered goods only. -/
def number : Method Unit :=
  { signature := ⟨"Shop", "number", [.integer]⟩, link := .undeclared, body := () }

/-- A quote for the goods of some number. -/
def draft (n : Int64) : Draft Unit Unit :=
  { target := some ⟨"Shop", 0, ()⟩, method := some quote, args := [.integer n],
    groupKey := some "Shop", cacheKeyMethod := some number }

/-- The captured call. -/
def call (n : Int64) : Invocation Unit Unit where
  target := ⟨"Shop", 0, ()⟩
  method := quote
  args := [.integer n]
  collapser := none
  groupKey := "Shop"
  commandKey := "quote"
  collapserKey := "quote"
  cacheKeyMethod := some number
  mode := .synchronous

theorem build_draft (n : Int64) : (draft n).build = .ok (call n) := rfl

end PriceList

open PriceList in
theorem replaced_eq_captured_number :
    (call 6).Derived ∧ (call 6).withArgs [.integer 7] = .ok (call 7) ∧
      (call 6).withArgs [.integer 7] = ((call 6).again [.integer 7]).build := by
  have derived : (call 6).Derived :=
    .replaced (.captured (build_draft 5))
      (show (call 5).withArgs [.integer 6] = .ok (call 6) from rfl)
  refine ⟨derived, rfl, ((replaced_eq_captured derived).1 _).mpr ?_⟩
  rintro c ⟨⟩ -
  rfl

open PriceList in
/-- The name of an article replaces its number, though no such call can be captured. -/
theorem replaced_beyond_cacheKey :
    (draft 5).build = .ok (call 5) ∧
      (call 5).withArgs [.text "jar"] = .ok { call 5 with args := [.text "jar"] } ∧
      ((call 5).again [.text "jar"]).build =
        .error (.invalidInvocation (.wrongArgument 0 number.signature .integer "TEXT")) ∧
      ¬ number.Fits (call 5).target [.text "jar"] := by
  refine ⟨rfl, rfl, rfl, fun h => ?_⟩
  simpa [number, ParamKind.accepts] using h.accepted

end Invocation

end ProtectedCall
