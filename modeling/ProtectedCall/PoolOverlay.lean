import ProtectedCall.Declaration
import ProtectedCall.Error
import ProtectedCall.Json.Basic

/-!
# Pool overlays

A command may override some of the six settings of its thread pool.

* `PoolField`: the settings, and `PoolField.all`, their order.
* `PoolOverlay`: the values that are overridden; `get`, `set` and `overrides` see them by field.
* `PoolOverlay.ofSettings`: the overlay of declared settings. The first setting that is wrong
  decides the error; of several for one field the last one counts.
* `PoolOverlay.ofSettings?`: without any setting there is no overlay.
-/

namespace ProtectedCall

open Decimal

/-- The settings of a thread pool that a command may override. -/
inductive PoolField where
  | coreSize
  | maxQueueSize
  | keepAliveTimeMinutes
  | metricsRollingStatisticalWindowBuckets
  | queueSizeRejectionThreshold
  | metricsRollingStatisticalWindowInMilliseconds
  deriving DecidableEq, Inhabited

namespace PoolField

/-- All settings in their order. -/
def all : List PoolField :=
  [.coreSize, .maxQueueSize, .keepAliveTimeMinutes, .metricsRollingStatisticalWindowBuckets,
    .queueSizeRejectionThreshold, .metricsRollingStatisticalWindowInMilliseconds]

/-- The declared name of a setting. -/
def name : PoolField → String
  | .coreSize => "coreSize"
  | .maxQueueSize => "maxQueueSize"
  | .keepAliveTimeMinutes => "keepAliveTimeMinutes"
  | .metricsRollingStatisticalWindowBuckets => "metricsRollingStatisticalWindowBuckets"
  | .queueSizeRejectionThreshold => "queueSizeRejectionThreshold"
  | .metricsRollingStatisticalWindowInMilliseconds =>
    "metricsRollingStatisticalWindowInMilliseconds"

/-- The setting of exactly that name. -/
def ofName? (name : String) : Option PoolField := all.find? (·.name == name)

end PoolField

/-- The settings that a command overrides. The engine decides about the others. -/
structure PoolOverlay where
  coreSize : Option Int32 := none
  maxQueueSize : Option Int32 := none
  keepAliveTimeMinutes : Option Int32 := none
  metricsRollingStatisticalWindowBuckets : Option Int32 := none
  queueSizeRejectionThreshold : Option Int32 := none
  metricsRollingStatisticalWindowInMilliseconds : Option Int32 := none
  deriving DecidableEq, Inhabited

namespace PoolOverlay

/-- The overlay that overrides nothing. -/
def empty : PoolOverlay := {}

/-- The value that overrides a setting. -/
def get (o : PoolOverlay) : PoolField → Option Int32
  | .coreSize => o.coreSize
  | .maxQueueSize => o.maxQueueSize
  | .keepAliveTimeMinutes => o.keepAliveTimeMinutes
  | .metricsRollingStatisticalWindowBuckets => o.metricsRollingStatisticalWindowBuckets
  | .queueSizeRejectionThreshold => o.queueSizeRejectionThreshold
  | .metricsRollingStatisticalWindowInMilliseconds =>
    o.metricsRollingStatisticalWindowInMilliseconds

/-- Overrides the core size. -/
def withCoreSize (o : PoolOverlay) (value : Int32) : PoolOverlay :=
  { o with coreSize := some value }

/-- Overrides the greatest queue size. -/
def withMaxQueueSize (o : PoolOverlay) (value : Int32) : PoolOverlay :=
  { o with maxQueueSize := some value }

/-- Overrides the time that idle threads are kept. -/
def withKeepAliveTimeMinutes (o : PoolOverlay) (value : Int32) : PoolOverlay :=
  { o with keepAliveTimeMinutes := some value }

/-- Overrides the number of buckets of the metrics window. -/
def withMetricsRollingStatisticalWindowBuckets (o : PoolOverlay) (value : Int32) : PoolOverlay :=
  { o with metricsRollingStatisticalWindowBuckets := some value }

/-- Overrides the queue size from which calls are rejected. -/
def withQueueSizeRejectionThreshold (o : PoolOverlay) (value : Int32) : PoolOverlay :=
  { o with queueSizeRejectionThreshold := some value }

/-- Overrides the length of the metrics window. -/
def withMetricsRollingStatisticalWindowInMilliseconds (o : PoolOverlay) (value : Int32) :
    PoolOverlay :=
  { o with metricsRollingStatisticalWindowInMilliseconds := some value }

/-- Overrides a setting. -/
def set (o : PoolOverlay) : PoolField → Int32 → PoolOverlay
  | .coreSize, value => { o with coreSize := some value }
  | .maxQueueSize, value => { o with maxQueueSize := some value }
  | .keepAliveTimeMinutes, value => { o with keepAliveTimeMinutes := some value }
  | .metricsRollingStatisticalWindowBuckets, value =>
    { o with metricsRollingStatisticalWindowBuckets := some value }
  | .queueSizeRejectionThreshold, value => { o with queueSizeRejectionThreshold := some value }
  | .metricsRollingStatisticalWindowInMilliseconds, value =>
    { o with metricsRollingStatisticalWindowInMilliseconds := some value }

/-- The function that overrides one setting alone. -/
def override : PoolField → PoolOverlay → Int32 → PoolOverlay
  | .coreSize => withCoreSize
  | .maxQueueSize => withMaxQueueSize
  | .keepAliveTimeMinutes => withKeepAliveTimeMinutes
  | .metricsRollingStatisticalWindowBuckets => withMetricsRollingStatisticalWindowBuckets
  | .queueSizeRejectionThreshold => withQueueSizeRejectionThreshold
  | .metricsRollingStatisticalWindowInMilliseconds =>
    withMetricsRollingStatisticalWindowInMilliseconds

@[simp] theorem get_empty (field : PoolField) : empty.get field = none := by
  cases field <;> rfl

@[simp] theorem get_set (o : PoolOverlay) (field other : PoolField) (value : Int32) :
    (o.set field value).get other = if other = field then some value else o.get other := by
  cases field <;> cases other <;> rfl

/-- Overriding one setting alone is overriding it by its field. -/
@[simp] theorem override_eq_set (field : PoolField) : override field = fun o => o.set field := by
  cases field <;> rfl

/-- An overlay is known by its values. -/
theorem eq_of_get {a b : PoolOverlay} (h : ∀ field, a.get field = b.get field) : a = b := by
  cases a
  cases b
  have := h .coreSize
  have := h .maxQueueSize
  have := h .keepAliveTimeMinutes
  have := h .metricsRollingStatisticalWindowBuckets
  have := h .queueSizeRejectionThreshold
  have := h .metricsRollingStatisticalWindowInMilliseconds
  simp_all [get]

/-- The overridden settings with their values, in the order of the settings. -/
def overrides (o : PoolOverlay) : List (PoolField × Int32) :=
  PoolField.all.filterMap fun field => (o.get field).map fun value => (field, value)

/-- Nothing is overridden. -/
def isEmpty (o : PoolOverlay) : Bool := o.overrides.isEmpty

/-- The document of an overlay: an object with a member for every part that is overridden. -/
def toJson (o : PoolOverlay) : Json :=
  let parts : List (String × Option Int32) :=
    [("coreSize", o.coreSize),
      ("maxQueueSize", o.maxQueueSize),
      ("keepAliveTimeMinutes", o.keepAliveTimeMinutes),
      ("metricsRollingStatisticalWindowBuckets", o.metricsRollingStatisticalWindowBuckets),
      ("queueSizeRejectionThreshold", o.queueSizeRejectionThreshold),
      ("metricsRollingStatisticalWindowInMilliseconds",
        o.metricsRollingStatisticalWindowInMilliseconds)]
  .object (parts.filterMap fun (name, part) => part.map fun value =>
    (name, Json.ofInt value.toInt))

/-- Overrides what one declared setting says. The name is looked at before the value. -/
def addSetting (o : PoolOverlay) (s : Setting) : Except CallError PoolOverlay :=
  match PoolField.ofName? s.name with
  | none => .error (.unsupportedSetting s.name)
  | some field =>
    match readInt32 s.value with
    | .error fault => .error (.invalidSetting s.name s.value fault)
    | .ok value => .ok (o.set field value)

/-- The overlay of declared settings. -/
def ofSettings (settings : List Setting) : Except CallError PoolOverlay :=
  settings.foldlM addSetting empty

/-- The overlay of declared settings, or none where nothing is declared. -/
def ofSettings? (settings : List Setting) : Except CallError (Option PoolOverlay) :=
  if settings.isEmpty then .ok none else (ofSettings settings).map some

end PoolOverlay

end ProtectedCall
