import Dualnet.Library.Maps
import Mathlib.Data.UInt

/-!
# The counters of a node

The `Registry` of package `stats`: one set of counters for each connection, one for each label of a
routing rule, and two for drops. A call for a name that was not registered counts nothing.
-/

namespace Dualnet.Stats

open Library

/-- The counters of a connection. -/
structure Counts where
  recv : UInt64 := 0
  sent : UInt64 := 0
  recvBytes : UInt64 := 0
  sentBytes : UInt64 := 0
  deriving DecidableEq

structure Registry where
  conns : FMap String Counts
  routes : FMap String UInt64 := ∅
  noRouteDrops : UInt64 := 0
  decodeDrops : UInt64 := 0

/-- `New`. -/
def new (connNames : List String) : Registry where
  conns := connNames.foldl (fun m name => m.insert name {}) ∅

/-- A counter for a label that has none. -/
def addRoute (m : FMap String UInt64) (label : String) : FMap String UInt64 :=
  if (m.lookup label).isSome then m else m.insert label 0

namespace Registry

variable (r : Registry)

/-- `SetRoutes`. -/
def setRoutes (labels : List String) : Registry :=
  { r with routes := labels.foldl addRoute r.routes }

/-- `Recv`. -/
def recv (name : String) (n : Nat) : Registry :=
  { r with conns := r.conns.modify name fun c =>
      { c with recv := c.recv + 1, recvBytes := c.recvBytes + UInt64.ofNat n } }

/-- `Sent`. -/
def sent (name : String) (n : Nat) : Registry :=
  { r with conns := r.conns.modify name fun c =>
      { c with sent := c.sent + 1, sentBytes := c.sentBytes + UInt64.ofNat n } }

/-- `Route`. -/
def route (label : String) : Registry := { r with routes := r.routes.modify label (· + 1) }

/-- `NoRouteDrop`. -/
def noRouteDrop : Registry := { r with noRouteDrops := r.noRouteDrops + 1 }

/-- `DecodeDrop`. -/
def decodeDrop : Registry := { r with decodeDrops := r.decodeDrops + 1 }

end Registry

/-! ## At the start -/

/-- Every connection has its counters, and they are zero. -/
theorem lookup_new (names : List String) (name : String) :
    (new names).conns.lookup name = if name ∈ names then some {} else none := by
  have hfold : ∀ m : FMap String Counts,
      (names.foldl (fun m name => m.insert name {}) m).lookup name =
        if name ∈ names then some {} else m.lookup name := by
    induction names with
    | nil => simp
    | cons next names ih =>
      intro m
      rw [List.foldl_cons, ih, FMap.lookup_insert_ite]
      by_cases hnext : name = next
      · simp [hnext]
      · simp [hnext]
  simpa [new] using hfold ∅

/-- What a label counts. -/
theorem lookup_addRoute (m : FMap String UInt64) (label l : String) :
    (addRoute m label).lookup l =
      if l = label then some ((m.lookup label).getD 0) else m.lookup l := by
  unfold addRoute
  cases hlookup : m.lookup label with
  | none => simp [FMap.lookup_insert_ite]
  | some v =>
    by_cases hl : l = label
    · subst hl
      simp [hlookup]
    · simp [hl]

/-- Every label has its counter, and it is zero. -/
theorem lookup_setRoutes (names labels : List String) (label : String) :
    ((new names).setRoutes labels).routes.lookup label =
      if label ∈ labels then some 0 else none := by
  have hfold : ∀ m : FMap String UInt64, (m.lookup label).getD 0 = 0 →
      (labels.foldl addRoute m).lookup label =
        if label ∈ labels then some 0 else m.lookup label := by
    induction labels with
    | nil => simp
    | cons next labels ih =>
      intro m hm
      by_cases hnext : label = next
      · subst hnext
        rw [List.foldl_cons, ih _ (by simp [lookup_addRoute, hm])]
        simp [lookup_addRoute, hm]
      · rw [List.foldl_cons, ih _ (by simp [lookup_addRoute, hnext, hm])]
        simp [lookup_addRoute, hnext]
  simpa [Registry.setRoutes, new] using hfold ∅ (by simp)

/-! ## The sums -/

namespace Registry

variable (r : Registry)

/-- One more packet came in. -/
theorem total_recv {name : String} (h : name ∈ r.conns) (n : Nat) :
    (r.recv name n).conns.total Counts.recv = r.conns.total Counts.recv + 1 :=
  FMap.total_modify (fun _ => rfl) h

/-- A packet sent is none received. -/
theorem total_sent (name : String) (n : Nat) :
    (r.sent name n).conns.total Counts.recv = r.conns.total Counts.recv := by
  refine FMap.total_modify_same ?_ r.conns name
  exact fun _ => rfl

/-- One more was routed. -/
theorem total_route {label : String} (h : label ∈ r.routes) :
    (r.route label).routes.total id = r.routes.total id + 1 :=
  FMap.total_modify (fun _ => rfl) h

end Registry

end Dualnet.Stats
