/-
Holding a figure against its limit.

Main facts: a check passes exactly when the figure is within the limit
(`check_eq_ok_iff`), and whatever passes low limits passes higher ones
(`check_mono`).
-/
import Reckoner.Failure

namespace Reckoner.Limits

/-- Refuses a figure above the limit of its resource. The report names
the position where the figure was reached, if it has one. -/
def check (limits : Limits) (resource : Resource) (actual : Int)
    (position : Option Int) : Except Diagnostic Unit :=
  let limit := limits.of resource
  if actual > limit then
    .error ⟨.limitExceeded resource limit actual, position, none⟩
  else .ok ()

/-- A check passes exactly when the figure is within the limit. -/
theorem check_eq_ok_iff {limits : Limits} {resource : Resource} {actual : Int}
    {position : Option Int} :
    limits.check resource actual position = .ok ()
      ↔ actual ≤ limits.of resource := by
  simp only [check]
  split
  · next h =>
      simp only [reduceCtorEq, false_iff]
      omega
  · next h =>
      simp only [true_iff]
      omega

/-- A figure above its limit is reported as such. -/
theorem check_eq_error {limits : Limits} {resource : Resource} {actual : Int}
    (h : limits.of resource < actual) (position : Option Int) :
    limits.check resource actual position
      = .error ⟨.limitExceeded resource (limits.of resource) actual, position,
        none⟩ :=
  if_pos h

/-- Whatever passes low limits passes higher ones. -/
theorem check_mono {limits limits' : Limits} (hle : limits.le limits')
    {resource : Resource} {actual : Int} {position : Option Int}
    (h : limits.check resource actual position = .ok ()) :
    limits'.check resource actual position = .ok () :=
  check_eq_ok_iff.mpr (Int.le_trans (check_eq_ok_iff.mp h) (hle resource))

end Reckoner.Limits
