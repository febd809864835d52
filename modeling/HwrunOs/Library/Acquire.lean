import Mathlib.Data.List.Basic

/-!
# Alternation of acquiring and releasing

A resource is acquired by an attempt that may fail and is released afterwards. The discipline
is a two-state automaton: an attempt is allowed only while the resource is not held, a release
only while it is.
-/

namespace HwrunOs.Acquire

/-- What happens to a resource. -/
inductive Event where
  /-- An attempt to acquire it, and whether it succeeded. -/
  | acquire (succeeded : Bool)
  /-- A release. -/
  | release
  deriving DecidableEq

/-- Whether the resource is held after a trace, or nothing when the trace breaks the
discipline. -/
def follow : Bool → List Event → Option Bool
  | held, [] => some held
  | held, .acquire succeeded :: rest => if held then none else follow succeeded rest
  | held, .release :: rest => if held then follow false rest else none

/-- A trace is followed part by part. -/
theorem follow_append (held : Bool) (front back : List Event) :
    follow held (front ++ back) = (follow held front).bind (follow · back) := by
  induction front generalizing held with
  | nil => rfl
  | cons event rest ih =>
    cases event with
    | acquire succeeded => cases held <;> simp [follow, ih]
    | release => cases held <;> simp [follow, ih]

/-- Along a disciplined trace from a free resource, the resource is held exactly after a trace
whose last event is a success. -/
theorem follow_getLast {trace : List Event} {after : Bool}
    (followed : follow false trace = some after) :
    after = true ↔ trace.getLast? = some (.acquire true) := by
  rcases trace.eq_nil_or_concat with rfl | ⟨front, event, rfl⟩
  · obtain rfl := Option.some.inj followed
    simp
  · rw [List.concat_eq_append, follow_append, Option.bind_eq_some_iff] at followed
    obtain ⟨held, -, last⟩ := followed
    cases event <;> cases held <;> simp_all [follow]

end HwrunOs.Acquire
