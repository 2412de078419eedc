import Mathlib.Logic.Function.Iterate
import Provision.Bus.Error

/-!
# Errors of the bus, however they arrive

The same failure reaches the host in two ways: as an error that the peer named, or as one that the
bus defines, which may be wrapped any number of times. Two tables say what it means, one by name and
one by kind.

* `contains_unreachableNames`: the tables agree on which errors mean an unreachable bus.
* `classify_alike`: **an error means the same whichever way it arrives.**
-/

namespace Provision.Bus

variable (unit call : String)

/-- No error that the bus defines has the name by which a unit is said to be unknown. -/
theorem name_ne_noSuchUnitName (v : Standard) : v.name ≠ noSuchUnitName := by
  cases v <;> decide

/-- **The names of the errors that mean an unreachable bus** are those of the kinds that do. -/
theorem contains_unreachableNames (v : Standard) :
    unreachableNames.contains v.name = v.isUnreachable := by
  cases v <;> decide

/-- The kind of failure that an error the bus defines is recorded as. -/
theorem kind_classify_standard (v : Standard) (text : String) :
    (classify unit call (.standard v text)).kind =
      if v.isUnreachable then .unreachable else .rejected := by
  unfold Error.standard
  rw [classify, classifyOwn]
  split <;> rfl

/-- The kind of failure that it is recorded as when the peer gives its name. -/
theorem kind_classify_name (v : Standard) (text : Option String) :
    (classify unit call (.named v.name text)).kind =
      if v.isUnreachable then .unreachable else .rejected := by
  rw [classify, classifyNamed, if_neg (name_ne_noSuchUnitName v), contains_unreachableNames]
  split <;> rfl

theorem classify_iterate_wrapped (e : Error) (n : Nat) :
    classify unit call (Error.wrapped^[n] e) = classify unit call e := by
  induction n with
  | zero => rfl
  | succ n ih => rw [Function.iterate_succ_apply', classify_wrapped, ih]

/-- **An error means the same whichever way it arrives**: wrapped however deep, and, as far as the
kind of failure and another attempt are concerned, as one the bus defines or by its name. -/
theorem classify_alike :
    (∀ (e : Error) (n : Nat), classify unit call (Error.wrapped^[n] e) = classify unit call e) ∧
    ∀ (v : Standard) (text : String),
      (classify unit call (.standard v text)).kind =
        (classify unit call (.named v.name (some text))).kind ∧
      (classify unit call (.standard v text)).isTransient =
        (classify unit call (.named v.name (some text))).isTransient := by
  refine ⟨classify_iterate_wrapped unit call, fun v text => ?_⟩
  have hkind : (classify unit call (.standard v text)).kind =
      (classify unit call (.named v.name (some text))).kind := by
    rw [kind_classify_standard, kind_classify_name]
  exact ⟨hkind, congrArg FailureKind.isTransient hkind⟩

/-- A time-out of the bus is worth another attempt, also within two other errors. -/
example : (classify "web.service" "start"
    (Error.wrapped^[2] (.named "org.freedesktop.DBus.Error.TimedOut" none))).isTransient = true := by
  decide

end Provision.Bus
