import Mathlib.Data.BitVec

/-!
# Fencing tokens

`FencingToken` holds two counters: `epoch`, which a leader advances and stamps on what it sends,
and `lastSeen`, the newest epoch a follower let pass. `validate` is a compare-exchange loop; here it
is what it does when no other thread runs in between.
-/

namespace Zepto.Cluster

abbrev Epoch := BitVec 64

structure FencingToken where
  epoch : Epoch := 0
  lastSeen : Epoch := 0
  deriving DecidableEq

namespace FencingToken

/-- `advance()`: the new epoch, and the token with it. -/
def advance (t : FencingToken) : Epoch × FencingToken :=
  (t.epoch + 1, { t with epoch := t.epoch + 1 })

/-- `validate(token)`. -/
def validate (t : FencingToken) (token : Epoch) : Bool × FencingToken :=
  if t.lastSeen ≤ token then (true, { t with lastSeen := token }) else (false, t)

section

variable (t : FencingToken) (token : Epoch)

theorem lastSeen_le_validate : t.lastSeen ≤ (t.validate token).2.lastSeen := by
  unfold validate
  split
  · assumption
  · exact BitVec.le_refl _

/-- Whatever the answer, the epoch is not newer than the newest one seen. -/
theorem le_validate : token ≤ (t.validate token).2.lastSeen := by
  unfold validate
  split
  · exact BitVec.le_refl _
  next h =>
    exact BitVec.le_of_lt (BitVec.not_le.mp h)

/-- An epoch that does not pass the newest one is refused. -/
theorem validate_fst : (t.validate token).1 ↔ t.lastSeen ≤ token := by
  unfold validate
  split <;> simp_all

end

end FencingToken

end Zepto.Cluster
