import Mathlib.Data.Int.Order.Basic

/-!
# Times

Clock readings and durations are nanoseconds.  The zero `time.Time` is `none`.
-/

namespace Ixr

/-- `!expiresAt.IsZero() && now.After(expiresAt)`. -/
def expired (expiresAt : Option Int) (now : Int) : Bool :=
  match expiresAt with
  | none => false
  | some t => decide (t < now)

/-- What is stored at `now` for `ttl` expires after it.  A `ttl` that is not positive sets no
expiry. -/
def expiry (ttl now : Int) : Option Int := if 0 < ttl then some (now + ttl) else none

theorem expired_mono {expiresAt : Option Int} {now later : Int} (h : expired expiresAt now = true)
    (hle : now ≤ later) : expired expiresAt later = true := by
  cases expiresAt with
  | none => cases h
  | some t =>
    simp only [expired, decide_eq_true_eq] at h ⊢
    omega

theorem expired_expiry (ttl now : Int) : expired (expiry ttl now) now = false := by
  unfold expiry
  split
  · exact decide_eq_false (by omega)
  · rfl

end Ixr
