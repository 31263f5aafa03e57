import Mathlib.Tactic.Common
import Mathlib.Algebra.Order.Ring.Int

/-! # Sleeping for some milliseconds

    `msleep_signal` sleeps in `pselect` and, when a signal wakes it, either goes
    back to sleep for the rest or, if it is alertable, says how many
    milliseconds are left.  The clock is read behind each `pselect`, so however
    often it is woken it does not return early (`msleep_not_early`). -/

namespace FlinterMsleep

/-- What `pselect` on no descriptors can say. -/
inductive Pselect where
  | timeout
  | interrupted
  | failed
deriving DecidableEq, Repr

/-- One `pselect`: when it is called and when it returns, and what the clock
    says behind it. -/
structure Nap where
  ret : Pselect
  called : Int
  woke : Int
  now : Int
deriving DecidableEq, Repr

/-- What `msleep_signal` returns, and (ghost) when. -/
structure Return where
  milliseconds : Int
  time : Int
deriving DecidableEq, Repr

/-- `(int)(diff / 1000000LL)`, and one more for what is left. -/
def ceiling (diff : Int) : Int :=
  if Int.tmod diff 1000000 ≠ 0 then Int.tdiv diff 1000000 + 1 else Int.tdiv diff 1000000

/-- The loop of `msleep_signal`.  `t` is what the clock said last, so `diff` is
    `deadline - t`.  It ends with the naps it is given, or not at all. -/
def msleepLoop (deadline : Int) (alertable : Bool) : Int → List Nap → Option Return
  | _, [] => none
  | _, nap :: naps =>
    match nap.ret with
    | .timeout => some ⟨0, nap.woke⟩
    | .failed => some ⟨-1, nap.woke⟩
    | .interrupted =>
      let diff := deadline - nap.now
      if diff ≤ 0 then some ⟨0, nap.now⟩
      else if alertable then some ⟨ceiling diff, nap.now⟩
      else msleepLoop deadline alertable nap.now naps

/-- `msleep_signal`, called when the clock says `t`. -/
def msleepSignal (milliseconds : Int) (alertable : Bool) (yielded : Bool) (t : Int)
    (naps : List Nap) : Option Return :=
  if milliseconds ≤ 0 then some ⟨if yielded then 0 else -1, t⟩
  else msleepLoop (t + milliseconds * 1000000) alertable t naps

/-- The clock is monotonic, and a `pselect` that times out took the time it was
    given. -/
def Honest (deadline : Int) : Int → List Nap → Prop
  | _, [] => True
  | t, nap :: naps =>
    t ≤ nap.called ∧ nap.called ≤ nap.woke ∧ nap.woke ≤ nap.now ∧
    (nap.ret = .timeout → nap.called + (deadline - t) ≤ nap.woke) ∧
    Honest deadline nap.now naps

/-- What is left is at most what is said, and less than a millisecond less. -/
theorem ceiling_spec {diff : Int} (h : 0 < diff) :
    0 < ceiling diff ∧ diff ≤ ceiling diff * 1000000 ∧
      ceiling diff * 1000000 < diff + 1000000 := by
  have hsplit := Int.mul_tdiv_add_tmod diff 1000000
  have hlow := Int.tmod_nonneg 1000000 h.le
  have hhigh := Int.tmod_lt_of_pos diff (by decide : (0 : Int) < 1000000)
  rw [ceiling]
  split
  · omega
  · omega

/-- What the loop returns, and when. -/
theorem msleepLoop_spec {deadline : Int} {alertable : Bool} :
    ∀ {t : Int} {naps : List Nap} {r : Return}, Honest deadline t naps →
      msleepLoop deadline alertable t naps = some r →
      t ≤ r.time ∧ (r.milliseconds = 0 → deadline ≤ r.time) ∧
      (0 < r.milliseconds → alertable = true ∧ r.time < deadline ∧
        r.milliseconds = ceiling (deadline - r.time)) := by
  intro t naps
  induction naps generalizing t with
  | nil => intro r _ hr; cases hr
  | cons nap naps ih =>
      rintro r ⟨hcalled, hwoke, hnow, htimeout, hlater⟩ hr
      rw [msleepLoop] at hr
      split at hr
      next hret =>
        obtain rfl := Option.some.inj hr
        have hlong := htimeout hret
        refine ⟨by dsimp only; omega, fun _ => by dsimp only; omega, fun hpos => ?_⟩
        exact absurd hpos (by decide : ¬(0 : Int) < 0)
      next hret =>
        obtain rfl := Option.some.inj hr
        refine ⟨by dsimp only; omega, fun hzero => ?_, fun hpos => ?_⟩
        · exact absurd hzero (by decide : (-1 : Int) ≠ 0)
        · exact absurd hpos (by decide : ¬(0 : Int) < -1)
      next hret =>
        dsimp only at hr
        split at hr
        next hover =>
          obtain rfl := Option.some.inj hr
          refine ⟨by dsimp only; omega, fun _ => by dsimp only; omega, fun hpos => ?_⟩
          exact absurd hpos (by decide : ¬(0 : Int) < 0)
        next hover =>
          have hleft : 0 < deadline - nap.now := Int.not_le.mp hover
          split at hr
          next halert =>
            obtain rfl := Option.some.inj hr
            refine ⟨by dsimp only; omega, fun hzero => ?_, fun _ => ?_⟩
            · exact absurd hzero (ceiling_spec hleft).1.ne'
            · exact ⟨halert, by dsimp only; omega, rfl⟩
          next halert =>
            -- back to sleep, with the clock as it is now
            obtain ⟨htime, hrest⟩ := ih hlater hr
            exact ⟨by omega, hrest⟩

/-- **SLEEP IS NOT CUT SHORT**: a result of zero comes after the time asked for,
    however often the sleep was interrupted, and a positive result, which only
    an alertable sleep gives, is the rest in milliseconds, rounded up. -/
theorem msleep_not_early {milliseconds t : Int} {alertable yielded : Bool} {naps : List Nap}
    {r : Return} (hpos : 0 < milliseconds)
    (hhonest : Honest (t + milliseconds * 1000000) t naps)
    (hr : msleepSignal milliseconds alertable yielded t naps = some r) :
    (r.milliseconds = 0 → t + milliseconds * 1000000 ≤ r.time) ∧
    (0 < r.milliseconds → alertable = true ∧
      t + milliseconds * 1000000 ≤ r.time + r.milliseconds * 1000000 ∧
      r.time + r.milliseconds * 1000000 < t + milliseconds * 1000000 + 1000000) := by
  rw [msleepSignal, if_neg (Int.not_le.mpr hpos)] at hr
  obtain ⟨-, hzero, hrest⟩ := msleepLoop_spec hhonest hr
  refine ⟨hzero, fun hleft => ?_⟩
  obtain ⟨halert, hearly, heq⟩ := hrest hleft
  have hceil := ceiling_spec (Int.sub_pos.mpr hearly)
  rw [← heq] at hceil
  exact ⟨halert, by omega, by omega⟩

end FlinterMsleep
