import XlaneLkm.PmCtrl

/-!
# The sync window

In the last `waiting_window` cycles before a heartbeat nothing irregular is to be emitted. Interval and
window are configured one by one, and nothing relates them. The loop keeps the interval it was entered
with, and looks at the window in every round.
-/

namespace XlaneLkm

open MachineInt

inductive PmWrite where
  | hbi (text : List Char)
  | ww (text : List Char)

namespace PmTiming

def write (k : Kernel) (t : PmTiming) : PmWrite → PmTiming
  | .hbi text => (t.asgardHbiWrite k text).1
  | .ww text => (t.asgardWwWrite k text).1

variable {k : Kernel} {t : PmTiming} {interval prevTime curTime : Nat}

structure Fits (t : PmTiming) : Prop where
  hbi : t.hbi < 18446744073709551616
  waitingWindow : t.waitingWindow < 18446744073709551616

theorem Fits.write (h : t.Fits) (w : PmWrite) : (t.write k w).Fits := by
  cases w with
  | hbi text =>
    simp only [PmTiming.write, asgardHbiWrite]
    split
    · exact h
    · split
      · exact h
      · split
        · exact h
        · exact ⟨u64_lt _, h.waitingWindow⟩
  | ww text =>
    simp only [PmTiming.write, asgardWwWrite]
    split
    · exact h
    · split
      · exact h
      · exact ⟨h.hbi, u64_lt _⟩

/-- Nothing irregular in the window before the next heartbeat. -/
def KeepsWindow (t : PmTiming) (interval prevTime curTime : Nat) : Prop :=
  t.round interval prevTime curTime = .unscheduled → curTime + t.waitingWindow ≤ prevTime + interval

/-- **One round.** With a window longer than the interval the subtraction wraps, and the test lets
everything through. -/
theorem Fits.keepsWindow_iff (h : t.Fits) (hinterval : interval < 18446744073709551616)
    (hprev : prevTime ≤ curTime) (hcur : curTime < 18446744073709551616) :
    t.KeepsWindow interval prevTime curTime ↔
      prevTime + interval ≤ curTime ∨ t.waitingWindow ≤ interval := by
  have hww := h.waitingWindow
  have helapsed : u64 ((curTime : ℤ) - prevTime) = curTime - prevTime := by
    have heq := u64_eq_toNat (x := (curTime : ℤ) - prevTime) (by omega) (by omega)
    omega
  have hscheduled : scheduledTx prevTime curTime interval = true ↔ prevTime + interval ≤ curTime := by
    rw [scheduledTx, helapsed, decide_eq_true_eq]
    omega
  rw [KeepsWindow, PmTiming.round]
  by_cases hdue : prevTime + interval ≤ curTime
  · rw [if_pos (hscheduled.mpr hdue)]
    exact iff_of_true (fun heq => by cases heq) (.inl hdue)
  rw [if_neg (mt hscheduled.mp hdue), or_iff_right hdue]
  by_cases hle : t.waitingWindow ≤ interval
  · refine iff_of_true (fun hround => ?_) hle
    have hopen : checkAsyncWindow prevTime curTime interval t.waitingWindow = true := by
      by_contra hclosed
      rw [if_neg hclosed] at hround
      cases hround
    have hrest := u64_eq_toNat (x := (interval : ℤ) - t.waitingWindow) (by omega) (by omega)
    rw [checkAsyncWindow, helapsed, hrest, decide_eq_true_eq] at hopen
    omega
  · have hopen : checkAsyncWindow prevTime curTime interval t.waitingWindow = true := by
      rw [checkAsyncWindow, helapsed, decide_eq_true_eq, u64]
      omega
    rw [if_pos hopen]
    exact iff_of_false (fun hkeeps => by have := hkeeps rfl; omega) hle

/-- What either initialisation and any writes leave, accepted or not. -/
def configured (k : Kernel) (init : PmTiming) (writes : List PmWrite) : PmTiming :=
  writes.foldl (write k) init

theorem Fits.configured (h : t.Fits) (writes : List PmWrite) : (t.configured k writes).Fits :=
  Run.invariant_run (PmTiming.write k) (fun _ w hfits => hfits.write w) h writes

/-- **The sync window is kept free** at all times exactly if it is not longer than the interval with which
the loop was entered, whatever was configured before and since. The pacemaker does not start with an
interval of 0. -/
theorem window_kept_iff (k : Kernel) (init : PmTiming)
    (hinit : init = initAsgardDevice ∨ init = initPacemaker) (before since : List PmWrite)
    (hstarts : 0 < (configured k init before).hbi) :
    let interval := (configured k init before).hbi
    let now := configured k init (before ++ since)
    (∀ prevTime curTime, prevTime ≤ curTime → curTime < 18446744073709551616 →
        now.KeepsWindow interval prevTime curTime) ↔ now.waitingWindow ≤ interval := by
  intro interval now
  have hfits : init.Fits := by
    rcases hinit with rfl | rfl
    · exact ⟨by decide, by decide⟩
    · exact ⟨by decide, by decide⟩
  have hnow : now.Fits := hfits.configured (before ++ since)
  have hinterval : interval < 18446744073709551616 := (hfits.configured before).hbi
  constructor
  · intro hkeeps
    have hzero := hkeeps 0 0 le_rfl (by decide)
    rcases (hnow.keepsWindow_iff hinterval le_rfl (by decide)).mp hzero with hdue | hle
    · omega
    · exact hle
  · exact fun hle prevTime curTime hprev hcur => (hnow.keepsWindow_iff hinterval hprev hcur).mpr (.inr hle)

def reads1000 : Kernel where
  sscanfIp _ := none
  kstrtoint text := if text = "1000".toList then .ok 1000 else .error .einval
  kstrtol text := if text = "1000".toList then .ok 1000 else .error .einval
  localIp := none

theorem window_kept_iff_default :
    (∀ prevTime curTime, prevTime ≤ curTime → curTime < 18446744073709551616 →
        (configured reads1000 initAsgardDevice [.hbi "1000".toList]).KeepsWindow
          (configured reads1000 initAsgardDevice []).hbi prevTime curTime) ↔
      (configured reads1000 initAsgardDevice [.hbi "1000".toList]).waitingWindow ≤
        (configured reads1000 initAsgardDevice []).hbi :=
  window_kept_iff reads1000 initAsgardDevice (.inl rfl) [] [.hbi "1000".toList] (by decide)

/-- **The window is overrun** with the shortest interval that is accepted and the default window: right
after a heartbeat an irregular packet goes out, 1000 cycles before the next one. -/
theorem window_overrun : ¬∀ (k : Kernel) (writes : List PmWrite) (prevTime curTime : Nat),
    prevTime ≤ curTime → curTime < 18446744073709551616 →
    (configured k initAsgardDevice writes).KeepsWindow (configured k initAsgardDevice writes).hbi
      prevTime curTime := by
  intro h
  have hkeeps := h reads1000 [.hbi "1000".toList] 0 0 le_rfl (by decide)
  exact absurd (hkeeps (by decide)) (by decide)

end PmTiming

end XlaneLkm
