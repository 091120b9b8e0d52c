import XlaneLkm.Logger
import XlaneLkm.Library.RunningMean
import Mathlib.Algebra.BigOperators.Ring.Finset
import Mathlib.Order.Bounds.Basic
import Mathlib.Order.SuccPred.Basic
import Mathlib.Order.Interval.Set.Nat
import Mathlib.Tactic.FieldSimp
import Mathlib.Tactic.Positivity

/-!
# Heartbeat metrics

The extremes and the mean that `write_in_hb_to_log` keeps for a node, against those of all the
differences between its heartbeats.
-/

namespace XlaneLkm

open MachineInt

/-- The times of `k + 1` heartbeats, as a clock of 64 bits gives them. -/
structure HeartbeatTimes (limit : ℕ) (ts : ℕ → ℕ) (k : ℕ) : Prop where
  pos : 0 < ts 0
  increasing : ∀ i < k, ts i < ts (i + 1)
  fits : ts k < 18446744073709551616
  diff_lt : ∀ i < k, ts (i + 1) < ts i + limit

/-- The difference between a heartbeat and the next one. -/
def latency (ts : ℕ → ℕ) (i : ℕ) : ℤ := ts (i + 1) - ts i

def latencies (ts : ℕ → ℕ) (k : ℕ) : Set ℤ := latency ts '' Set.Iio k

def jitters (hbi : ℕ) (ts : ℕ → ℕ) (k : ℕ) : Set ℤ := (fun i => (hbi : ℤ) - latency ts i) '' Set.Iio k

theorem image_Iio_succ (f : ℕ → ℤ) (k : ℕ) : f '' Set.Iio (k + 1) = insert (f k) (f '' Set.Iio k) := by
  rw [← Set.image_insert_eq]
  congr 1
  ext i
  simp only [Set.mem_Iio, Set.mem_insert_iff]
  omega

namespace HeartbeatTimes

variable {limit i k : ℕ} {ts : ℕ → ℕ}

theorem pred (h : HeartbeatTimes limit ts (k + 1)) : HeartbeatTimes limit ts k where
  pos := h.pos
  increasing i hi := h.increasing i (Nat.lt_succ_of_lt hi)
  fits := (h.increasing k (Nat.lt_succ_self k)).trans h.fits
  diff_lt i hi := h.diff_lt i (Nat.lt_succ_of_lt hi)

/-- Times that increase leave room for few heartbeats only. -/
theorem lt_time (h : HeartbeatTimes limit ts k) : k < ts k := by
  induction k with
  | zero => exact h.pos
  | succ k ih => exact Nat.lt_of_le_of_lt (ih h.pred) (h.increasing k (Nat.lt_succ_self k))

theorem latency_pos (h : HeartbeatTimes limit ts k) (hi : i < k) : 0 < latency ts i := by
  have hlt := h.increasing i hi
  rw [latency]
  omega

theorem latency_lt (h : HeartbeatTimes limit ts k) (hi : i < k) : latency ts i < limit := by
  have hlt := h.diff_lt i hi
  rw [latency]
  omega

theorem total_latency (ts : ℕ → ℕ) (k : ℕ) : RunningMean.total (latency ts) k = ts k - ts 0 := by
  induction k with
  | zero => simp
  | succ k ih =>
    rw [RunningMean.total_succ, ih, latency]
    ring

end HeartbeatTimes

namespace IngressLogger

def heartbeats (ailog : IngressLogger) (node : ℕ) (ts : ℕ → ℕ) (k : ℕ) : IngressLogger :=
  (List.range k).foldl (fun ailog i => (ailog.writeInHbToLog (ts i) node).1) ailog

variable {ailog : IngressLogger} {node i k : ℕ} {ts : ℕ → ℕ}

theorem heartbeats_succ (ailog : IngressLogger) (node : ℕ) (ts : ℕ → ℕ) (k : ℕ) :
    ailog.heartbeats node ts (k + 1) =
      ((ailog.heartbeats node ts k).writeInHbToLog (ts k) node).1 := by
  rw [heartbeats, List.range_succ, List.foldl_append, List.foldl_cons, List.foldl_nil]
  rfl

structure Logs (ailog : IngressLogger) (node : ℕ) : Prop where
  node_lt : node < clusterSize
  running : ailog.perNodeLogger node = some .running

theorem writeInHbToLog_of_logs (h : ailog.Logs node) (tcs : ℕ) :
    (ailog.writeInHbToLog tcs node).1 =
      { ailog with
        hbMetrics := Function.update ailog.hbMetrics node
          ((ailog.hbMetrics node).received ailog.hbi tcs) } := by
  have hrange : ¬((node : ℤ) < 0 ∨ (node : ℤ) ≥ clusterSize) := by
    have hlt := h.node_lt
    omega
  simp only [writeInHbToLog, if_neg hrange, Int.toNat_natCast, h.running]
  rfl

theorem writeInHbToLog_hbMetrics (h : ailog.Logs node) (tcs : ℕ) :
    (ailog.writeInHbToLog tcs node).1.hbMetrics node =
      (ailog.hbMetrics node).received ailog.hbi tcs := by
  rw [writeInHbToLog_of_logs h]
  exact Function.update_self ..

theorem writeInHbToLog_of_not_logs (h : ¬ailog.Logs node) (tcs : ℕ) :
    (ailog.writeInHbToLog tcs node).1 = ailog := by
  rw [writeInHbToLog]
  split
  · rfl
  case isFalse hrange =>
    rw [Int.toNat_natCast]
    split
    · rfl
    case h_2 state hstate =>
      split
      · rfl
      case isFalse hrunning =>
        rw [not_not.mp hrunning] at hstate
        exact absurd ⟨by omega, hstate⟩ h

theorem heartbeats_fixed (ailog : IngressLogger) (node : ℕ) (ts : ℕ → ℕ) (k : ℕ) :
    ∃ metrics, ailog.heartbeats node ts k = { ailog with hbMetrics := metrics } := by
  induction k with
  | zero => exact ⟨ailog.hbMetrics, rfl⟩
  | succ k ih =>
    obtain ⟨metrics, heq⟩ := ih
    rw [heartbeats_succ, heq]
    by_cases hlogs : ({ ailog with hbMetrics := metrics } : IngressLogger).Logs node
    · exact ⟨_, writeInHbToLog_of_logs hlogs (ts k)⟩
    · exact ⟨metrics, writeInHbToLog_of_not_logs hlogs (ts k)⟩

end IngressLogger

namespace IngressHbMetrics

variable {m : IngressHbMetrics} {hbi i k limit : ℕ} {ts : ℕ → ℕ} {lastDelta : ℤ}

def after (m : IngressHbMetrics) (hbi : ℕ) (ts : ℕ → ℕ) : ℕ → IngressHbMetrics
  | 0 => m
  | k + 1 => (m.after hbi ts k).received hbi (ts k)

theorem received_hbCounter (m : IngressHbMetrics) (hbi tcs : ℕ) :
    (m.received hbi tcs).hbCounter = u64 (m.hbCounter + 1) := by
  simp only [received]
  split <;> rfl

theorem received_minLatency_le (m : IngressHbMetrics) (hbi tcs : ℕ) :
    (m.received hbi tcs).minLatency ≤ m.minLatency := by
  simp only [received]
  split
  · simp only [update]
    split
    case isTrue hlt => exact hlt.le
    case isFalse => exact le_rfl
  · exact le_rfl

/-- The counter and the time of the last heartbeat are right after `k + 1` heartbeats. -/
structure Tracks (m : IngressHbMetrics) (ts : ℕ → ℕ) (k : ℕ) : Prop where
  hbCounter : m.hbCounter = k + 1
  lastTs : m.lastTs = ts k

theorem tracks_after (h : HeartbeatTimes limit ts k) :
    ((init lastDelta).after hbi ts (k + 1)).Tracks ts k := by
  induction k with
  | zero => exact ⟨rfl, rfl⟩
  | succ k ih =>
    have htime := h.lt_time
    have hfits := h.fits
    have hcount := (ih h.pred).hbCounter
    have hnext := u64_eq_toNat (x := ((k + 1 : ℕ) : ℤ) + 1) (by omega) (by omega)
    refine ⟨?_, rfl⟩
    rw [after, received_hbCounter, hcount, hnext]
    omega

/-- **One more heartbeat.** The difference and the number of samples it is averaged with are exact. -/
theorem Tracks.received_eq (h : m.Tracks ts k) (hts : HeartbeatTimes limit ts (k + 1))
    (hlimit : limit ≤ 9223372036854775808) : m.received hbi (ts (k + 1)) =
      { hbCounter := k + 2
        lastTs := ts (k + 1)
        lastDelta := latency ts k
        avgLatency := calcAvg m.avgLatency (latency ts k) (i64 (k + 1))
        maxLatency := if m.maxLatency < latency ts k then latency ts k else m.maxLatency
        minLatency := if m.minLatency > latency ts k then latency ts k else m.minLatency
        avgJitter := calcAvg m.avgJitter (i64 (hbi - latency ts k)) (i64 (k + 1))
        maxJitter :=
          if m.maxJitter < i64 (hbi - latency ts k) then i64 (hbi - latency ts k) else m.maxJitter
        minJitter :=
          if m.minJitter > i64 (hbi - latency ts k) then i64 (hbi - latency ts k) else m.minJitter } := by
  have htime := hts.lt_time
  have hfits := hts.fits
  have hlast : m.lastTs ≠ 0 := by
    have hlt := hts.pred.lt_time
    rw [h.lastTs]
    omega
  have hcounter : u64 ((m.hbCounter : ℤ) + 1) = k + 2 := by
    rw [h.hbCounter, u64_eq_toNat (x := ((k + 1 : ℕ) : ℤ) + 1) (by omega) (by omega)]
    omega
  have hdelta : i64 ((ts (k + 1) : ℤ) - m.lastTs) = latency ts k := by
    have hpos := hts.latency_pos (Nat.lt_succ_self k)
    have hlt := hts.latency_lt (Nat.lt_succ_self k)
    rw [h.lastTs]
    exact i64_eq_self (x := latency ts k) (by omega) (by omega)
  have hn : u64 (((k + 2 : ℕ) : ℤ) - 1) = k + 1 := by
    rw [u64_eq_toNat (x := ((k + 2 : ℕ) : ℤ) - 1) (by omega) (by omega)]
    omega
  simp only [received, if_pos hlast, update, hcounter, hdelta, hn]
  push_cast
  rfl

end IngressHbMetrics

namespace IngressLogger

variable {ailog : IngressLogger} {node k : ℕ} {ts : ℕ → ℕ}

theorem heartbeats_hbMetrics (h : ailog.Logs node) (ts : ℕ → ℕ) (k : ℕ) :
    (ailog.heartbeats node ts k).hbMetrics node = (ailog.hbMetrics node).after ailog.hbi ts k := by
  induction k with
  | zero => rfl
  | succ k ih =>
    obtain ⟨metrics, heq⟩ := ailog.heartbeats_fixed node ts k
    have hlogs : (ailog.heartbeats node ts k).Logs node := by
      rw [heq]
      exact ⟨h.node_lt, h.running⟩
    have hhbi : (ailog.heartbeats node ts k).hbi = ailog.hbi := by rw [heq]
    rw [heartbeats_succ, writeInHbToLog_hbMetrics hlogs, ih, hhbi, IngressHbMetrics.after]

theorem heartbeats_minLatency_le (ailog : IngressLogger) (node : ℕ) (ts : ℕ → ℕ) (k : ℕ) :
    ((ailog.heartbeats node ts k).hbMetrics node).minLatency ≤ (ailog.hbMetrics node).minLatency := by
  induction k with
  | zero => exact le_rfl
  | succ k ih =>
    rw [heartbeats_succ]
    by_cases hlogs : (ailog.heartbeats node ts k).Logs node
    · rw [writeInHbToLog_hbMetrics hlogs]
      exact (IngressHbMetrics.received_minLatency_le _ _ _).trans ih
    · rw [writeInHbToLog_of_not_logs hlogs]
      exact ih

end IngressLogger

namespace IngressHbMetrics

variable {m : IngressHbMetrics} {hbi k limit : ℕ} {ts : ℕ → ℕ} {lastDelta : ℤ}

/-! ### Extremes -/

theorem isGreatest_raise {s : Set ℤ} {top x : ℤ} (h : IsGreatest s top) :
    IsGreatest (insert x s) (if top < x then x else top) := by
  have hmax : (if top < x then x else top) = max x top := by split <;> omega
  rw [hmax]
  exact h.insert x

theorem isLeast_lower {s : Set ℤ} {bottom x : ℤ} (h : IsLeast s bottom) :
    IsLeast (insert x s) (if bottom > x then x else bottom) := by
  have hmin : (if bottom > x then x else bottom) = min x bottom := by split <;> omega
  rw [hmin]
  exact h.insert x

/-- What the metrics hold instead of the extremes: each is taken over the initial value too, and no
difference is below the initial minimum. -/
structure InitializedExtremes (m : IngressHbMetrics) (hbi : ℕ) (ts : ℕ → ℕ) (k : ℕ) : Prop where
  minLatency : m.minLatency = -1
  maxLatency : IsGreatest (insert 0 (latencies ts k)) m.maxLatency
  minJitter : IsLeast (insert (-1) (jitters hbi ts k)) m.minJitter
  maxJitter : IsGreatest (insert 0 (jitters hbi ts k)) m.maxJitter

theorem initializedExtremes_after (lastDelta : ℤ) (hts : HeartbeatTimes limit ts k)
    (hlimit : limit ≤ 9223372036854775808) (hhbi : hbi < 9223372036854775808) :
    ((init lastDelta).after hbi ts (k + 1)).InitializedExtremes hbi ts k := by
  induction k with
  | zero =>
    have hlatencies : latencies ts 0 = ∅ := by simp [latencies]
    have hjitters : jitters hbi ts 0 = ∅ := by simp [jitters]
    refine ⟨rfl, ?_, ?_, ?_⟩
    · rw [hlatencies, insert_empty_eq]
      exact isGreatest_singleton
    · rw [hjitters, insert_empty_eq]
      exact isLeast_singleton
    · rw [hjitters, insert_empty_eq]
      exact isGreatest_singleton
  | succ k ih =>
    have hprev := ih hts.pred
    have hpos := hts.latency_pos (Nat.lt_succ_self k)
    have hlt := hts.latency_lt (Nat.lt_succ_self k)
    have hjitter : i64 (hbi - latency ts k) = hbi - latency ts k := i64_eq_self (by omega) (by omega)
    rw [after, (tracks_after hts.pred).received_eq hts hlimit, hjitter]
    refine ⟨?_, ?_, ?_, ?_⟩
    · rw [hprev.minLatency]
      exact if_neg (by omega)
    · rw [latencies, image_Iio_succ, Set.insert_comm]
      exact isGreatest_raise hprev.maxLatency
    · rw [jitters, image_Iio_succ, Set.insert_comm]
      exact isLeast_lower hprev.minJitter
    · rw [jitters, image_Iio_succ, Set.insert_comm]
      exact isGreatest_raise hprev.maxJitter

/-- The extremes over all differences and all jitters. -/
structure ExactExtremes (m : IngressHbMetrics) (hbi : ℕ) (ts : ℕ → ℕ) (k : ℕ) : Prop where
  minLatency : IsLeast (latencies ts k) m.minLatency
  maxLatency : IsGreatest (latencies ts k) m.maxLatency
  minJitter : IsLeast (jitters hbi ts k) m.minJitter
  maxJitter : IsGreatest (jitters hbi ts k) m.maxJitter

end IngressHbMetrics

namespace IngressLogger

variable {ailog : IngressLogger} {node k : ℕ} {ts : ℕ → ℕ} {lastDelta : ℤ}

/-- **What is logged.** Of the four extremes the maximal latency is right once there is a difference. -/
theorem heartbeats_extremes (hlogs : ailog.Logs node) (hinit : ailog.hbMetrics node = .init lastDelta)
    (hts : HeartbeatTimes 9223372036854775808 ts k) (hhbi : ailog.hbi < 9223372036854775808)
    (hk : 0 < k) :
    ((ailog.heartbeats node ts (k + 1)).hbMetrics node).InitializedExtremes ailog.hbi ts k ∧
      IsGreatest (latencies ts k) ((ailog.heartbeats node ts (k + 1)).hbMetrics node).maxLatency := by
  rw [heartbeats_hbMetrics hlogs, hinit]
  have hextremes := IngressHbMetrics.initializedExtremes_after lastDelta hts le_rfl hhbi
  refine ⟨hextremes, ?_, fun x hx => hextremes.maxLatency.2 (Set.mem_insert_of_mem 0 hx)⟩
  have hpos := hts.latency_pos hk
  have hfirst := hextremes.maxLatency.2 (Set.mem_insert_of_mem 0 ⟨0, hk, rfl⟩)
  rcases hextremes.maxLatency.1 with hzero | hmem
  · omega
  · exact hmem

/-- **The extremes are never exact.** The minimal latency starts below every difference. -/
theorem extremes_never_exact (hinit : ailog.hbMetrics node = .init lastDelta)
    (hts : HeartbeatTimes 9223372036854775808 ts k) :
    ¬((ailog.heartbeats node ts (k + 1)).hbMetrics node).ExactExtremes ailog.hbi ts k := by
  intro hexact
  obtain ⟨i, hi, hleast⟩ := hexact.minLatency.1
  have hpos := hts.latency_pos hi
  have hlow := heartbeats_minLatency_le ailog node ts (k + 1)
  rw [hinit, ← hleast, show (IngressHbMetrics.init lastDelta).minLatency = -1 from rfl] at hlow
  omega

/-- A node whose heartbeats come every millisecond. -/
def regularTimes (i : ℕ) : ℕ := 1 + 2400000 * i

def regularLogger : IngressLogger where
  perNodeLogger _ := some .running
  hbi := 2400000
  hbMetrics _ := .init 0

theorem regularTimes_heartbeatTimes : HeartbeatTimes 9223372036854775808 regularTimes 2 where
  pos := by decide
  increasing i hi := by simp only [regularTimes]; omega
  fits := by decide
  diff_lt i hi := by simp only [regularTimes]; omega

theorem extremes_never_exact_regular :
    HeartbeatTimes 9223372036854775808 regularTimes 2 ∧
      ¬((regularLogger.heartbeats 0 regularTimes 3).hbMetrics 0).ExactExtremes 2400000 regularTimes 2 :=
  ⟨regularTimes_heartbeatTimes, extremes_never_exact rfl regularTimes_heartbeatTimes⟩

/-- **Regular heartbeats** have a minimal latency of -1, and jitter below its minimum and maximum. -/
theorem extremes_not_exact : ¬∀ (ailog : IngressLogger) (node k : ℕ) (ts : ℕ → ℕ) (lastDelta : ℤ),
    ailog.Logs node → ailog.hbMetrics node = .init lastDelta →
    HeartbeatTimes 9223372036854775808 ts k → 0 < k →
    ((ailog.heartbeats node ts (k + 1)).hbMetrics node).ExactExtremes ailog.hbi ts k := by
  intro h
  have hexact := h regularLogger 0 2 regularTimes 0 ⟨by decide, rfl⟩ rfl regularTimes_heartbeatTimes
    (by decide)
  have hmin : ((regularLogger.heartbeats 0 regularTimes (2 + 1)).hbMetrics 0).minLatency = -1 := by decide
  obtain ⟨i, hi, hleast⟩ := hexact.minLatency.1
  have hpos := regularTimes_heartbeatTimes.latency_pos hi
  omega

end IngressLogger

/-! ### The mean -/

theorem calcAvg_eq {avg x : ℤ} {n : ℕ} (havg : 0 ≤ avg ∧ avg < 4611686018427387904)
    (hx : 0 ≤ x ∧ x < 4611686018427387904) (hn : 0 < n) : calcAvg avg x n = RunningMean.step avg x n := by
  have hdev : i64 (x - avg) = x - avg := i64_eq_self (by omega) (by omega)
  have hstep : i64 (RunningMean.step avg x n) = RunningMean.step avg x n := by
    rcases RunningMean.step_between avg x hn with hbetween | hbetween
    · exact i64_eq_self (by omega) (by omega)
    · exact i64_eq_self (by omega) (by omega)
  rw [calcAvg, if_neg (by omega), hdev]
  exact hstep

namespace IngressHbMetrics

variable {hbi k : ℕ} {ts : ℕ → ℕ} {lastDelta : ℤ}

/-- The average is the running mean, as long as the number of samples is an `int64_t`. -/
theorem avgLatency_after (hts : HeartbeatTimes 4611686018427387904 ts k) :
    ((init lastDelta).after hbi ts (k + 1)).avgLatency =
      if k < 9223372036854775808 then RunningMean.mean (latency ts) k else 0 := by
  induction k with
  | zero => rfl
  | succ k ih =>
    rw [after, (tracks_after hts.pred).received_eq hts (by norm_num)]
    change calcAvg _ (latency ts k) (i64 (k + 1)) = _
    by_cases hk : k + 1 < 9223372036854775808
    · have hn : i64 ((k : ℤ) + 1) = ((k + 1 : ℕ) : ℤ) := i64_eq_self (by omega) (by omega)
      have hlow : ∀ i < k + 1, 0 ≤ latency ts i := fun i hi => (hts.latency_pos hi).le
      have hhigh : ∀ i < k + 1, latency ts i ≤ 4611686018427387903 := fun i hi => by
        have hlt := hts.latency_lt hi
        omega
      have hnonneg := RunningMean.mean_nonneg fun i hi => hlow i (Nat.lt_succ_of_lt hi)
      have hle := RunningMean.mean_le (fun i hi => hhigh i (Nat.lt_succ_of_lt hi)) (by norm_num)
      have hx := hlow k (Nat.lt_succ_self k)
      have hx' := hhigh k (Nat.lt_succ_self k)
      rw [if_pos hk, ih hts.pred, if_pos (by omega), hn, RunningMean.mean]
      exact calcAvg_eq ⟨hnonneg, by omega⟩ ⟨hx, by omega⟩ (Nat.succ_pos k)
    · have htime := hts.lt_time
      have hfits := hts.fits
      have hn : i64 ((k : ℤ) + 1) < 0 := i64_neg (by omega) (by omega)
      rw [if_neg hk]
      exact if_pos hn.le

end IngressHbMetrics

namespace IngressLogger

variable {ailog : IngressLogger} {node k : ℕ} {ts : ℕ → ℕ} {lastDelta : ℤ}

/-- What the average may be off by, whatever the number and the size of the samples. -/
def avgDriftBound : ℚ := 6442450944

/-- **The average and the mean.** The average drifts by up to half a cycle for each sample; it stays
within the bound because the times have 64 bits. -/
theorem avgLatency_near_mean (hlogs : ailog.Logs node) (hinit : ailog.hbMetrics node = .init lastDelta)
    (hts : HeartbeatTimes 4611686018427387904 ts k) (hk : 0 < k) :
    |(((ailog.heartbeats node ts (k + 1)).hbMetrics node).avgLatency : ℚ) -
      (∑ i ∈ Finset.range k, (latency ts i : ℚ)) / k| ≤ avgDriftBound := by
  have hpos : ∀ i < k, 0 ≤ latency ts i := fun i hi => (hts.latency_pos hi).le
  have hsum : (∑ i ∈ Finset.range k, (latency ts i : ℚ)) = RunningMean.total (latency ts) k :=
    (Int.cast_sum _ _).symm
  have htotal : RunningMean.total (latency ts) k ≤ (4294967296 : ℕ) * (4294967296 : ℕ) := by
    have hfits := hts.fits
    rw [HeartbeatTimes.total_latency]
    omega
  rw [heartbeats_hbMetrics hlogs, hinit, IngressHbMetrics.avgLatency_after hts, hsum]
  split
  case isTrue =>
    have hdrift := RunningMean.abs_mean_sub_le_of_total hpos hk (m := 4294967296) (by norm_num) htotal
    calc |(RunningMean.mean (latency ts) k : ℚ) - RunningMean.total (latency ts) k / k|
        ≤ 3 * (4294967296 : ℕ) / 2 := hdrift
      _ = avgDriftBound := by norm_num [avgDriftBound]
  case isFalse hmany =>
    -- the counter is negative as an `int64_t` and the average 0, but then the mean is below 2
    have hkpos : (0 : ℚ) < k := by exact_mod_cast hk
    have hlow : (0 : ℚ) ≤ RunningMean.total (latency ts) k := by
      exact_mod_cast Finset.sum_nonneg fun i hi => hpos i (Finset.mem_range.mp hi)
    have hhigh : RunningMean.total (latency ts) k ≤ 2 * (k : ℤ) := by omega
    have hhigh' : (RunningMean.total (latency ts) k : ℚ) ≤ 2 * k := by exact_mod_cast hhigh
    have hquot : (RunningMean.total (latency ts) k : ℚ) / k ≤ 2 := (div_le_iff₀ hkpos).mpr hhigh'
    rw [Int.cast_zero, zero_sub, abs_neg, abs_of_nonneg (div_nonneg hlow hkpos.le), avgDriftBound]
    linarith

theorem avgLatency_near_mean_regular :
    HeartbeatTimes 4611686018427387904 regularTimes 2 ∧
      |(((regularLogger.heartbeats 0 regularTimes 3).hbMetrics 0).avgLatency : ℚ) -
        (∑ i ∈ Finset.range 2, (latency regularTimes i : ℚ)) / (2 : ℕ)| ≤ avgDriftBound := by
  have hts : HeartbeatTimes 4611686018427387904 regularTimes 2 :=
    ⟨regularTimes_heartbeatTimes.pos, regularTimes_heartbeatTimes.increasing,
      regularTimes_heartbeatTimes.fits, fun i hi => by simp only [regularTimes]; omega⟩
  exact ⟨hts, avgLatency_near_mean ⟨by decide, rfl⟩ rfl hts (by decide)⟩

/-- Heartbeats that come a cycle later each time. -/
def slowingTimes : ℕ → ℕ
  | 0 => 1
  | i + 1 => slowingTimes i + (i + 1)

theorem two_mul_slowingTimes (i : ℕ) : 2 * slowingTimes i = 2 + i * (i + 1) := by
  induction i with
  | zero => rfl
  | succ i ih =>
    rw [slowingTimes, mul_add, ih]
    ring

theorem latency_slowingTimes : latency slowingTimes = fun i : ℕ => (1 : ℤ) + i := by
  funext i
  rw [latency, slowingTimes]
  push_cast
  ring

theorem slowingTimes_heartbeatTimes (hk : k ≤ 4294967296) :
    HeartbeatTimes 4611686018427387904 slowingTimes k where
  pos := by decide
  increasing i hi := by rw [slowingTimes]; omega
  fits := by
    have htwice := two_mul_slowingTimes k
    have hsquare : k * (k + 1) ≤ 4294967296 * (4294967296 + 1) := by gcongr
    omega
  diff_lt i hi := by rw [slowingTimes]; omega

/-- **The drift is real.** The average never moves and the mean runs away from it: no bound below
`2 ^ 31 - 1 / 2` would do. -/
theorem avgLatency_drifts (hlogs : ailog.Logs node) (hinit : ailog.hbMetrics node = .init lastDelta)
    (hk : k < 4294967296) :
    |(((ailog.heartbeats node slowingTimes (k + 2)).hbMetrics node).avgLatency : ℚ) -
      (∑ i ∈ Finset.range (k + 1), (latency slowingTimes i : ℚ)) / (k + 1 : ℕ)| = k / 2 := by
  have hts : HeartbeatTimes 4611686018427387904 slowingTimes (k + 1) := slowingTimes_heartbeatTimes hk
  have hsum : (∑ i ∈ Finset.range (k + 1), (latency slowingTimes i : ℚ)) = (k + 1) * (2 + k) / 2 := by
    have htotal : 2 * RunningMean.total (latency slowingTimes) (k + 1) = (k + 1) * (2 + k) := by
      rw [latency_slowingTimes, RunningMean.total_of_growing]
      push_cast
      ring
    have hcast : 2 * (∑ i ∈ Finset.range (k + 1), (latency slowingTimes i : ℚ)) = (k + 1) * (2 + k) := by
      rw [← Int.cast_sum]
      exact_mod_cast htotal
    linarith
  have havg : RunningMean.mean (latency slowingTimes) (k + 1) = 1 := by
    rw [latency_slowingTimes]
    exact RunningMean.mean_of_growing 1 k
  have hkpos : (k + 1 : ℚ) ≠ 0 := by positivity
  have hquot : (1 : ℚ) - (k + 1) * (2 + k) / 2 / (k + 1) = -(k / 2) := by
    field_simp
    ring
  rw [heartbeats_hbMetrics hlogs, hinit, IngressHbMetrics.avgLatency_after hts, if_pos (by omega), havg,
    hsum]
  push_cast
  rw [hquot, abs_neg, abs_of_nonneg (by positivity)]

end IngressLogger

end XlaneLkm
