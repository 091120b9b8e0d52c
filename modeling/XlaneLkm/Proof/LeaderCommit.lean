import XlaneLkm.Proof.LogMoves
import XlaneLkm.Proof.IndexOrder
import Mathlib.Order.Bounds.Basic

/-!
# The commit rule of a leader

What `update_commit_idx` makes of the match indices, and which slots it frees. Dead targets are meant
to be passed over: `is_potential_commit_idx` counts them as hits. But the loop around it leaves the
function at the first match index of -1, and nothing there asks whether the target is alive.
-/

namespace XlaneLkm

open MachineInt

namespace Node

variable {n : Node} {m N M : Int} {i k : Nat}

/-! ### The candidates -/

/-- The match indices of the targets that are alive. -/
def aliveMatches (n : Node) : Set Int :=
  {m | ∃ i < n.numOfTargets, n.sdev.alive i = true ∧ n.leaderIdx.matchIndex i = m}

theorem isPotentialCommitIdx_iff : n.isPotentialCommitIdx N = true ↔
    ∀ i < n.numOfTargets, n.sdev.alive i = true → N ≤ n.leaderIdx.matchIndex i := by
  have hlength := List.countP_eq_length (l := List.range n.numOfTargets)
    (p := fun i => n.sdev.alive i = false ∨ n.leaderIdx.matchIndex i ≥ N)
  have hle := List.countP_le_length (l := List.range n.numOfTargets)
    (p := fun i => n.sdev.alive i = false ∨ n.leaderIdx.matchIndex i ≥ N)
  rw [List.length_range] at hlength hle
  simp only [isPotentialCommitIdx, decide_eq_true_eq, ge_iff_le]
  rw [hle.ge_iff_eq, hlength]
  simp only [List.mem_range, decide_eq_true_eq, ← Bool.not_eq_true, ← imp_iff_not_or, ge_iff_le]

theorem isPotentialCommitIdx_iff_le (hm : IsLeast n.aliveMatches m) :
    n.isPotentialCommitIdx N = true ↔ N ≤ m := by
  rw [isPotentialCommitIdx_iff]
  constructor
  · intro h
    obtain ⟨i, hi, halive, rfl⟩ := hm.1
    exact h i hi halive
  · intro hle i hi halive
    exact hle.trans (hm.2 ⟨i, hi, halive, rfl⟩)

theorem commitCandidateLoop_ge (h : n.commitCandidateLoop i N k = some M) :
    N ≤ M ∧ ∀ j, i ≤ j → j < i + k → n.Committable (n.leaderIdx.matchIndex j) →
      n.leaderIdx.matchIndex j ≤ M := by
  induction k generalizing i N with
  | zero =>
    cases h
    exact ⟨le_rfl, fun j hij hj => by omega⟩
  | succ k ih =>
    simp only [commitCandidateLoop] at h
    split at h
    · cases h
    split at h
    · cases h
    split at h
    case isTrue hcandidate =>
      obtain ⟨hle, hrest⟩ := ih h
      refine ⟨by omega, fun j hij hj hcommittable => ?_⟩
      rcases Nat.eq_or_lt_of_le hij with rfl | hlt
      · exact hle
      · exact hrest j hlt (by omega) hcommittable
    case isFalse hno =>
      obtain ⟨hle, hrest⟩ := ih h
      refine ⟨hle, fun j hij hj hcommittable => ?_⟩
      rcases Nat.eq_or_lt_of_le hij with rfl | hlt
      · exact (not_lt.mp fun hlt => hno ⟨hcommittable.1, hcommittable.2, hlt⟩).trans hle
      · exact hrest j hlt (by omega) hcommittable

theorem commitCandidateLoop_isSome
    (h : ∀ j, i ≤ j → j < i + k →
      n.leaderIdx.matchIndex j ≠ -1 ∧ n.leaderIdx.matchIndex j ≤ n.smLog.lastIdx) :
    ∃ M, n.commitCandidateLoop i N k = some M := by
  induction k generalizing i N with
  | zero => exact ⟨N, rfl⟩
  | succ k ih =>
    obtain ⟨hset, hlast⟩ := h i le_rfl (by omega)
    have hrest : ∀ j, i + 1 ≤ j → j < i + 1 + k →
        n.leaderIdx.matchIndex j ≠ -1 ∧ n.leaderIdx.matchIndex j ≤ n.smLog.lastIdx :=
      fun j hij hj => h j (by omega) (by omega)
    simp only [commitCandidateLoop, if_neg hset, if_neg (not_lt.mpr hlast)]
    split
    · exact ih hrest
    · exact ih hrest

/-- The index that the first loop finds: no committable match index lies above it. -/
theorem commitCandidate_cases (hrange : ∀ i < n.numOfTargets,
      -1 ≤ n.leaderIdx.matchIndex i ∧ n.leaderIdx.matchIndex i ≤ n.smLog.lastIdx) :
    ((∃ i < n.numOfTargets, n.leaderIdx.matchIndex i = -1) ∧
        n.commitCandidateLoop 0 (-1) n.numOfTargets = none) ∨
      (∀ i < n.numOfTargets, 0 ≤ n.leaderIdx.matchIndex i) ∧
        ∃ N, n.commitCandidateLoop 0 (-1) n.numOfTargets = some N ∧ -1 ≤ N ∧
          (N = -1 ∨ ∃ i < n.numOfTargets, n.leaderIdx.matchIndex i = N ∧ n.Committable N) ∧
          ∀ i < n.numOfTargets, n.Committable (n.leaderIdx.matchIndex i) →
            n.leaderIdx.matchIndex i ≤ N := by
  by_cases hunset : ∃ i < n.numOfTargets, n.leaderIdx.matchIndex i = -1
  · left
    refine ⟨hunset, ?_⟩
    obtain ⟨i, hi, hnone⟩ := hunset
    cases hloop : n.commitCandidateLoop 0 (-1) n.numOfTargets with
    | none => rfl
    | some M =>
      obtain ⟨-, hall⟩ := n.commitCandidateLoop_spec hloop
      exact absurd hnone (hall i (Nat.zero_le i) (by omega)).1
  · right
    have hset : ∀ i < n.numOfTargets, n.leaderIdx.matchIndex i ≠ -1 :=
      fun i hi heq => hunset ⟨i, hi, heq⟩
    obtain ⟨N, hloop⟩ := commitCandidateLoop_isSome (n := n) (i := 0) (N := -1)
      (k := n.numOfTargets) fun j _ hj => ⟨hset j (by omega), (hrange j (by omega)).2⟩
    obtain ⟨hfound, -⟩ := n.commitCandidateLoop_spec hloop
    obtain ⟨hle, hmax⟩ := commitCandidateLoop_ge hloop
    rw [Nat.zero_add] at hfound
    refine ⟨fun i hi => ?_, N, hloop, hle, hfound, fun i hi => hmax i (Nat.zero_le i) (by omega)⟩
    have := (hrange i hi).1
    have := hset i hi
    omega

theorem updateCommitIdx_commitIdx (hunicast : n.sdev.multicastEnable = false)
    (hloop : n.commitCandidateLoop 0 (-1) n.numOfTargets = some N) :
    n.updateCommitIdx.smLog.commitIdx = max n.smLog.commitIdx N := by
  obtain ⟨entries, heq, -⟩ := n.smLog.leaderCommit_eq N
  simp only [updateCommitIdx, hunicast, Bool.false_eq_true, if_false, hloop, heq]
  split <;> omega

theorem updateCommitIdx_of_none (hloop : n.commitCandidateLoop 0 (-1) n.numOfTargets = none) :
    n.updateCommitIdx = n := by
  unfold updateCommitIdx
  split
  · rfl
  · rw [hloop]

/-! ### The rule -/

/-- The entry at the smallest match index of the alive targets is what the leader may commit. -/
def mayCommit (n : Node) (m : Int) : Prop :=
  0 ≤ m ∧ (n.smLog.entry m).term = u32 n.priv.term

instance (n : Node) (m : Int) : Decidable (n.mayCommit m) := inferInstanceAs (Decidable (_ ∧ _))

/-- `update_commit_idx` commits up to the smallest match index `m` of the alive targets. -/
def commitsSmallest (n : Node) (m : Int) : Prop :=
  n.updateCommitIdx.smLog.commitIdx =
    if n.mayCommit m then max n.smLog.commitIdx m else n.smLog.commitIdx

instance (n : Node) (m : Int) : Decidable (n.commitsSmallest m) := inferInstanceAs (Decidable (_ = _))

/-- No target has a match index of -1, unless there is nothing to commit; and where the entry at `m` is
of another term, no smaller match index above `commit_idx` lies on an entry of the present one. -/
def commitInOrder (n : Node) (m : Int) : Prop :=
  ((∃ i < n.numOfTargets, n.leaderIdx.matchIndex i = -1) →
      n.mayCommit m → m ≤ n.smLog.commitIdx) ∧
    ((∀ i < n.numOfTargets, n.leaderIdx.matchIndex i ≠ -1) → ¬n.mayCommit m →
      -1 ≤ n.smLog.commitIdx ∧ ∀ i < n.numOfTargets, n.leaderIdx.matchIndex i < m →
        (n.smLog.entry (n.leaderIdx.matchIndex i)).term = u32 n.priv.term →
          n.leaderIdx.matchIndex i ≤ n.smLog.commitIdx)

instance (n : Node) (m : Int) : Decidable (n.commitInOrder m) := inferInstanceAs (Decidable (_ ∧ _))

/-- **The commit rule.** -/
theorem commits_smallest_iff (hunicast : n.sdev.multicastEnable = false)
    (hm : IsLeast n.aliveMatches m) (hrange : ∀ i < n.numOfTargets,
      -1 ≤ n.leaderIdx.matchIndex i ∧ n.leaderIdx.matchIndex i ≤ n.smLog.lastIdx) :
    n.commitsSmallest m ↔ n.commitInOrder m := by
  rw [commitsSmallest, commitInOrder]
  rcases commitCandidate_cases hrange with ⟨hunset, hloop⟩ | ⟨hset, N, hloop, hlow, hfound, hmax⟩
  · have hvacuous : ¬∀ i < n.numOfTargets, n.leaderIdx.matchIndex i ≠ -1 := by
      obtain ⟨i, hi, heq⟩ := hunset
      exact fun h => h i hi heq
    rw [updateCommitIdx_of_none hloop]
    constructor
    · intro hcommits
      refine ⟨fun _ hmay => ?_, fun h => absurd h hvacuous⟩
      rw [if_pos hmay] at hcommits
      omega
    · rintro ⟨hblocked, -⟩
      split
      case isTrue hmay =>
        have := hblocked hunset hmay
        omega
      case isFalse => rfl
  have hvacuous : ¬∃ i < n.numOfTargets, n.leaderIdx.matchIndex i = -1 := by
    rintro ⟨i, hi, heq⟩
    have := hset i hi
    omega
  rw [updateCommitIdx_commitIdx hunicast hloop]
  obtain ⟨a, ha, halive, hattained⟩ := hm.1
  by_cases hmay : n.mayCommit m
  · -- the smallest match index is a candidate itself, and bounds all others
    have hN : N = m := by
      have hge : m ≤ N := by
        rw [← hattained]
        apply hmax a ha
        rw [hattained]
        exact ⟨hmay.2, (isPotentialCommitIdx_iff_le hm).mpr le_rfl⟩
      have hle : N ≤ m := by
        rcases hfound with rfl | ⟨i, -, -, hcommittable⟩
        · have := hmay.1
          omega
        · exact (isPotentialCommitIdx_iff_le hm).mp hcommittable.2
      exact le_antisymm hle hge
    rw [if_pos hmay, hN]
    exact iff_of_true rfl ⟨fun h => absurd h hvacuous, fun _ h => absurd hmay h⟩
  · have hterm : (n.smLog.entry m).term ≠ u32 n.priv.term := by
      intro heq
      have := hset a ha
      exact hmay ⟨by omega, heq⟩
    rw [if_neg hmay, max_eq_left_iff]
    constructor
    · intro hle
      refine ⟨fun h => absurd h hvacuous, fun _ _ => ⟨by omega, fun i hi hlt hcur => ?_⟩⟩
      exact (hmax i hi ⟨hcur, (isPotentialCommitIdx_iff_le hm).mpr hlt.le⟩).trans hle
    · rintro ⟨-, hothers⟩
      obtain ⟨hcommit, hbelow⟩ := hothers (fun i hi heq => hvacuous ⟨i, hi, heq⟩) hmay
      rcases hfound with rfl | ⟨i, hi, rfl, hcommittable⟩
      · exact hcommit
      · apply hbelow i hi _ hcommittable.1
        refine lt_of_le_of_ne ((isPotentialCommitIdx_iff_le hm).mp hcommittable.2) ?_
        intro heq
        exact hterm (heq ▸ hcommittable.1)

/-- In a log whose terms do not decrease and do not exceed the present one, only a match index of -1
stands in the way. -/
theorem commitInOrder_of_sorted (hcommit : -1 ≤ n.smLog.commitIdx)
    (hsorted : ∀ i j, 0 ≤ i → i ≤ j → j ≤ n.smLog.lastIdx →
      (n.smLog.entry i).term ≤ (n.smLog.entry j).term)
    (hterm : ∀ i, 0 ≤ i → i ≤ n.smLog.lastIdx → (n.smLog.entry i).term ≤ u32 n.priv.term)
    (hm : IsLeast n.aliveMatches m) (hrange : ∀ i < n.numOfTargets,
      -1 ≤ n.leaderIdx.matchIndex i ∧ n.leaderIdx.matchIndex i ≤ n.smLog.lastIdx) :
    n.commitInOrder m ↔ ((∃ i < n.numOfTargets, n.leaderIdx.matchIndex i = -1) →
      n.mayCommit m → m ≤ n.smLog.commitIdx) := by
  refine and_iff_left fun hset hmay => ⟨hcommit, fun i hi hlt hcur => ?_⟩
  obtain ⟨a, ha, -, hattained⟩ := hm.1
  have hi0 := hset i hi
  have hirange := hrange i hi
  have harange := hrange a ha
  have hle := hsorted (n.leaderIdx.matchIndex i) m (by omega) hlt.le (by omega)
  have hge := hterm m (by omega) (by omega)
  exact absurd ⟨by omega, by omega⟩ hmay

/-- Node 1 leads with two entries. Target 1 falls silent; later target 0 confirms both. -/
def leadsOneSilent : List Event := leading [sampleChunk 7, sampleChunk 8] ++
  List.replicate 7 .tick ++ .rx 0 2 :: List.replicate 7 .tick ++
    [.handle 0 (setLeOpcode .appendReply 1 1 1 1)]

theorem commits_smallest_iff_bothConfirm :
    ((((run (consensusInit (smallConfig 1 [2, 3]) zeroUninit)
      (leading [sampleChunk 7, sampleChunk 8])).recordMatch 0 1).recordMatch 1 0).commitsSmallest 0) :=
  (commits_smallest_iff (by decide +kernel)
    ⟨⟨1, by decide +kernel, by decide +kernel, by decide +kernel⟩, by
      rintro _ ⟨i, hi, halive, rfl⟩
      revert i
      decide +kernel⟩ (by decide +kernel)).mpr (by decide +kernel)

theorem commit_blocked_by_dead :
    ¬ ∀ (n : Node) (m : Int), n.priv.nstate = .leader → n.sdev.multicastEnable = false →
      IsLeast n.aliveMatches m →
      (∀ i j, 0 ≤ i → i ≤ j → j ≤ n.smLog.lastIdx →
        (n.smLog.entry i).term ≤ (n.smLog.entry j).term) →
      (∀ i < n.numOfTargets,
        -1 ≤ n.leaderIdx.matchIndex i ∧ n.leaderIdx.matchIndex i ≤ n.smLog.lastIdx) →
      n.commitsSmallest m := by
  intro h
  have hlast : (run (consensusInit (smallConfig 1 [2, 3]) zeroUninit)
      leadsOneSilent).smLog.lastIdx = 1 := by decide +kernel
  refine absurd (h (run (consensusInit (smallConfig 1 [2, 3]) zeroUninit) leadsOneSilent) 1
    (by decide +kernel) (by decide +kernel) ⟨⟨0, by decide +kernel, by decide +kernel,
      by decide +kernel⟩, ?_⟩ ?_ (by decide +kernel)) (by decide +kernel)
  · rintro _ ⟨i, hi, halive, rfl⟩
    revert i
    decide +kernel
  · intro i j hi hij hj
    rw [hlast] at hj
    obtain rfl | rfl : i = 0 ∨ i = 1 := by omega
    · obtain rfl | rfl : j = 0 ∨ j = 1 := by omega
      · exact le_rfl
      · decide +kernel
    · obtain rfl : j = 1 := by omega
      exact le_rfl

end Node

/-! ### Freed slots

The loop behind the commit starts at the old `commit_idx` and ends before the new one, so it runs over
the indices below those that were committed. After a commit of the whole log it does not run. -/

namespace SmLog

variable {log : SmLog} {N a b : Int} {q : Nat}

/-- The slot is that of an index from `a` to `b`. -/
def coversSlot (log : SmLog) (a b : Int) (q : Nat) : Prop := ∃ i, a ≤ i ∧ i ≤ b ∧ log.slot i = q

theorem invalidateLoop_valid (log : SmLog) (i : Int) (k q : Nat) :
    ((log.invalidateLoop i k).entries q).valid = true ↔
      (log.entries q).valid = true ∧ ¬log.coversSlot i (i + k - 1) q := by
  induction k generalizing log i with
  | zero =>
    refine (and_iff_left ?_).symm
    rintro ⟨j, hij, hj, -⟩
    omega
  | succ k ih =>
    rw [invalidateLoop, ih]
    by_cases hq : q = log.slot i
    · have hcovers : log.coversSlot i (i + (k + 1 : Nat) - 1) q := ⟨i, le_rfl, by omega, hq.symm⟩
      have hinvalid : ((log.invalidate i).entries q).valid = false := by
        rw [hq]
        simp only [invalidate, Function.update_self]
      rw [hinvalid]
      exact iff_of_false (fun h => absurd h.1 (by decide)) fun h => h.2 hcovers
    · have hsame : (log.invalidate i).entries q = log.entries q := Function.update_of_ne hq _ _
      rw [hsame]
      refine and_congr_right fun _ => not_congr ?_
      constructor
      · rintro ⟨j, hij, hj, hslot⟩
        exact ⟨j, by omega, by omega, hslot⟩
      · rintro ⟨j, hij, hj, hslot⟩
        have hne : j ≠ i := fun heq => hq (heq ▸ hslot.symm)
        exact ⟨j, by omega, by omega, hslot⟩

theorem leaderCommit_valid (hraise : log.commitIdx < N) (q : Nat) :
    ((log.leaderCommit N).entries q).valid = true ↔ (log.entries q).valid = true ∧
      (N ≠ log.lastIdx → ¬log.coversSlot log.commitIdx (N - 1) q) := by
  simp only [leaderCommit, if_pos hraise]
  split
  case isTrue hlast => exact (and_iff_left fun h => absurd hlast h).symm
  case isFalse hlast =>
    have hend : log.commitIdx + (N - log.commitIdx).toNat - 1 = N - 1 := by omega
    rw [invalidateLoop_valid, hend]
    exact and_congr_right fun _ => ⟨fun h _ => h, fun h => h hlast⟩

/-- The slots whose flags are cleared on the way from `log` to `log'` are those of the indices behind
`commit_idx` up to `N`, and no slot of an index above is among them. -/
structure FreesCommitted (log log' : SmLog) (N : Int) : Prop where
  freed : ∀ i, log.commitIdx < i → i ≤ N → (log'.entries (log.slot i)).valid = false
  kept : ∀ q, ¬log.coversSlot (log.commitIdx + 1) N q →
    (log'.entries q).valid = (log.entries q).valid
  above : ∀ i, N < i → i ≤ log.lastIdx → (log.entry i).valid = true →
    (log'.entries (log.slot i)).valid = true

/-- The flags make no difference between the slots that are cleared and those that should be: neither
the old `commit_idx` nor `N` has a valid slot of its own. -/
def freesInOrder (log : SmLog) (N : Int) : Prop :=
  if N = log.lastIdx then ∀ i, log.commitIdx < i → i ≤ N → (log.entry i).valid = false
  else
    (log.coversSlot log.commitIdx (N - 1) (log.slot N) ∨ (log.entry N).valid = false) ∧
      (log.coversSlot (log.commitIdx + 1) N (log.slot log.commitIdx) ∨
        (log.entry log.commitIdx).valid = false) ∧
      ∀ i, N < i → i ≤ log.lastIdx → log.coversSlot log.commitIdx (N - 1) (log.slot i) →
        (log.entry i).valid = false

theorem leaderCommit_frees_whole (hraise : log.commitIdx < N) (hlast : N = log.lastIdx) :
    FreesCommitted log (log.leaderCommit N) N ↔
      ∀ i, log.commitIdx < i → i ≤ N → (log.entry i).valid = false := by
  have hsame : ∀ q, ((log.leaderCommit N).entries q).valid = (log.entries q).valid := by
    intro q
    rw [Bool.eq_iff_iff, leaderCommit_valid hraise]
    exact and_iff_left fun h => absurd hlast h
  constructor
  · intro h i hlow hhigh
    rw [← h.freed i hlow hhigh, hsame]
    rfl
  · intro h
    refine ⟨fun i hlow hhigh => ?_, fun q _ => hsame q, fun i hlow hhigh _ => by omega⟩
    rw [hsame]
    exact h i hlow hhigh

theorem leaderCommit_frees_part (hraise : log.commitIdx < N) (hlast : N ≠ log.lastIdx) :
    FreesCommitted log (log.leaderCommit N) N ↔
      (log.coversSlot log.commitIdx (N - 1) (log.slot N) ∨ (log.entry N).valid = false) ∧
        (log.coversSlot (log.commitIdx + 1) N (log.slot log.commitIdx) ∨
          (log.entry log.commitIdx).valid = false) ∧
        ∀ i, N < i → i ≤ log.lastIdx → log.coversSlot log.commitIdx (N - 1) (log.slot i) →
          (log.entry i).valid = false := by
  have hcleared : ∀ q, ((log.leaderCommit N).entries q).valid = true ↔
      (log.entries q).valid = true ∧ ¬log.coversSlot log.commitIdx (N - 1) q := by
    intro q
    rw [leaderCommit_valid hraise]
    exact and_congr_right fun _ => ⟨fun h => h hlast, fun h _ => h⟩
  have hfalse : ∀ q, ((log.leaderCommit N).entries q).valid = false ↔
      log.coversSlot log.commitIdx (N - 1) q ∨ (log.entries q).valid = false := by
    intro q
    rw [← Bool.not_eq_true, hcleared, ← Bool.not_eq_true]
    tauto
  constructor
  · rintro ⟨hfreed, hkept, habove⟩
    refine ⟨(hfalse _).mp (hfreed N hraise le_rfl), ?_, fun i hlow hhigh hcovers => ?_⟩
    · by_contra hno
      rw [not_or] at hno
      have hinvalid := (hfalse _).mpr (.inl ⟨log.commitIdx, le_rfl, by omega, rfl⟩)
      rw [hkept _ hno.1] at hinvalid
      exact hno.2 hinvalid
    · by_contra hi
      have := (hcleared _).mp (habove i hlow hhigh (by simpa using hi))
      exact this.2 hcovers
  · rintro ⟨hlastOne, hfirst, habove⟩
    refine ⟨fun i hlow hhigh => ?_, fun q hq => ?_, fun i hlow hhigh hi => ?_⟩
    · rw [hfalse]
      rcases Int.lt_or_eq_of_le hhigh with hlt | rfl
      · exact .inl ⟨i, by omega, by omega, rfl⟩
      · exact hlastOne
    · rw [Bool.eq_iff_iff, hcleared]
      refine and_iff_left_of_imp ?_
      rintro hqvalid ⟨i, hlow, hhigh, rfl⟩
      rcases Int.lt_or_eq_of_le hlow with hlt | rfl
      · exact hq ⟨i, by omega, by omega, rfl⟩
      · rcases hfirst with hcovers | hinvalid
        · exact hq hcovers
        · exact Bool.noConfusion (hqvalid.symm.trans hinvalid)
    · rw [hcleared]
      refine ⟨hi, fun hcovers => ?_⟩
      exact Bool.noConfusion (hi.symm.trans (habove i hlow hhigh hcovers))

theorem leaderCommit_frees_iff (hraise : log.commitIdx < N) :
    FreesCommitted log (log.leaderCommit N) N ↔ log.freesInOrder N := by
  rw [freesInOrder]
  split
  case isTrue hlast => exact leaderCommit_frees_whole hraise hlast
  case isFalse hlast => exact leaderCommit_frees_part hraise hlast

end SmLog

namespace Node

theorem updateCommitIdx_raises {n : Node} {N : Int}
    (hcommit : n.updateCommitIdx.smLog.commitIdx = N) (hraise : n.smLog.commitIdx < N) :
    n.updateCommitIdx.smLog = n.smLog.leaderCommit N := by
  rcases n.updateCommitIdx_cases with heq | ⟨M, heq, -⟩
  · rw [heq] at hcommit
    omega
  · have hM : M = N := by
      obtain ⟨entries, hlog, -⟩ := n.smLog.leaderCommit_eq M
      rw [heq, hlog] at hcommit
      dsimp only at hcommit
      split at hcommit
      · exact hcommit
      · omega
    rw [heq, hM]

/-- **A commit frees what it commits** only where the valid flags hide that it frees the slots one
index lower. -/
theorem frees_committed_iff (n : Node) (N : Int)
    (hcommit : n.updateCommitIdx.smLog.commitIdx = N) (hraise : n.smLog.commitIdx < N) :
    n.smLog.FreesCommitted n.updateCommitIdx.smLog N ↔ n.smLog.freesInOrder N := by
  rw [updateCommitIdx_raises hcommit hraise]
  exact SmLog.leaderCommit_frees_iff hraise

/-- Both targets hold the first of two entries, whose slot is free already. -/
def leadsFirstFreed : Node :=
  let n := ((run (consensusInit (smallConfig 1 [2, 3]) zeroUninit)
    (leading [sampleChunk 7, sampleChunk 8])).recordMatch 0 0).recordMatch 1 0
  { n with smLog := n.smLog.invalidate 0 }

theorem frees_committed_iff_firstFreed :
    leadsFirstFreed.smLog.FreesCommitted leadsFirstFreed.updateCommitIdx.smLog 0 := by
  refine (frees_committed_iff leadsFirstFreed 0 (by decide +kernel) (by decide +kernel)).mpr ?_
  have hcommit : leadsFirstFreed.smLog.commitIdx = -1 := by decide +kernel
  have hlast : leadsFirstFreed.smLog.lastIdx = 1 := by decide +kernel
  rw [SmLog.freesInOrder, hcommit, hlast, if_neg (by decide)]
  refine ⟨.inr (by decide +kernel), .inr (by decide +kernel), ?_⟩
  rintro i hlow hhigh ⟨j, hjlow, hjhigh, hslot⟩
  obtain rfl : i = 1 := by omega
  obtain rfl : j = -1 := by omega
  exact absurd hslot (by decide +kernel)

/-- Both targets hold the first two of three entries. -/
def leadsTwoMatched : Node :=
  ((run (consensusInit (smallConfig 1 [2, 3]) zeroUninit)
    (leading [sampleChunk 7, sampleChunk 8, sampleChunk 9])).recordMatch 0 1).recordMatch 1 1

theorem committed_not_freed :
    ¬ ∀ (n : Node) (N : Int), n.priv.nstate = .leader → n.sdev.multicastEnable = false →
      n.updateCommitIdx.smLog.commitIdx = N → n.smLog.commitIdx < N →
      n.smLog.FreesCommitted n.updateCommitIdx.smLog N := by
  intro h
  have hfrees := h leadsTwoMatched 1 (by decide +kernel) (by decide +kernel) (by decide +kernel)
    (by decide +kernel)
  exact absurd (hfrees.freed 1 (by decide +kernel) (by decide)) (by decide +kernel)

end Node

end XlaneLkm
