import XlaneLkm.CmdLogMemory
import Mathlib.Tactic.IntervalCases

/-!
# The tables of the targets in memory

Up to `CLUSTER_SIZE` targets the tables of the model, one for each array, are what stands in memory. With
one more, a write to the table of a target is a write to another table.
-/

namespace XlaneLkm

open MachineInt CmdLogField
open ByteMemory (read_write read_write_of_disjoint read_copy_of_disjoint read_congr)

namespace CmdLogField

variable {lk : RwLock} {f g : CmdLogField} {i : Nat}

theorem offset_disjoint (hf : f.Below clusterSize) (hg : g.Below clusterSize) (hne : f ≠ g) :
    f.offset lk + 4 ≤ g.offset lk ∨ g.offset lk + 4 ≤ f.offset lk := by
  cases f <;> cases g <;>
    simp only [Below, offset, retransListLockOffset, retransHeadOffset, clusterSize, ne_eq,
      numRetransmissions.injEq, nextIndex.injEq, matchIndex.injEq, retransEntries.injEq,
      not_true_eq_false, reduceCtorEq, not_false_eq_true] at hf hg hne ⊢ <;>
    omega

theorem offset_disjoint_head (lk : RwLock) (hf : f.Below clusterSize) (hi : i < clusterSize) :
    f.offset lk + 4 ≤ retransHeadOffset i ∨ retransHeadOffset i + 16 ≤ f.offset lk := by
  cases f <;>
    simp only [Below, offset, retransListLockOffset, retransHeadOffset, clusterSize] at hf hi ⊢ <;>
    omega

theorem lock_le (lk : RwLock) (hi : i < clusterSize) :
    retransListLockOffset lk i + lk.size ≤ retransListLockOffset lk clusterSize := by
  have hnext : lk.size * (i + 1) ≤ lk.size * clusterSize := Nat.mul_le_mul_left _ hi
  rw [Nat.mul_succ] at hnext
  simp only [retransListLockOffset]
  omega

theorem head_le_lock (lk : RwLock) (i : Nat) : retransHeadOffset clusterSize ≤ retransListLockOffset lk i :=
  Nat.le_add_right ..

theorem offset_disjoint_lock (hf : f.Below clusterSize) (hi : i < clusterSize) :
    f.offset lk + 4 ≤ retransListLockOffset lk i ∨
      retransListLockOffset lk i + lk.size ≤ f.offset lk := by
  have hlow := head_le_lock lk i
  have hhigh := lock_le lk hi
  cases f <;> simp only [Below, offset, retransHeadOffset, clusterSize] at hf hlow hhigh ⊢ <;> omega

/-- No two areas share a byte. -/
def Disjoint (areas : List (Nat × Nat)) : Prop :=
  areas.Pairwise fun a b => a.1 + a.2 ≤ b.1 ∨ b.1 + b.2 ≤ a.1

theorem listAreas_disjoint (lk : RwLock) {k : Nat} (hk : k ≤ clusterSize) :
    Disjoint (listAreas lk k) := by
  have hk : k ≤ 3 := hk
  interval_cases k <;>
    simp only [Disjoint, listAreas, offset, retransListLockOffset, retransHeadOffset, clusterSize,
      List.range_succ, List.range_zero, List.flatMap_cons, List.flatMap_nil, List.nil_append,
      List.append_nil, List.cons_append, List.pairwise_cons, List.Pairwise.nil, List.mem_cons,
      List.not_mem_nil, or_false, forall_eq_or_imp, forall_eq, and_true, false_imp_iff, implies_true] <;>
    omega

end CmdLogField

namespace Node

variable {n : Node} {f g : CmdLogField} {v : Int}

theorem setField_self : (n.setField f v).field f = v := by
  cases f <;> first | rfl | exact Function.update_self ..

theorem setField_of_ne (h : g ≠ f) : (n.setField f v).field g = n.field g := by
  cases f <;> cases g <;>
    first
    | rfl
    | exact absurd rfl h
    | exact Function.update_of_ne (by rintro rfl; exact h rfl) ..

end Node

namespace CmdLogMemory

variable {lk : RwLock} {mem : CmdLogMemory} {n n' : Node} {f : CmdLogField} {v : Int} {i : Nat}

theorem get_set_self : (mem.set lk f v).get lk f = i32 v := by
  simp only [get, set, read_write]
  rw [Nat.mod_eq_of_lt (show u32 v < 256 ^ 4 from u32_lt v), i32_u32]

theorem get_set_of_disjoint {g : CmdLogField}
    (h : g.offset lk + 4 ≤ f.offset lk ∨ f.offset lk + 4 ≤ g.offset lk) :
    (mem.set lk f v).get lk g = mem.get lk g :=
  congrArg (fun x : Nat => i32 x) (read_write_of_disjoint h)

/-- The struct holds the numbers of the model. -/
def Shows (lk : RwLock) (mem : CmdLogMemory) (n : Node) : Prop :=
  ∀ f : CmdLogField, f.Below clusterSize → mem.get lk f = n.field f

theorem Shows.congr (h : Shows lk mem n) (hidx : n'.leaderIdx = n.leaderIdx)
    (hlog : n'.smLog = n.smLog) : Shows lk mem n' := by
  intro f hf
  rw [h f hf]
  cases f <;> simp only [Node.field, hidx, hlog]

theorem Shows.set (h : Shows lk mem n) (hf : f.Below clusterSize) (v : Int) :
    Shows lk (mem.set lk f v) (n.setField f (i32 v)) := by
  intro g hg
  by_cases heq : g = f
  · rw [heq, get_set_self, Node.setField_self]
  · rw [get_set_of_disjoint (offset_disjoint hg hf heq), h g hg, Node.setField_of_ne heq]

theorem Shows.asgRwlockInit (h : Shows lk mem n) (hi : i < clusterSize) :
    Shows lk (mem.asgRwlockInit lk i) n := fun f hf =>
  (congrArg (fun x : Nat => i32 x) (read_copy_of_disjoint (offset_disjoint_lock hf hi))).trans (h f hf)

theorem Shows.initListHead (h : Shows lk mem n) (hi : i < clusterSize) :
    Shows lk (mem.initListHead i) n := by
  intro f hf
  have hapart := offset_disjoint_head lk hf hi
  refine (congrArg (fun x : Nat => i32 x) ?_).trans (h f hf)
  dsimp only [CmdLogMemory.initListHead]
  rw [read_write_of_disjoint (by omega), read_write_of_disjoint (by omega)]

theorem Shows.initializeIndex (h : Shows lk mem n) (hi : i < clusterSize) :
    Shows lk (mem.initializeIndex lk i) (n.initializeIndex i) := by
  have hstable : mem.get lk .stableIdx = n.smLog.stableIdx := h .stableIdx trivial
  have hwritten := ((((((h.set (f := .nextIndex i) hi (mem.get lk .stableIdx + 1)).set
    (f := .matchIndex i) hi (-1)).set (f := .numRetransmissions i) hi 0).asgRwlockInit hi).initListHead
      hi).set (f := .retransEntries i) hi 0)
  rw [hstable] at hwritten
  have hreset : ∀ f : CmdLogField, (n.initializeIndex i).field f =
      ((((n.setField (.nextIndex i) (i32 (n.smLog.stableIdx + 1))).setField (.matchIndex i)
        (i32 (-1))).setField (.numRetransmissions i) (i32 0)).setField (.retransEntries i)
          (i32 0)).field f := by
    have hbeat : ∀ m : Node, (m.preHbSetup i).leaderIdx = m.leaderIdx ∧
        (m.preHbSetup i).smLog = m.smLog := fun m => by
      unfold Node.preHbSetup
      split <;> exact ⟨rfl, rfl⟩
    intro f
    cases f <;> simp only [Node.initializeIndex, Node.field, hbeat, Node.setField] <;> rfl
  intro f hf
  rw [hreset f, ← hwritten f hf, CmdLogMemory.initializeIndex, hstable]

theorem Shows.initializeIndices (h : Shows lk mem n) {k : Nat} (hk : k ≤ clusterSize) :
    Shows lk (mem.initializeIndices lk k) ((List.range k).foldl Node.initializeIndex n) := by
  induction k with
  | zero => exact h
  | succ k ih =>
    rw [CmdLogMemory.initializeIndices, List.range_succ, List.foldl_append, List.foldl_append]
    exact (ih (by omega)).initializeIndex (by omega)

/-! ### The list heads -/

theorem listEmpty_congr {mem' : CmdLogMemory} (haddr : mem'.addr = mem.addr)
    (h : ∀ p, retransHeadOffset i ≤ p → p < retransHeadOffset i + 8 → mem'.bytes p = mem.bytes p) :
    mem'.listEmpty i = mem.listEmpty i := by
  unfold listEmpty headAddr
  rw [haddr, read_congr h]

theorem listEmpty_initListHead : (mem.initListHead i).listEmpty i = true := by
  have hlt : mem.headAddr i < 256 ^ 8 := Nat.lt_of_lt_of_le (u64_lt _) (by decide)
  refine decide_eq_true ?_
  dsimp only [CmdLogMemory.initListHead]
  rw [read_write_of_disjoint (by omega), read_write, Nat.mod_eq_of_lt hlt]
  rfl

theorem listEmpty_set (hf : f.Below clusterSize) (hi : i < clusterSize) :
    (mem.set lk f v).listEmpty i = mem.listEmpty i := by
  have hapart := offset_disjoint_head lk hf hi
  exact listEmpty_congr rfl fun p hlow hhigh => ByteMemory.write_outside (by omega)

theorem listEmpty_asgRwlockInit {j : Nat} (hi : i < clusterSize) :
    (mem.asgRwlockInit lk j).listEmpty i = mem.listEmpty i := by
  have hlock := head_le_lock lk j
  refine listEmpty_congr rfl fun p hlow hhigh => ByteMemory.copy_outside ?_
  simp only [retransHeadOffset] at hlow hhigh hlock
  omega

theorem listEmpty_initializeIndex {j : Nat} (hi : i < clusterSize) (hj : j < clusterSize)
    (h : j = i ∨ mem.listEmpty i = true) : (mem.initializeIndex lk j).listEmpty i = true := by
  rw [CmdLogMemory.initializeIndex, listEmpty_set (f := .retransEntries j) hj hi]
  rcases h with rfl | hempty
  · exact listEmpty_initListHead
  by_cases heq : j = i
  · subst heq
    exact listEmpty_initListHead
  · have hother : ∀ m : CmdLogMemory, (m.initListHead j).listEmpty i = m.listEmpty i := fun m => by
      refine listEmpty_congr rfl fun p hlow hhigh => ?_
      simp only [retransHeadOffset] at hlow hhigh
      dsimp only [CmdLogMemory.initListHead]
      rw [ByteMemory.write_outside (by simp only [retransHeadOffset]; omega),
        ByteMemory.write_outside (by simp only [retransHeadOffset]; omega)]
    rw [hother, listEmpty_asgRwlockInit hi, listEmpty_set (f := .numRetransmissions j) hj hi,
      listEmpty_set (f := .matchIndex j) hj hi, listEmpty_set (f := .nextIndex j) hj hi]
    exact hempty

theorem listEmpty_initializeIndices {k : Nat} (hk : k ≤ clusterSize) (hi : i < k) :
    (mem.initializeIndices lk k).listEmpty i = true := by
  induction k with
  | zero => exact absurd hi (Nat.not_lt_zero i)
  | succ k ih =>
    rw [CmdLogMemory.initializeIndices, List.range_succ, List.foldl_append]
    refine listEmpty_initializeIndex (by omega) (by omega) ?_
    rcases Nat.lt_succ_iff_lt_or_eq.mp hi with hlt | heq
    · exact .inr (ih (by omega) hlt)
    · exact .inl heq.symm

/-! ### Registered targets -/

/-- The tables of the registered targets stand apart: a write to one of them is a write to that one, and
`initialize_indices` does to the struct what it does to the model, with all lists empty. -/
structure TablesApart (lk : RwLock) (n : Node) : Prop where
  writes : ∀ mem f v, Shows lk mem n → f.Below n.numOfTargets →
    Shows lk (mem.set lk f v) (n.setField f (i32 v))
  init : ∀ mem, Shows lk mem n →
    Shows lk (mem.initializeIndices lk n.numOfTargets) n.initializeIndices ∧
      ∀ i < n.numOfTargets, (mem.initializeIndices lk n.numOfTargets).listEmpty i = true

theorem below_of_le {k : Nat} (hf : f.Below k) (hk : k ≤ clusterSize) : f.Below clusterSize := by
  cases f <;> first | trivial | exact Nat.lt_of_lt_of_le hf hk

theorem tablesApart_of_few (lk : RwLock) (hfew : n.numOfTargets ≤ clusterSize) : TablesApart lk n where
  writes _ _ v h hf := h.set (below_of_le hf hfew) v
  init _ h := ⟨h.initializeIndices hfew, fun _ => listEmpty_initializeIndices hfew⟩

/-- **As many targets as the arrays have slots** is exactly when the tables stand apart: behind the slots
of `next_index` stands `match_index`. -/
theorem tablesApart_iff (h : Shows lk mem n) : TablesApart lk n ↔ n.numOfTargets ≤ clusterSize := by
  refine ⟨fun hapart => ?_, tablesApart_of_few lk⟩
  by_contra hmany
  have hfirst : (matchIndex 0).Below clusterSize := show 0 < 3 by decide
  have hmatch : mem.get lk (.matchIndex 0) = n.leaderIdx.matchIndex 0 := h (.matchIndex 0) hfirst
  have hwritten := hapart.writes mem (.nextIndex clusterSize) (n.leaderIdx.matchIndex 0 + 1) h
    (Nat.not_le.mp hmany) (.matchIndex 0) hfirst
  have hsame : (mem.set lk (.nextIndex clusterSize) (n.leaderIdx.matchIndex 0 + 1)).get lk
      (.matchIndex 0) = i32 (n.leaderIdx.matchIndex 0 + 1) :=
    get_set_self (f := .nextIndex clusterSize)
  have hkept : i32 (n.leaderIdx.matchIndex 0 + 1) = n.leaderIdx.matchIndex 0 :=
    hsame.symm.trans hwritten
  obtain ⟨-, -, k, hk⟩ := i32_spec (n.leaderIdx.matchIndex 0 + 1)
  omega

/-! ### The struct of a node -/

def fields : List CmdLogField :=
  ((List.range clusterSize).flatMap fun i =>
    [.numRetransmissions i, .nextIndex i, .matchIndex i, .retransEntries i]) ++
  [.lastApplied, .lastIdx, .commitIdx, .stableIdx, .nextRetransReqIdx, .maxEntries]

theorem mem_fields_iff : f ∈ fields ↔ f.Below clusterSize := by
  cases f <;> simp [fields, Below]

def ofNode (lk : RwLock) (addr : Nat) (n : Node) : CmdLogMemory :=
  fields.foldl (fun mem f => mem.set lk f (n.field f)) ⟨addr, fun _ => 0⟩

theorem get_foldl_set {l : List CmdLogField} (hl : ∀ g ∈ l, g.Below clusterSize)
    (hf : f.Below clusterSize) :
    (l.foldl (fun mem g => mem.set lk g (n.field g)) mem).get lk f =
      if f ∈ l then i32 (n.field f) else mem.get lk f := by
  induction l generalizing mem with
  | nil => rfl
  | cons g l ih =>
    rw [List.foldl_cons, ih fun g' hg' => hl g' (List.mem_cons_of_mem _ hg')]
    by_cases hmem : f ∈ l
    · rw [if_pos hmem, if_pos (List.mem_cons_of_mem _ hmem)]
    rw [if_neg hmem]
    by_cases heq : f = g
    · subst heq
      rw [if_pos List.mem_cons_self, get_set_self]
    · rw [if_neg (by simp [heq, hmem]),
        get_set_of_disjoint (offset_disjoint hf (hl g List.mem_cons_self) heq)]

theorem shows_ofNode (lk : RwLock) (addr : Nat) (h : ∀ f ∈ fields, i32 (n.field f) = n.field f) :
    Shows lk (ofNode lk addr n) n := by
  intro f hf
  have hmem := mem_fields_iff.mpr hf
  rw [ofNode, get_foldl_set (fun g hg => mem_fields_iff.mp hg) hf, if_pos hmem, h f hmem]

/-- The `rwlock_t` of a kernel without lock debugging. -/
def kernelRwLock : RwLock := ⟨8, fun _ => 0⟩

end CmdLogMemory

end XlaneLkm
