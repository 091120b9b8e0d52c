import XlaneLkm.Proof.SubPayloads
import Mathlib.Data.List.Nodup
import Mathlib.Data.List.Perm.Subperm

/-!
# What a reservation does to the chain of records

A payload that already has records of other protocols is to keep them. A new record goes behind the
last one, where the room is compared with the size of the payload, not with that of `proto_data`; a
record that is found again gets its new size where it stands, and the chain continues behind it.
-/

namespace XlaneLkm

open ByteMemory MachineInt

structure ProtoRecord where
  start : Nat
  instanceId : UInt16
  protoSize : UInt16
  deriving DecidableEq

/-- The `k` records from `p` on, found by following the offsets. -/
def walk (m : Nat → UInt8) : Nat → Nat → List ProtoRecord
  | 0, _ => []
  | k + 1, p =>
    ⟨p, getProtoTypeVal m p, getProtoOffsetVal m p⟩ :: walk m k (p + (getProtoOffsetVal m p).toNat)

/-- Where records that start at `p` end. -/
def chainEnd : Nat → List ProtoRecord → Nat
  | p, [] => p
  | p, r :: records => chainEnd (p + r.protoSize.toNat) records

/-- Each record holds its header and lies inside `proto_data`, and no instance has two. That they are
disjoint follows from how they are found. -/
structure ChainInside (records : List ProtoRecord) : Prop where
  header : ∀ r ∈ records, 4 ≤ r.protoSize.toNat
  inside : ∀ r ∈ records, r.start + r.protoSize.toNat ≤ sizeofProtoData
  distinct : (records.map ProtoRecord.instanceId).Nodup

section Walk

variable {m m' : Nat → UInt8} {p q k l : Nat} {r : ProtoRecord} {records before after : List ProtoRecord}

@[simp]
theorem length_walk : (walk m k p).length = k := by
  induction k generalizing p with
  | zero => rfl
  | succ k ih => rw [walk, List.length_cons, ih]

theorem le_chainEnd : p ≤ chainEnd p records := by
  induction records generalizing p with
  | nil => exact le_rfl
  | cons r records ih => exact (Nat.le_add_right _ _).trans ih

theorem walk_add : walk m (k + l) p = walk m k p ++ walk m l (chainEnd p (walk m k p)) := by
  induction k generalizing p with
  | zero => rw [Nat.zero_add, walk, List.nil_append, chainEnd]
  | succ k ih => rw [Nat.succ_add, walk, walk, List.cons_append, ih, chainEnd]

theorem bounds_of_mem_walk (hr : r ∈ walk m k p) :
    p ≤ r.start ∧ r.start + r.protoSize.toNat ≤ chainEnd p (walk m k p) := by
  induction k generalizing p with
  | zero => cases hr
  | succ k ih =>
    rw [walk, chainEnd]
    rcases List.mem_cons.mp hr with rfl | hr
    · exact ⟨le_rfl, le_chainEnd⟩
    · exact ⟨(Nat.le_add_right _ _).trans (ih hr).1, (ih hr).2⟩

theorem walk_split (h : walk m k p = before ++ r :: after) :
    walk m before.length p = before ∧ r.start = chainEnd p before ∧
      walk m after.length (r.start + r.protoSize.toNat) = after := by
  have hlen : k = before.length + (after.length + 1) := by
    have hlength := congrArg List.length h
    rw [length_walk, List.length_append, List.length_cons] at hlength
    exact hlength
  rw [hlen, walk_add] at h
  obtain ⟨hbefore, hrest⟩ := List.append_inj h length_walk
  rw [hbefore, walk] at hrest
  obtain ⟨rfl, hafter⟩ := List.cons.inj hrest
  exact ⟨hbefore, rfl, hafter⟩

theorem walk_congr (hheader : ∀ r ∈ walk m k p, 4 ≤ r.protoSize.toNat)
    (h : ∀ q, p ≤ q → q < chainEnd p (walk m k p) → m' q = m q) : walk m' k p = walk m k p := by
  induction k generalizing p with
  | zero => rfl
  | succ k ih =>
    rw [walk] at hheader h
    have hfirst : 4 ≤ (getProtoOffsetVal m p).toNat := hheader _ List.mem_cons_self
    have hheld : ∀ q, p ≤ q → q < p + 4 → m' q = m q := fun q hlow hhigh =>
      h q hlow (lt_of_lt_of_le (by omega : q < p + (getProtoOffsetVal m p).toNat) le_chainEnd)
    obtain ⟨htype, hoffset⟩ := header_congr hheld
    rw [walk, walk, htype, hoffset, ih (fun r hr => hheader r (List.mem_cons_of_mem _ hr))
      fun q hlow hhigh => h q (by omega) hhigh]

theorem le_chainEnd_walk (hheader : ∀ r ∈ walk m k p, 4 ≤ r.protoSize.toNat) :
    p + 4 * k ≤ chainEnd p (walk m k p) := by
  induction k generalizing p with
  | zero => exact le_rfl
  | succ k ih =>
    rw [walk] at hheader ⊢
    have hfirst : 4 ≤ (getProtoOffsetVal m p).toNat := hheader _ List.mem_cons_self
    calc p + 4 * (k + 1) ≤ p + (getProtoOffsetVal m p).toNat + 4 * k := by omega
      _ ≤ chainEnd _ _ := ih fun r hr => hheader r (List.mem_cons_of_mem _ hr)

theorem chainEnd_walk_le {bound : Nat} (hp : p ≤ bound)
    (hinside : ∀ r ∈ walk m k p, r.start + r.protoSize.toNat ≤ bound) :
    chainEnd p (walk m k p) ≤ bound := by
  induction k generalizing p with
  | zero => exact hp
  | succ k ih =>
    rw [walk] at hinside ⊢
    exact ih (hinside _ List.mem_cons_self) fun r hr => hinside r (List.mem_cons_of_mem _ hr)

theorem findProto_eq {instanceId : UInt16} :
    AsgardPayload.findProto m instanceId k p =
      match (walk m k p).find? (·.instanceId = instanceId) with
      | some r => (true, r.start)
      | none => (false, chainEnd p (walk m k p)) := by
  induction k generalizing p with
  | zero => rfl
  | succ k ih =>
    rw [AsgardPayload.findProto, walk, List.find?_cons]
    by_cases htype : getProtoTypeVal m p = instanceId
    · simp only [htype, if_true, decide_true]
    · rw [if_neg htype, ih, chainEnd]
      simp only [htype, decide_false]

/-- A header at the end of some records continues their chain. -/
theorem walk_setHeader (hheader : ∀ r ∈ walk m k p, 4 ≤ r.protoSize.toNat)
    (instanceId protoSize : UInt16) (l : Nat) :
    walk (setHeader m (chainEnd p (walk m k p)) instanceId protoSize) (k + (l + 1)) p =
      walk m k p ++ ⟨chainEnd p (walk m k p), instanceId, protoSize⟩ ::
        walk (setHeader m (chainEnd p (walk m k p)) instanceId protoSize) l
          (chainEnd p (walk m k p) + protoSize.toNat) := by
  obtain ⟨htype, hoffset⟩ := header_setHeader m (chainEnd p (walk m k p)) instanceId protoSize
  have hbefore : walk (setHeader m (chainEnd p (walk m k p)) instanceId protoSize) k p =
      walk m k p :=
    walk_congr hheader fun q _ hhigh => setHeader_outside (.inl hhigh)
  rw [walk_add, hbefore, walk, htype, hoffset]

end Walk

namespace AsgardPayload

variable {spay : AsgardPayload} {instanceId protoSize : UInt16} {r : ProtoRecord}
  {before after : List ProtoRecord}

def records (spay : AsgardPayload) : List ProtoRecord :=
  walk spay.protoData spay.protocolsIncluded.toNat 0

/-- The chain has the new record at `p`, and all records of the other instances where and as they
were. -/
structure KeepsRecords (spay spay' : AsgardPayload) (instanceId protoSize : UInt16) (p : Nat) :
    Prop where
  chain : ChainInside spay'.records
  reserved : ⟨p, instanceId, protoSize⟩ ∈ spay'.records
  others : ∀ r ∈ spay.records, r.instanceId ≠ instanceId → r ∈ spay'.records ∧
    ∀ q, r.start ≤ q → q < r.start + r.protoSize.toNat → spay'.protoData q = spay.protoData q

def ReserveKeepsChain (spay : AsgardPayload) (instanceId protoSize : UInt16) : Prop :=
  match spay.asgardReserveProto instanceId protoSize with
  | (spay', none) => spay' = spay
  | (spay', some p) => spay.KeepsRecords spay' instanceId protoSize p

/-- The record of the instance keeps its size, or is the last one and there is room for the new size;
or the instance is new, and its record holds a header and fits, or is too long for the payload. -/
def RoomFor (spay : AsgardPayload) (instanceId protoSize : UInt16) : Prop :=
  match spay.records.find? (·.instanceId = instanceId) with
  | some r => protoSize = r.protoSize ∨ (spay.records.getLast? = some r ∧
      4 ≤ protoSize.toNat ∧ r.start + protoSize.toNat ≤ sizeofProtoData)
  | none => maxAsgardPayloadBytes < chainEnd 0 spay.records + protoSize.toNat ∨
      (4 ≤ protoSize.toNat ∧ chainEnd 0 spay.records + protoSize.toNat ≤ sizeofProtoData)

/-! ### An instance that has a record -/

section Reuse

variable (hchain : ChainInside spay.records) (hsplit : spay.records = before ++ r :: after)

include hsplit in
/-- Records before `r` end where it starts, and those behind it start where it ends. -/
theorem sides_of_split : (∀ r' ∈ before, r'.start + r'.protoSize.toNat ≤ r.start) ∧
    ∀ r' ∈ after, r.start + r.protoSize.toNat ≤ r'.start := by
  obtain ⟨hbefore, hstart, hafter⟩ := walk_split hsplit
  constructor
  · intro r' hr'
    rw [← hbefore] at hr'
    have hbound := (bounds_of_mem_walk hr').2
    rwa [hbefore, ← hstart] at hbound
  · intro r' hr'
    rw [← hafter] at hr'
    exact (bounds_of_mem_walk hr').1

include hchain hsplit in
theorem records_reuse (instanceId protoSize : UInt16) :
    records { spay with protoData := setHeader spay.protoData r.start instanceId protoSize } =
      before ++ ⟨r.start, instanceId, protoSize⟩ ::
        walk (setHeader spay.protoData r.start instanceId protoSize) after.length
          (r.start + protoSize.toNat) := by
  obtain ⟨hbefore, hstart, -⟩ := walk_split hsplit
  have hlen : spay.protocolsIncluded.toNat = before.length + (after.length + 1) := by
    have hlength := congrArg List.length hsplit
    rwa [records, length_walk, List.length_append, List.length_cons] at hlength
  have hwalk := walk_setHeader (m := spay.protoData) (k := before.length) (p := 0) (fun r' hr' =>
    hchain.header r' (hsplit ▸ List.mem_append_left _ (hbefore ▸ hr'))) instanceId protoSize
    after.length
  rw [hbefore, ← hstart] at hwalk
  rw [records, hlen]
  exact hwalk

include hchain hsplit in
theorem setHeader_untouched {r' : ProtoRecord} (hr' : r' ∈ before ∨ r' ∈ after) {q : Nat}
    (hlow : r'.start ≤ q) (hhigh : q < r'.start + r'.protoSize.toNat) :
    setHeader spay.protoData r.start instanceId protoSize q = spay.protoData q := by
  obtain ⟨hbefore, hafter⟩ := sides_of_split hsplit
  have hheader := hchain.header r (hsplit ▸ List.mem_append_right _ List.mem_cons_self)
  rcases hr' with hr' | hr'
  · have := hbefore r' hr'
    exact setHeader_outside (by omega)
  · have := hafter r' hr'
    exact setHeader_outside (by omega)

include hchain hsplit in
theorem instanceId_ne_of_side {r' : ProtoRecord} (hr' : r' ∈ before ∨ r' ∈ after) :
    r'.instanceId ≠ r.instanceId := by
  have hdistinct := hchain.distinct
  rw [hsplit, List.map_append, List.map_cons, List.nodup_middle, List.nodup_cons, ← List.map_append]
    at hdistinct
  intro heq
  exact hdistinct.1 (heq ▸ List.mem_map_of_mem (List.mem_append.mpr hr'))

include hsplit in
theorem mem_sides (hid : r.instanceId = instanceId) {r' : ProtoRecord} (hr' : r' ∈ spay.records)
    (hne : r'.instanceId ≠ instanceId) : r' ∈ before ∨ r' ∈ after := by
  rw [hsplit, List.mem_append, List.mem_cons] at hr'
  rcases hr' with hr' | rfl | hr'
  · exact .inl hr'
  · exact absurd hid hne
  · exact .inr hr'

include hchain hsplit in
/-- The records that must be there are as many as there is room for. -/
theorem perm_of_keepsRecords (hid : r.instanceId = instanceId)
    (hkeeps : spay.KeepsRecords { spay with
      protoData := setHeader spay.protoData r.start instanceId protoSize } instanceId protoSize
        r.start) :
    (before ++ ⟨r.start, instanceId, protoSize⟩ :: after).Perm (records { spay with
      protoData := setHeader spay.protoData r.start instanceId protoSize }) := by
  have hids : (before ++ ⟨r.start, instanceId, protoSize⟩ :: after).map ProtoRecord.instanceId =
      spay.records.map ProtoRecord.instanceId := by
    rw [hsplit, List.map_append, List.map_append, List.map_cons, List.map_cons, hid]
  have hnodup := List.Nodup.of_map _ (hids ▸ hchain.distinct)
  have hkept : ∀ r', r' ∈ before ∨ r' ∈ after → r' ∈ records { spay with
      protoData := setHeader spay.protoData r.start instanceId protoSize } := fun r' hr' =>
    (hkeeps.others r' (by rw [hsplit, List.mem_append, List.mem_cons]; tauto)
      (hid ▸ instanceId_ne_of_side hchain hsplit hr')).1
  refine (List.subperm_of_subset hnodup fun r' hr' => ?_).perm_of_length_le ?_
  · rcases List.mem_append.mp hr' with hr' | hr'
    · exact hkept r' (.inl hr')
    · rcases List.mem_cons.mp hr' with rfl | hr'
      · exact hkeeps.reserved
      · exact hkept r' (.inr hr')
  · have hlen : spay.records.length = spay.protocolsIncluded.toNat := length_walk
    rw [hsplit, List.length_append, List.length_cons] at hlen
    rw [records, length_walk, List.length_append, List.length_cons, hlen]

include hchain hsplit in
/-- With another size the chain continues at another place, and loses a record there. -/
theorem not_keepsRecords_of_resize {r₂ : ProtoRecord} {rest : List ProtoRecord}
    (hafter : after = r₂ :: rest) (hid : r.instanceId = instanceId) (hsize : protoSize ≠ r.protoSize) :
    ¬spay.KeepsRecords { spay with
      protoData := setHeader spay.protoData r.start instanceId protoSize } instanceId protoSize
        r.start := by
  intro hkeeps
  obtain ⟨hbefore, hbehind⟩ := sides_of_split hsplit
  have hheader := hchain.header r (hsplit ▸ List.mem_append_right _ List.mem_cons_self)
  have hne : protoSize.toNat ≠ r.protoSize.toNat := fun h => hsize (UInt16.toNat_inj.mp h)
  obtain ⟨y, rest', hrecords, hy⟩ : ∃ y rest', records { spay with
      protoData := setHeader spay.protoData r.start instanceId protoSize } =
        before ++ ⟨r.start, instanceId, protoSize⟩ :: y :: rest' ∧
      y.start = r.start + protoSize.toNat := by
    rw [records_reuse hchain hsplit, hafter]
    exact ⟨_, _, rfl, rfl⟩
  have hnew : 4 ≤ protoSize.toNat := hkeeps.chain.header _ hkeeps.reserved
  have hperm := perm_of_keepsRecords hchain hsplit hid hkeeps
  rw [hrecords] at hperm
  have hmem : ∀ r', r' ∈ before ∨ r' = ⟨r.start, instanceId, protoSize⟩ ∨ r' ∈ after ↔
      r' ∈ before ∨ r' = ⟨r.start, instanceId, protoSize⟩ ∨ r' ∈ y :: rest' := fun r' => by
    simpa only [List.mem_append, List.mem_cons] using hperm.mem_iff (a := r')
  -- what is read behind the record can only be the record behind it, which is elsewhere
  have hlonger : r.protoSize.toNat < protoSize.toNat := by
    rcases (hmem y).mpr (.inr (.inr List.mem_cons_self)) with hmem | rfl | hmem
    · have := hbefore y hmem
      omega
    · dsimp only at hy
      omega
    · have := hbehind y hmem
      omega
  obtain ⟨-, hstart, hafter₂⟩ := walk_split hsplit
  have hr₂ : r₂.start = r.start + r.protoSize.toNat := by
    rw [hafter, List.length_cons, walk] at hafter₂
    rw [← (List.cons.inj hafter₂).1]
  have hbehind' := (sides_of_split hrecords).2
  rcases (hmem r₂).mp (.inr (.inr (hafter ▸ List.mem_cons_self))) with hmem | rfl | hmem
  · have := hbefore r₂ hmem
    omega
  · dsimp only at hr₂
    omega
  · have := hbehind' r₂ hmem
    dsimp only at this
    omega

include hchain hsplit in
theorem others_untouched (hid : r.instanceId = instanceId) {r' : ProtoRecord}
    (hr' : r' ∈ spay.records) (hne : r'.instanceId ≠ instanceId) {q : Nat} (hlow : r'.start ≤ q)
    (hhigh : q < r'.start + r'.protoSize.toNat) :
    setHeader spay.protoData r.start instanceId protoSize q = spay.protoData q :=
  setHeader_untouched hchain hsplit (mem_sides hsplit hid hr' hne) hlow hhigh

include hchain hsplit in
theorem keepsRecords_same (hid : r.instanceId = instanceId) :
    spay.KeepsRecords { spay with
      protoData := setHeader spay.protoData r.start instanceId r.protoSize } instanceId r.protoSize
        r.start := by
  have hsame : records { spay with
      protoData := setHeader spay.protoData r.start instanceId r.protoSize } = spay.records := by
    have hafter := (walk_split hsplit).2.2
    have hheader : ∀ r' ∈ after, 4 ≤ r'.protoSize.toNat := fun r' hr' =>
      hchain.header r' (hsplit ▸ List.mem_append_right _ (List.mem_cons_of_mem _ hr'))
    have hfirst := hchain.header r (hsplit ▸ List.mem_append_right _ List.mem_cons_self)
    rw [records_reuse hchain hsplit, hsplit, walk_congr (by rwa [hafter]) fun q hlow _ =>
      setHeader_outside (.inr (by omega)), hafter, ← hid]
  refine ⟨hsame ▸ hchain, ?_, fun r' hr' hne =>
    ⟨hsame ▸ hr', fun q => others_untouched hchain hsplit hid hr' hne⟩⟩
  rw [hsame, hsplit, ← hid]
  exact List.mem_append_right _ List.mem_cons_self

include hchain hsplit in
theorem keepsRecords_last (hid : r.instanceId = instanceId) (hnil : after = [])
    (hheader : 4 ≤ protoSize.toNat) (hinside : r.start + protoSize.toNat ≤ sizeofProtoData) :
    spay.KeepsRecords { spay with
      protoData := setHeader spay.protoData r.start instanceId protoSize } instanceId protoSize
        r.start := by
  have hrecords := records_reuse hchain hsplit instanceId protoSize
  rw [hnil, List.length_nil, walk] at hrecords
  have hold : ∀ r' ∈ before, r' ∈ spay.records := fun r' hr' =>
    hsplit ▸ List.mem_append_left _ hr'
  refine ⟨⟨?_, ?_, ?_⟩, ?_, fun r' hr' hne =>
    ⟨?_, fun q => others_untouched hchain hsplit hid hr' hne⟩⟩
  all_goals rw [hrecords]
  · simp only [List.forall_mem_append, List.forall_mem_singleton]
    exact ⟨fun r' hr' => hchain.header r' (hold r' hr'), hheader⟩
  · simp only [List.forall_mem_append, List.forall_mem_singleton]
    exact ⟨fun r' hr' => hchain.inside r' (hold r' hr'), hinside⟩
  · have hdistinct := hchain.distinct
    rw [hsplit, hnil, List.map_append, List.map_singleton, hid] at hdistinct
    rwa [List.map_append, List.map_singleton]
  · exact List.mem_append_right _ List.mem_cons_self
  · have hside := mem_sides hsplit hid hr' hne
    rw [hnil] at hside
    exact List.mem_append_left _ (hside.resolve_right List.not_mem_nil)

include hchain hsplit in
theorem keepsRecords_reuse_iff (hid : r.instanceId = instanceId) :
    spay.KeepsRecords { spay with
        protoData := setHeader spay.protoData r.start instanceId protoSize } instanceId protoSize
          r.start ↔
      protoSize = r.protoSize ∨ (spay.records.getLast? = some r ∧
        4 ≤ protoSize.toNat ∧ r.start + protoSize.toNat ≤ sizeofProtoData) := by
  constructor
  · intro hkeeps
    cases hafter : after with
    | nil =>
      refine .inr ⟨?_, hkeeps.chain.header _ hkeeps.reserved, hkeeps.chain.inside _ hkeeps.reserved⟩
      rw [hsplit, hafter, List.getLast?_concat]
    | cons r₂ rest =>
      by_contra hroom
      exact not_keepsRecords_of_resize hchain hsplit hafter hid (fun h => hroom (.inl h)) hkeeps
  · rintro (rfl | ⟨hlast, hheader, hinside⟩)
    · exact keepsRecords_same hchain hsplit hid
    · have hnil : after = [] := by
        by_contra hne
        have hr : r ∈ after := by
          obtain ⟨r₂, rest, rfl⟩ := List.exists_cons_of_ne_nil hne
          rw [hsplit, List.getLast?_append_cons, List.getLast?_cons_cons] at hlast
          exact List.mem_of_getLast? hlast
        exact instanceId_ne_of_side hchain hsplit (.inr hr) rfl
      exact keepsRecords_last hchain hsplit hid hnil hheader hinside

end Reuse

/-! ### An instance without one -/

theorem keepsRecords_new_iff (hchain : ChainInside spay.records)
    (hnew : ∀ r ∈ spay.records, r.instanceId ≠ instanceId) :
    spay.KeepsRecords
        { protocolsIncluded := spay.protocolsIncluded + 1
          protoData := setHeader spay.protoData (chainEnd 0 spay.records) instanceId protoSize }
        instanceId protoSize (chainEnd 0 spay.records) ↔
      4 ≤ protoSize.toNat ∧ chainEnd 0 spay.records + protoSize.toNat ≤ sizeofProtoData := by
  have hincluded : (spay.protocolsIncluded + 1).toNat = spay.protocolsIncluded.toNat + 1 := by
    have hcount : 0 + 4 * spay.protocolsIncluded.toNat ≤ chainEnd 0 spay.records :=
      le_chainEnd_walk hchain.header
    have hend : chainEnd 0 spay.records ≤ sizeofProtoData :=
      chainEnd_walk_le (Nat.zero_le _) hchain.inside
    have hsize : sizeofProtoData = 1416 := rfl
    have hone : (1 : UInt16).toNat = 1 := rfl
    rw [UInt16.toNat_add, hone]
    exact Nat.mod_eq_of_lt (by omega)
  have hrecords : records
      { protocolsIncluded := spay.protocolsIncluded + 1
        protoData := setHeader spay.protoData (chainEnd 0 spay.records) instanceId protoSize } =
      spay.records ++ [⟨chainEnd 0 spay.records, instanceId, protoSize⟩] := by
    rw [records, hincluded]
    exact walk_setHeader hchain.header instanceId protoSize 0
  constructor
  · intro hkeeps
    exact ⟨hkeeps.chain.header _ hkeeps.reserved, hkeeps.chain.inside _ hkeeps.reserved⟩
  · rintro ⟨hheader, hinside⟩
    refine ⟨⟨?_, ?_, ?_⟩, ?_, fun r hr _ => ⟨?_, fun q _ hhigh => ?_⟩⟩
    case refine_6 =>
      have hbound : r.start + r.protoSize.toNat ≤ chainEnd 0 spay.records := (bounds_of_mem_walk hr).2
      exact setHeader_outside (.inl (by omega))
    all_goals rw [hrecords]
    · simp only [List.forall_mem_append, List.forall_mem_singleton]
      exact ⟨hchain.header, hheader⟩
    · simp only [List.forall_mem_append, List.forall_mem_singleton]
      exact ⟨hchain.inside, hinside⟩
    · rw [List.map_append, List.map_singleton]
      refine hchain.distinct.append (List.nodup_singleton _) ?_
      rw [List.disjoint_singleton]
      intro hmem
      obtain ⟨r, hr, heq⟩ := List.mem_map.mp hmem
      exact hnew r hr heq
    · exact List.mem_append_right _ List.mem_cons_self
    · exact List.mem_append_left _ hr

/-- **A reservation keeps the chain exactly if there is room for it.** A record that is found again
must be the last one, or of the size it has; and what the size check lets through, but not into
`proto_data`, is lost. -/
theorem reserve_keeps_chain_iff (hchain : ChainInside spay.records) :
    spay.ReserveKeepsChain instanceId protoSize ↔ spay.RoomFor instanceId protoSize := by
  have hfindProto : findProto spay.protoData instanceId spay.protocolsIncluded.toNat 0 =
      match spay.records.find? (·.instanceId = instanceId) with
      | some r => (true, r.start)
      | none => (false, chainEnd 0 spay.records) := findProto_eq
  unfold ReserveKeepsChain RoomFor asgardReserveProto
  rw [hfindProto]
  cases hfind : spay.records.find? (·.instanceId = instanceId) with
  | some r =>
    obtain ⟨hid, before, after, hsplit, -⟩ := List.find?_eq_some_iff_append.mp hfind
    exact keepsRecords_reuse_iff hchain hsplit (of_decide_eq_true hid)
  | none =>
    have hnew : ∀ r ∈ spay.records, r.instanceId ≠ instanceId := fun r hr heq =>
      List.find?_eq_none.mp hfind r hr (decide_eq_true heq)
    have hend : chainEnd 0 spay.records ≤ sizeofProtoData :=
      chainEnd_walk_le (Nat.zero_le _) hchain.inside
    have hsize : sizeofProtoData = 1416 := rfl
    have hlt := protoSize.toNat_lt
    have hfull : i32 (chainEnd 0 spay.records + protoSize.toNat : Int) > maxAsgardPayloadBytes ↔
        maxAsgardPayloadBytes < chainEnd 0 spay.records + protoSize.toNat := by
      rw [i32_eq_self (by omega) (by omega), gt_iff_lt, ← Int.natCast_add, Int.ofNat_lt]
    dsimp only
    by_cases hroom : maxAsgardPayloadBytes < chainEnd 0 spay.records + protoSize.toNat
    · rw [if_pos (hfull.mpr hroom)]
      exact iff_of_true rfl (.inl hroom)
    · rw [if_neg (mt hfull.mp hroom), or_iff_right hroom]
      exact keepsRecords_new_iff hchain hnew

/-- An ALIVE and a ping. -/
def aliveAndPing : AsgardPayload :=
  ((ProtoTable.emptyPayload.asgardReserveProto 1 22).1.asgardReserveProto 2 30).1

theorem records_aliveAndPing : aliveAndPing.records = [⟨0, 1, 22⟩, ⟨22, 2, 30⟩] := by decide

theorem chainInside_aliveAndPing : ChainInside aliveAndPing.records := by
  rw [records_aliveAndPing]
  exact ⟨by decide, by decide, by decide⟩

theorem chainInside_emptyPayload : ChainInside ProtoTable.emptyPayload.records :=
  ⟨nofun, nofun, .nil⟩

/-- An APPEND of one entry in the place of the ALIVE puts the ping out of reach, and a record may end
one byte behind `proto_data`. -/
theorem reserve_loses_record :
    (ChainInside aliveAndPing.records ∧ ¬aliveAndPing.ReserveKeepsChain 1 28) ∧
      ChainInside ProtoTable.emptyPayload.records ∧ ¬ProtoTable.emptyPayload.ReserveKeepsChain 1 1417 := by
  refine ⟨⟨chainInside_aliveAndPing, fun hkeeps => ?_⟩, chainInside_emptyPayload, fun hkeeps => ?_⟩
  · have hkeeps : aliveAndPing.KeepsRecords (aliveAndPing.asgardReserveProto 1 28).1 1 28 0 := hkeeps
    exact absurd (hkeeps.others ⟨22, 2, 30⟩ (by decide) (by decide)).1 (by decide)
  · have hkeeps : ProtoTable.emptyPayload.KeepsRecords
        (ProtoTable.emptyPayload.asgardReserveProto 1 1417).1 1 1417 0 := hkeeps
    exact absurd (hkeeps.chain.inside _ hkeeps.reserved) (by decide)

theorem reserve_keeps_chain_iff_last : aliveAndPing.ReserveKeepsChain 2 40 :=
  (reserve_keeps_chain_iff chainInside_aliveAndPing).mpr (.inr ⟨by decide, by decide, by decide⟩)

end AsgardPayload

end XlaneLkm
