import XlaneLkm.Proto
import XlaneLkm.Library.Run
import Mathlib.Algebra.Order.Ring.Nat

/-!
# The registry of protocol instances

What `get_proto_instance` finds, against what has been registered with success. A failed `init` leaves
the mapping of its id behind, and the next instance moves into the slot; an id above the number of
instances is not looked up at all.
-/

namespace XlaneLkm

open ProtoTable Run

/-- The table, and what was registered with success since it was cleared. -/
structure Registry where
  table : ProtoTable
  registered : Fin maxProtoInstances → Option ProtoInstance

namespace Registry

def start (t : ProtoTable) : Registry := ⟨t.init, fun _ => none⟩

/-- The calls that register or clear something. -/
def note (s : Registry) : Setting → Fin maxProtoInstances → Option ProtoInstance
  | .register instanceId protocolId initOk =>
    if (s.table.registerProtocolInstance instanceId protocolId initOk).2 then
      Function.update s.registered instanceId
        ((generateProtocolInstance protocolId).map (ProtoInstance.mk instanceId))
    else s.registered
  | .clear emitting => if emitting then s.registered else fun _ => none

def step (s : Registry) (setting : Setting) : Registry :=
  ⟨s.table.configure setting, s.note setting⟩

/-- `get_proto_instance` for an id within the table. -/
def lookup (t : ProtoTable) (instanceId : Fin maxProtoInstances) : Option ProtoInstance :=
  t.getProtoInstance (UInt16.ofNat instanceId)

/-- Every lookup is right, and no instance answers to two ids. -/
structure Exact (s : Registry) : Prop where
  lookup_eq : ∀ instanceId, lookup s.table instanceId = s.registered instanceId
  distinct : ∀ id id' ins, lookup s.table id = some ins → lookup s.table id' = some ins → id = id'

/-- A failed registration leaves everything that counts as it was. -/
def KeepsFailed (s : Registry) : Setting → Prop
  | .register instanceId protocolId initOk =>
    (s.table.registerProtocolInstance instanceId protocolId initOk).2 = false →
      let t := (s.table.registerProtocolInstance instanceId protocolId initOk).1
      (∀ id, lookup t id = lookup s.table id) ∧
        t.instanceIdMapping = s.table.instanceIdMapping ∧
        t.numOfProtoInstances = s.table.numOfProtoInstances
  | .clear _ => True

def Behaves (s : Registry) (setting : Setting) : Prop :=
  s.KeepsFailed setting ∧ (s.step setting).Exact

/-- The registration gets to `init`: there is room, the id is free, and the protocol is known. -/
def reachesInit (t : ProtoTable) (instanceId : Fin maxProtoInstances) (protocolId : Int) : Prop :=
  t.numOfProtoInstances < maxProtoInstances ∧ t.instanceIdMapping instanceId = -1 ∧
    (generateProtocolInstance protocolId).isSome

/-- If it gets there, `init` succeeds, and the id is at most the number of instances with the new one. -/
def completes (s : Registry) : Setting → Prop
  | .register instanceId protocolId initOk => reachesInit s.table instanceId protocolId →
      initOk = true ∧ instanceId ≤ s.table.numOfProtoInstances + 1
  | .clear _ => True

variable {s : Registry} {t t' : ProtoTable} {instanceId : Fin maxProtoInstances} {protocolId : Int}

/-! ### One registration -/

theorem register_of_not_reachesInit (initOk : Bool) (h : ¬reachesInit t instanceId protocolId) :
    ∃ protos, t.registerProtocolInstance instanceId protocolId initOk =
        ({ t with protos := protos }, false) ∧
      ∀ idx < t.numOfProtoInstances, protos idx = t.protos idx := by
  unfold registerProtocolInstance
  dsimp only
  split
  · exact ⟨t.protos, rfl, fun _ _ => rfl⟩
  case isFalse hroom =>
  split
  · exact ⟨t.protos, rfl, fun _ _ => rfl⟩
  case isFalse hfree =>
  cases hproto : generateProtocolInstance protocolId with
  | none => exact ⟨_, rfl, fun idx hidx => Function.update_of_ne hidx.ne _ _⟩
  | some protoType =>
    exact absurd ⟨not_le.mp hroom, not_not.mp hfree, hproto ▸ rfl⟩ h

theorem register_of_reachesInit (initOk : Bool) (h : reachesInit t instanceId protocolId) :
    ∃ protoType, generateProtocolInstance protocolId = some protoType ∧
      t.registerProtocolInstance instanceId protocolId initOk =
        ({ numOfProtoInstances := t.numOfProtoInstances + if initOk then 1 else 0
           instanceIdMapping :=
            Function.update t.instanceIdMapping instanceId t.numOfProtoInstances
           protos :=
            Function.update t.protos t.numOfProtoInstances (some ⟨instanceId, protoType⟩) },
          initOk) := by
  obtain ⟨hroom, hfree, hproto⟩ := h
  obtain ⟨protoType, hproto⟩ := Option.isSome_iff_exists.mp hproto
  refine ⟨protoType, hproto, ?_⟩
  simp only [registerProtocolInstance, if_neg (not_le.mpr hroom), hfree, ne_eq, not_true_eq_false,
    if_false, hproto]
  cases initOk
  · rfl
  · rfl

/-! ### Lookups -/

theorem lookup_eq (t : ProtoTable) (instanceId : Fin maxProtoInstances) :
    lookup t instanceId =
      if t.numOfProtoInstances = 0 ∨ t.numOfProtoInstances < instanceId ∨
          t.instanceIdMapping instanceId < 0 ∨
          t.instanceIdMapping instanceId ≥ t.numOfProtoInstances then none
      else t.protos (t.instanceIdMapping instanceId).toNat := by
  have hid : (UInt16.ofNat instanceId).toNat = instanceId := by
    have hlt : instanceId.val < 8 := instanceId.isLt
    rw [UInt16.toNat_ofNat']
    omega
  simp only [lookup, getProtoInstance, hid, gt_iff_lt]
  split_ifs <;> first | rfl | omega

theorem lookup_congr (hnum : t'.numOfProtoInstances = t.numOfProtoInstances)
    (hmapping : t'.instanceIdMapping = t.instanceIdMapping)
    (hprotos : ∀ idx < t.numOfProtoInstances, t'.protos idx = t.protos idx) :
    lookup t' instanceId = lookup t instanceId := by
  rw [lookup_eq, lookup_eq, hnum, hmapping]
  split
  · rfl
  · exact hprotos _ (by omega)

/-! ### The invariant -/

/-- Exactly the registered ids are mapped, each to a counted slot that holds its instance. -/
structure Settled (s : Registry) : Prop where
  num_le : s.table.numOfProtoInstances ≤ maxProtoInstances
  free : ∀ instanceId, s.registered instanceId = none → s.table.instanceIdMapping instanceId = -1
  taken : ∀ instanceId ins, s.registered instanceId = some ins → ins.instanceId = instanceId ∧
    instanceId ≤ s.table.numOfProtoInstances ∧
    ∃ idx < s.table.numOfProtoInstances,
      s.table.instanceIdMapping instanceId = idx ∧ s.table.protos idx = some ins

theorem unmapAll_eq (mapping : Nat → Int) (instanceId : Fin maxProtoInstances) :
    unmapAll mapping instanceId = -1 := if_pos instanceId.isLt

theorem settled_start (t : ProtoTable) : (start t).Settled where
  num_le := Nat.zero_le _
  free instanceId _ := unmapAll_eq t.instanceIdMapping instanceId
  taken _ _ h := by cases h

theorem Settled.exact (h : s.Settled) : s.Exact := by
  have hlookup : ∀ instanceId, lookup s.table instanceId = s.registered instanceId := by
    intro instanceId
    rw [lookup_eq]
    cases hregistered : s.registered instanceId with
    | none =>
      have hfree := h.free instanceId hregistered
      exact if_pos (by omega)
    | some ins =>
      obtain ⟨-, hle, idx, hlt, hmap, hproto⟩ := h.taken instanceId ins hregistered
      rw [if_neg (by omega), hmap, Int.toNat_natCast, hproto]
  refine ⟨hlookup, fun id id' ins hid hid' => ?_⟩
  rw [hlookup] at hid hid'
  exact (h.taken id ins hid).1.symm.trans (h.taken id' ins hid').1

/-- A registration that does not reach `init` changes nothing that counts. -/
theorem Settled.refused (h : s.Settled) (initOk : Bool)
    (hreach : ¬reachesInit s.table instanceId protocolId) :
    s.Behaves (.register instanceId protocolId initOk) ∧
      (s.step (.register instanceId protocolId initOk)).Settled := by
  obtain ⟨protos, heq, hprotos⟩ := register_of_not_reachesInit initOk hreach
  have hstep : s.step (.register instanceId protocolId initOk) =
      ⟨{ s.table with protos := protos }, s.registered⟩ := by
    simp only [step, configure, note, heq, Bool.false_eq_true, if_false]
  have hsettled : (s.step (.register instanceId protocolId initOk)).Settled := by
    rw [hstep]
    refine ⟨h.num_le, h.free, fun id ins hid => ?_⟩
    obtain ⟨hins, hle, idx, hlt, hmap, hproto⟩ := h.taken id ins hid
    exact ⟨hins, hle, idx, hlt, hmap, (hprotos idx hlt).trans hproto⟩
  refine ⟨⟨fun _ => ?_, hsettled.exact⟩, hsettled⟩
  rw [heq]
  exact ⟨fun id => lookup_congr rfl rfl hprotos, rfl, rfl⟩

theorem Settled.registers (h : s.Settled) (hreach : reachesInit s.table instanceId protocolId)
    (hle : instanceId ≤ s.table.numOfProtoInstances + 1) :
    (s.step (.register instanceId protocolId true)).Settled := by
  obtain ⟨protoType, hproto, heq⟩ := register_of_reachesInit true hreach
  simp only [step, configure, note, heq, if_true, hproto, Option.map_some]
  constructor
  · exact hreach.1
  · intro id hid
    dsimp only at hid
    have hne : id ≠ instanceId := by
      rintro rfl
      rw [Function.update_self] at hid
      cases hid
    rw [Function.update_of_ne hne] at hid
    have hval : (id : Nat) ≠ instanceId := fun heq => hne (Fin.ext heq)
    exact (Function.update_of_ne hval _ _).trans (h.free id hid)
  · intro id ins hid
    dsimp only at hid
    by_cases hsame : id = instanceId
    · subst hsame
      rw [Function.update_self] at hid
      obtain rfl := Option.some.inj hid
      exact ⟨rfl, hle, s.table.numOfProtoInstances, Nat.lt_succ_self _, Function.update_self ..,
        Function.update_self ..⟩
    · rw [Function.update_of_ne hsame] at hid
      obtain ⟨hins, hle, idx, hlt, hmap, hproto⟩ := h.taken id ins hid
      have hval : (id : Nat) ≠ instanceId := fun heq => hsame (Fin.ext heq)
      exact ⟨hins, Nat.le_succ_of_le hle, idx, Nat.lt_succ_of_lt hlt,
        (Function.update_of_ne hval _ _).trans hmap,
        (Function.update_of_ne hlt.ne _ _).trans hproto⟩

theorem Settled.clears (h : s.Settled) (emitting : Bool) :
    (s.step (.clear emitting)).Settled := by
  simp only [step, configure, note, clearProtocolInstances, if_neg (not_lt.mpr h.num_le)]
  cases emitting
  · exact settled_start s.table
  · exact h

/-- What breaks when a registration reaches `init` and does not complete. -/
theorem Behaves.completes (initOk : Bool)
    (hreach : reachesInit s.table instanceId protocolId)
    (hbehaves : s.Behaves (.register instanceId protocolId initOk)) :
    initOk = true ∧ instanceId ≤ s.table.numOfProtoInstances + 1 := by
  obtain ⟨protoType, hproto, heq⟩ := register_of_reachesInit initOk hreach
  obtain ⟨hkeeps, hexact⟩ := hbehaves
  cases initOk with
  | false =>
    -- the mapping of the id stays behind
    rw [KeepsFailed, heq] at hkeeps
    have hmap := congrFun (hkeeps rfl).2.1 instanceId
    dsimp only at hmap
    rw [Function.update_self, hreach.2.1] at hmap
    omega
  | true =>
    refine ⟨rfl, ?_⟩
    have hlookup := hexact.lookup_eq instanceId
    simp only [step, configure, note, heq, if_true, hproto, Option.map_some, Function.update_self]
      at hlookup
    by_contra hgt
    rw [lookup_eq, if_pos (by dsimp only; omega)] at hlookup
    cases hlookup

theorem Settled.behaves_iff (h : s.Settled) (setting : Setting) :
    s.Behaves setting ↔ s.completes setting := by
  cases setting with
  | register instanceId protocolId initOk =>
    constructor
    · exact fun hbehaves hreach => Behaves.completes initOk hreach hbehaves
    · intro hcompletes
      by_cases hreach : reachesInit s.table instanceId protocolId
      · obtain ⟨rfl, hle⟩ := hcompletes hreach
        obtain ⟨protoType, -, heq⟩ := register_of_reachesInit true hreach
        refine ⟨fun hfailed => ?_, (h.registers hreach hle).exact⟩
        rw [heq] at hfailed
        cases hfailed
      · exact (h.refused initOk hreach).1
  | clear emitting => exact iff_of_true ⟨trivial, (h.clears emitting).exact⟩ trivial

theorem Settled.step (h : s.Settled) {setting : Setting} (hcompletes : s.completes setting) :
    (s.step setting).Settled := by
  cases setting with
  | register instanceId protocolId initOk =>
    by_cases hreach : reachesInit s.table instanceId protocolId
    · obtain ⟨rfl, hle⟩ := hcompletes hreach
      exact h.registers hreach hle
    · exact (h.refused initOk hreach).2
  | clear emitting => exact h.clears emitting

/-- **The registry is exact in the runs without a half registration**: whenever a registration gets to
`init`, that succeeds, and the id is not above the number of instances. -/
theorem registry_exact_iff (t : ProtoTable) (settings : List Setting) :
    Meets Registry.step Behaves (start t) settings ↔
      Meets Registry.step completes (start t) settings :=
  meets_iff Registry.step (fun _ setting h => h.behaves_iff setting) (fun _ _ h => h.step)
    (settled_start t) settings

/-- `init` of the instance with id 0 fails; then both ids find the instance with id 1. -/
theorem failed_init_shares_slot :
    ¬Meets Registry.step Behaves (start emptyTable) [.register 0 2 false, .register 1 3 true] ∧
      lookup (run Registry.step (start emptyTable) [.register 0 2 false, .register 1 3 true]).table 0 =
        some ⟨1, .pp⟩ ∧
      lookup (run Registry.step (start emptyTable) [.register 0 2 false, .register 1 3 true]).table 1 =
        some ⟨1, .pp⟩ := by
  refine ⟨fun hmeets => ?_, by decide, by decide⟩
  have hdistinct := hmeets.2.1.2.distinct 0 1 ⟨1, .pp⟩ (by decide) (by decide)
  exact absurd hdistinct (by decide)

end Registry

end XlaneLkm
