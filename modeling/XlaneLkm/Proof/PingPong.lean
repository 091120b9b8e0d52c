import XlaneLkm.PingPong
import XlaneLkm.Library.Run

/-!
# Rounds of ping pong

A node may write to the data of the rounds it has scheduled, and a pong repeats the numbers of its ping.
The round of a received pong is compared with the limit alone, and that one less strictly than a ping is
scheduled; both numbers go through variables of 16 bits.
-/

namespace XlaneLkm

open ByteMemory MachineInt
open Run (Meets meets_iff)

namespace Wire

variable {p : Nat} {opco : PpOpcode} {id t1 t2 : UInt64} {m : Nat → UInt8}

theorem readU64_of_read {q : Nat} {v : UInt64} (h : read m q 8 = v.toNat % 256 ^ 8) : readU64 m q = v := by
  have hv : v.toNat < 256 ^ 8 := v.toNat_lt
  rw [readU64, h, Nat.mod_eq_of_lt hv, UInt64.ofNat_toNat]

theorem setPpOpcode_n : readU64 (setPpOpcode p opco id t1 t2 m) (getPpNPtr p) = id := by
  apply readU64_of_read
  simp only [setPpOpcode, getPpNPtr]
  rw [read_write_of_disjoint (by omega), read_write_of_disjoint (by omega), read_write]

theorem setPpOpcode_t1 : readU64 (setPpOpcode p opco id t1 t2 m) (getPpT1Ptr p) = t1 := by
  apply readU64_of_read
  simp only [setPpOpcode, getPpT1Ptr]
  rw [read_write_of_disjoint (by omega), read_write]

/-- A field survives a variable of 16 bits if it fits. -/
theorem toUInt16_toUInt64_eq_iff (v : UInt64) : v.toUInt16.toUInt64 = v ↔ v.toNat < 65536 := by
  rw [← UInt64.toNat_inj, UInt16.toNat_toUInt64, UInt64.toNat_toUInt16]
  omega

end Wire

namespace PingPong

variable {pp : PingPong} {lid : Nat}

/-- All data written is of rounds that exist and are scheduled, for the registered targets. -/
def WithinRounds (pp : PingPong) : Prop :=
  ∀ r ∈ pp.written, r.targetLid < pp.numOfTargets →
    r.roundId < maxPingPongRoundTrips ∧ r.roundId < (pp.targetsRtMeta r.targetLid).scheduledPings

theorem update_scheduledPings (trips : Nat → PingPongRoundTrip) (receivedPongs : Nat)
    (data : Nat → PingRoundTrip) (i : Nat) :
    (Function.update trips lid ⟨receivedPongs, (trips lid).scheduledPings, data⟩ i).scheduledPings =
      (trips i).scheduledPings := by
  by_cases hi : i = lid
  · rw [hi, Function.update_self]
  · rw [Function.update_of_ne hi]

/-! ### Pongs -/

theorem handlePong_within_iff (h : pp.WithinRounds) (lid : Nat) (roundId : UInt16) (ots : UInt64) :
    (pp.handlePong lid roundId ots).WithinRounds ↔
      (lid < pp.numOfTargets → roundId.toNat > maxPingPongRoundTrips ∨
        roundId.toNat < maxPingPongRoundTrips ∧
          roundId.toNat < (pp.targetsRtMeta lid).scheduledPings) := by
  rw [handlePong]
  by_cases hlid : lid > pp.numOfTargets
  · rw [if_pos hlid]
    exact iff_of_true h fun hregistered => by omega
  rw [if_neg hlid]
  by_cases hrejected : roundId.toNat > maxPingPongRoundTrips
  · rw [if_pos hrejected]
    exact iff_of_true h fun _ => .inl hrejected
  rw [if_neg hrejected, or_iff_right hrejected]
  constructor
  · intro hwithin hregistered
    have hround := hwithin ⟨lid, roundId.toNat⟩ List.mem_cons_self hregistered
    dsimp only at hround
    rwa [update_scheduledPings] at hround
  · intro hround r hr hregistered
    dsimp only
    rw [update_scheduledPings]
    cases List.mem_cons.mp hr with
    | inl hnew =>
      rw [hnew] at hregistered ⊢
      exact hround hregistered
    | inr hold => exact h r hold hregistered

/-! ### Pings -/

theorem countPing_scheduledPings (pp : PingPong) (lid i : Nat) :
    ((pp.countPing lid).targetsRtMeta i).scheduledPings =
      (pp.targetsRtMeta i).scheduledPings + if i = lid then 1 else 0 := by
  rw [countPing]
  dsimp only
  by_cases hi : i = lid
  · rw [if_pos hi, hi, Function.update_self]
  · rw [if_neg hi, Function.update_of_ne hi, Nat.add_zero]

/-- A ping is stored in the round that is scheduled with it. -/
theorem countPing_within (h : pp.WithinRounds) (hlid : ¬lid > pp.numOfTargets)
    (hroom : ¬(pp.targetsRtMeta lid).scheduledPings ≥ maxPingPongRoundTrips) (ts1 : UInt64) :
    ((pp.addTs1ToLocalStore lid ts1).countPing lid).WithinRounds := by
  have hscheduled : ∀ i, (((pp.addTs1ToLocalStore lid ts1).countPing lid).targetsRtMeta i).scheduledPings =
      (pp.targetsRtMeta i).scheduledPings + if i = lid then 1 else 0 := by
    intro i
    rw [countPing_scheduledPings, addTs1ToLocalStore, if_neg hlid]
    dsimp only
    rw [if_neg hroom]
    exact congrArg (· + _) (update_scheduledPings _ _ _ i)
  have hwritten : ((pp.addTs1ToLocalStore lid ts1).countPing lid).written =
      ⟨lid, (pp.targetsRtMeta lid).scheduledPings⟩ :: pp.written := by
    rw [countPing, addTs1ToLocalStore, if_neg hlid]
    dsimp only
    rw [if_neg hroom]
  have htargets : ((pp.addTs1ToLocalStore lid ts1).countPing lid).numOfTargets = pp.numOfTargets := by
    rw [countPing, addTs1ToLocalStore, if_neg hlid]
    dsimp only
    rw [if_neg hroom]
  intro r hr hregistered
  rw [hscheduled]
  cases List.mem_cons.mp (hwritten ▸ hr) with
  | inl hnew =>
    rw [hnew, if_pos rfl]
    exact ⟨Nat.not_le.mp hroom, Nat.lt_succ_self _⟩
  | inr hold =>
    obtain ⟨hlimit, hround⟩ := h r hold (htargets ▸ hregistered)
    exact ⟨hlimit, Nat.lt_add_right _ hround⟩

theorem setupPingMsg_within (h : pp.WithinRounds) (spay : AsgardPayload) (targetLid : Nat) (ts1 : UInt64) :
    (pp.setupPingMsg spay targetLid ts1).1.1.WithinRounds := by
  rw [setupPingMsg]
  split
  · exact h
  split
  · exact h
  case isFalse hlid =>
    dsimp only
    split
    · exact h
    case isFalse hroom =>
      split
      · exact h
      · exact countPing_within h hlid hroom ts1

/-- The message is the record of a heartbeat, with the number of the round. -/
theorem setupPingMsg_record (ins : ProtoInstance) (hins : pp.instanceId = UInt16.ofNat ins.instanceId)
    (hrunning : pp.state = .running) (hlid : lid ≤ pp.numOfTargets)
    (hroom : (pp.targetsRtMeta lid).scheduledPings < maxPingPongRoundTrips) {spay spay' : AsgardPayload}
    {ts1 : UInt64} (hadd : spay.addRecord
      (.ping ins (UInt64.ofNat (pp.targetsRtMeta lid).scheduledPings) ts1) = some spay') :
    (pp.setupPingMsg spay lid ts1).1.2 = spay' := by
  rw [AsgardPayload.addRecord, SubRecord.typeVal, SubRecord.ping] at hadd
  rw [setupPingMsg, if_neg (not_not.mpr hrunning), if_neg (Nat.not_lt.mpr hlid)]
  dsimp only at hadd ⊢
  rw [if_neg (Nat.not_le.mpr hroom), hins]
  generalize spay.asgardReserveProto (UInt16.ofNat ins.instanceId) (UInt16.ofNat asgardProtoPpPayloadSz) =
    out at hadd ⊢
  obtain ⟨reserved, place⟩ := out
  cases place with
  | none => exact absurd hadd (Option.some_ne_none _).symm
  | some p => exact Option.some.inj hadd

/-! ### Packets -/

/-- The pong that is built for a ping repeats its round and its time stamp. -/
def Echoes (pp : PingPong) : PingPongEvent → Prop
  | .postPayload lid m payload ots spay =>
    pp.state = .running → lid < pp.numOfTargets →
      (Wire.readU16 m (Wire.getPpProtoOpcodePtr payload)).toNat = Wire.PpOpcode.ping.code →
        ∀ p ∈ (spay.asgardReserveProto pp.instanceId (UInt16.ofNat asgardProtoPpPayloadSz)).2,
          let pong := (pp.pingpongPostPayload lid m payload ots spay).2.protoData
          Wire.readU64 pong (Wire.getPpNPtr p) = Wire.readU64 m (Wire.getPpNPtr payload) ∧
            Wire.readU64 pong (Wire.getPpT1Ptr p) = Wire.readU64 m (Wire.getPpT1Ptr payload)
  | _ => True

/-- The numbers of a ping fit 16 bits, or there is no room for the pong. The low 16 bits of the round of
a pong are the number of a round that is scheduled, or too large. -/
def FitsRounds (pp : PingPong) : PingPongEvent → Prop
  | .postPayload lid m payload _ spay =>
    let opcode := (Wire.readU16 m (Wire.getPpProtoOpcodePtr payload)).toNat
    let n := (Wire.readU64 m (Wire.getPpNPtr payload)).toNat
    let t1 := (Wire.readU64 m (Wire.getPpT1Ptr payload)).toNat
    pp.state = .running → lid < pp.numOfTargets →
      (opcode = Wire.PpOpcode.ping.code →
        (spay.asgardReserveProto pp.instanceId (UInt16.ofNat asgardProtoPpPayloadSz)).2 = none ∨
          n < 65536 ∧ t1 < 65536) ∧
      (opcode = Wire.PpOpcode.pong.code →
        n % 65536 > maxPingPongRoundTrips ∨
          n % 65536 < maxPingPongRoundTrips ∧ n % 65536 < (pp.targetsRtMeta lid).scheduledPings)
  | _ => True

variable {m : Nat → UInt8} {payload : Nat} {ots : UInt64} {spay : AsgardPayload}

theorem echoes_of_not_ping
    (hping : (Wire.readU16 m (Wire.getPpProtoOpcodePtr payload)).toNat ≠ Wire.PpOpcode.ping.code) :
    pp.Echoes (.postPayload lid m payload ots spay) :=
  fun _ _ hopcode => absurd hopcode hping

theorem echoes_iff (hrunning : pp.state = .running)
    (hping : (Wire.readU16 m (Wire.getPpProtoOpcodePtr payload)).toNat = Wire.PpOpcode.ping.code) :
    pp.Echoes (.postPayload lid m payload ots spay) ↔ (lid < pp.numOfTargets →
      (spay.asgardReserveProto pp.instanceId (UInt16.ofNat asgardProtoPpPayloadSz)).2 = none ∨
        (Wire.readU64 m (Wire.getPpNPtr payload)).toNat < 65536 ∧
          (Wire.readU64 m (Wire.getPpT1Ptr payload)).toNat < 65536) := by
  simp only [Echoes, hrunning, hping, true_imp_iff, pingpongPostPayload, ne_eq, not_true_eq_false,
    if_false, if_true, setupPpMsg]
  apply forall_congr'
  intro hlid
  obtain ⟨spay', place⟩ := spay.asgardReserveProto pp.instanceId (UInt16.ofNat asgardProtoPpPayloadSz)
  cases place with
  | none => exact iff_of_true (fun p hp => absurd hp (Option.not_mem_none p)) (.inl rfl)
  | some p =>
    simp only [Option.mem_some_iff, forall_eq', reduceCtorEq, false_or]
    rw [Wire.setPpOpcode_n, Wire.setPpOpcode_t1, Wire.toUInt16_toUInt64_eq_iff, Wire.toUInt16_toUInt64_eq_iff]

theorem step_iff (h : pp.WithinRounds) (e : PingPongEvent) :
    (pp.step e).WithinRounds ∧ pp.Echoes e ↔ pp.FitsRounds e := by
  cases e with
  | start => exact iff_of_true ⟨h, trivial⟩ trivial
  | stop => exact iff_of_true ⟨h, trivial⟩ trivial
  | setupPing spay targetLid ts1 =>
    exact iff_of_true ⟨setupPingMsg_within h spay targetLid ts1, trivial⟩ trivial
  | postPayload lid m payload ots spay =>
    rw [step, pingpongPostPayload]
    by_cases hrunning : pp.state = .running
    · rw [if_neg (not_not.mpr hrunning)]
      dsimp only
      by_cases hping : (Wire.readU16 m (Wire.getPpProtoOpcodePtr payload)).toNat = Wire.PpOpcode.ping.code
      · rw [if_pos hping]
        have hcodes : Wire.PpOpcode.ping.code ≠ Wire.PpOpcode.pong.code := by decide
        rw [and_iff_right h, echoes_iff hrunning hping]
        constructor
        · intro hsize _ hlid
          exact ⟨fun _ => hsize hlid, fun hopcode => absurd (hping.symm.trans hopcode) hcodes⟩
        · exact fun hfits hlid => (hfits hrunning hlid).1 hping
      rw [if_neg hping, and_iff_left (echoes_of_not_ping hping)]
      by_cases hpong : (Wire.readU16 m (Wire.getPpProtoOpcodePtr payload)).toNat = Wire.PpOpcode.pong.code
      · rw [if_pos hpong, handlePong_within_iff h, UInt64.toNat_toUInt16]
        constructor
        · intro hround _ hlid
          exact ⟨fun hopcode => absurd hopcode hping, fun _ => hround hlid⟩
        · exact fun hfits hlid => (hfits hrunning hlid).2 hpong
      · rw [if_neg hpong]
        exact iff_of_true h fun _ _ => ⟨fun hopcode => absurd hopcode hping, fun hopcode => absurd hopcode hpong⟩
    · rw [if_pos hrunning]
      exact iff_of_true ⟨h, fun hstate => absurd hstate hrunning⟩ fun hstate => absurd hstate hrunning

/-- **Ping pong.** From any state on, the packets of a run touch only existing rounds and are answered
unchanged if and only if all of them fit. -/
theorem rounds_exist_iff (pp : PingPong) (events : List PingPongEvent) :
    Meets step (fun pp e => (pp.step e).WithinRounds ∧ pp.Echoes e) { pp with written := [] } events ↔
      Meets step FitsRounds { pp with written := [] } events :=
  meets_iff step (fun _ e h => step_iff h e) (fun _ e h hfits => ((step_iff h e).mpr hfits).1)
    (fun r hr => absurd hr (List.not_mem_nil (a := r))) events

def pastLastRound (q : Nat) : UInt8 := if q = 4 then 11 else if q = 7 then 1 else 0

/-- **A pong of round 256** is written behind the last round. -/
theorem pong_past_last_round : ¬∀ (pp : PingPong) (events : List PingPongEvent),
    Meets step (fun pp e => (pp.step e).WithinRounds ∧ pp.Echoes e) { pp with written := [] } events := by
  intro hall
  have hmeets := hall (pingpongInit 3 2 fun _ => ⟨0, 0, fun _ => ⟨0, 0, 0⟩⟩)
    [.start, .postPayload 0 pastLastRound 0 0 ⟨0, fun _ => 0⟩]
  have hround := hmeets.2.1.1 ⟨0, 256⟩ (by decide) (by decide)
  exact absurd hround.1 (by decide)

end PingPong

end XlaneLkm
