import XlaneLkm.Proof.WireRecord
import XlaneLkm.Proof.Posts

/-!
# The payloads of a node

The first record of every payload a node prepares, queues or emits is one of the messages it has sent
to that receiver, or not a message of the consensus protocol at all. Records that are added later stay
behind it.
-/

namespace XlaneLkm

open ByteMemory MachineInt

namespace Wire

variable {m m' : Nat → UInt8} {S S' : ConRecord → Prop}

/-- The first record is a message of `S`, or none of the consensus protocol. -/
def Heads (S : ConRecord → Prop) (m : Nat → UInt8) : Prop :=
  (conRecord m 0).opcodeVal = none ∨ ∃ r, S r ∧ SameMessage (conRecord m 0) r

/-- What a receiver reads of the first record lies before `bound`. -/
def HeadWithin (m : Nat → UInt8) (bound : Nat) : Prop := recordEnd (conRecord m 0) ≤ bound

theorem Heads.mono (h : Heads S m) (hS : ∀ r, S r → S' r) : Heads S' m :=
  h.imp_right fun ⟨r, hr, hsame⟩ => ⟨r, hS r hr, hsame⟩

theorem SameMessage.trans {r r' r'' : ConRecord} (h : SameMessage r r') (h' : SameMessage r' r'') :
    SameMessage r r'' := by
  have hop := h.opcodeVal
  constructor
  · exact hop.trans h'.opcodeVal
  · exact fun hne => (h.param1 hne).trans (h'.param1 (hop ▸ hne))
  · exact fun hne => (h.param2 hne).trans (h'.param2 (hop ▸ hne))
  · exact fun hne => (h.param3 hne).trans (h'.param3 (hop ▸ hne))
  · exact fun hne => (h.param4 hne).trans (h'.param4 (hop ▸ hne))
  · exact fun happend => (h.pktSize happend).trans (h'.pktSize (hop ▸ happend))
  · exact fun happend => (h.leaderCommitIdx happend).trans (h'.leaderCommitIdx (hop ▸ happend))
  · exact fun happend => (h.numEntries happend).trans (h'.numEntries (hop ▸ happend))
  · intro happend k hk
    exact (h.entries happend k hk).trans (h'.entries (hop ▸ happend) k (h.numEntries happend ▸ hk))

theorem headWithin_min (h : HeadWithin m bound) : 22 ≤ bound := by
  unfold HeadWithin recordEnd at h
  split at h <;> omega

/-- What stands behind the first record does not matter. -/
theorem conRecord_congr {bound : Nat} (hwithin : HeadWithin m bound)
    (h : ∀ q < bound, m' q = m q) : SameMessage (conRecord m' 0) (conRecord m 0) := by
  have hbound := headWithin_min hwithin
  have hparams : HasParams m' 0 (conRecord m 0) :=
    HasParams.congr ⟨rfl, rfl, rfl, rfl, rfl⟩ fun q _ hhigh => h q (by omega)
  have hop := hparams.opcodeVal
  have hend : (conRecord m' 0).opcodeVal = some .append →
      30 + asgChunkSize * (conRecord m 0).numEntries.toNat ≤ bound := by
    intro happend
    rw [HeadWithin, recordEnd, if_pos (hop ▸ happend)] at hwithin
    exact hwithin
  refine ⟨hop, fun _ => hparams.param1, fun _ => hparams.param2, fun _ => hparams.param3,
    fun _ => hparams.param4, fun _ => ?_, fun happend => ?_, fun happend => ?_, fun happend k hk => ?_⟩
  · exact (header_congr fun q _ hhigh => h q (by omega)).2
  · have := hend happend
    exact congrArg UInt32.ofNat (read_congr fun q _ hhigh => h q (by
      simp only [getConAePrevLeaderCommitIdxPtr] at hhigh
      omega))
  · have := hend happend
    exact congrArg UInt32.ofNat (read_congr fun q _ hhigh => h q (by
      simp only [getConAeNumEntriesPtr] at hhigh
      omega))
  · have hlast := hend happend
    have hnum : (conRecord m' 0).numEntries = (conRecord m 0).numEntries :=
      congrArg UInt32.ofNat (read_congr fun q _ hhigh => h q (by
        simp only [getConAeNumEntriesPtr] at hhigh
        omega))
    have hmul : asgChunkSize * (k + 1) ≤ asgChunkSize * (conRecord m 0).numEntries.toNat :=
      Nat.mul_le_mul_left _ (hnum ▸ hk)
    refine chunkAt_congr fun b hb => h _ ?_
    simp only [getConProtoEntriesStartPtr]
    rw [Nat.mul_succ] at hmul
    omega

theorem Heads.congr {bound : Nat} (h : Heads S m) (hwithin : HeadWithin m bound)
    (hsame : ∀ q < bound, m' q = m q) : Heads S m' := by
  have hrecord := conRecord_congr hwithin hsame
  rcases h with hnone | ⟨r, hr, hmessage⟩
  · exact .inl (hrecord.opcodeVal.trans hnone)
  · exact .inr ⟨r, hr, SameMessage.trans hrecord hmessage⟩

theorem HeadWithin.congr {bound : Nat} (h : HeadWithin m bound) (hsame : ∀ q < bound, m' q = m q) :
    HeadWithin m' bound := by
  have hrecord := conRecord_congr h hsame
  unfold HeadWithin recordEnd at *
  rw [hrecord.opcodeVal]
  split at h
  case isTrue happend =>
    rw [hrecord.numEntries (hrecord.opcodeVal.trans happend)]
    simp only [happend, if_true]
    exact h
  case isFalse hne =>
    rw [if_neg hne]
    exact h

end Wire

open Wire

/-- A payload that still takes records. -/
structure Carries (S : ConRecord → Prop) (spay : AsgardPayload) : Prop where
  heads : spay.protocolsIncluded ≠ 0 → Heads S spay.protoData
  within : spay.protocolsIncluded ≠ 0 → HeadWithin spay.protoData 22
  offset : spay.protocolsIncluded ≠ 0 → 22 ≤ (getProtoOffsetVal spay.protoData 0).toNat

/-- A payload on its way: the first record lies within what is transmitted. -/
structure Delivers (S : ConRecord → Prop) (spay : AsgardPayload) : Prop where
  heads : spay.protocolsIncluded ≠ 0 → Heads S spay.protoData
  within : spay.protocolsIncluded ≠ 0 → HeadWithin spay.protoData sizeofProtoData

variable {S S' : ConRecord → Prop} {spay : AsgardPayload}

theorem carries_zero : Carries S .zero :=
  ⟨fun h => absurd rfl h, fun h => absurd rfl h, fun h => absurd rfl h⟩

theorem Carries.mono (h : Carries S spay) (hS : ∀ r, S r → S' r) : Carries S' spay :=
  ⟨fun hne => (h.heads hne).mono hS, h.within, h.offset⟩

theorem Delivers.mono (h : Delivers S spay) (hS : ∀ r, S r → S' r) : Delivers S' spay :=
  ⟨fun hne => (h.heads hne).mono hS, h.within⟩

theorem Carries.delivers (h : Carries S spay) : Delivers S spay :=
  ⟨h.heads, fun hne => (h.within hne).trans (by decide)⟩

/-! ### Adding a record -/

theorem findProto_ge (m : Nat → UInt8) (instanceId : UInt16) (k p : Nat) :
    p ≤ (AsgardPayload.findProto m instanceId k p).2 := by
  induction k generalizing p with
  | zero => exact le_rfl
  | succ k ih =>
    unfold AsgardPayload.findProto
    split
    · exact le_rfl
    · exact (Nat.le_add_right p _).trans (ih _)

/-- The record a protocol gets is the first one or stands behind it. -/
theorem findProto_first (m : Nat → UInt8) (instanceId : UInt16) {k : Nat}
    (h : k ≠ 0 → 22 ≤ (getProtoOffsetVal m 0).toNat) :
    (AsgardPayload.findProto m instanceId k 0).2 = 0 ∨
      k ≠ 0 ∧ 22 ≤ (AsgardPayload.findProto m instanceId k 0).2 := by
  cases k with
  | zero => exact .inl rfl
  | succ k =>
    unfold AsgardPayload.findProto
    split
    · exact .inl rfl
    · refine .inr ⟨k.succ_ne_zero, (h k.succ_ne_zero).trans ?_⟩
      rw [Nat.zero_add]
      exact findProto_ge m instanceId k _

/-- What a protocol writes into its record, so that the payload still takes records. -/
structure Fills (S : ConRecord → Prop) (protoSize : UInt16)
    (fill : Nat → (Nat → UInt8) → Nat → UInt8) : Prop where
  size : 22 ≤ protoSize.toNat
  before : ∀ p m q, q < p + 4 → fill p m q = m q
  heads : ∀ m, Heads S (fill 0 m)
  within : ∀ m, HeadWithin (fill 0 m) 22

theorem Carries.put (h : Carries S spay) (instanceId : UInt16) {protoSize : UInt16}
    {fill : Nat → (Nat → UInt8) → Nat → UInt8} (hfill : Fills S protoSize fill) :
    Carries S (spay.put instanceId protoSize fill) := by
  have hcount : spay.protocolsIncluded.toNat ≠ 0 → spay.protocolsIncluded ≠ 0 := by
    intro hne hzero
    rw [hzero] at hne
    exact hne rfl
  have hplace := findProto_first spay.protoData instanceId fun hne => h.offset (hcount hne)
  -- at the start the new record is the first one, anywhere else the first one stays
  have hwrite : ∀ included p, p = 0 ∨ spay.protocolsIncluded.toNat ≠ 0 ∧ 22 ≤ p → Carries S
      ⟨included, fill p (setHeader spay.protoData p instanceId protoSize)⟩ := by
    rintro included p (rfl | ⟨hne, hp⟩)
    · refine ⟨fun _ => hfill.heads _, fun _ => hfill.within _, fun _ => ?_⟩
      have hoffset : getProtoOffsetVal (fill 0 (setHeader spay.protoData 0 instanceId protoSize)) 0 =
          protoSize := by
        rw [(header_congr fun q _ hhigh =>
          hfill.before 0 (setHeader spay.protoData 0 instanceId protoSize) q hhigh).2]
        exact (header_setHeader spay.protoData 0 instanceId protoSize).2
      rw [hoffset]
      exact hfill.size
    · have hsame : ∀ q < 22, fill p (setHeader spay.protoData p instanceId protoSize) q =
          spay.protoData q := by
        intro q hq
        rw [hfill.before _ _ _ (by omega), setHeader_outside (.inl (by omega))]
      have hold := hcount hne
      refine ⟨fun _ => (h.heads hold).congr (h.within hold) hsame,
        fun _ => (h.within hold).congr hsame, fun _ => ?_⟩
      rw [(header_congr fun q _ hhigh => hsame q (by omega)).2]
      exact h.offset hold
  unfold AsgardPayload.put AsgardPayload.asgardReserveProto
  generalize AsgardPayload.findProto spay.protoData instanceId spay.protocolsIncluded.toNat 0 = found
    at hplace
  obtain ⟨reused, p⟩ := found
  cases reused with
  | true => exact hwrite _ p hplace
  | false =>
    dsimp only
    split_ifs
    · exact h
    · exact hwrite _ p hplace

theorem fills_putRecord {r : ConRecord} (hr : S r) (hop : r.opcodeVal ≠ some .append) :
    Fills S (UInt16.ofNat asgardProtoConPayloadSz) fun p => putRecord p r := by
  have hread := fun m => hasParams_putRecord 0 r m
  refine ⟨le_rfl, fun p m q hq => putRecord_outside (.inl hq), fun m => .inr ⟨r, hr, ?_⟩, fun m => ?_⟩
  · exact (hread m).sameMessage hop
  · rw [HeadWithin, recordEnd, (hread m).opcodeVal, if_neg hop]

theorem fills_setPpOpcode (r : PpRecord) : Fills S (UInt16.ofNat asgardProtoPpPayloadSz) fun p =>
    setPpOpcode p r.opcode r.id r.t1 r.t2 := by
  have hcode : r.opcode.code < 65536 := by cases r.opcode <;> decide
  have hread : ∀ m, (conRecord (setPpOpcode 0 r.opcode r.id r.t1 r.t2 m) 0).opcodeVal = none := by
    intro m
    have hopcode : (conRecord (setPpOpcode 0 r.opcode r.id r.t1 r.t2 m) 0).opcode =
        UInt16.ofNat r.opcode.code := by
      simp (disch := first | omega | exact hcode) only [conRecord, setPpOpcode, getConProtoOpcodePtr,
        Nat.zero_add, Nat.reduceAdd, readU16_write_of_disjoint, readU16_write]
    rw [ConRecord.opcodeVal, hopcode]
    cases r.opcode <;> rfl
  refine ⟨by decide, fun p m q hq => ?_, fun m => .inl (hread m), fun m => ?_⟩
  · simp only [setPpOpcode]
    iterate 4 rw [write_outside (by omega)]
  · rw [HeadWithin, recordEnd, hread m, if_neg (by simp)]

theorem fills_setLeOpcodeAd {r : ConRecord} (hr : S r) (hop : r.opcodeVal = some .advertise)
    (clusterId selfIp : Int) (selfMac : Vector UInt8 6) :
    Fills S (UInt16.ofNat asgardProtoConPayloadSz) fun p =>
      Wire.setLeOpcodeAd p .advertise clusterId selfIp selfMac := by
  have hread : ∀ m, (conRecord (Wire.setLeOpcodeAd 0 .advertise clusterId selfIp selfMac m) 0).opcodeVal =
      some .advertise := by
    intro m
    have hopcode : (conRecord (Wire.setLeOpcodeAd 0 .advertise clusterId selfIp selfMac m) 0).opcode =
        UInt16.ofNat LeOpcode.advertise.code := by
      have hcopy : ∀ (m : Nat → UInt8) bytes, readU16 (copy m 14 6 bytes) 4 = readU16 m 4 :=
        fun m bytes => congrArg UInt16.ofNat (read_copy_of_disjoint (.inl (by omega)))
      simp (disch := first | omega | decide) only [conRecord, Wire.setLeOpcodeAd, getConProtoOpcodePtr,
        getConProtoParam1Ptr, getConProtoParam2Ptr, getConProtoParam3Ptr, Nat.zero_add, Nat.reduceAdd,
        hcopy, readU16_write_of_disjoint, readU16_write]
    rw [ConRecord.opcodeVal, hopcode]
    rfl
  refine ⟨le_rfl, fun p m q hq => ?_, fun m => .inr ⟨r, hr, ?_⟩, fun m => ?_⟩
  · simp only [Wire.setLeOpcodeAd, getConProtoOpcodePtr, getConProtoParam1Ptr, getConProtoParam2Ptr,
      getConProtoParam3Ptr]
    rw [copy_outside (by omega), write_outside (by omega), write_outside (by omega),
      write_outside (by omega)]
  · have hne : (conRecord (Wire.setLeOpcodeAd 0 .advertise clusterId selfIp selfMac m) 0).opcodeVal ≠
        some .append := by
      rw [hread m]
      simp
    exact ⟨(hread m).trans hop.symm, fun h => absurd (hread m) h, fun h => absurd (hread m) h,
      fun h => absurd (hread m) h, fun h => absurd (hread m) h, fun h => absurd h hne,
      fun h => absurd h hne, fun h => absurd h hne, fun h => absurd h hne⟩
  · rw [HeadWithin, recordEnd, hread m, if_neg (by simp)]

theorem setupClusterJoinAdvertisement_eq (spay : AsgardPayload) (advertiseId : Int) (ip : UInt32)
    (mac : Vector UInt8 6) : (spay.setupClusterJoinAdvertisement advertiseId ip mac).1 =
      spay.put 1 (UInt16.ofNat asgardProtoConPayloadSz) fun p =>
        Wire.setLeOpcodeAd p .advertise advertiseId (i32 ip.toNat) mac := by
  unfold AsgardPayload.setupClusterJoinAdvertisement AsgardPayload.put
  generalize spay.asgardReserveProto 1 (UInt16.ofNat asgardProtoConPayloadSz) = reserved
  obtain ⟨spay, place⟩ := reserved
  cases place <;> rfl

/-- A fresh payload with one APPEND is on its way at once. -/
theorem delivers_putAppend (instanceId : UInt16) {r : ConRecord} (hr : S r)
    (hop : r.opcodeVal = some .append) (hnum : r.numEntries.toNat ≤ 100) :
    Delivers S (AsgardPayload.zero.putAppend instanceId r) := by
  have hsame : SameMessage (conRecord (putRecord 0 r (setHeader (fun _ => 0) 0 instanceId r.pktSize)) 0)
      r := sameMessage_putRecord 0 r _ (header_setHeader _ 0 instanceId r.pktSize).2
  have happend := hsame.opcodeVal.trans hop
  have hwithin : HeadWithin (putRecord 0 r (setHeader (fun _ => 0) 0 instanceId r.pktSize))
      sizeofProtoData := by
    have hlast : asgChunkSize * r.numEntries.toNat ≤ asgChunkSize * 100 := Nat.mul_le_mul_left _ hnum
    have hsize : asgChunkSize * 100 = 800 := rfl
    have hdata : sizeofProtoData = 1416 := rfl
    rw [HeadWithin, recordEnd, if_pos happend, hsame.numEntries happend]
    omega
  have hreserve : AsgardPayload.zero.asgardReserveProto instanceId r.pktSize =
      if i32 ((0 : Nat) + r.pktSize.toNat) > maxAsgardPayloadBytes then (.zero, none)
      else (⟨0 + 1, setHeader (fun _ => 0) 0 instanceId r.pktSize⟩, some 0) := rfl
  unfold AsgardPayload.putAppend AsgardPayload.put
  rw [hreserve]
  split_ifs
  · exact carries_zero.delivers
  · exact ⟨fun _ => .inr ⟨r, hr, hsame⟩, fun _ => hwithin⟩

/-! ### What a node holds -/

/-- A record that was sent to this receiver. -/
def SentTo (sent : List (Dest × Option ConRecord)) (dest : Dest) (r : ConRecord) : Prop :=
  (dest, some r) ∈ sent

namespace WireNode

variable {sent sent' : List (Dest × Option ConRecord)} {n m n' : WireNode}

structure Buffered (sent : List (Dest × Option ConRecord)) (n : WireNode) : Prop where
  pktData : ∀ lid, Carries (SentTo sent (.target lid)) (n.pktData lid)
  fire : ∀ lid, n.fire lid = true → ∃ x, (Dest.target lid, x) ∈ sent
  hbPktData : ∀ lid, Carries (SentTo sent (.target lid)) (n.hbPktData lid)
  aapriv : ∀ lid, ∀ spay ∈ (n.aapriv lid).headOfAsyncPktQueue,
    Delivers (SentTo sent (.target lid)) spay ∧ ∃ x, (Dest.target lid, x) ∈ sent
  multicastAapriv : ∀ spay ∈ n.multicastAapriv.headOfAsyncPktQueue,
    spay.protocolsIncluded = 0 ∧ ∃ x, (Dest.multicast, x) ∈ sent
  emitted : ∀ dest frame, (dest, frame) ∈ n.emitted → frame.srcMac = n.devAddr ∧
    Delivers (SentTo sent dest) frame.payload ∧ ∃ x, (dest, x) ∈ sent
  multicast : ∀ frame, (Dest.multicast, frame) ∈ n.emitted → frame.payload.protocolsIncluded = 0

/-- What only the protocol and the receiver change. -/
structure Rest (n n' : WireNode) : Prop where
  node : n'.node = n.node
  protos : n'.protos = n.protos
  devAddr : n'.devAddr = n.devAddr
  dstMac : n'.dstMac = n.dstMac
  asgardWq : n'.asgardWq = n.asgardWq
  events : n'.events = n.events

theorem Rest.refl (n : WireNode) : Rest n n := ⟨rfl, rfl, rfl, rfl, rfl, rfl⟩

theorem Rest.trans (h : Rest n m) (h' : Rest m n') : Rest n n' :=
  ⟨h'.node.trans h.node, h'.protos.trans h.protos, h'.devAddr.trans h.devAddr,
    h'.dstMac.trans h.dstMac, h'.asgardWq.trans h.asgardWq, h'.events.trans h.events⟩

structure Served (sent : List (Dest × Option ConRecord)) (n n' : WireNode) : Prop where
  buffered : Buffered sent n'
  rest : Rest n n'

theorem Buffered.served (h : Buffered sent n) : Served sent n n := ⟨h, Rest.refl n⟩

theorem served_foldl {β : Type*} {f : WireNode → β → WireNode} {l : List β} (hn : Buffered sent n)
    (h : ∀ b ∈ l, ∀ m, Buffered sent m → Rest n m → Served sent m (f m b)) :
    Served sent n (l.foldl f n) := by
  suffices hfold : ∀ m, Buffered sent m → Rest n m → Served sent n (l.foldl f m) from
    hfold n hn (Rest.refl n)
  induction l with
  | nil => exact fun m hm hrest => ⟨hm, hrest⟩
  | cons b l ih =>
    intro m hm hrest
    have hone := h b List.mem_cons_self m hm hrest
    exact ih (fun b' hb' => h b' (List.mem_cons_of_mem b hb')) _ hone.buffered
      (hrest.trans hone.rest)

theorem Buffered.mono (h : Buffered sent n) (hsent : ∀ x ∈ sent, x ∈ sent') : Buffered sent' n := by
  constructor
  · exact fun lid => (h.pktData lid).mono fun r hr => hsent _ hr
  · exact fun lid hfire => (h.fire lid hfire).imp fun x hx => hsent _ hx
  · exact fun lid => (h.hbPktData lid).mono fun r hr => hsent _ hr
  · exact fun lid spay hspay => ⟨(h.aapriv lid spay hspay).1.mono fun r hr => hsent _ hr,
      (h.aapriv lid spay hspay).2.imp fun x hx => hsent _ hx⟩
  · exact fun spay hspay => ⟨(h.multicastAapriv spay hspay).1,
      (h.multicastAapriv spay hspay).2.imp fun x hx => hsent _ hx⟩
  · intro dest frame hframe
    obtain ⟨hmac, hdelivers, x, hx⟩ := h.emitted dest frame hframe
    exact ⟨hmac, hdelivers.mono fun r hr => hsent _ hr, x, hsent _ hx⟩
  · exact h.multicast

/-! ### Writing -/

theorem Buffered.updatePktData (h : Buffered sent n) {lid : Nat} {f : AsgardPayload → AsgardPayload}
    (hf : ∀ spay, Carries (SentTo sent (.target lid)) spay →
      Carries (SentTo sent (.target lid)) (f spay)) : Served sent n (n.updatePktData lid f) := by
  refine ⟨⟨fun i => ?_, h.fire, h.hbPktData, h.aapriv, h.multicastAapriv, h.emitted, h.multicast⟩,
    ⟨rfl, rfl, rfl, rfl, rfl, rfl⟩⟩
  by_cases hi : i = lid
  · subst hi
    dsimp only [WireNode.updatePktData]
    rw [Function.update_self]
    exact hf _ (h.pktData i)
  · dsimp only [WireNode.updatePktData]
    rw [Function.update_of_ne hi]
    exact h.pktData i

theorem Buffered.setFire (h : Buffered sent n) {lid : Nat} {x : Option ConRecord}
    (hx : (Dest.target lid, x) ∈ sent) : Served sent n (n.setFire lid) := by
  refine ⟨⟨h.pktData, fun i hfire => ?_, h.hbPktData, h.aapriv, h.multicastAapriv, h.emitted,
    h.multicast⟩, ⟨rfl, rfl, rfl, rfl, rfl, rfl⟩⟩
  by_cases hi : i = lid
  · exact hi ▸ ⟨x, hx⟩
  · dsimp only [WireNode.setFire] at hfire
    rw [Function.update_of_ne hi] at hfire
    exact h.fire i hfire

theorem Buffered.queueAppend (h : Buffered sent n) {lid : Nat} {r : ConRecord} (retrans : Bool)
    (hr : (Dest.target lid, some r) ∈ sent) (hop : r.opcodeVal = some .append)
    (hnum : r.numEntries.toNat ≤ 100) : Served sent n (n.queueAppend lid r retrans) := by
  refine ⟨⟨h.pktData, h.fire, h.hbPktData, fun i spay hspay => ?_, h.multicastAapriv, h.emitted,
    h.multicast⟩, ⟨rfl, rfl, rfl, rfl, rfl, rfl⟩⟩
  by_cases hi : i = lid
  · subst hi
    dsimp only [WireNode.queueAppend] at hspay
    rw [Function.update_self] at hspay
    have hnew := delivers_putAppend (S := SentTo sent (.target i)) (UInt16.ofNat n.ins.instanceId) hr
      hop hnum
    have hmem : spay = AsgardPayload.zero.putAppend (UInt16.ofNat n.ins.instanceId) r ∨
        spay ∈ (n.aapriv i).headOfAsyncPktQueue := by
      cases retrans with
      | true => exact List.mem_cons.mp hspay
      | false => exact (List.mem_append.mp hspay).symm.imp_left List.mem_singleton.mp
    rcases hmem with rfl | hold
    · exact ⟨hnew, some r, hr⟩
    · exact h.aapriv i spay hold
  · dsimp only [WireNode.queueAppend] at hspay
    rw [Function.update_of_ne hi] at hspay
    exact h.aapriv i spay hspay

/-- An APPEND of `sent` is as `Posting` says. -/
def Sized (sent : List (Dest × Option ConRecord)) : Prop :=
  ∀ dest pkt, (dest, some pkt) ∈ sent → pkt.opcodeVal = some .append → pkt.numEntries.toNat ≤ 100

theorem Buffered.transmit (h : Buffered sent n) (hsized : Sized sent) (retrans : Bool)
    {x : Dest × Option ConRecord} (hx : x ∈ sent) : Served sent n (n.transmit retrans x) := by
  obtain ⟨dest, record⟩ := x
  cases record with
  | none =>
    cases dest <;> exact h.served
  | some r =>
    cases dest with
    | multicast =>
      refine ⟨⟨h.pktData, h.fire, h.hbPktData, h.aapriv, fun spay hspay => ?_, h.emitted, h.multicast⟩,
        ⟨rfl, rfl, rfl, rfl, rfl, rfl⟩⟩
      rcases List.mem_append.mp hspay with hold | hnew
      · exact h.multicastAapriv spay hold
      · obtain rfl := List.mem_singleton.mp hnew
        exact ⟨rfl, some r, hx⟩
    | target lid =>
      have hle : r.opcodeVal ≠ some .append →
          Served sent n (n.updatePktData lid (·.putLe (UInt16.ofNat n.ins.instanceId) r)) := fun hop =>
        h.updatePktData fun spay hspay => hspay.put _ (fills_putRecord hx hop)
      have hfire : r.opcodeVal ≠ some .append → Served sent n
          ((n.updatePktData lid (·.putLe (UInt16.ofNat n.ins.instanceId) r)).setFire lid) := fun hop =>
        have hset := (hle hop).buffered.setFire hx
        ⟨hset.buffered, (hle hop).rest.trans hset.rest⟩
      simp only [WireNode.transmit]
      cases hop : r.opcodeVal with
      | none => exact hle (by simp [hop])
      | some op =>
        cases op with
        | append => exact h.queueAppend retrans hx hop (hsized _ r hx hop)
        | advertise =>
          refine h.updatePktData fun spay hspay => ?_
          rw [setupClusterJoinAdvertisement_eq]
          exact hspay.put 1 (fills_setLeOpcodeAd hx hop _ _ _)
        | nomi => exact hfire (by simp [hop])
        | vote => exact hfire (by simp [hop])
        | appendReply => exact hfire (by simp [hop])
        | noop => exact hle (by simp [hop])
        | lead => exact hle (by simp [hop])
        | alive => exact hle (by simp [hop])

/-! ### Events of the protocol -/

/-- The node has gone on to `node` with the event. -/
structure WentOn (n n' : WireNode) (e : Event) (node : Node) : Prop where
  buffered : Buffered node.sent n'
  node : n'.node = node
  events : n'.events = n.events ++ [e]
  protos : n'.protos = n.protos
  devAddr : n'.devAddr = n.devAddr
  dstMac : n'.dstMac = n.dstMac
  asgardWq : n'.asgardWq = n.asgardWq

theorem mem_newSends {before node : Node} {x : Dest × Option ConRecord}
    (h : x ∈ newSends before node) : x ∈ node.sent :=
  List.mem_of_mem_take (List.mem_reverse.mp h)

theorem Buffered.goOn {before node : Node} (h : Buffered before.sent n) (e : Event)
    (hsent : ∃ fresh, node.sent = fresh ++ before.sent) (hnode : node.Posting) :
    WentOn n (n.goOn e before node) e node := by
  obtain ⟨fresh, hfresh⟩ := hsent
  have hsized : Sized node.sent := fun dest pkt hmem hop =>
    (hnode.fits dest pkt hmem hop).numEntries_le hnode.maxEntriesPerPkt
  have hstart : Buffered node.sent { n with
      node := node
      events := n.events ++ [e] } := by
    have hgrown : Buffered node.sent n := h.mono fun x hx => hfresh ▸ List.mem_append_right fresh hx
    exact ⟨hgrown.pktData, hgrown.fire, hgrown.hbPktData, hgrown.aapriv, hgrown.multicastAapriv,
      hgrown.emitted, hgrown.multicast⟩
  have hserved := served_foldl (f := WireNode.transmit (e.retrans n.node)) (l := newSends before node) hstart
    fun x hx m hm _ => hm.transmit hsized _ (mem_newSends hx)
  exact ⟨hserved.buffered, hserved.rest.node, hserved.rest.events, hserved.rest.protos,
    hserved.rest.devAddr, hserved.rest.dstMac, hserved.rest.asgardWq⟩

/-! ### Emitting -/

theorem Buffered.emit (h : Buffered sent n) {dest : Dest} {payload : AsgardPayload}
    (hpayload : Delivers (SentTo sent dest) payload) (hsent : ∃ x, (dest, x) ∈ sent)
    (hmulticast : dest = .multicast → payload.protocolsIncluded = 0) :
    Served sent n (n.emit dest payload) := by
  refine ⟨⟨h.pktData, h.fire, h.hbPktData, h.aapriv, h.multicastAapriv, ?_, ?_⟩,
    ⟨rfl, rfl, rfl, rfl, rfl, rfl⟩⟩
  · intro dest' frame hmem
    rcases List.mem_cons.mp hmem with heq | hold
    · obtain ⟨rfl, rfl⟩ := Prod.mk.inj heq
      exact ⟨rfl, hpayload, hsent⟩
    · exact h.emitted dest' frame hold
  · intro frame hmem
    rcases List.mem_cons.mp hmem with heq | hold
    · obtain ⟨rfl, rfl⟩ := Prod.mk.inj heq
      exact hmulticast rfl
    · exact h.multicast frame hold

theorem update_zero {S : Nat → ConRecord → Prop} {payloads : Nat → AsgardPayload}
    (h : ∀ lid, Carries (S lid) (payloads lid)) (i lid : Nat) :
    Carries (S lid) (Function.update payloads i .zero lid) := by
  by_cases hlid : lid = i
  · subst hlid
    rw [Function.update_self]
    exact carries_zero
  · rw [Function.update_of_ne hlid]
    exact h lid

theorem Buffered.emitHb (h : Buffered sent n) {i : Nat} (hsent : ∃ x, (Dest.target i, x) ∈ sent) :
    Served sent n (n.emitHb i) := by
  have hemit := h.emit (h.hbPktData i).delivers hsent (by simp)
  refine ⟨⟨hemit.buffered.pktData, hemit.buffered.fire, fun lid => ?_, hemit.buffered.aapriv,
    hemit.buffered.multicastAapriv, hemit.buffered.emitted, hemit.buffered.multicast⟩,
    ⟨rfl, rfl, rfl, rfl, rfl, rfl⟩⟩
  exact update_zero h.hbPktData i lid

theorem Buffered.emitFired (h : Buffered sent n) (i : Nat) : Served sent n (n.emitFired i) := by
  unfold WireNode.emitFired
  split
  case isTrue hfire =>
    have hemit := h.emit (h.pktData i).delivers (h.fire i hfire) (by simp)
    refine ⟨⟨fun lid => update_zero h.pktData i lid, fun lid hlid => ?_, hemit.buffered.hbPktData,
      hemit.buffered.aapriv, hemit.buffered.multicastAapriv, hemit.buffered.emitted,
      hemit.buffered.multicast⟩, ⟨rfl, rfl, rfl, rfl, rfl, rfl⟩⟩
    by_cases heq : lid = i
    · exact heq ▸ h.fire i hfire
    · dsimp only at hlid
      rw [Function.update_of_ne heq] at hlid
      exact h.fire lid hlid
  case isFalse => exact h.served

theorem Buffered.emitAsyncUnicast (h : Buffered sent n) (i : Nat) :
    Served sent n (n.emitAsyncUnicast i) := by
  unfold WireNode.emitAsyncUnicast
  split
  case isFalse => exact h.served
  have hqueue : ∀ queue : AsyncQueue AsgardPayload,
      (∀ spay ∈ queue.headOfAsyncPktQueue, spay ∈ (n.aapriv i).headOfAsyncPktQueue) →
      Buffered sent { n with aapriv := Function.update n.aapriv i queue } := by
    intro queue hsub
    refine ⟨h.pktData, h.fire, h.hbPktData, fun lid spay hspay => ?_, h.multicastAapriv, h.emitted,
      h.multicast⟩
    by_cases heq : lid = i
    · subst heq
      dsimp only at hspay
      rw [Function.update_self] at hspay
      exact h.aapriv lid spay (hsub spay hspay)
    · dsimp only at hspay
      rw [Function.update_of_ne heq] at hspay
      exact h.aapriv lid spay hspay
  unfold AsyncQueue.dequeueAsyncPkt
  cases hhead : (n.aapriv i).headOfAsyncPktQueue with
  | nil =>
    refine ⟨hqueue _ fun spay hspay => ?_, ⟨rfl, rfl, rfl, rfl, rfl, rfl⟩⟩
    exact hspay
  | cons payload rest =>
    obtain ⟨hdelivers, hsent⟩ := h.aapriv i payload (hhead ▸ List.mem_cons_self)
    have hrest := hqueue ⟨i32 ((n.aapriv i).doorbell - 1), rest⟩ fun spay hspay =>
      hhead ▸ List.mem_cons_of_mem payload hspay
    exact ⟨(hrest.emit hdelivers hsent (by simp)).buffered, ⟨rfl, rfl, rfl, rfl, rfl, rfl⟩⟩

theorem Buffered.emitAsyncMulticastPkt (h : Buffered sent n) :
    Served sent n n.emitAsyncMulticastPkt := by
  unfold WireNode.emitAsyncMulticastPkt
  split
  case isFalse => exact h.served
  have hqueue : ∀ queue : AsyncQueue AsgardPayload,
      (∀ spay ∈ queue.headOfAsyncPktQueue, spay ∈ n.multicastAapriv.headOfAsyncPktQueue) →
      Buffered sent { n with multicastAapriv := queue } := fun queue hsub =>
    ⟨h.pktData, h.fire, h.hbPktData, h.aapriv,
      fun spay hspay => h.multicastAapriv spay (hsub spay hspay), h.emitted, h.multicast⟩
  unfold AsyncQueue.dequeueAsyncPkt
  cases hhead : n.multicastAapriv.headOfAsyncPktQueue with
  | nil => exact ⟨hqueue _ fun spay hspay => hspay, ⟨rfl, rfl, rfl, rfl, rfl, rfl⟩⟩
  | cons payload rest =>
    obtain ⟨hempty, hsent⟩ := h.multicastAapriv payload (hhead ▸ List.mem_cons_self)
    have hrest : Buffered sent { n with
        multicastAapriv := ⟨i32 (n.multicastAapriv.doorbell - 1), rest⟩ } :=
      hqueue _ fun spay hspay => hhead ▸ List.mem_cons_of_mem payload hspay
    have hpayload : Delivers (SentTo sent .multicast) payload :=
      ⟨fun hne => absurd hempty hne, fun hne => absurd hempty hne⟩
    exact ⟨(hrest.emit hpayload hsent fun _ => hempty).buffered, ⟨rfl, rfl, rfl, rfl, rfl, rfl⟩⟩

theorem Buffered.emitPktsNonScheduled (h : Buffered sent n) :
    Served sent n n.emitPktsNonScheduled := by
  unfold WireNode.emitPktsNonScheduled
  split
  · exact h.served
  · exact served_foldl h fun i _ m hm _ => hm.emitFired i

theorem Buffered.emitAsyncPkts (h : Buffered sent n) : Served sent n n.emitAsyncPkts := by
  unfold WireNode.emitAsyncPkts
  split_ifs
  · exact h.served
  · exact h.emitAsyncMulticastPkt
  · exact served_foldl h fun i _ m hm _ => hm.emitAsyncUnicast i

theorem Buffered.setupPpMsg (h : Buffered sent n) (j lid : Nat) (r : PpRecord) :
    Served sent n (n.setupPpMsg j lid r) := by
  unfold WireNode.setupPpMsg
  split
  · exact h.updatePktData fun spay hspay => hspay.put _ (fills_setPpOpcode r)
  · exact h.served

/-! ### Heartbeats -/

/-- What `pre_hb_setup` writes is on record for its target. -/
def HbSent (sent : List (Dest × Option ConRecord)) (node : Node) (i : Nat) : Prop :=
  ∀ r, node.hbRecord = some r → (Dest.target i, some r) ∈ sent

theorem setupProto_carries {node : Node} (ping : Option PpRecord) {i : Nat}
    (hhb : HbSent sent node i) (hwarm : node.sdev.warmupState ≠ .warmingUp) {spay : AsgardPayload}
    (h : Carries (SentTo sent (.target i)) spay) (j : Nat) :
    Carries (SentTo sent (.target i)) (n.setupProto node ping spay j) := by
  unfold WireNode.setupProto
  split
  · split
    case isTrue hleader =>
      have hrecord : node.hbRecord = some node.setupAliveMsg := by
        rw [Node.hbRecord, if_neg hwarm, if_pos hleader]
      refine h.put _ (fills_putRecord (hhb _ hrecord) ?_)
      rw [Node.setupAliveMsg, setLeOpcode_opcodeVal]
      simp
    case isFalse => exact h
  · split
    · exact h.put _ (fills_setPpOpcode _)
    · exact h
  · exact h

theorem Buffered.preHb (h : Buffered sent n) {node : Node} (pings : Nat → Option PpRecord) {i : Nat}
    (hhb : HbSent sent node i) : Served sent n (preHb node pings n i) := by
  have hprotos : node.sdev.warmupState ≠ .warmingUp → ∀ spay, Carries (SentTo sent (.target i)) spay →
      Carries (SentTo sent (.target i)) (n.setupProtos node (pings i) spay) := by
    intro hwarm
    unfold WireNode.setupProtos
    generalize List.range n.protos.numOfProtoInstances = l
    induction l with
    | nil => exact fun spay hspay => hspay
    | cons j l ih => exact fun spay hspay => ih _ (setupProto_carries (pings i) hhb hwarm hspay j)
  have hpayload : Carries (SentTo sent (.target i))
      (node.preHbPayload (n.setupProtos node (pings i)) (n.hbPktData i)) := by
    unfold Node.preHbPayload
    split
    case isTrue hwarm =>
      rw [setupClusterJoinAdvertisement_eq]
      have hrecord : node.hbRecord = some (setLeOpcodeAd .advertise node.sdev.clusterId
          node.sdev.selfIp node.sdev.selfMac) := if_pos hwarm
      exact (h.hbPktData i).put 1
        (fills_setLeOpcodeAd (hhb _ hrecord) (setLeOpcodeAd_opcodeVal ..) _ _ _)
    case isFalse hwarm => exact hprotos hwarm _ (h.hbPktData i)
  refine ⟨⟨h.pktData, h.fire, fun lid => ?_, h.aapriv, h.multicastAapriv, h.emitted, h.multicast⟩,
    ⟨rfl, rfl, rfl, rfl, rfl, rfl⟩⟩
  by_cases heq : lid = i
  · subst heq
    dsimp only [WireNode.preHb]
    rw [Function.update_self]
    exact hpayload
  · dsimp only [WireNode.preHb]
    rw [Function.update_of_ne heq]
    exact h.hbPktData lid

theorem emitPktsScheduled_eq (node : Node) : ∃ sent, node.emitPktsScheduled = { node with sent := sent } := by
  unfold Node.emitPktsScheduled
  generalize List.range node.numOfTargets = l
  induction l generalizing node with
  | nil => exact ⟨node.sent, rfl⟩
  | cons i l ih =>
    obtain ⟨sent, hrest⟩ := ih (node.send (.target i) none)
    exact ⟨sent, hrest⟩

theorem heartbeat_sends (node : Node) {i : Nat} (hi : i < node.numOfTargets) :
    (∃ x, (Dest.target i, x) ∈ node.heartbeat.sent) ∧ HbSent node.heartbeat.sent node.heartbeat i := by
  obtain ⟨sent, hemitted⟩ := emitPktsScheduled_eq
    { node with sdev.hbInterval := (node.sdev.hbInterval + 1) % 4294967296 }
  let m : Node := { node with
    sdev.hbInterval := (node.sdev.hbInterval + 1) % 4294967296
    sent := sent }
  have hrange : i ∈ List.range m.numOfTargets := List.mem_range.mpr hi
  have hheartbeat : node.heartbeat =
      ((List.range m.numOfTargets).foldl Node.preHbSetup m).updateAlivenessStates :=
    congrArg (fun k : Node => ((List.range k.numOfTargets).foldl Node.preHbSetup k).updateAlivenessStates)
      hemitted
  have hnone : (Dest.target i, none) ∈ m.sent := by
    have hposts : ∀ (m : Node) (j : Nat), Node.Posts m (m.send (.target j) none) := fun m j =>
      Node.posts_send m (.target j) fun pkt heq => absurd heq (Option.some_ne_none pkt).symm
    have hmem : (Dest.target i, none) ∈ (Node.emitPktsScheduled { node with
        sdev.hbInterval := (node.sdev.hbInterval + 1) % 4294967296 }).sent :=
      Node.mem_sent_foldl (P := fun _ => True) hposts (fun m j _ => ⟨trivial, List.mem_cons_self⟩) hrange trivial
    exact congrArg Node.sent hemitted ▸ hmem
  rw [hheartbeat]
  constructor
  · have hloop := Node.posts_foldl Node.preHbSetup_posts (List.range m.numOfTargets) m
    exact ⟨none, Node.mem_of_posts (hloop.trans (.of_eq rfl rfl rfl rfl rfl rfl)) hnone⟩
  · intro r hr
    -- the record depends on nothing that the loop or the update of the targets changes
    obtain ⟨sent', hloop⟩ := Node.preHbSetups_eq (List.range m.numOfTargets) m
    rw [hloop] at hr
    refine Node.mem_sent_foldl (P := fun m => m.hbRecord = some r) Node.preHbSetup_posts
      (fun m j hm => ?_) hrange hr
    rw [Node.preHbSetup, hm]
    exact ⟨hm, List.mem_cons_self⟩

theorem Buffered.tick (h : Buffered n.node.sent n) (hposting : n.node.Posting)
    (hpm : n.node.sdev.pmState = .emitting) (pings : Nat → Option PpRecord) :
    WentOn n (n.tick pings) .tick n.node.tick := by
  have hgrown : Buffered n.node.heartbeat.sent n := h.mono fun x hx =>
    Node.mem_of_posts (Node.heartbeat_posts n.node) hx
  have hemit := served_foldl (f := WireNode.emitHb) (l := List.range n.node.numOfTargets) hgrown
    fun i hi m hm _ => hm.emitHb (heartbeat_sends n.node (List.mem_range.mp hi)).1
  have hpre := served_foldl (f := WireNode.preHb n.node.heartbeat pings)
    (l := List.range n.node.numOfTargets) hemit.buffered
    fun i hi m hm _ => hm.preHb pings (heartbeat_sends n.node (List.mem_range.mp hi)).2
  have hrest := hemit.rest.trans hpre.rest
  obtain ⟨fresh, hsent, -⟩ := (Node.tick_posts_heartbeat n.node hpm).sends
  have hon := hpre.buffered.goOn .tick ⟨fresh, hsent⟩ (Node.step_posting .tick hposting)
  have htick : n.tick pings = ((List.range n.node.numOfTargets).foldl
      (WireNode.preHb n.node.heartbeat pings) ((List.range n.node.numOfTargets).foldl WireNode.emitHb
        n)).goOn .tick n.node.heartbeat n.node.tick := if_neg (not_not.mpr hpm)
  rw [htick]
  exact ⟨hon.buffered, hon.node, hrest.events ▸ hon.events, hon.protos.trans hrest.protos,
    hon.devAddr.trans hrest.devAddr, hon.dstMac.trans hrest.dstMac, hon.asgardWq.trans hrest.asgardWq⟩

end WireNode

/-! ### Receiving -/

/-- **A copy of a frame reads like the frame**, whatever the memory behind it holds. -/
theorem Delivers.received {S : ConRecord → Prop} {frame : Frame} (h : Delivers S frame.payload)
    (behind : Nat → UInt8) : (frame.received behind).protocolsIncluded ≠ 0 →
      Wire.Heads S (frame.received behind).protoData := by
  intro hne
  exact (h.heads hne).congr (h.within hne) fun q hq => if_pos hq

end XlaneLkm
