import XlaneLkm.WireCluster
import XlaneLkm.Proof.WireNode

/-!
# The wire refines the records

Every run of the nodes with their payloads, queues and frames is a run of the nodes that exchange
records. A frame brings its receiver one message that its sender has put on record for it, or nothing
of the consensus protocol; what a ping-pong record in front makes of the others, the network of
records could have lost as well.
-/

namespace XlaneLkm

open MachineInt

/-! ### Addresses -/

theorem compareMacFrom_eq_zero {m1 m2 : Mac} {k : Nat} :
    compareMacFrom m1 m2 k = 0 ↔ ∀ i < k, m1.getD i 0 = m2.getD i 0 := by
  induction k with
  | zero => simp [compareMacFrom]
  | succ k ih =>
    unfold compareMacFrom
    split
    case isTrue hne => exact iff_of_false (by simp) fun h => hne (h k (Nat.lt_succ_self k))
    case isFalse heq =>
      rw [ih]
      constructor
      · intro h i hi
        rcases Nat.lt_succ_iff_lt_or_eq.mp hi with hlt | rfl
        · exact h i hlt
        · exact not_not.mp heq
      · exact fun h i hi => h i (Nat.lt_succ_of_lt hi)

theorem compareMac_eq_zero {m1 m2 : Mac} : compareMac m1 m2 = 0 ↔ m1 = m2 := by
  rw [compareMac, compareMacFrom_eq_zero]
  constructor
  · intro h
    refine Vector.ext fun i hi => ?_
    have hbyte := h i hi
    rw [Vector.getD, Vector.getD] at hbyte
    simpa [hi] using hbyte
  · rintro rfl i _
    rfl

theorem WireNode.clusterIdsLoop_eq (n : WireNode) {mac : Mac} {i k l : Nat} (hil : i ≤ l)
    (hlk : l < i + k) (hl : n.dstMac l = some mac)
    (hbefore : ∀ j, i ≤ j → j < l → n.dstMac j ≠ some mac) :
    n.clusterIdsLoop mac i k = some (l, n.node.rclusterId l) := by
  induction k generalizing i with
  | zero => omega
  | succ k ih =>
    unfold clusterIdsLoop
    by_cases heq : i = l
    · subst heq
      rw [hl]
      exact if_pos (compareMac_eq_zero.mpr rfl)
    · have hrest := ih (i := i + 1) (by omega) (by omega) fun j hj => hbefore j (by omega)
      have hother := hbefore i le_rfl (by omega)
      cases hmac : n.dstMac i with
      | none => exact hrest
      | some other =>
        rw [hmac] at hother
        exact (if_neg fun hzero => hother (congrArg some (compareMac_eq_zero.mp hzero))).trans hrest

/-! ### The records a packet hands over -/

theorem postRecord_payload {t : ProtoTable} {m : Nat → UInt8} {payload curPayloadPtr : Nat}
    {call : PostPayload} (h : t.postRecord m payload curPayloadPtr = some call) :
    call.payload = payload := by
  unfold ProtoTable.postRecord at h
  split at h
  · cases h
  · exact Option.some.inj h ▸ rfl

theorem handleSubPayloads_payload {t : ProtoTable} {m : Nat → UInt8} {payload instances : Nat}
    {bcnt : UInt32} {call : PostPayload} (h : call ∈ t.handleSubPayloads m payload instances bcnt) :
    instances ≠ 0 ∧ call.payload = payload := by
  obtain ⟨p, hread, hpost⟩ := List.mem_filterMap.mp h
  refine ⟨?_, postRecord_payload hpost⟩
  rintro rfl
  unfold subPayloadHeaders headersRead at hread
  split at hread <;> cases hread

/-- A record of another protocol does nothing. -/
theorem Node.consensusPostPayload_of_none (n : Node) (lid : Nat) (rclusterId : Int) {pkt : ConRecord}
    (h : pkt.opcodeVal = none) :
    (n.noteVote lid pkt).consensusPostPayload lid rclusterId pkt = n := by
  rw [noteVote_of_ne (by simp [h]), consensusPostPayload]
  split
  · rfl
  · split
    · simp only [followerProcessPkt, h]
    · simp only [candidateProcessPkt, h]
    · simp only [leaderProcessPkt, h]
    · rfl

/-- Not an APPEND. -/
def Event.bringsNoEntries : Event → Prop
  | .handle _ pkt => pkt.opcodeVal ≠ some .append
  | _ => True

namespace WireWorld

variable {ι : Type*} [DecidableEq ι] (w : WireWorld ι) (i : ι) (n : WireNode)

@[simp]
theorem set_self : (w.set i n).station i = n := by
  dsimp only [set]
  rw [Function.update_self]

theorem set_of_ne {j : ι} (h : j ≠ i) : (w.set i n).station j = w.station j := by
  dsimp only [set]
  rw [Function.update_of_ne h]

@[simp]
theorem set_set (n' : WireNode) : (w.set i n).set i n' = w.set i n' := by
  dsimp only [set]
  rw [Function.update_idem]

end WireWorld

namespace WireCluster

variable {ι : Type*} [DecidableEq ι] {c : WireCluster ι} {w w' m : WireWorld ι}

/-- A work item of `i` comes from a frame of another node, whose first record that node has sent. A
frame to all of them has none. -/
def Queued (c : WireCluster ι) (w : WireWorld ι) (i : ι) (work : PktWorkData) : Prop :=
  ∃ src dest, src ≠ i ∧ c.reaches src i dest ∧ work.remoteLid = c.lid i src ∧
    work.rclusterId = i32 (c.cid src) ∧ (work.userData.protocolsIncluded ≠ 0 →
      dest ≠ .multicast ∧ Wire.Heads (SentTo (w.station src).node.sent dest) work.userData.protoData)

structure Linked (c : WireCluster ι) (w : WireWorld ι) : Prop where
  devAddr : ∀ i, (w.station i).devAddr = c.selfMac i
  dstMac : ∀ i lid, (w.station i).dstMac lid = ((c.peers i)[lid]?).map c.selfMac
  configured : ∀ i, c.IsConfigured i (w.station i).node
  posting : ∀ i, (w.station i).node.Posting
  buffered : ∀ i, WireNode.Buffered (w.station i).node.sent (w.station i)
  work : ∀ i, ∀ work ∈ (w.station i).asgardWq, c.Queued w i work
  events : ∀ i, (w.station i).node = Node.run (c.toCluster.init.node i) (w.station i).events
  bringsNoEntries : c.multicastEnable = true → ∀ i, ∀ e ∈ (w.station i).events, e.bringsNoEntries

theorem Queued.mono {i : ι} {work : PktWorkData} (h : c.Queued w i work)
    (hsent : ∀ j, ∀ x ∈ (w.station j).node.sent, x ∈ (w'.station j).node.sent) :
    c.Queued w' i work := by
  obtain ⟨src, dest, hne, hreaches, hlid, hcid, hheads⟩ := h
  exact ⟨src, dest, hne, hreaches, hlid, hcid, fun hincluded =>
    ⟨(hheads hincluded).1, (hheads hincluded).2.mono fun r hr => hsent src _ hr⟩⟩

theorem linked_init : c.Linked c.init := by
  refine ⟨fun _ => rfl, fun _ _ => rfl, fun i => c.toCluster.init_isConfigured i,
    fun i => Node.posting_init _ _, fun i => ?_, fun i work hwork => absurd hwork List.not_mem_nil,
    fun _ => rfl, fun _ _ _ hmem => absurd hmem List.not_mem_nil⟩
  exact ⟨fun _ => carries_zero, fun _ hfire => absurd hfire Bool.false_ne_true, fun _ => carries_zero,
    fun _ _ hmem => absurd hmem List.not_mem_nil, fun _ hmem => absurd hmem List.not_mem_nil,
    fun _ _ hmem => absurd hmem List.not_mem_nil, fun _ hmem => absurd hmem List.not_mem_nil⟩

/-- A node that has gone on, or only served its payloads, and its new work. -/
theorem Linked.set (h : c.Linked w) {i : ι} {n : WireNode}
    (hdevAddr : n.devAddr = (w.station i).devAddr) (hdstMac : n.dstMac = (w.station i).dstMac)
    (hconfigured : c.IsConfigured i n.node) (hposting : n.node.Posting)
    (hbuffered : WireNode.Buffered n.node.sent n)
    (hsent : ∀ x ∈ (w.station i).node.sent, x ∈ n.node.sent)
    (hwork : ∀ work ∈ n.asgardWq, c.Queued w i work)
    (hevents : n.node = Node.run (c.toCluster.init.node i) n.events)
    (hbrings : c.multicastEnable = true → ∀ e ∈ n.events, e.bringsNoEntries) :
    c.Linked (w.set i n) := by
  have hgrown : ∀ j, ∀ x ∈ (w.station j).node.sent, x ∈ ((w.set i n).station j).node.sent := by
    intro j x hx
    by_cases hj : j = i
    · subst hj
      rw [w.set_self]
      exact hsent x hx
    · rw [w.set_of_ne i n hj]
      exact hx
  have hall : ∀ P : ι → WireNode → Prop, (∀ j, P j (w.station j)) → P i n →
      ∀ j, P j ((w.set i n).station j) := by
    intro P hP hi j
    by_cases hj : j = i
    · subst hj
      rw [w.set_self]
      exact hi
    · rw [w.set_of_ne i n hj]
      exact hP j
  constructor
  · exact hall (fun j k => k.devAddr = c.selfMac j) h.devAddr (hdevAddr.trans (h.devAddr i))
  · exact hall (fun j k => ∀ lid, k.dstMac lid = ((c.peers j)[lid]?).map c.selfMac) h.dstMac
      (hdstMac ▸ h.dstMac i)
  · exact hall (fun j k => c.IsConfigured j k.node) h.configured hconfigured
  · exact hall (fun _ k => k.node.Posting) h.posting hposting
  · exact hall (fun _ k => WireNode.Buffered k.node.sent k) h.buffered hbuffered
  · exact hall (fun j k => ∀ work ∈ k.asgardWq, c.Queued (w.set i n) j work)
      (fun j work hmem => (h.work j work hmem).mono hgrown)
      fun work hmem => (hwork work hmem).mono hgrown
  · exact hall (fun j k => k.node = Node.run (c.toCluster.init.node j) k.events) h.events hevents
  · intro hmulticast
    exact hall (fun _ k => ∀ e ∈ k.events, e.bringsNoEntries) (h.bringsNoEntries hmulticast)
      (hbrings hmulticast)

/-! ### Simulation -/

variable {C : Node → Event → Prop}

/-- The events of every node meet the condition. -/
def EventsMeet (c : WireCluster ι) (C : Node → Event → Prop) (w : WireWorld ι) : Prop :=
  ∀ i, Run.Meets Node.step C (c.toCluster.init.node i) (w.station i).events

/-- The condition looks at nothing of a record but what its handlers read. -/
def Insensitive (C : Node → Event → Prop) : Prop :=
  ∀ n lid pkt pkt', SameMessage pkt pkt' → C n (.handle lid pkt) → C n (.handle lid pkt')

/-- A run of records ends where the wire stands, and all its steps meet the condition. -/
structure Tracks (c : WireCluster ι) (C : Node → Event → Prop) (moves : List (Move ι))
    (w : WireWorld ι) : Prop where
  node : ∀ i, (c.toCluster.run moves).node i = (w.station i).node
  meets : Run.Meets c.toCluster.step (c.toCluster.everyNode C) c.toCluster.init moves

/-- The wire has gone from `w` to `w'`, and a run of records can follow it. -/
structure Follows (c : WireCluster ι) (C : Node → Event → Prop) (w w' : WireWorld ι) : Prop where
  linked : c.Linked w'
  events : ∀ i, (w.station i).events <+: (w'.station i).events
  tracks : ∀ moves, c.Tracks C moves w → c.EventsMeet C w' → ∃ more, c.Tracks C more w'

omit [DecidableEq ι] in
theorem EventsMeet.of_prefix (h : c.EventsMeet C w')
    (hevents : ∀ i, (w.station i).events <+: (w'.station i).events) : c.EventsMeet C w := by
  intro i
  obtain ⟨more, hmore⟩ := hevents i
  have hmeets := h i
  rw [← hmore] at hmeets
  exact (Run.meets_append Node.step |>.mp hmeets).1

theorem Linked.follows (h : c.Linked w) : c.Follows C w w :=
  ⟨h, fun _ => List.prefix_rfl, fun moves htracks _ => ⟨moves, htracks⟩⟩

theorem Follows.trans (h : c.Follows C w m) (h' : c.Follows C m w') : c.Follows C w w' := by
  refine ⟨h'.linked, fun i => (h.events i).trans (h'.events i), fun moves htracks hmeets => ?_⟩
  obtain ⟨more, hmore⟩ := h.tracks moves htracks (hmeets.of_prefix h'.events)
  exact h'.tracks more hmore hmeets

/-- What is on record stays there. -/
theorem Linked.sent_of_follows (h : c.Linked w) (hfollows : c.Follows C w w') (i : ι) :
    ∀ x ∈ (w.station i).node.sent, x ∈ (w'.station i).node.sent := by
  obtain ⟨more, hmore⟩ := hfollows.events i
  rw [hfollows.linked.events i, ← hmore, Node.run, Run.run_append]
  change ∀ x ∈ _, x ∈ (Run.run Node.step (Node.run _ _) more).sent
  rw [← h.events i]
  refine Run.invariant_run Node.step (I := fun n => ∀ x ∈ (w.station i).node.sent, x ∈ n.sent) ?_
    (fun x hx => hx) more
  intro n e hn x hx
  obtain ⟨fresh, hsent⟩ := n.step_sent e
  exact hsent ▸ List.mem_append_right fresh (hn x hx)

theorem Follows.trans_set {i : ι} {n n' : WireNode} (h : c.Follows C w (w.set i n))
    (h' : c.Follows C (w.set i n) ((w.set i n).set i n')) : c.Follows C w (w.set i n') := by
  rw [w.set_set] at h'
  exact h.trans h'

/-- What happens to the payloads alone, the records do not see. -/
theorem Linked.follows_of_quiet (h : c.Linked w) {i : ι} {n : WireNode}
    (hnode : n.node = (w.station i).node) (hevents : n.events = (w.station i).events)
    (hdevAddr : n.devAddr = (w.station i).devAddr) (hdstMac : n.dstMac = (w.station i).dstMac)
    (hbuffered : WireNode.Buffered n.node.sent n)
    (hwork : ∀ work ∈ n.asgardWq, c.Queued w i work) : c.Follows C w (w.set i n) := by
  have hlinked : c.Linked (w.set i n) := by
    refine h.set hdevAddr hdstMac (hnode ▸ h.configured i) (hnode ▸ h.posting i) hbuffered
      (fun x hx => hnode ▸ hx) hwork ?_ fun hmulticast => hevents ▸ h.bringsNoEntries hmulticast i
    rw [hnode, hevents]
    exact h.events i
  have hstation : ∀ j, ((w.set i n).station j).node = (w.station j).node ∧
      ((w.set i n).station j).events = (w.station j).events := by
    intro j
    by_cases hj : j = i
    · subst hj
      rw [w.set_self]
      exact ⟨hnode, hevents⟩
    · rw [w.set_of_ne i n hj]
      exact ⟨rfl, rfl⟩
  refine ⟨hlinked, fun j => by rw [(hstation j).2], fun moves htracks _ => ⟨moves, ?_, htracks.meets⟩⟩
  exact fun j => (htracks.node j).trans (hstation j).1.symm

theorem Linked.follows_of_served (h : c.Linked w) {i : ι} {n : WireNode}
    (hserved : WireNode.Served (w.station i).node.sent (w.station i) n) :
    c.Follows C w (w.set i n) := by
  have hrest := hserved.rest
  refine h.follows_of_quiet hrest.node hrest.events hrest.devAddr hrest.dstMac ?_ fun work hmem => ?_
  · rw [hrest.node]
    exact hserved.buffered
  · exact h.work i work (hrest.asgardWq ▸ hmem)

/-- **One event of the protocol on the wire** is a move of records, or nothing where it leaves the node
as it is. `e'` is the event the records see. -/
theorem Linked.follows_of_event (h : c.Linked w) {i : ι} {n : WireNode} {e : Event} {node : Node}
    (hon : WireNode.WentOn (w.station i) n e node) (hnode : node = (w.station i).node.step e)
    (hbrings : c.multicastEnable = true → e.bringsNoEntries)
    (hmove : node = (w.station i).node ∨ ∃ e', node = (w.station i).node.step e' ∧
      (C (w.station i).node e → C (w.station i).node e') ∧
      ∀ r : World ι, (∀ j, r.node j = (w.station j).node) → ∃ move,
        c.toCluster.event r move = some (i, e')) : c.Follows C w (w.set i n) := by
  have hconfigured : c.IsConfigured i node := by
    rw [hnode]
    exact (Node.step_config _ e).trans (h.configured i)
  have hposting : node.Posting := by
    rw [hnode]
    exact Node.step_posting e (h.posting i)
  have hlinked : c.Linked (w.set i n) := by
    refine h.set hon.devAddr hon.dstMac (hon.node ▸ hconfigured) (hon.node ▸ hposting)
      (hon.node ▸ hon.buffered) (fun x hx => ?_) (fun work hmem => ?_) ?_ fun hmulticast e' hmem => ?_
    · obtain ⟨fresh, hsent⟩ := (w.station i).node.step_sent e
      rw [hon.node, hnode, hsent]
      exact List.mem_append_right fresh hx
    · exact h.work i work (hon.asgardWq ▸ hmem)
    · rw [hon.node, hon.events, hnode, Node.run_snoc, ← h.events i]
    · rw [hon.events, List.mem_append, List.mem_singleton] at hmem
      rcases hmem with hold | rfl
      · exact h.bringsNoEntries hmulticast i e' hold
      · exact hbrings hmulticast
  have hevents : ∀ j, (w.station j).events <+: ((w.set i n).station j).events := by
    intro j
    by_cases hj : j = i
    · subst hj
      rw [w.set_self, hon.events]
      exact List.prefix_append _ _
    · rw [w.set_of_ne i n hj]
  refine ⟨hlinked, hevents, fun moves htracks hmeets => ?_⟩
  rcases hmove with hsame | ⟨e', hstep, hcond, hmove⟩
  · refine ⟨moves, fun j => ?_, htracks.meets⟩
    rw [htracks.node j]
    by_cases hj : j = i
    · subst hj
      rw [w.set_self, hon.node, hsame]
    · rw [w.set_of_ne i n hj]
  · obtain ⟨move, hevent⟩ := hmove _ htracks.node
    have hC : C (w.station i).node e := by
      have hlast := hmeets i
      rw [w.set_self, hon.events] at hlast
      have hcondition := (Run.meets_append Node.step |>.mp hlast).2.1
      rw [h.events i]
      exact hcondition
    refine ⟨moves ++ [move], fun j => ?_, ?_⟩
    · have hrun : c.toCluster.run (moves ++ [move]) = (c.toCluster.run moves).act i e' := by
        rw [Cluster.run, Run.run_append]
        exact Cluster.step_of_event hevent
      rw [hrun]
      by_cases hj : j = i
      · subst hj
        rw [World.act_self, w.set_self, hon.node, hstep, htracks.node j]
      · rw [World.act_of_ne _ _ hj, w.set_of_ne i n hj, htracks.node j]
    · refine Run.meets_append c.toCluster.step |>.mpr ⟨htracks.meets, ?_, trivial⟩
      intro p hp
      obtain rfl : (i, e') = p := Option.some.inj (hevent.symm.trans hp)
      change C ((c.toCluster.run moves).node i) e'
      rw [htracks.node i]
      exact hcond hC

/-! ### The moves -/

theorem reaches_ne {src dst : ι} {dest : Dest} (h : c.reaches src dst dest) : src ≠ dst := by
  rintro rfl
  cases dest with
  | target l =>
    have hmem := List.mem_of_getElem? (c.toCluster.reaches_target.mp h)
    exact (c.mem_peers src src).mp hmem rfl
  | multicast => simp [Cluster.reaches] at h

theorem Linked.act_follows (h : c.Linked w) (i : ι) {e : Event} (hlocal : e.isLocal) :
    c.Follows C w (w.set i ((w.station i).act e)) := by
  have hon := (h.buffered i).goOn e ((w.station i).node.step_sent e) (Node.step_posting e (h.posting i))
  refine h.follows_of_event hon rfl (fun _ => ?_)
    (.inr ⟨e, rfl, id, fun r _ => ⟨.act i e, if_pos hlocal⟩⟩)
  cases e with
  | handle lid pkt => cases hlocal
  | _ => trivial

theorem Linked.tick_follows (h : c.Linked w) (i : ι) (pings : Nat → Option PpRecord) :
    c.Follows C w (w.set i ((w.station i).tick pings)) := by
  by_cases hpm : (w.station i).node.sdev.pmState = .emitting
  · have hon := (h.buffered i).tick (h.posting i) hpm pings
    exact h.follows_of_event hon rfl (fun _ => trivial)
      (.inr ⟨.tick, rfl, id, fun r _ => ⟨.act i .tick, rfl⟩⟩)
  · have hsame : (w.station i).tick pings = w.station i := if_pos hpm
    rw [hsame]
    exact h.follows_of_served (h.buffered i).served

/-- The receiver finds the sender of a frame. -/
theorem Linked.getClusterIdsByMac (h : c.Linked w) {dst src : ι} (hne : src ≠ dst) :
    (w.station dst).getClusterIdsByMac (c.selfMac src) =
      some (c.lid dst src, i32 (c.cid src)) := by
  have hlid := c.toCluster.peers_lid hne
  have hlt : c.lid dst src < (w.station dst).node.numOfTargets := by
    rw [(h.configured dst).numOfTargets]
    exact (List.getElem?_eq_some_iff.mp hlid).1
  have hmac : (w.station dst).dstMac (c.lid dst src) = some (c.selfMac src) := by
    rw [h.dstMac, hlid]
    rfl
  have hbefore : ∀ j, 0 ≤ j → j < c.lid dst src → (w.station dst).dstMac j ≠ some (c.selfMac src) := by
    intro j _ hj hsame
    rw [h.dstMac, Option.map_eq_some_iff] at hsame
    obtain ⟨other, hother, hmac⟩ := hsame
    obtain rfl := c.selfMac_injective hmac
    obtain ⟨hlength, hget⟩ := List.getElem?_eq_some_iff.mp hother
    have hfirst := (c.nodup_peers dst).idxOf_getElem j hlength
    rw [hget] at hfirst
    exact hj.ne' hfirst
  have hend : c.lid dst src < 0 + (w.station dst).node.numOfTargets := by
    rw [Nat.zero_add]
    exact hlt
  have hfound := (w.station dst).clusterIdsLoop_eq (Nat.zero_le _) hend hmac hbefore
  rw [WireNode.getClusterIdsByMac, hfound, (h.configured dst).rclusterId hlid]

theorem Linked.arrive_follows (h : c.Linked w) {dst src : ι} {k : Nat} {dest : Dest} {frame : Frame}
    (hk : (w.station src).emitted[k]? = some (dest, frame)) (hreaches : c.reaches src dst dest)
    (behind : Nat → UInt8) (cqeBcnt : UInt32) (postTs : Nat) : c.Follows C w
      (w.set dst ((w.station dst).asgardPostPayload frame behind cqeBcnt postTs)) := by
  have hne := reaches_ne hreaches
  obtain ⟨hsrc, hdelivers, x, hx⟩ := (h.buffered src).emitted dest frame (List.mem_of_getElem? hk)
  have hfound := h.getClusterIdsByMac hne
  rw [← h.devAddr src, ← hsrc] at hfound
  by_cases hpm : (w.station dst).node.sdev.pmState = .emitting
  case neg =>
    have hsame : (w.station dst).asgardPostPayload frame behind cqeBcnt postTs = w.station dst :=
      if_pos hpm
    rw [hsame]
    exact h.follows_of_served (h.buffered dst).served
  have hlid := c.toCluster.peers_lid hne
  have hlt : c.lid dst src < (w.station dst).node.numOfTargets := by
    rw [(h.configured dst).numOfTargets]
    exact (List.getElem?_eq_some_iff.mp hlid).1
  have hstep : (w.station dst).node.step (.rx (c.lid dst src) postTs) =
      (Node.checkWarmupState { (w.station dst).node with
        sdev.targets := (w.station dst).node.sdev.targets.modify (c.lid dst src) fun t =>
          { t with chbTs := postTs, alive := true } }).1 :=
    (if_pos hlt).trans (if_neg (not_not.mpr hpm))
  have hmove : ∀ r : World ι, (∀ j, r.node j = (w.station j).node) → ∃ move,
      c.toCluster.event r move = some (dst, .rx (c.lid dst src) postTs) := by
    intro r hr
    obtain ⟨k', hk'⟩ := List.getElem?_of_mem hx
    refine ⟨.arrive dst src k' postTs, ?_⟩
    simp only [Cluster.event, hr, hk', hreaches, if_true]
  unfold WireNode.asgardPostPayload
  rw [if_neg (not_not.mpr hpm), hfound]
  dsimp only
  generalize hresult : Node.checkWarmupState { (w.station dst).node with
    sdev.targets := (w.station dst).node.sdev.targets.modify (c.lid dst src) fun t =>
      { t with chbTs := postTs, alive := true } } = result at hstep
  obtain ⟨node, dropped⟩ := result
  dsimp only at hstep
  have hon := (h.buffered dst).goOn (.rx (c.lid dst src) postTs)
    (hstep ▸ (w.station dst).node.step_sent _) (hstep ▸ Node.step_posting _ (h.posting dst))
  have hfollows : c.Follows C w (w.set dst ((w.station dst).goOn (.rx (c.lid dst src) postTs)
      (w.station dst).node node)) :=
    h.follows_of_event hon hstep.symm (fun _ => trivial) (.inr ⟨_, hstep.symm, id, hmove⟩)
  cases dropped with
  | true => exact hfollows
  | false =>
    refine hfollows.trans_set (hfollows.linked.follows_of_quiet ?_ ?_ ?_ ?_ ?_ ?_)
    iterate 4 rw [w.set_self]
    · have hbuffered := hfollows.linked.buffered dst
      rw [w.set_self] at hbuffered
      exact ⟨hbuffered.pktData, hbuffered.fire, hbuffered.hbPktData, hbuffered.aapriv,
        hbuffered.multicastAapriv, hbuffered.emitted, hbuffered.multicast⟩
    · intro work hmem
      rcases List.mem_append.mp hmem with hold | hnew
      · have hqueued := hfollows.linked.work dst work
        rw [w.set_self] at hqueued
        exact hqueued hold
      · obtain rfl := List.mem_singleton.mp hnew
        refine ⟨src, dest, hne, hreaches, rfl, rfl, fun hincluded => ⟨?_, ?_⟩⟩
        · rintro rfl
          exact hincluded ((h.buffered src).multicast frame (List.mem_of_getElem? hk))
        · rw [w.set_of_ne dst _ hne]
          exact hdelivers.received behind hincluded

/-- **One record of a packet** is handed to the protocol: it is a message its sender has sent, or it
does nothing. -/
theorem Linked.postPayload_follows (h : c.Linked w) {i : ι} {work : PktWorkData}
    (hwork : c.Queued w i work) {call : PostPayload} (hpayload : call.payload = 0)
    (hincluded : work.userData.protocolsIncluded ≠ 0)
    (hC : Insensitive C) :
    c.Follows C w (w.set i (WireNode.postPayload work (w.station i) call)) := by
  obtain ⟨src, dest, hne, hreaches, hlid, hcid, hheads⟩ := hwork
  unfold WireNode.postPayload
  split
  case isFalse => exact h.follows_of_served (h.buffered i).served
  case isTrue hcall =>
    have hrcluster : work.rclusterId = (w.station i).node.rclusterId work.remoteLid := by
      rw [hcid, hlid, (h.configured i).rclusterId (c.toCluster.peers_lid hne)]
    have hstep : ∀ pkt, (w.station i).node.step (.handle work.remoteLid pkt) =
        ((w.station i).node.noteVote work.remoteLid pkt).consensusPostPayload work.remoteLid
          work.rclusterId pkt := by
      intro pkt
      rw [hrcluster]
      exact if_pos hcall.2
    rw [hpayload]
    have hsent := (w.station i).node.step_sent
      (.handle work.remoteLid (Wire.conRecord work.userData.protoData 0))
    have hposting := Node.step_posting
      (.handle work.remoteLid (Wire.conRecord work.userData.protoData 0)) (h.posting i)
    rw [hstep] at hsent hposting
    obtain ⟨hunicast, hhead⟩ := hheads hincluded
    refine h.follows_of_event ((h.buffered i).goOn _ hsent hposting) (hstep _).symm ?_ ?_
    · rcases hhead with hnone | ⟨r, hr, hsame⟩
      · exact fun _ happend => nomatch hnone.symm.trans happend
      · intro hmulticast happend
        exact hunicast (((h.posting src).fits dest r hr (hsame.opcodeVal ▸ happend)).dest_eq
          ((h.configured src).multicastEnable.trans hmulticast))
    rcases hhead with hnone | ⟨r, hr, hsame⟩
    · exact .inl (Node.consensusPostPayload_of_none _ _ _ hnone)
    · refine .inr ⟨.handle work.remoteLid r, ?_, hC _ _ _ _ hsame, fun records hrecords => ?_⟩
      · rw [hstep r]
        exact hsame.consensusPostPayload _ _ _
      · obtain ⟨k, hk⟩ := List.getElem?_of_mem hr
        refine ⟨.deliver i src k, ?_⟩
        simp only [Cluster.event, hrecords, hk, hreaches, if_true, hlid]

theorem Linked.handle_follows (h : c.Linked w) (i : ι) (k : Nat)
    (hC : Insensitive C) :
    c.Follows C w (w.set i ((w.station i).pktProcessHandler k)) := by
  unfold WireNode.pktProcessHandler
  split
  case h_1 => exact h.follows_of_served (h.buffered i).served
  case h_2 work hk =>
    have hwork := h.work i work (List.mem_of_getElem? hk)
    have hfollows : c.Follows C w
        (w.set i { w.station i with asgardWq := (w.station i).asgardWq.eraseIdx k }) := by
      have hbuffered := h.buffered i
      refine h.follows_of_quiet rfl rfl rfl rfl ⟨hbuffered.pktData, hbuffered.fire,
        hbuffered.hbPktData, hbuffered.aapriv, hbuffered.multicastAapriv, hbuffered.emitted,
        hbuffered.multicast⟩ fun work' hmem => ?_
      exact h.work i work' (List.mem_of_mem_eraseIdx hmem)
    have hcalls : ∀ call ∈ (w.station i).protos.handleSubPayloads work.userData.protoData 0
        work.userData.protocolsIncluded.toNat work.bcnt,
        work.userData.protocolsIncluded ≠ 0 ∧ call.payload = 0 := by
      intro call hcall
      obtain ⟨hne, hpayload⟩ := handleSubPayloads_payload hcall
      exact ⟨fun hzero => hne (congrArg UInt16.toNat hzero), hpayload⟩
    revert hcalls
    generalize (w.station i).protos.handleSubPayloads work.userData.protoData 0
      work.userData.protocolsIncluded.toNat work.bcnt = calls
    generalize { w.station i with asgardWq := (w.station i).asgardWq.eraseIdx k } = n at hfollows
    induction calls generalizing n with
    | nil => exact fun _ => hfollows
    | cons call calls ih =>
      intro hcalls
      obtain ⟨hincluded, hpayload⟩ := hcalls call List.mem_cons_self
      have hone := hfollows.linked.postPayload_follows (hwork.mono (h.sent_of_follows hfollows)) hpayload
        hincluded hC
      rw [w.set_self] at hone
      exact ih _ (hfollows.trans_set hone) fun call' hcall' =>
        hcalls call' (List.mem_cons_of_mem call hcall')

theorem Linked.step_follows (h : c.Linked w) (hC : Insensitive C) (move : WireMove ι) :
    c.Follows C w (c.step w move) := by
  cases move with
  | act i e =>
    simp only [step]
    split
    case isTrue hlocal => exact h.act_follows i hlocal.1
    case isFalse => exact h.follows
  | tick i pings => exact h.tick_follows i pings
  | pp i j lid r => exact h.follows_of_served ((h.buffered i).setupPpMsg j lid r)
  | emitNonScheduled i => exact h.follows_of_served (h.buffered i).emitPktsNonScheduled
  | emitAsync i => exact h.follows_of_served (h.buffered i).emitAsyncPkts
  | arrive dst src k behind cqeBcnt postTs =>
    simp only [step]
    split
    case h_1 dest frame hk =>
      split
      case isTrue hreaches => exact h.arrive_follows hk hreaches behind cqeBcnt postTs
      case isFalse => exact h.follows
    case h_2 => exact h.follows
  | handle i k => exact h.handle_follows i k hC

theorem run_follows (c : WireCluster ι) (hC : Insensitive C) (moves : List (WireMove ι)) :
    c.Follows C c.init (c.run moves) := by
  induction moves using List.reverseRecOn with
  | nil => exact linked_init.follows
  | append_singleton moves move ih =>
    have hrun : c.run (moves ++ [move]) = c.step (c.run moves) move := Run.run_append c.step _ _ _
    rw [hrun]
    exact ih.trans (ih.linked.step_follows hC move)

/-- **Refinement.** Whatever the nodes do with payloads, queues, frames and ping-pong records in front,
there is a run of records that ends with the same nodes, and whose steps all meet what the events of
the nodes meet, as long as that looks at nothing of a record but what its handlers read. -/
theorem wire_refines_records (c : WireCluster ι) {C : Node → Event → Prop} (hC : Insensitive C)
    (moves : List (WireMove ι)) (hmeets : c.EventsMeet C (c.run moves)) :
    ∃ records, (∀ i, (c.toCluster.run records).node i = ((c.run moves).station i).node) ∧
      Run.Meets c.toCluster.step (c.toCluster.everyNode C) c.toCluster.init records := by
  obtain ⟨records, htracks⟩ := (c.run_follows hC moves).tracks [] ⟨fun _ => rfl, trivial⟩ hmeets
  exact ⟨records, htracks.node, htracks.meets⟩

theorem countsDistinct_insensitive : Insensitive Node.countsDistinct := by
  intro n lid pkt pkt' hsame hcounts hvote
  exact hcounts ⟨hvote.1, hvote.2.1, hsame.opcodeVal.trans hvote.2.2⟩

theorem wire_refines_records_wireElection :
    ∃ records, (∀ i, ((threeStations false).toCluster.run records).node i =
        (((threeStations false).run wireElection).station i).node) ∧
      Run.Meets (threeStations false).toCluster.step
        ((threeStations false).toCluster.everyNode Node.countsDistinct)
        (threeStations false).toCluster.init records :=
  wire_refines_records (threeStations false) countsDistinct_insensitive wireElection fun i => by
    revert i
    decide +kernel

end WireCluster

end XlaneLkm
