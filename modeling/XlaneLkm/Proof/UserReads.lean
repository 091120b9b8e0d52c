import XlaneLkm.Proof.WireCluster
import XlaneLkm.Proof.RingBuffer
import XlaneLkm.Proof.StateMachineSafety

/-!
# What user space reads

The way of a command to its end: from the log of the leader over the wire into the log of a replica,
by `apply_log_to_sm` into the rx ring, and out of it by `read_rb`.
-/

namespace XlaneLkm

open MachineInt

namespace Node

/-- The ring after a call of `read_rb`. -/
def afterRead (n : Node) : AsgRingBuf := (n.rxbuf.readRb.map Prod.fst).getD n.rxbuf

/-- User space leaves the ring to `read_rb`. -/
def readsRing (n : Node) : Event → Prop
  | .user rxbuf => rxbuf = n.afterRead
  | _ => True

/-- The chunk that user space gets. -/
def handedOut (n : Node) : Event → List DataChunk
  | .user _ => (n.rxbuf.readRb.map Prod.snd).toList
  | _ => []

/-- All chunks that user space has got in a run. -/
def userReads (n : Node) (events : List Event) : List DataChunk := Run.outputs step handedOut n events

end Node

namespace RingRun

variable {s : RingRun}

/-- Chunks that the ring takes are written, in order. -/
theorem Filling.appends (h : Filling s) {chunks : List DataChunk} {buf : AsgRingBuf}
    (hring : chunks.foldlM AsgRingBuf.appendRb s.buf = some buf) :
    ∃ s', Filling s' ∧ s'.buf = buf ∧ s'.written = s.written ++ chunks ∧ s'.got = s.got := by
  induction chunks generalizing s with
  | nil => exact ⟨s, h, Option.some.inj hring, (List.append_nil _).symm, rfl⟩
  | cons chunk chunks ih =>
    rw [List.foldlM_cons] at hring
    cases happend : s.buf.appendRb chunk with
    | none =>
      rw [happend] at hring
      cases hring
    | some buf' =>
      rw [happend] at hring
      have hstep : s.step (.append chunk) = { s with
          buf := buf'
          written := s.written ++ [chunk] } := by
        simp only [RingRun.step, happend]
      have hnext := (h.append chunk).1
      rw [hstep] at hnext
      obtain ⟨s', hfilling, hbuf, hwritten, hgot⟩ := ih hnext hring
      refine ⟨s', hfilling, hbuf, ?_, hgot⟩
      rw [hwritten, List.append_assoc, List.singleton_append]

end RingRun

namespace Node

variable {n : Node} {got : List DataChunk}

/-- The ring holds the commands that have been applied and not yet read. -/
def Reading (n : Node) (got : List DataChunk) : Prop :=
  ∃ s, RingRun.Filling s ∧ s.buf = n.rxbuf ∧ s.written = n.smLog.abstract.applied ∧ s.got = got

theorem reading_init (c : Config) (u : Uninit) : (consensusInit c u).Reading [] :=
  ⟨.init u.ring sizeofAsgRingBuf, RingRun.filling_init u.ring, rfl, rfl, rfl⟩

theorem Reading.step (h : n.Reading got) (hn : n.Posting) {e : Event} (hreads : n.readsRing e) :
    (n.step e).Reading (got ++ n.handedOut e) := by
  obtain ⟨s, hfilling, hbuf, hwritten, hgot⟩ := h
  by_cases huser : ∃ rxbuf, e = .user rxbuf
  · obtain ⟨rxbuf, rfl⟩ := huser
    obtain rfl : rxbuf = n.afterRead := hreads
    refine ⟨s.step .read, hfilling.read.1, ?_, hfilling.read.2.1.trans hwritten, ?_⟩
    · change _ = n.afterRead
      unfold RingRun.step afterRead
      rw [← hbuf]
      cases hread : s.buf.readRb <;> rfl
    · unfold RingRun.step handedOut
      rw [← hbuf, ← hgot]
      cases hread : s.buf.readRb with
      | none => exact (List.append_nil _).symm
      | some result => rfl
  · obtain ⟨chunks, happlied, hring⟩ := step_handsOver hn fun rxbuf heq => huser ⟨rxbuf, heq⟩
    rw [← hbuf] at hring
    obtain ⟨s', hfilling', hbuf', hwritten', hgot'⟩ := hfilling.appends hring
    have hquiet : n.handedOut e = [] := by
      cases e with
      | user rxbuf => exact absurd ⟨rxbuf, rfl⟩ huser
      | _ => rfl
    refine ⟨s', hfilling', hbuf', ?_, ?_⟩
    · rw [hwritten', hwritten, happlied]
    · rw [hgot', hgot, hquiet, List.append_nil]

theorem Reading.run (h : n.Reading got) (hn : n.Posting) {events : List Event}
    (hmeets : Run.Meets Node.step readsRing n events) :
    (n.run events).Reading (got ++ n.userReads events) := by
  induction events generalizing n got with
  | nil =>
    change n.Reading (got ++ [])
    rw [List.append_nil]
    exact h
  | cons e events ih =>
    have hrest := ih (h.step hn hmeets.1) (step_posting e hn) hmeets.2
    rw [List.append_assoc] at hrest
    exact hrest

/-- **User space reads what the node applies.** Whatever packets a node gets, in any role and mode: the
calls of `read_rb` have returned the applied commands in order and each once, the next one returns the
first that is left, and `asgRingBufSizeLimit` commands are all that are ever applied. -/
theorem reads_applied (c : Config) (u : Uninit) (events : List Event)
    (hmeets : Run.Meets step readsRing (consensusInit c u) events) :
    let n := run (consensusInit c u) events
    let got := (consensusInit c u).userReads events
    got <+: n.smLog.abstract.applied ∧
      n.rxbuf.readRb.map Prod.snd = n.smLog.abstract.applied[got.length]? ∧
      (n.smLog.abstract.applied.length : Int) ≤ asgRingBufSizeLimit := by
  obtain ⟨s, hfilling, hbuf, hwritten, hgot⟩ := (reading_init c u).run (posting_init c u) hmeets
  rw [List.nil_append] at hgot
  dsimp only
  rw [← hbuf, ← hwritten, ← hgot]
  exact ⟨hfilling.queue.inOrder, hfilling.queue.next, hfilling.below⟩

/-- The third node applies one command, and user space reads twice. -/
def readingTwice : List Event :=
  let before := run (consensusInit (smallConfig 3 [1, 2]) zeroUninit) following
  let between := before.step (.user before.afterRead)
  following ++ [.user before.afterRead, .user between.afterRead]

theorem reads_applied_readingTwice :
    let n := run (consensusInit (smallConfig 3 [1, 2]) zeroUninit) readingTwice
    let got := (consensusInit (smallConfig 3 [1, 2]) zeroUninit).userReads readingTwice
    got <+: n.smLog.abstract.applied ∧
      n.rxbuf.readRb.map Prod.snd = n.smLog.abstract.applied[got.length]? ∧
      (n.smLog.abstract.applied.length : Int) ≤ asgRingBufSizeLimit :=
  reads_applied (smallConfig 3 [1, 2]) zeroUninit readingTwice
    ⟨trivial, trivial, trivial, trivial, trivial, trivial, rfl, rfl, trivial⟩

example : (consensusInit (smallConfig 3 [1, 2]) zeroUninit).userReads readingTwice = [sampleChunk 7] := by
  decide +kernel

end Node

namespace WireCluster

variable {ι : Type*} [DecidableEq ι]

/-- Leaders append behind what they have, candidates count each target once, and user space reads. -/
def wellUsed (n : Node) (e : Event) : Prop := n.appendsNext e ∧ n.countsDistinct e ∧ n.readsRing e

theorem wellUsed_insensitive : Insensitive wellUsed := by
  intro n lid pkt pkt' hsame h
  exact ⟨fun _ => rfl, countsDistinct_insensitive n lid pkt pkt' hsame h.2.1, trivial⟩

/-- **From end to end.** There is one log of which user space has read a prefix, at every other node of
the cluster: the log of the only node that may have led. -/
theorem user_space_reads_one_log (c : WireCluster ι) (hunicast : c.multicastEnable = false) (a : ι)
    (moves : List (WireMove ι)) (hmeets : c.EventsMeet wellUsed (c.run moves))
    (hroom : ∀ i, ((c.run moves).station i).node.smLog.lastIdx < c.maxEntries) :
    ∃ L, (∀ F, F ≠ L → ((c.run moves).station F).node.hist.leads = []) ∧ ∀ F, F ≠ L →
      (c.toCluster.init.node F).userReads ((c.run moves).station F).events <+:
        (List.range (((c.run moves).station L).node.smLog.lastIdx + 1).toNat).map fun k : Nat =>
          (((c.run moves).station L).node.smLog.entry k).dataChunk := by
  have hfollows := c.run_follows wellUsed_insensitive moves
  obtain ⟨records, htracks⟩ := hfollows.tracks [] ⟨fun _ => rfl, trivial⟩ hmeets
  have hnext : Run.Meets c.toCluster.step (c.toCluster.everyNode Node.appendsNext) c.toCluster.init
      records := htracks.meets.mono _ fun _ _ h p hp => (h p hp).1
  have hcounted : Run.Meets c.toCluster.step (c.toCluster.everyNode Node.countsDistinct)
      c.toCluster.init records := htracks.meets.mono _ fun _ _ h p hp => (h p hp).2.1
  have hspace : ∀ i, ((c.toCluster.run records).node i).smLog.lastIdx < c.maxEntries := fun i => by
    rw [htracks.node i]
    exact hroom i
  obtain ⟨L, honly⟩ := Cluster.exists_onlyLeader c.toCluster records hcounted hspace a
  have hagree := Cluster.agreementInv_run hunicast records hnext honly
  refine ⟨L, fun F hF => htracks.node F ▸ honly.1 F hF, fun F hF => ?_⟩
  have hlog := hagree.follower F hF
  have happlied := hlog.applied
  have hle : ((c.toCluster.run records).node F).smLog.lastApplied ≤
      ((c.toCluster.run records).node L).smLog.lastIdx := by
    have := hlog.indexed.applied_le
    have := hlog.commit_le
    have := hlog.indexed.stable_le
    have := hlog.last_le
    omega
  rw [htracks.node F, htracks.node L] at happlied hle
  have hreads : Run.Meets Node.step Node.readsRing (c.toCluster.init.node F)
      ((c.run moves).station F).events := (hmeets F).mono _ fun _ _ h => h.2.2
  obtain ⟨s, hfilling, -, hwritten, hgot⟩ :=
    (Node.reading_init _ _).run (Node.posting_init _ _) hreads
  have hstate : ((c.run moves).station F).node = Node.run (consensusInit (c.config F) (c.uninit F))
      ((c.run moves).station F).events := hfollows.linked.events F
  have hprefix := hfilling.queue.inOrder
  rw [hgot, List.nil_append, hwritten, ← hstate, happlied] at hprefix
  refine hprefix.trans (List.IsPrefix.map _ ?_)
  rw [List.prefix_iff_eq_take, List.length_range, List.take_range, Nat.min_eq_left (by omega)]

/-- User space may read at any time. -/
theorem EventsMeet.read {c : WireCluster ι} {moves : List (WireMove ι)}
    (h : c.EventsMeet wellUsed (c.run moves)) (i : ι) : c.EventsMeet wellUsed
      (c.run (moves ++ [.act i (.user ((c.run moves).station i).node.afterRead)])) := by
  have hlinked := (c.run_follows wellUsed_insensitive moves).linked
  have hrun : c.run (moves ++ [.act i (.user ((c.run moves).station i).node.afterRead)]) =
      (c.run moves).set i (((c.run moves).station i).act
        (.user ((c.run moves).station i).node.afterRead)) := Run.run_append c.step _ _ _
  intro j
  rw [hrun]
  by_cases hj : j = i
  · subst hj
    have hon := (hlinked.buffered j).goOn (.user ((c.run moves).station j).node.afterRead)
      (Node.step_sent _ (.user ((c.run moves).station j).node.afterRead))
      (Node.step_posting _ (hlinked.posting j))
    have hstate : Run.run Node.step (c.toCluster.init.node j) ((c.run moves).station j).events =
        ((c.run moves).station j).node := (hlinked.events j).symm
    rw [WireWorld.set_self, WireNode.act, hon.events]
    refine Run.meets_append Node.step |>.mpr ⟨h j, ⟨fun _ => rfl, trivial, ?_⟩, trivial⟩
    rw [hstate]
    rfl
  · rw [WireWorld.set_of_ne _ _ _ hj]
    exact h j

theorem wellUsed_of_noReads {n : Node} {e : Event}
    (h : n.appendsNext e ∧ n.countsDistinct e ∧ e.isUser = false) : wellUsed n e := by
  refine ⟨h.1, h.2.1, ?_⟩
  cases e with
  | user rxbuf => exact absurd h.2.2 (by simp [Event.isUser])
  | _ => trivial

/-- The leader replicates one command, and node 1 hears of its commit. -/
def oneCommand : List (WireMove (Fin 3)) := wireElection ++
  [wireTick 0, wireTick 0, wireArrive 1 0 1 4, wireArrive 2 0 0 4, .handle 1 1, .handle 2 1,
    .act 0 (.request [sampleChunk 7]), .act 0 (.work 0), .act 0 (.work 0), .emitAsync 0,
    wireArrive 1 0 1 5, wireArrive 2 0 0 5, .handle 1 1, .handle 2 1, .emitNonScheduled 1,
    .emitNonScheduled 2, wireArrive 0 1 0 6, wireArrive 0 2 0 6, .handle 0 1, .handle 0 1, wireTick 0,
    wireTick 0, wireArrive 1 0 1 7, .handle 1 1]

/-- Then user space reads at node 1. -/
def oneCommandRead : List (WireMove (Fin 3)) :=
  oneCommand ++ [.act 1 (.user (((threeStations false).run oneCommand).station 1).node.afterRead)]

theorem eventsMeet_oneCommand :
    (threeStations false).EventsMeet wellUsed ((threeStations false).run oneCommand) := by
  have hnoReads : ∀ i, Run.Meets Node.step
      (fun n e => n.appendsNext e ∧ n.countsDistinct e ∧ e.isUser = false)
      ((threeStations false).toCluster.init.node i)
      (((threeStations false).run oneCommand).station i).events := by
    decide +kernel
  exact fun i => (hnoReads i).mono _ fun _ _ => wellUsed_of_noReads

example : ((threeStations false).toCluster.init.node 1).userReads
    (((threeStations false).run oneCommandRead).station 1).events = [sampleChunk 7] := by
  decide +kernel

theorem user_space_reads_one_log_oneCommandRead :
    let w := (threeStations false).run oneCommandRead
    ∃ L, (∀ F, F ≠ L → (w.station F).node.hist.leads = []) ∧ ∀ F, F ≠ L →
      ((threeStations false).toCluster.init.node F).userReads (w.station F).events <+:
        (List.range ((w.station L).node.smLog.lastIdx + 1).toNat).map fun k : Nat =>
          ((w.station L).node.smLog.entry k).dataChunk :=
  user_space_reads_one_log (threeStations false) rfl 0 oneCommandRead
    (EventsMeet.read eventsMeet_oneCommand 1) (by decide +kernel)

end WireCluster

end XlaneLkm
