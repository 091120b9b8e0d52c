import XlaneLkm.Library.Run
import XlaneLkm.Proof.AppendMsg

/-!
# The stream of a target

Clients append while the leader sends, and some of what was sent is sent once more. The normal messages
are still cut from one sequence, the entries from the first `next_index` on: each begins where the last
one ended, and what it carries was in the ring when it was built.
-/

namespace XlaneLkm

open MachineInt
open Run (Meets)

inductive StreamEvent where
  /-- A client request is appended behind the last entry. -/
  | append (chunk : DataChunk)
  /-- `setup_append_msg` with `retrans = 0`. -/
  | send
  /-- `setup_append_msg` with `retrans = 1`. -/
  | resend (nextIndex : Int)

/-- A message of the normal stream, what was returned for it, and the last index at that time. -/
structure SentMsg where
  record : ConRecord
  more : Int
  lastIdx : Int

def SentMsg.chunks (msg : SentMsg) : List DataChunk :=
  (List.range msg.record.numEntries.toNat).map msg.record.entries

theorem SentMsg.length_chunks (msg : SentMsg) : msg.chunks.length = msg.record.numEntries.toNat := by
  rw [chunks, List.length_map, List.length_range]

/-- A leader, the messages of one target, and what clients have appended. -/
structure Stream where
  node : Node
  sent : List SentMsg
  appended : List DataChunk

namespace Stream

def step (targetId : Nat) (s : Stream) : StreamEvent → Stream
  | .append chunk =>
    match s.node.smLog.appendCommand chunk s.node.priv.term (i32 (s.node.smLog.lastIdx + 1)) with
    | .error _ => s
    | .ok log => { s with node := { s.node with smLog := log }, appended := s.appended ++ [chunk] }
  | .send =>
    match s.node.setupAppendMsg targetId 0 false with
    | (n, _, none) => { s with node := n }
    | (n, more, some record) =>
      { s with node := n, sent := s.sent ++ [⟨record, more, n.smLog.lastIdx⟩] }
  | .resend nextIndex => { s with node := (s.node.setupAppendMsg targetId nextIndex true).1 }

/-- The next index is at most `maxIdx`, and the entries not sent yet fit into the ring with it. -/
def Admits (targetId : Nat) (maxIdx : Int) (s : Stream) : StreamEvent → Prop
  | .append _ => s.node.smLog.lastIdx < maxIdx ∧
      s.node.smLog.lastIdx + 2 - s.node.leaderIdx.nextIndex targetId < s.node.smLog.maxEntries
  | _ => True

instance (targetId : Nat) (maxIdx : Int) (s : Stream) :
    (e : StreamEvent) → Decidable (s.Admits targetId maxIdx e)
  | .append _ => inferInstanceAs (Decidable (_ ∧ _))
  | .send => isTrue trivial
  | .resend _ => isTrue trivial

/-- All that the messages carry, one after the other. -/
def chunks (s : Stream) : List DataChunk := s.sent.flatMap SentMsg.chunks

end Stream

/-- The messages lead from one index to another without gap or overlap. None of them is empty or too
long, and `more` tells whether it leaves entries behind. -/
def Chained (maxEntriesPerPkt : Int) : Int → List SentMsg → Int → Prop
  | first, [], next => first = next
  | first, msg :: sent, next =>
    msg.record.startIdx = first ∧ 1 ≤ msg.record.numEntries.toNat ∧
      msg.record.numEntries.toNat ≤ maxEntriesPerPkt ∧
      (msg.more = 1 ↔ first + msg.record.numEntries.toNat ≤ msg.lastIdx) ∧
      Chained maxEntriesPerPkt (first + msg.record.numEntries.toNat) sent next

theorem Chained.append {maxEntriesPerPkt first next next' : Int} {sent : List SentMsg} {msg : SentMsg}
    (h : Chained maxEntriesPerPkt first sent next) (hmsg : Chained maxEntriesPerPkt next [msg] next') :
    Chained maxEntriesPerPkt first (sent ++ [msg]) next' := by
  induction sent generalizing first with
  | nil =>
    obtain rfl : first = next := h
    exact hmsg
  | cons head sent ih =>
    obtain ⟨hstart, hlow, hhigh, hmore, hrest⟩ := h
    exact ⟨hstart, hlow, hhigh, hmore, ih hrest⟩

namespace Node

/-- A leader state in which the stream of a target may begin, with indices up to `maxIdx`. -/
structure StartsStream (n : Node) (targetId : Nat) (maxIdx : Int) : Prop where
  target : targetId < n.numOfTargets
  max : 1 ≤ n.priv.maxEntriesPerPkt ∧ n.priv.maxEntriesPerPkt ≤ maxAeEntriesPerPkt
  next : 0 ≤ n.leaderIdx.nextIndex targetId ∧ n.leaderIdx.nextIndex targetId ≤ 2147483647
  next_le : n.leaderIdx.nextIndex targetId ≤ n.smLog.lastIdx + 1
  last_le : n.smLog.lastIdx ≤ maxIdx
  sized : 0 < n.smLog.maxEntries ∧ n.smLog.maxEntries ≤ maxConsensusLog
  window : n.smLog.lastIdx + 1 - n.leaderIdx.nextIndex targetId < n.smLog.maxEntries
  term : 0 ≤ n.priv.term ∧ n.priv.term ≤ 2147483647
  terms : ∀ i, 0 ≤ i → i ≤ n.smLog.lastIdx → 0 ≤ i32 (n.smLog.entry i).term

/-- The entries from `next_index` on. -/
def pendingEntries (n : Node) (targetId : Nat) : List DataChunk :=
  (List.range (n.smLog.lastIdx + 1 - n.leaderIdx.nextIndex targetId).toNat).map fun j : Nat =>
    (n.smLog.entry (n.leaderIdx.nextIndex targetId + j)).dataChunk

end Node

namespace Stream

variable {n : Node} {targetId : Nat} {s : Stream}

/-- What the messages of the stream are cut from. -/
def source (n : Node) (targetId : Nat) (appended : List DataChunk) : List DataChunk :=
  n.pendingEntries targetId ++ appended

/-- Where the stream of a target stands that began with `next_index` of `n`. -/
structure Inv (n : Node) (targetId : Nat) (s : Stream) : Prop where
  priv : s.node.priv = n.priv
  targets : s.node.numOfTargets = n.numOfTargets
  maxEntries : s.node.smLog.maxEntries = n.smLog.maxEntries
  cursor : s.node.leaderIdx.nextIndex targetId =
    i32 (n.leaderIdx.nextIndex targetId + s.chunks.length)
  last : s.node.smLog.lastIdx + 1 =
    n.leaderIdx.nextIndex targetId + (source n targetId s.appended).length
  last_le : s.node.smLog.lastIdx ≤ 2147483646
  window : s.node.smLog.lastIdx + 1 - (n.leaderIdx.nextIndex targetId + s.chunks.length) <
    n.smLog.maxEntries
  terms : ∀ i, 0 ≤ i → i ≤ s.node.smLog.lastIdx → 0 ≤ i32 (s.node.smLog.entry i).term
  /-- The ring still holds what is less than one turn old. -/
  ring : ∀ (j : Nat) chunk, (source n targetId s.appended)[j]? = some chunk →
    s.node.smLog.lastIdx < n.leaderIdx.nextIndex targetId + j + n.smLog.maxEntries →
    (s.node.smLog.entry (n.leaderIdx.nextIndex targetId + j)).dataChunk = chunk
  sent : s.chunks <+: source n targetId s.appended
  chained : Chained n.priv.maxEntriesPerPkt (n.leaderIdx.nextIndex targetId) s.sent
    (n.leaderIdx.nextIndex targetId + s.chunks.length)

theorem inv_start (h : n.StartsStream targetId 2147483646) : Inv n targetId ⟨n, [], []⟩ := by
  have hnext := h.next
  have hnext_le := h.next_le
  have hlen : (source n targetId []).length =
      (n.smLog.lastIdx + 1 - n.leaderIdx.nextIndex targetId).toNat := by
    simp [source, Node.pendingEntries]
  have hcursor : n.leaderIdx.nextIndex targetId + ([] : List DataChunk).length =
      n.leaderIdx.nextIndex targetId := Int.add_zero _
  refine ⟨rfl, rfl, rfl, ?_, ?_, h.last_le, ?_, h.terms, fun j chunk hchunk _ => ?_,
    List.nil_prefix, hcursor.symm⟩
  · calc n.leaderIdx.nextIndex targetId
        = i32 (n.leaderIdx.nextIndex targetId) := (i32_eq_self (by omega) (by omega)).symm
      _ = _ := congrArg i32 hcursor.symm
  · dsimp only
    omega
  · exact (congrArg (n.smLog.lastIdx + 1 - ·) hcursor).trans_lt h.window
  · simp only [source, Node.pendingEntries, List.append_nil, List.getElem?_map] at hchunk
    obtain ⟨k, hk, rfl⟩ := Option.map_eq_some_iff.mp hchunk
    obtain ⟨hlt, rfl⟩ := List.getElem?_eq_some_iff.mp hk
    rw [List.getElem_range]

theorem Inv.le_last (h : Inv n targetId s) :
    n.leaderIdx.nextIndex targetId + s.chunks.length ≤ s.node.smLog.lastIdx + 1 := by
  have hlen := h.sent.length_le
  have hlast := h.last
  omega

theorem Inv.target_le (hstart : n.StartsStream targetId 2147483646) (h : Inv n targetId s) :
    targetId ≤ s.node.numOfTargets := h.targets.symm ▸ hstart.target.le

theorem Inv.sized (hstart : n.StartsStream targetId 2147483646) (h : Inv n targetId s) : s.node.smLog.Sized := by
  rw [SmLog.Sized, h.maxEntries]
  exact ⟨hstart.sized.1, hstart.sized.2.trans (by decide)⟩

theorem store_terms {log : SmLog} {term : Int} (hterm : 0 ≤ term ∧ term ≤ 2147483647)
    (hterms : ∀ i, 0 ≤ i → i ≤ log.lastIdx → 0 ≤ i32 (log.entry i).term) (chunk : DataChunk) {i : Int}
    (hi : 0 ≤ i) (hle : i ≤ log.lastIdx + 1) :
    0 ≤ i32 ((log.store chunk term (log.lastIdx + 1)).entry i).term := by
  by_cases hslot : log.slot i = log.slot (log.lastIdx + 1)
  · rw [log.store_entry_self chunk _ hslot, i32_u32, i32_eq_self (by omega) hterm.2]
    exact hterm.1
  · have hne : i ≠ log.lastIdx + 1 := fun heq => hslot (heq ▸ rfl)
    rw [log.store_entry_of_ne chunk _ hslot]
    exact hterms i hi (by omega)

theorem source_append (n : Node) (targetId : Nat) (appended : List DataChunk) (chunk : DataChunk) :
    source n targetId (appended ++ [chunk]) = source n targetId appended ++ [chunk] :=
  (List.append_assoc ..).symm

/-- Nothing less than one turn old is overwritten by the next entry. -/
theorem Inv.ring_append (hstart : n.StartsStream targetId 2147483646) (h : Inv n targetId s) (chunk : DataChunk)
    {j : Nat} {chunk' : DataChunk}
    (hchunk : (source n targetId (s.appended ++ [chunk]))[j]? = some chunk')
    (hfresh : s.node.smLog.lastIdx + 1 < n.leaderIdx.nextIndex targetId + j + n.smLog.maxEntries)
    (hint : s.node.smLog.lastIdx < 2147483646) :
    ((s.node.smLog.store chunk s.node.priv.term (s.node.smLog.lastIdx + 1)).entry
      (n.leaderIdx.nextIndex targetId + j)).dataChunk = chunk' := by
  have hnext := hstart.next
  have hlast := h.last
  rw [source_append] at hchunk
  by_cases hnew : j < (source n targetId s.appended).length
  · rw [List.getElem?_append_left hnew] at hchunk
    have hslot : s.node.smLog.slot (n.leaderIdx.nextIndex targetId + j) ≠
        s.node.smLog.slot (s.node.smLog.lastIdx + 1) := fun hslot => by
      have := (h.sized hstart).add_le_of_slot_eq (by omega) (by omega) (by omega) hslot
      rw [h.maxEntries] at this
      omega
    rw [s.node.smLog.store_entry_of_ne chunk _ hslot]
    exact h.ring j chunk' hchunk (by omega)
  · have hj : j = (source n targetId s.appended).length := by
      have hlt := (List.getElem?_eq_some_iff.mp hchunk).1
      rw [List.length_append, List.length_singleton] at hlt
      omega
    rw [hj, List.getElem?_concat_length] at hchunk
    obtain rfl := Option.some.inj hchunk
    rw [hj, ← hlast, s.node.smLog.store_entry_self chunk _ rfl]

theorem Inv.append (hstart : n.StartsStream targetId 2147483646) (h : Inv n targetId s) {chunk : DataChunk}
    (hadmits : s.Admits targetId 2147483646 (.append chunk)) :
    Inv n targetId (s.step targetId (.append chunk)) := by
  obtain ⟨hint, hroom⟩ := hadmits
  have hnext := hstart.next
  have hle := h.le_last
  have hlast := h.last
  have hidx : i32 (s.node.smLog.lastIdx + 1) = s.node.smLog.lastIdx + 1 :=
    i32_eq_self (by omega) (by omega)
  rw [Stream.step, hidx, SmLog.appendCommand]
  split
  case h_1 => exact h
  case h_2 log heq =>
  split_ifs at heq
  obtain rfl := Except.ok.inj heq
  have hlog : (s.node.smLog.store chunk s.node.priv.term (s.node.smLog.lastIdx + 1)).lastIdx =
      s.node.smLog.lastIdx + 1 := if_pos (by omega)
  have hcursor := h.cursor
  rw [i32_eq_self (by omega) (by omega)] at hcursor
  rw [hcursor, h.maxEntries] at hroom
  refine ⟨h.priv, h.targets, h.maxEntries, h.cursor, ?_, ?_, ?_, ?_, ?_, ?_, h.chained⟩
  all_goals dsimp only
  · rw [source_append, hlog, List.length_append, List.length_singleton]
    omega
  · omega
  · change _ - (n.leaderIdx.nextIndex targetId + s.chunks.length) < _
    omega
  · intro i hi hile
    exact store_terms (h.priv ▸ hstart.term) h.terms chunk hi (hile.trans_eq hlog)
  · intro j chunk' hchunk hfresh
    exact h.ring_append hstart chunk hchunk (hlog ▸ hfresh) hint
  · exact h.sent.trans (source_append n targetId s.appended chunk ▸ List.prefix_append ..)

/-- With nothing to send, also where `next_index` has run over, the call does nothing. -/
theorem Inv.send_none (hstart : n.StartsStream targetId 2147483646) (h : Inv n targetId s)
    (hall : s.node.smLog.lastIdx < n.leaderIdx.nextIndex targetId + s.chunks.length) :
    s.step targetId .send = s := by
  have hnext := hstart.next
  have hle := h.le_last
  have hlast_le := h.last_le
  have hget : s.node.getNextIdx targetId < -1 := by
    obtain ⟨_, _, k, hk⟩ := i32_spec (n.leaderIdx.nextIndex targetId + s.chunks.length)
    rw [Node.getNextIdx_eq (h.target_le hstart), h.cursor]
    split <;> omega
  have hprev : s.node.smLog.getPrevLogTerm s.node.priv.term (s.node.getNextIdx targetId - 1) < 0 := by
    rw [SmLog.getPrevLogTerm, if_neg (by omega), if_pos (by omega)]
    decide
  obtain ⟨ret, -, hnone⟩ := s.node.appendMsgAt_none targetId false (.inr (.inl hprev))
  simp only [Stream.step, Node.setupAppendMsg, Node.repairLast_of_le (n := s.node) (by omega),
    Bool.false_eq_true, if_false, hnone]

/-- The message is the next one that a leader builds from the index on. -/
structure IsNext (n : Node) (first : Int) (msg : SentMsg) : Prop where
  startIdx : msg.record.startIdx = first
  num : (msg.record.numEntries.toNat : Int) =
    min n.priv.maxEntriesPerPkt (n.smLog.lastIdx - first + 1)
  entries : ∀ k : Nat, k < msg.record.numEntries.toNat →
    msg.record.entries k = (n.smLog.entry (first + k)).dataChunk
  more : msg.more = if n.priv.maxEntriesPerPkt < n.smLog.lastIdx - first + 1 then 1 else 0
  lastIdx : msg.lastIdx = n.smLog.lastIdx

theorem IsNext.chained {first : Int} {msg : SentMsg} (h : IsNext n first msg)
    (hmax : 1 ≤ n.priv.maxEntriesPerPkt) (hfirst : first ≤ n.smLog.lastIdx) :
    Chained n.priv.maxEntriesPerPkt first [msg] (first + msg.record.numEntries.toNat) := by
  have hnum := h.num
  refine ⟨h.startIdx, by omega, by omega, ?_, rfl⟩
  rw [h.more, h.lastIdx]
  split <;> omega

theorem Inv.send_some (hstart : n.StartsStream targetId 2147483646) (h : Inv n targetId s) {next : Int}
    (hnext : n.leaderIdx.nextIndex targetId + s.chunks.length = next)
    (hleft : next ≤ s.node.smLog.lastIdx) :
    ∃ msg, IsNext s.node next msg ∧ s.step targetId .send =
      { s with
        node := s.node.advanceNextIndex targetId msg.record.numEntries.toNat
        sent := s.sent ++ [msg] } := by
  have hlow := hstart.next
  have hmax := hstart.max
  have hsized := hstart.sized
  have hlast := h.last_le
  have hwindow := h.window
  have hsmall : maxConsensusLog = 400000 := rfl
  rw [← h.priv] at hmax
  have hcursor : s.node.leaderIdx.nextIndex targetId = next := by
    rw [h.cursor, hnext, i32_eq_self (by omega) (by omega)]
  have hprev : 0 ≤ s.node.smLog.getPrevLogTerm s.node.priv.term (next - 1) :=
    SmLog.getPrevLogTerm_nonneg (h.sized hstart) (.inl (h.maxEntries ▸ hsized.2))
      (h.priv ▸ hstart.term.1) (by omega) (by omega) (by omega) fun hpos => h.terms _ hpos (by omega)
  have hsetup := Node.setupAppendMsg_next (by omega) (h.target_le hstart)
    (hcursor.trans_le hleft) 0
  obtain ⟨size, -, happend⟩ := s.node.appendMsgAt_eq targetId next false hmax (by omega) hleft
    (by omega) hprev
  rw [s.node.entriesToSend_eq next (by omega) (by omega)] at happend
  rw [hcursor, happend] at hsetup
  dsimp only at hsetup
  generalize hnum : min s.node.priv.maxEntriesPerPkt (s.node.smLog.lastIdx - next + 1) = num at hsetup
  obtain ⟨-, hstartIdx, hnumEntries, hentries⟩ := setAeData_range size s.node.priv.term
    s.node.priv.nodeId (s.node.smLog.getPrevLogTerm s.node.priv.term (next - 1))
    s.node.smLog.commitIdx s.node.smLog (show 0 ≤ next by omega) (show 1 ≤ num by omega) (by omega)
    (by omega)
  generalize setAeData .. = record at hsetup hstartIdx hnumEntries hentries
  refine ⟨⟨record, _, s.node.smLog.lastIdx⟩, ⟨hstartIdx, hnumEntries.trans hnum.symm,
    fun k hk => hentries k (by dsimp only at hk; omega), rfl, rfl⟩, ?_⟩
  simp only [Stream.step, hsetup, hnumEntries]
  rfl

/-- What the next message carries continues the stream. -/
theorem Inv.chunks_prefix (hstart : n.StartsStream targetId 2147483646) (h : Inv n targetId s) {next : Int}
    (hnext : n.leaderIdx.nextIndex targetId + s.chunks.length = next) {msg : SentMsg}
    (hmsg : IsNext s.node next msg) : s.chunks ++ msg.chunks <+: source n targetId s.appended := by
  have hlow := hstart.next
  have hlast := h.last
  have hwindow := h.window
  have hring := h.ring
  have hnum := hmsg.num
  obtain ⟨rest, hrest⟩ := h.sent
  rw [← hrest] at hlast hring
  rw [List.length_append] at hlast
  rw [← hrest, List.prefix_append_right_inj, List.prefix_iff_getElem?]
  intro k hk
  rw [msg.length_chunks] at hk
  have hk' : k < rest.length := by omega
  have hfound : (s.chunks ++ rest)[s.chunks.length + k]? = some rest[k] := by
    rw [List.getElem?_append_right (Nat.le_add_right _ _), Nat.add_sub_cancel_left,
      List.getElem?_eq_getElem hk']
  have hentry := hring _ _ hfound (by omega)
  have hidx : n.leaderIdx.nextIndex targetId + (s.chunks.length + k : Nat) = next + k := by omega
  rw [hidx] at hentry
  rw [List.getElem?_eq_getElem hk', ← hentry, ← hmsg.entries k hk]
  simp [SentMsg.chunks]

theorem Inv.send (hstart : n.StartsStream targetId 2147483646) (h : Inv n targetId s) :
    Inv n targetId (s.step targetId .send) := by
  by_cases hall : s.node.smLog.lastIdx < n.leaderIdx.nextIndex targetId + s.chunks.length
  · rw [h.send_none hstart hall]
    exact h
  generalize hnext : n.leaderIdx.nextIndex targetId + s.chunks.length = next at hall
  obtain ⟨msg, hmsg, hstep⟩ := h.send_some hstart hnext (not_lt.mp hall)
  have hchained := hmsg.chained (h.priv ▸ hstart.max.1) (not_lt.mp hall)
  rw [h.priv] at hchained
  have hchunks : chunks { s with
      node := s.node.advanceNextIndex targetId msg.record.numEntries.toNat
      sent := s.sent ++ [msg] } = s.chunks ++ msg.chunks := by
    simp [chunks]
  have hcursor : n.leaderIdx.nextIndex targetId + (s.chunks ++ msg.chunks).length =
      next + msg.record.numEntries.toNat := by
    rw [List.length_append, msg.length_chunks]
    omega
  rw [hstep]
  refine ⟨h.priv, h.targets, h.maxEntries, ?_, h.last, h.last_le, ?_, h.terms, h.ring, ?_, ?_⟩
  all_goals rw [hchunks]
  · rw [hcursor, Node.advanceNextIndex]
    dsimp only
    rw [Function.update_self, h.cursor, hnext, i32_i32_add]
  · have hwindow := h.window
    rw [hcursor]
    change s.node.smLog.lastIdx + 1 - (next + msg.record.numEntries.toNat) < _
    omega
  · exact h.chunks_prefix hstart hnext hmsg
  · rw [hcursor]
    exact (hnext ▸ h.chained).append hchained

theorem Inv.step (hstart : n.StartsStream targetId 2147483646) (h : Inv n targetId s) {e : StreamEvent}
    (hadmits : s.Admits targetId 2147483646 e) : Inv n targetId (s.step targetId e) := by
  cases e with
  | append chunk => exact h.append hstart hadmits
  | send => exact h.send hstart
  | resend nextIndex =>
    have hlast : -1 ≤ s.node.smLog.lastIdx := by
      have := h.le_last
      have := hstart.next
      omega
    have hsame : s.step targetId (.resend nextIndex) = s := by
      rw [Stream.step, Node.setupAppendMsg, Node.repairLast_of_le hlast, Node.appendMsgAt_retrans]
    exact hsame.symm ▸ h

/-- **Gap-free streaming.** Whatever is appended and sent again in between: each normal message starts
where the last one ended, is neither empty nor too long and says whether it leaves something behind;
together they carry the log from the first `next_index` up to the present one, and as much of it as the
ring still holds stands there. A retransmission changes nothing. -/
theorem gap_free_streaming (hstart : n.StartsStream targetId 2147483646) (events : List StreamEvent)
    (hadmits : Meets (step targetId) (Admits targetId 2147483646) ⟨n, [], []⟩ events) :
    let s := Run.run (step targetId) ⟨n, [], []⟩ events
    let first := n.leaderIdx.nextIndex targetId
    let next := first + s.chunks.length
    s.node.leaderIdx.nextIndex targetId = i32 next ∧ next ≤ s.node.smLog.lastIdx + 1 ∧
      Chained n.priv.maxEntriesPerPkt first s.sent next ∧
      s.chunks = (n.pendingEntries targetId ++ s.appended).take s.chunks.length ∧
      (∀ (j : Nat) chunk, s.chunks[j]? = some chunk →
        s.node.smLog.lastIdx < first + j + n.smLog.maxEntries →
        (s.node.smLog.entry (first + j)).dataChunk = chunk) ∧
      ∀ nextIndex, (s.node.setupAppendMsg targetId nextIndex true).1 = s.node := by
  have h : Inv n targetId (Run.run (step targetId) ⟨n, [], []⟩ events) :=
    Run.invariant (step targetId) (fun _ _ hinv hadm => hinv.step hstart hadm) (inv_start hstart) hadmits
  refine ⟨h.cursor, h.le_last, h.chained, List.prefix_iff_eq_take.mp h.sent,
    fun j chunk hchunk hfresh => ?_, fun nextIndex => ?_⟩
  · obtain ⟨rest, hrest⟩ := h.sent
    refine h.ring j chunk ?_ hfresh
    rw [← hrest, List.getElem?_append_left (List.getElem?_eq_some_iff.mp hchunk).1, hchunk]
  · have hle := h.le_last
    have hnext := hstart.next
    rw [Node.setupAppendMsg, Node.repairLast_of_le (by omega), Node.appendMsgAt_retrans]

def oneEntry : Node :=
  Node.run (consensusInit (smallConfig 1 [2, 3]) zeroUninit) (leading [sampleChunk 5])

theorem startsStream_oneEntry : oneEntry.StartsStream 0 2147483646 where
  target := by decide
  max := by decide
  next := by decide
  next_le := by decide
  last_le := by decide
  sized := by decide
  window := by decide
  term := by decide
  terms i hlow hhigh := by
    have hlast : oneEntry.smLog.lastIdx = 0 := by decide
    obtain rfl : i = 0 := by omega
    decide

def someTraffic : List StreamEvent :=
  [.send, .append (sampleChunk 6), .resend 0, .append (sampleChunk 7), .send]

theorem gap_free_streaming_oneEntry :
    (Run.run (step 0) ⟨oneEntry, [], []⟩ someTraffic).chunks =
      (oneEntry.pendingEntries 0 ++ [sampleChunk 6, sampleChunk 7]).take 3 :=
  (gap_free_streaming startsStream_oneEntry someTraffic (by decide)).2.2.2.1

/-- The same leader, where the log has come to the last index there is. -/
def lastEntry : Node :=
  { oneEntry with
    smLog := { oneEntry.smLog with
      lastIdx := 2147483647
      entries := fun _ => ⟨true, 1, sampleChunk 5⟩ }
    leaderIdx.nextIndex := fun _ => 2147483647 }

theorem startsStream_lastEntry : lastEntry.StartsStream 0 2147483647 where
  target := by decide
  max := by decide
  next := by decide
  next_le := by decide
  last_le := by decide
  sized := by decide
  window := by decide
  term := by decide
  terms i _ _ := show 0 ≤ i32 ((1 : Nat) : Int) by decide

/-- The message announces the entry, and the loop of `set_ae_data` does not copy it. -/
theorem last_index_not_streamed :
    ¬ ∀ (n : Node) (targetId : Nat) (events : List StreamEvent), n.StartsStream targetId 2147483647 →
      Meets (step targetId) (Admits targetId 2147483647) ⟨n, [], []⟩ events →
      let s := Run.run (step targetId) ⟨n, [], []⟩ events
      s.chunks = (n.pendingEntries targetId ++ s.appended).take s.chunks.length := by
  intro h
  have hcopied := h lastEntry 0 [.send] startsStream_lastEntry ⟨trivial, trivial⟩
  revert hcopied
  decide +kernel

end Stream

end XlaneLkm
