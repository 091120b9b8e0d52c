import XlaneLkm.Proof.Posts
import XlaneLkm.Cluster

/-!
# What is put into the rx ring

The list of applied commands is kept beside the code. Here it is found in the ring itself: every command
stands in the slot that `write_idx` pointed to, and nothing else in the ring changes.
-/

namespace XlaneLkm

def Event.isUser : Event → Bool
  | .user _ => true
  | _ => false

namespace AsgRingBuf

/-- The chunk stands in the next slot, and everything else is as before. -/
structure Gets (buf : AsgRingBuf) (chunk : DataChunk) (buf' : AsgRingBuf) : Prop where
  nonneg : 0 ≤ buf.writeIdx
  room : buf.writeIdx < asgRingBufSizeLimit
  stored : buf'.ring buf.writeIdx.toNat = chunk
  kept : ∀ k, k ≠ buf.writeIdx.toNat → buf'.ring k = buf.ring k
  writeIdx : buf'.writeIdx = if buf.writeIdx + 1 = buf.size then 0 else buf.writeIdx + 1
  turn : buf'.turn = if buf.writeIdx + 1 = buf.size then 1 else buf.turn
  readIdx : buf'.readIdx = buf.readIdx
  size : buf'.size = buf.size

/-- The chunks are put into the ring one after the other. -/
inductive GetsAll : AsgRingBuf → List DataChunk → AsgRingBuf → Prop
  | nil {buf : AsgRingBuf} : GetsAll buf [] buf
  | cons {buf mid buf' : AsgRingBuf} {chunk : DataChunk} {chunks : List DataChunk} :
    buf.Gets chunk mid → GetsAll mid chunks buf' → GetsAll buf (chunk :: chunks) buf'

variable {buf buf' : AsgRingBuf} {chunk : DataChunk} {chunks : List DataChunk}

theorem gets_of_appendRb (h : buf.appendRb chunk = some buf') : buf.Gets chunk buf' := by
  unfold appendRb at h
  split at h
  · cases h
  case isFalse hroom =>
  obtain ⟨hnonneg, hlimit⟩ := not_or.mp hroom
  dsimp only at h
  split at h
  case isTrue hsize =>
    cases h
    refine ⟨by omega, by omega, Function.update_self .., fun k hk => Function.update_of_ne hk ..,
      (if_pos hsize).symm, (if_pos hsize).symm, rfl, rfl⟩
  case isFalse hsize =>
    cases h
    refine ⟨by omega, by omega, Function.update_self .., fun k hk => Function.update_of_ne hk ..,
      (if_neg hsize).symm, (if_neg hsize).symm, rfl, rfl⟩

theorem getsAll_of_foldlM (h : chunks.foldlM appendRb buf = some buf') : buf.GetsAll chunks buf' := by
  induction chunks generalizing buf with
  | nil =>
    cases h
    exact .nil
  | cons chunk chunks ih =>
    rw [List.foldlM_cons] at h
    cases hfirst : buf.appendRb chunk with
    | none =>
      rw [hfirst] at h
      cases h
    | some mid =>
      rw [hfirst] at h
      exact .cons (gets_of_appendRb hfirst) (ih h)

/-- A step of user space puts nothing into the ring, and any other one exactly the chunks. -/
structure Takes (buf : AsgRingBuf) (byUser : Prop) (chunks : List DataChunk) (buf' : AsgRingBuf) :
    Prop where
  user : byUser → chunks = []
  puts : ¬byUser → buf.GetsAll chunks buf'

end AsgRingBuf

namespace Node

/-- The step of a node takes the chunks into its ring. -/
def PutsIntoRing (n : Node) (e : Event) (chunks : List DataChunk) : Prop :=
  n.rxbuf.Takes (e.isUser = true) chunks (n.step e).rxbuf

theorem step_putsIntoRing {n : Node} (hn : n.Posting) (e : Event) : ∃ chunks,
    (n.step e).smLog.abstract.applied = n.smLog.abstract.applied ++ chunks ∧
      n.PutsIntoRing e chunks := by
  by_cases huser : e.isUser = true
  · have hnothing : (n.step e).smLog = n.smLog := by
      cases e with
      | user rxbuf => rfl
      | _ => cases huser
    exact ⟨[], by rw [hnothing, List.append_nil], fun _ => rfl, fun hother => absurd huser hother⟩
  · obtain ⟨chunks, happlied, hring⟩ := step_handsOver hn (e := e) (by
      rintro rxbuf rfl
      exact huser rfl)
    exact ⟨chunks, happlied, fun h => absurd h huser, fun _ => AsgRingBuf.getsAll_of_foldlM hring⟩

/-- **The applied commands are the contents of the ring**: what the steps of a run have put there, in
this order. -/
theorem run_putsIntoRing (c : Config) (u : Uninit) (events : List Event) :
    Run.Yields step PutsIntoRing (consensusInit c u) events
      (run (consensusInit c u) events).smLog.abstract.applied := by
  obtain ⟨out, happlied, hputs⟩ := Run.yields_of_log step (fun n => n.smLog.abstract.applied)
    (fun _ e h => step_posting e h) (fun _ e h => step_putsIntoRing h e) (posting_init c u) events
  have hout : (run (consensusInit c u) events).smLog.abstract.applied = out := happlied
  exact hout ▸ hputs

end Node

namespace Cluster

variable {ι : Type*} [DecidableEq ι] {c : Cluster ι} {w : World ι}

/-- The move of the cluster takes the chunks into the ring of node `F`. -/
def PutsIntoRing (c : Cluster ι) (F : ι) (w : World ι) (move : Move ι) (chunks : List DataChunk) :
    Prop :=
  (w.node F).rxbuf.Takes (∃ rxbuf, c.event w move = some (F, .user rxbuf)) chunks
    ((c.step w move).node F).rxbuf

theorem step_posting (c : Cluster ι) (w : World ι) (move : Move ι) (h : ∀ i, (w.node i).Posting)
    (i : ι) : ((c.step w move).node i).Posting :=
  forall_node_step h (fun i e _ => Node.step_posting e (h i)) i

theorem step_putsIntoRing (h : ∀ i, (w.node i).Posting) (F : ι) (move : Move ι) : ∃ chunks,
    ((c.step w move).node F).smLog.abstract.applied =
      (w.node F).smLog.abstract.applied ++ chunks ∧ c.PutsIntoRing F w move chunks := by
  cases hevent : c.event w move with
  | none =>
    unfold PutsIntoRing
    rw [hevent, step_of_no_event hevent]
    exact ⟨[], (List.append_nil _).symm, fun _ => rfl, fun _ => .nil⟩
  | some p =>
    obtain ⟨i, e⟩ := p
    unfold PutsIntoRing
    rw [hevent, step_of_event hevent]
    by_cases hi : F = i
    · subst hi
      obtain ⟨chunks, happlied, hputs⟩ := Node.step_putsIntoRing (h F) e
      rw [World.act_self]
      have huser : (∃ rxbuf, some (F, e) = some (F, Event.user rxbuf)) ↔ e.isUser = true := by
        cases e <;> simp [Event.isUser]
      exact ⟨chunks, happlied, fun hread => hputs.user (huser.mp hread),
        fun hread => hputs.puts fun he => hread (huser.mpr he)⟩
    · rw [World.act_of_ne w e hi]
      exact ⟨[], (List.append_nil _).symm, fun _ => rfl, fun _ => .nil⟩

theorem run_putsIntoRing (c : Cluster ι) (F : ι) (moves : List (Move ι)) :
    Run.Yields c.step (c.PutsIntoRing F) c.init moves
      ((c.run moves).node F).smLog.abstract.applied := by
  obtain ⟨out, happlied, hputs⟩ := Run.yields_of_log c.step
    (I := fun w => ∀ i, (w.node i).Posting) (s := c.init)
    (fun w => (w.node F).smLog.abstract.applied) c.step_posting
    (fun _ move h => step_putsIntoRing h F move)
    (fun i => Node.posting_init (c.config i) (c.uninit i)) moves
  have hout : ((c.run moves).node F).smLog.abstract.applied = out := happlied
  exact hout ▸ hputs

end Cluster

end XlaneLkm
