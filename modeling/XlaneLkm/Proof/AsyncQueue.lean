import XlaneLkm.AsyncQueue
import XlaneLkm.Library.Run

/-!
# The doorbell counts the packets it was rung for

What the doorbell shows is the number of packets in the queue, less the insertions that were not rung
for yet, and one more between a removal and its decrement. The insertion comes before the ring and the
test before the removal, so this number is never negative, and it is positive all the time between the
test and the decrement.
-/

namespace XlaneLkm

open MachineInt

/-- The packet that is out of the queue and not sent yet. -/
def EmitState.inHand {α : Type*} : EmitState α → List (AsyncPkt α)
  | .dequeued (some apkt) => [apkt]
  | _ => []

namespace AsyncRun

variable {ι α : Type*} {s s' : AsyncRun ι α}

/-- Every packet that is still to be sent, in the order in which that will happen. -/
def waiting (s : AsyncRun ι α) : List (AsyncPkt α) :=
  s.emit.inHand ++ s.queue.headOfAsyncPktQueue

/-- The packets waiting, less the insertions that have not been rung for. -/
def signalled (s : AsyncRun ι α) : Int := s.waiting.length - s.ringing.card

structure Inv (s : AsyncRun ι α) : Prop where
  doorbell : s.queue.doorbell = i32 s.signalled
  nonneg : 0 ≤ s.signalled
  /-- Nothing but the consumer itself takes back what it has seen. -/
  positive : s.emit ≠ .idle → 0 < s.signalled
  notNull : s.emit ≠ .dequeued none
  conserved : (s.emitted ++ s.waiting).Perm s.inserted
  inOrder : (s.emitted ++ s.waiting).filter (fun apkt => !apkt.atFront) =
    s.inserted.filter fun apkt => !apkt.atFront

theorem inv_init : (init : AsyncRun ι α).Inv where
  doorbell := rfl
  nonneg := le_rfl
  positive h := absurd rfl h
  notNull := nofun
  conserved := .nil
  inOrder := rfl

/-- The new packet goes behind all that wait, or in front of the queue, behind the one in hand. -/
theorem Inv.insertion [DecidableEq ι] (h : s.Inv) {i : ι} (hi : i ∉ s.ringing) (apkt : AsyncPkt α)
    (queue : AsyncQueue (AsyncPkt α)) (hdoorbell : queue.doorbell = s.queue.doorbell)
    (hperm : (s.emit.inHand ++ queue.headOfAsyncPktQueue).Perm (s.waiting ++ [apkt]))
    (horder : (s.emit.inHand ++ queue.headOfAsyncPktQueue).filter (fun apkt => !apkt.atFront) =
      (s.waiting ++ [apkt]).filter fun apkt => !apkt.atFront) :
    Inv { s with
      queue, ringing := insert i s.ringing, inserted := s.inserted ++ [apkt] } := by
  have hsignalled : signalled { s with
      queue, ringing := insert i s.ringing, inserted := s.inserted ++ [apkt] } = s.signalled := by
    have hlen := hperm.length_eq
    rw [s.waiting.length_append, List.length_singleton] at hlen
    simp only [signalled, waiting, Finset.card_insert_of_notMem hi]
    simp only [waiting] at hlen
    omega
  refine ⟨?_, ?_, ?_, h.notNull, ?_, ?_⟩
  · rw [hsignalled]
    exact hdoorbell.trans h.doorbell
  · exact hsignalled ▸ h.nonneg
  · rw [hsignalled]
    exact h.positive
  · have hall := (hperm.append_left s.emitted).trans (.of_eq (List.append_assoc ..).symm)
    exact hall.trans (h.conserved.append_right _)
  · calc (s.emitted ++ (s.emit.inHand ++ queue.headOfAsyncPktQueue)).filter _
      _ = (s.emitted ++ s.waiting ++ [apkt]).filter _ := by
        rw [List.filter_append, horder, ← List.filter_append, List.append_assoc]
      _ = (s.inserted ++ [apkt]).filter _ := by
        rw [List.filter_append, h.inOrder, ← List.filter_append]

theorem Inv.ring [DecidableEq ι] (h : s.Inv) {i : ι} (hi : i ∈ s.ringing) :
    Inv { s with queue := s.queue.ringAaDoorbell, ringing := s.ringing.erase i } := by
  have hpos : 0 < s.ringing.card := Finset.card_pos.mpr ⟨i, hi⟩
  have hsignalled : signalled { s with
      queue := s.queue.ringAaDoorbell, ringing := s.ringing.erase i } = s.signalled + 1 := by
    simp only [signalled, waiting, AsyncQueue.ringAaDoorbell, Finset.card_erase_of_mem hi]
    omega
  have hnonneg := h.nonneg
  refine ⟨?_, ?_, fun _ => ?_, h.notNull, h.conserved, h.inOrder⟩
  · rw [hsignalled]
    simp only [AsyncQueue.ringAaDoorbell, h.doorbell, i32_i32_add]
  · omega
  · omega

/-- A positive doorbell counts a packet. -/
theorem Inv.test (h : s.Inv) (hidle : s.emit = .idle) (htest : 0 < s.queue.doorbell) :
    Inv { s with emit := .tested } := by
  have hwaiting : waiting { s with emit := .tested } = s.waiting := by
    simp only [waiting, hidle, EmitState.inHand]
  have hsignalled : signalled { s with emit := .tested } = s.signalled := by
    simp only [signalled, hwaiting]
  have hpos : 0 < s.signalled := by
    refine h.nonneg.lt_of_ne fun hzero => ?_
    rw [h.doorbell, ← hzero] at htest
    exact absurd htest (by decide)
  refine ⟨?_, ?_, fun _ => ?_, nofun, ?_, ?_⟩
  · rw [hsignalled]
    exact h.doorbell
  · exact hsignalled ▸ h.nonneg
  · exact hsignalled ▸ hpos
  · exact hwaiting ▸ h.conserved
  · exact hwaiting ▸ h.inOrder

/-- Between the test and the removal the queue cannot be empty. -/
theorem Inv.dequeue (h : s.Inv) (htested : s.emit = .tested) :
    Inv { s with
      queue := s.queue.dequeueAsyncPkt.1, emit := .dequeued s.queue.dequeueAsyncPkt.2 } := by
  have hwaiting : s.waiting = s.queue.headOfAsyncPktQueue := by
    simp only [waiting, htested, EmitState.inHand, List.nil_append]
  have hpos : 0 < s.signalled := h.positive (by rw [htested]; nofun)
  obtain ⟨apkt, rest, hqueue⟩ : ∃ apkt rest, s.queue.headOfAsyncPktQueue = apkt :: rest := by
    refine List.exists_cons_of_ne_nil fun hnil => ?_
    rw [signalled, hwaiting, hnil, List.length_nil] at hpos
    omega
  have hdequeue : s.queue.dequeueAsyncPkt =
      ({ s.queue with headOfAsyncPktQueue := rest }, some apkt) := by
    simp only [AsyncQueue.dequeueAsyncPkt, hqueue]
  rw [hdequeue]
  have hsame : waiting { s with
      queue := { s.queue with headOfAsyncPktQueue := rest }
      emit := .dequeued (some apkt) } = s.waiting := by
    rw [hwaiting, hqueue]
    rfl
  have hsignalled : signalled { s with
      queue := { s.queue with headOfAsyncPktQueue := rest }
      emit := .dequeued (some apkt) } = s.signalled := by
    simp only [signalled, hsame]
  refine ⟨?_, ?_, fun _ => ?_, nofun, ?_, ?_⟩
  · rw [hsignalled]
    exact h.doorbell
  · exact hsignalled ▸ h.nonneg
  · exact hsignalled ▸ hpos
  · exact hsame ▸ h.conserved
  · exact hsame ▸ h.inOrder

theorem Inv.decrement (h : s.Inv) {curApkt : Option (AsyncPkt α)}
    (hcur : s.emit = .dequeued curApkt) :
    Inv { s with
      queue := { s.queue with doorbell := i32 (s.queue.doorbell - 1) }
      emit := .idle
      emitted := s.emitted ++ curApkt.toList } := by
  obtain ⟨apkt, rfl⟩ : ∃ apkt, curApkt = some apkt := by
    refine Option.ne_none_iff_exists'.mp fun hnone => ?_
    exact h.notNull (hnone ▸ hcur)
  have hwaiting : s.waiting = apkt :: s.queue.headOfAsyncPktQueue := by
    rw [waiting, hcur]
    rfl
  have hpos : 0 < s.signalled := h.positive (by rw [hcur]; nofun)
  have hsignalled : signalled { s with
      queue := { s.queue with doorbell := i32 (s.queue.doorbell - 1) }
      emit := .idle
      emitted := s.emitted ++ (some apkt).toList } = s.signalled - 1 := by
    rw [signalled, signalled, hwaiting, List.length_cons]
    simp only [waiting, EmitState.inHand, List.nil_append]
    omega
  have hall : s.emitted ++ [apkt] ++ s.queue.headOfAsyncPktQueue = s.emitted ++ s.waiting := by
    rw [hwaiting, List.append_assoc, List.singleton_append]
  refine ⟨?_, ?_, fun hbusy => absurd rfl hbusy, nofun, ?_, ?_⟩
  · rw [hsignalled]
    simp only [h.doorbell, Int.sub_eq_add_neg, i32_i32_add]
  · omega
  · exact (List.Perm.of_eq hall).trans h.conserved
  · exact (congrArg _ hall).trans h.inOrder

section

variable [DecidableEq ι]

theorem Inv.step (h : s.Inv) (hstep : Step s s') : s'.Inv := by
  cases hstep with
  | enqueue i payload hi =>
    refine h.insertion hi ⟨false, payload⟩ _ rfl ?_ ?_ <;>
      rw [AsyncQueue.enqueueAsyncPkt, waiting, List.append_assoc]
  | pushFront i payload hi =>
    refine h.insertion hi ⟨true, payload⟩ _ rfl ?_ ?_
    · exact List.perm_middle.trans (List.perm_append_singleton _ _).symm
    · simp [AsyncQueue.pushFrontAsyncPkt, waiting]
  | ring i hi => exact h.ring hi
  | test hidle htest => exact h.test hidle htest
  | dequeue htested => exact h.dequeue htested
  | decrement curApkt hcur => exact h.decrement hcur

theorem Reachable.inv (h : Reachable s) : s.Inv :=
  Run.preserved_of_moves (fun _ _ hstep hinv => hinv.step hstep) h inv_init

/-- **The doorbell never lies.** In every interleaving, the consumer that has seen the doorbell ring
finds a packet; nothing is lost or sent twice; what was added at the back leaves in the order in which
it came; and the doorbell, as an `int`, is the length of the queue when nobody is in the middle of
anything. -/
theorem reachable_asyncRun (h : Reachable s) :
    s.emit ≠ .dequeued none ∧
    (s.emitted ++ s.waiting).Perm s.inserted ∧
    (s.inserted.Nodup → s.emitted.Nodup) ∧
    s.emitted.filter (fun apkt => !apkt.atFront) <+: s.inserted.filter (fun apkt => !apkt.atFront) ∧
    (s.ringing = ∅ → s.emit = .idle →
      s.queue.doorbell = i32 s.queue.headOfAsyncPktQueue.length) := by
  have hinv := h.inv
  refine ⟨hinv.notNull, hinv.conserved, fun hnodup => ?_, ?_, fun hringing hidle => ?_⟩
  · exact (hinv.conserved.nodup_iff.mpr hnodup).of_append_left
  · rw [← hinv.inOrder, List.filter_append]
    exact List.prefix_append ..
  · rw [hinv.doorbell, signalled, waiting, hringing, hidle, Finset.card_empty]
    simp [EmitState.inHand]

end

/-- Two producers, the second of them in a hurry: its packet is sent first. -/
def hurried : AsyncRun Bool Nat where
  queue := { doorbell := 1, headOfAsyncPktQueue := [⟨false, 7⟩] }
  ringing := ∅
  emit := .idle
  inserted := [⟨false, 7⟩, ⟨true, 8⟩]
  emitted := [⟨true, 8⟩]

theorem reachable_hurried : Reachable hurried :=
  .head (.enqueue _ false 7 (by decide)) <|
  .head (.ring _ false (by decide)) <|
  .head (.test _ rfl (by decide)) <|
  .head (.pushFront _ true 8 (by decide)) <|
  .head (.dequeue _ rfl) <|
  .head (.ring _ true (by decide)) <|
  .single (.decrement _ (some ⟨true, 8⟩) rfl)

theorem reachable_asyncRun_hurried :
    hurried.emitted.filter (fun apkt => !apkt.atFront) <+:
      hurried.inserted.filter (fun apkt => !apkt.atFront) ∧
    hurried.queue.doorbell = i32 hurried.queue.headOfAsyncPktQueue.length :=
  have h := reachable_asyncRun reachable_hurried
  ⟨h.2.2.2.1, h.2.2.2.2 rfl rfl⟩

end AsyncRun

end XlaneLkm
