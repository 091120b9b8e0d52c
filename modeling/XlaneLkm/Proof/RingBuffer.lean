import XlaneLkm.RingBuffer
import XlaneLkm.Library.RingFifo
import XlaneLkm.Library.Run

/-!
# The ring to user space as a queue

One side appends chunks, the other one checks for complete objects and reads them. A ring whose size
fits into the array is a queue for ever, as long as fewer chunks than its size are unread. The ring of
`consensus_init` is set up with its size in bytes: it would wrap around far behind the end of its
array, and jams there.
-/

namespace XlaneLkm

open RingFifo Run

/-- A call of one of the two sides. -/
inductive RingOp where
  | append (chunk : DataChunk)
  | check
  | read

/-- A ring in use: the chunks `append_rb` has taken, the number of those it has refused, and the chunks
`read_rb` has returned, oldest first. -/
structure RingRun where
  buf : AsgRingBuf
  written : List DataChunk
  refused : Nat
  got : List DataChunk

namespace RingRun

def init (ring : Nat → DataChunk) (maxElements : Int) : RingRun :=
  ⟨setupAsgRingBuf ring maxElements, [], 0, []⟩

def step (s : RingRun) : RingOp → RingRun
  | .append chunk =>
    match s.buf.appendRb chunk with
    | some buf => { s with buf := buf, written := s.written ++ [chunk] }
    | none => { s with refused := s.refused + 1 }
  | .check => s
  | .read =>
    match s.buf.readRb with
    | some (buf, chunk) => { s with buf := buf, got := s.got ++ [chunk] }
    | none => s

/-- How many of the calls are `append_rb`. -/
def appends (ops : List RingOp) : Nat := ops.countP fun op => op matches .append _

/-- How many of the calls are `read_rb`. -/
def reads (ops : List RingOp) : Nat := ops.countP fun op => op matches .read

/-- Fewer than `bound` chunks are unread after the call. -/
def staysBelow (bound : Nat) (s : RingRun) : RingOp → Prop
  | .append _ => s.written.length + 1 < s.got.length + bound
  | .check => True
  | .read => True

instance staysBelow.decidable (bound : Nat) (s : RingRun) :
    (op : RingOp) → Decidable (s.staysBelow bound op)
  | .append _ => inferInstanceAs (Decidable (_ < _))
  | .check => isTrue trivial
  | .read => isTrue trivial

/-- Every chunk has been taken, they come back in order, and the next call of `read_rb` returns the
first unread one, if there is one. -/
structure Flows (s : RingRun) : Prop where
  taken : s.refused = 0
  inOrder : s.got <+: s.written
  next : s.buf.readRb.map Prod.snd = s.written[s.got.length]?

/-- The ring with `n` slots stands where the calls so far have led. -/
structure Queue (n : Nat) (s : RingRun) : Prop where
  size : s.buf.size = n
  readIdx : s.buf.readIdx = (s.got.length % n : Nat)
  writeIdx : s.buf.writeIdx = (s.written.length % n : Nat)
  turn : s.buf.turn = if s.got.length / n < s.written.length / n then 1 else 0
  holds : Holds n s.buf.ring s.written s.got.length
  inOrder : s.got <+: s.written

variable {n : Nat} {s : RingRun}

theorem queue_init (ring : Nat → DataChunk) (hn : 0 < n) : Queue n (init ring n) where
  size := rfl
  readIdx := by simp [init, setupAsgRingBuf]
  writeIdx := by simp [init, setupAsgRingBuf]
  turn := by simp [init, setupAsgRingBuf]
  holds := holds_nil hn ring
  inOrder := List.nil_prefix

theorem Queue.front (h : Queue n s) : s.buf.front = s.buf.ring (s.got.length % n) := by
  rw [AsgRingBuf.front, h.readIdx, Int.toNat_natCast]

theorem Queue.isRbEmpty_iff (h : Queue n s) :
    s.buf.isRbEmpty = true ↔ s.got.length = s.written.length := by
  rw [AsgRingBuf.isRbEmpty, decide_eq_true_iff, h.readIdx, h.writeIdx, Int.natCast_inj]
  exact h.holds.position_eq_iff

theorem Queue.append (h : Queue n s) (chunk : DataChunk)
    (hlimit : (s.written.length % n : Nat) < asgRingBufSizeLimit)
    (hroom : s.written.length + 1 < s.got.length + n) :
    Queue n (s.step (.append chunk)) ∧ (s.step (.append chunk)).refused = s.refused ∧
      (s.step (.append chunk)).got = s.got ∧
      (s.step (.append chunk)).written = s.written ++ [chunk] := by
  have hwrite : ¬(s.buf.writeIdx < 0 ∨ s.buf.writeIdx ≥ asgRingBufSizeLimit) := by
    rw [h.writeIdx]
    omega
  have hslot : s.buf.writeIdx.toNat = s.written.length % n := by
    rw [h.writeIdx, Int.toNat_natCast]
  have hholds := h.holds.write (a := chunk) hroom
  rw [← hslot] at hholds
  have hprefix : s.got <+: s.written ++ [chunk] := h.inOrder.trans (List.prefix_append _ _)
  have hlength : (s.written ++ [chunk]).length = s.written.length + 1 := by
    rw [List.length_append, List.length_singleton]
  have hpos := h.holds.pos
  have hle := h.holds.le
  have hidx := h.writeIdx
  have hsize := h.size
  rcases step_cases hpos s.written.length with ⟨hend, hmod, hdiv⟩ | ⟨hnext, hmod, hdiv⟩
  · have hbuf : s.buf.appendRb chunk = some { s.buf with
        ring := Function.update s.buf.ring s.buf.writeIdx.toNat chunk
        writeIdx := 0
        turn := 1 } := by
      rw [AsgRingBuf.appendRb, if_neg hwrite]
      exact if_pos (by dsimp only; omega)
    have hturn := Nat.div_le_div_right (c := n) hle
    simp only [step, hbuf, and_true]
    refine ⟨h.size, h.readIdx, ?_, ?_, hholds, hprefix⟩
    · dsimp only
      rw [hlength, hmod, Int.natCast_zero]
    · dsimp only
      rw [hlength, hdiv, if_pos (by omega)]
  · have hbuf : s.buf.appendRb chunk = some { s.buf with
        ring := Function.update s.buf.ring s.buf.writeIdx.toNat chunk
        writeIdx := s.buf.writeIdx + 1 } := by
      rw [AsgRingBuf.appendRb, if_neg hwrite]
      exact if_neg (by dsimp only; omega)
    simp only [step, hbuf, and_true]
    refine ⟨h.size, h.readIdx, ?_, ?_, hholds, hprefix⟩
    · dsimp only
      rw [hlength, hmod, Int.natCast_succ, hidx]
    · dsimp only
      rw [hlength, hdiv]
      exact h.turn

theorem Queue.readRb_of_empty (h : Queue n s) (hempty : s.got.length = s.written.length) :
    s.buf.readRb = none :=
  if_pos (h.isRbEmpty_iff.mpr hempty)

theorem Queue.read (h : Queue n s) (hlt : s.got.length < s.written.length) :
    ∃ chunk, s.written[s.got.length]? = some chunk ∧ Queue n (s.step .read) ∧
      s.buf.readRb.map Prod.snd = some chunk ∧ (s.step .read).written = s.written ∧
      (s.step .read).got = s.got ++ [chunk] ∧ (s.step .read).refused = s.refused := by
  have hempty : ¬s.buf.isRbEmpty = true := fun hempty => hlt.ne (h.isRbEmpty_iff.mp hempty)
  have hfront := h.holds.front hlt
  rw [← h.front] at hfront
  have hholds := h.holds.read hlt
  have hlength : (s.got ++ [s.buf.front]).length = s.got.length + 1 := by
    rw [List.length_append, List.length_singleton]
  have hprefix : s.got ++ [s.buf.front] <+: s.written := by
    have htake := List.prefix_iff_eq_take.mp h.inOrder
    rw [List.prefix_iff_eq_take, hlength, List.take_add_one, hfront, ← htake]
    rfl
  have hpos := h.holds.pos
  have hidx := h.readIdx
  have hsize := h.size
  refine ⟨s.buf.front, hfront, ?_⟩
  rcases step_cases hpos s.got.length with ⟨hend, hmod, hdiv⟩ | ⟨hnext, hmod, hdiv⟩
  · have hread : s.buf.readRb = some ({ s.buf with readIdx := 0, turn := 0 }, s.buf.front) := by
      rw [AsgRingBuf.readRb, if_neg hempty]
      dsimp only
      rw [if_pos (by omega)]
    simp only [step, hread, Option.map_some, and_self, and_true]
    refine ⟨h.size, ?_, h.writeIdx, ?_, hlength ▸ hholds, hprefix⟩
    · dsimp only
      rw [hlength, hmod, Int.natCast_zero]
    · -- the reader turns over behind the writer
      have hturn := turn_cases hpos h.holds.le h.holds.room
      have hwritten := Nat.mod_lt s.written.length hpos
      dsimp only
      rw [hlength, hdiv, if_neg (by omega)]
  · have hread : s.buf.readRb =
        some ({ s.buf with readIdx := s.buf.readIdx + 1 }, s.buf.front) := by
      rw [AsgRingBuf.readRb, if_neg hempty]
      dsimp only
      rw [if_neg (by omega)]
    simp only [step, hread, Option.map_some, and_self, and_true]
    refine ⟨h.size, ?_, h.writeIdx, ?_, hlength ▸ hholds, hprefix⟩
    · dsimp only
      rw [hlength, hmod, Int.natCast_succ, hidx]
    · dsimp only
      rw [hlength, hdiv]
      exact h.turn

theorem Queue.read_of_empty (h : Queue n s) (hempty : s.got.length = s.written.length) :
    s.step .read = s := by
  simp only [step, h.readRb_of_empty hempty]

theorem Queue.next (h : Queue n s) : s.buf.readRb.map Prod.snd = s.written[s.got.length]? := by
  rcases Nat.lt_or_eq_of_le h.holds.le with hlt | hempty
  · obtain ⟨chunk, hchunk, -, hread, -⟩ := h.read hlt
    exact hread.trans hchunk.symm
  · rw [h.readRb_of_empty hempty, List.getElem?_eq_none hempty.ge]
    rfl

theorem Queue.flows (h : Queue n s) (htaken : s.refused = 0) : s.Flows := ⟨htaken, h.inOrder, h.next⟩

/-! ### A ring that fits into its array -/

/-- The positions of a ring whose size is at most that of the array stay inside the array. -/
theorem Queue.step (h : Queue n s) (hsize : (n : Int) ≤ asgRingBufSizeLimit) {op : RingOp}
    (hop : s.staysBelow n op) : Queue n (s.step op) ∧ (s.step op).refused = s.refused := by
  cases op with
  | append chunk =>
    have hwrite := Nat.mod_lt s.written.length h.holds.pos
    obtain ⟨hnext, hrefused, -⟩ := h.append chunk (by omega) hop
    exact ⟨hnext, hrefused⟩
  | check => exact ⟨h, rfl⟩
  | read =>
    rcases Nat.lt_or_eq_of_le h.holds.le with hlt | hempty
    · obtain ⟨chunk, -, hnext, -, -, -, hrefused⟩ := h.read hlt
      exact ⟨hnext, hrefused⟩
    · rw [h.read_of_empty hempty]
      exact ⟨h, rfl⟩

/-- As many reads as there are unread chunks return these, whatever is appended in between. -/
theorem Queue.run_got (h : Queue n s) (hsize : (n : Int) ≤ asgRingBufSizeLimit) {ops : List RingOp}
    (hops : Meets RingRun.step (staysBelow n) s ops)
    (hreads : s.got.length + reads ops ≤ s.written.length) :
    (run RingRun.step s ops).got = s.got ++ (s.written.drop s.got.length).take (reads ops) := by
  induction ops generalizing s with
  | nil => simp [reads]
  | cons op ops ih =>
    have hnext := (h.step hsize hops.1).1
    have htail := ih hnext hops.2
    cases op with
    | append chunk =>
      have hwrite := Nat.mod_lt s.written.length h.holds.pos
      obtain ⟨-, -, hgot, hwritten⟩ := h.append chunk (by omega) hops.1
      have hcount : reads (.append chunk :: ops) = reads ops := by simp [reads]
      rw [hcount] at hreads ⊢
      rw [run_cons, htail, hgot, hwritten, List.drop_append_of_le_length h.holds.le,
        List.take_append_of_le_length]
      · rw [List.length_drop]
        omega
      · rw [hgot, hwritten, List.length_append]
        omega
    | check => exact htail hreads
    | read =>
      have hcount : reads (.read :: ops) = reads ops + 1 := by simp [reads]
      rw [hcount] at hreads ⊢
      obtain ⟨chunk, hchunk, -, -, hwritten, hgot, -⟩ := h.read (by omega)
      have hdrop : s.written.drop s.got.length = chunk :: s.written.drop (s.got.length + 1) := by
        obtain ⟨hlt, hget⟩ := List.getElem?_eq_some_iff.mp hchunk
        rw [List.drop_eq_getElem_cons hlt, hget]
      rw [run_cons, htail, hgot, hwritten, hdrop, List.take_succ_cons, List.length_append,
        List.length_singleton, List.append_assoc, List.singleton_append]
      rw [hgot, hwritten, List.length_append, List.length_singleton]
      omega

theorem Queue.turn_iff (h : Queue n s) : s.buf.turn = 1 ↔ s.buf.writeIdx < s.buf.readIdx := by
  have hcases := turn_cases h.holds.pos h.holds.le h.holds.room
  rw [h.turn, h.readIdx, h.writeIdx]
  split
  · omega
  · omega

/-- What `check_entry` lets through is a header with all of its chunks behind it. -/
theorem Queue.checkEntry (h : Queue n s) (hcheck : s.buf.checkEntry = 0) :
    s.written[s.got.length]? = some s.buf.front ∧ s.buf.front.validateHeaderKey = true ∧
      s.got.length + (s.buf.front.getNumOfChunks + 1) ≤ s.written.length := by
  have hcases := turn_cases h.holds.pos h.holds.le h.holds.room
  simp only [AsgRingBuf.checkEntry, h.size, h.turn, h.readIdx, h.writeIdx] at hcheck
  by_cases hempty : s.buf.isRbEmpty = true
  · rw [if_pos hempty] at hcheck
    exact absurd hcheck (by decide)
  rw [if_neg hempty] at hcheck
  by_cases hkey : s.buf.front.validateHeaderKey = false
  · rw [if_pos hkey] at hcheck
    exact absurd hcheck (by decide)
  rw [if_neg hkey] at hcheck
  have hle := h.holds.le
  have hlt : s.got.length < s.written.length :=
    Nat.lt_of_le_of_ne hle fun heq => hempty (h.isRbEmpty_iff.mpr heq)
  have hfront := h.holds.front hlt
  rw [← h.front] at hfront
  refine ⟨hfront, Bool.eq_true_of_not_eq_false hkey, ?_⟩
  split at hcheck
  · split at hcheck
    · omega
    · omega
  · split at hcheck
    · omega
    · omega

/-- **The ring is a queue.** For every size up to that of the array, while fewer chunks than the size
are unread: nothing is refused, lost or repeated, `turn` tells which position is ahead, and an object
`check_entry` has found complete is what the next reads return. -/
theorem ring_is_queue (ring : Nat → DataChunk) (hn : 0 < n) (hsize : (n : Int) ≤ asgRingBufSizeLimit)
    (ops : List RingOp) (hops : Meets RingRun.step (staysBelow n) (init ring n) ops) :
    (run RingRun.step (init ring n) ops).Flows ∧
      ((run RingRun.step (init ring n) ops).buf.turn = 1 ↔
        (run RingRun.step (init ring n) ops).buf.writeIdx <
          (run RingRun.step (init ring n) ops).buf.readIdx) ∧
      ((run RingRun.step (init ring n) ops).buf.checkEntry = 0 →
        ∃ header, (run RingRun.step (init ring n) ops).written[
            (run RingRun.step (init ring n) ops).got.length]? = some header ∧
          header.validateHeaderKey = true ∧
          (run RingRun.step (init ring n) ops).got.length + (header.getNumOfChunks + 1) ≤
            (run RingRun.step (init ring n) ops).written.length ∧
          ∀ later, Meets RingRun.step (staysBelow n) (run RingRun.step (init ring n) ops) later →
            reads later ≤ header.getNumOfChunks + 1 →
            (run RingRun.step (run RingRun.step (init ring n) ops) later).got =
              (run RingRun.step (init ring n) ops).got ++
                ((run RingRun.step (init ring n) ops).written.drop
                  (run RingRun.step (init ring n) ops).got.length).take (reads later)) := by
  have hinv : Queue n (run RingRun.step (init ring n) ops) ∧
      (run RingRun.step (init ring n) ops).refused = 0 :=
    invariant RingRun.step (I := fun s => Queue n s ∧ s.refused = 0) (fun _ _ h hop =>
      have ⟨hqueue, hrefused⟩ := h.1.step hsize hop
      ⟨hqueue, hrefused.trans h.2⟩) ⟨queue_init ring hn, rfl⟩ hops
  generalize run RingRun.step (init ring n) ops = s at hinv ⊢
  obtain ⟨hqueue, hrefused⟩ := hinv
  refine ⟨hqueue.flows hrefused, hqueue.turn_iff, fun hcheck => ?_⟩
  obtain ⟨hheader, hkey, hcomplete⟩ := hqueue.checkEntry hcheck
  exact ⟨s.buf.front, hheader, hkey, hcomplete, fun later hlater hreads =>
    hqueue.run_got hsize hlater (by omega)⟩

/-- A header that announces one chunk. -/
def header : DataChunk := ⟨⟨#[1, 0x39, 0x3e, 0x52, 0, 0, 0, 0], rfl⟩⟩

/-- Two chunks go through a ring of size three, then the writer turns over with an object. -/
def turningOver : List RingOp :=
  [.append .zero, .read, .append .zero, .read, .append header, .check, .append .zero, .check]

theorem ring_is_queue_turned_over :
    (run RingRun.step (init (fun _ => .zero) (3 : Nat)) turningOver).Flows ∧
      (run RingRun.step (init (fun _ => .zero) (3 : Nat)) turningOver).buf.writeIdx <
        (run RingRun.step (init (fun _ => .zero) (3 : Nat)) turningOver).buf.readIdx ∧
      (run RingRun.step (run RingRun.step (init (fun _ => .zero) (3 : Nat)) turningOver)
        [.read, .read]).got = [.zero, .zero, header, .zero] := by
  have h := ring_is_queue (fun _ => .zero) (n := 3) (by decide) (by decide) turningOver (by decide)
  refine ⟨h.1, h.2.1.mp (by decide), ?_⟩
  obtain ⟨chunk, hchunk, -, -, hread⟩ := h.2.2 (by decide)
  obtain rfl : header = chunk := Option.some_inj.mp (Eq.trans (by decide) hchunk)
  exact (hread [.read, .read] (by decide) (by decide)).trans (by decide)

/-! ### The ring of `consensus_init` -/

/-- The ring of `consensus_init` fills its array once. -/
structure Filling (s : RingRun) : Prop where
  queue : Queue sizeofAsgRingBuf.toNat s
  below : (s.written.length : Int) ≤ asgRingBufSizeLimit
  full : s.refused = 0 ∨ (s.written.length : Int) = asgRingBufSizeLimit

theorem filling_init (ring : Nat → DataChunk) : Filling (init ring sizeofAsgRingBuf) where
  queue := queue_init ring (by decide)
  below := by simp [init, asgRingBufSizeLimit]
  full := .inl rfl

theorem Filling.append (h : Filling s) (chunk : DataChunk) :
    Filling (s.step (.append chunk)) ∧ (s.step (.append chunk)).got = s.got ∧
      (s.step (.append chunk)).written.length + (s.step (.append chunk)).refused =
        s.written.length + s.refused + 1 ∧
      ((s.step (.append chunk)).written.length = s.written.length + 1 ∨
        s.step (.append chunk) = { s with refused := s.refused + 1 }) := by
  have hbelow := h.below
  -- the size field lies far behind the end of the array
  have hpos : s.written.length % sizeofAsgRingBuf.toNat = s.written.length :=
    Nat.mod_eq_of_lt (by rw [asgRingBufSizeLimit] at hbelow; rw [sizeofAsgRingBuf]; omega)
  by_cases hfull : (s.written.length : Int) = asgRingBufSizeLimit
  · have hwrite : s.buf.writeIdx < 0 ∨ s.buf.writeIdx ≥ asgRingBufSizeLimit := by
      rw [h.queue.writeIdx, hpos]
      exact .inr hfull.ge
    have hstep : s.step (.append chunk) = { s with refused := s.refused + 1 } := by
      simp only [RingRun.step, AsgRingBuf.appendRb, if_pos hwrite]
    rw [hstep]
    have hqueue := h.queue
    exact ⟨⟨⟨hqueue.size, hqueue.readIdx, hqueue.writeIdx, hqueue.turn, hqueue.holds,
      hqueue.inOrder⟩, hbelow, .inr hfull⟩, rfl, rfl, .inr rfl⟩
  · have hroom : s.written.length + 1 < s.got.length + sizeofAsgRingBuf.toNat := by
      rw [asgRingBufSizeLimit] at hbelow
      rw [sizeofAsgRingBuf]
      omega
    obtain ⟨hqueue, hrefused, hgot, hwritten⟩ := h.queue.append chunk (by omega) hroom
    have hlength : (s.step (.append chunk)).written.length = s.written.length + 1 := by
      rw [hwritten, List.length_append, List.length_singleton]
    have htaken : s.refused = 0 := h.full.resolve_right hfull
    exact ⟨⟨hqueue, by omega, .inl (hrefused.trans htaken)⟩, hgot, by omega, .inl hlength⟩

theorem Filling.read (h : Filling s) :
    Filling (s.step .read) ∧ (s.step .read).written = s.written ∧
      (s.step .read).refused = s.refused := by
  rcases Nat.lt_or_eq_of_le h.queue.holds.le with hlt | hempty
  · obtain ⟨chunk, -, hqueue, -, hwritten, -, hrefused⟩ := h.queue.read hlt
    exact ⟨⟨hqueue, hwritten ▸ h.below, hwritten ▸ hrefused ▸ h.full⟩, hwritten, hrefused⟩
  · rw [h.queue.read_of_empty hempty]
    exact ⟨h, rfl, rfl⟩

theorem Filling.run (h : Filling s) (ops : List RingOp) :
    Filling (run RingRun.step s ops) ∧
      (run RingRun.step s ops).written.length + (run RingRun.step s ops).refused =
        s.written.length + s.refused + appends ops := by
  induction ops generalizing s with
  | nil => exact ⟨h, rfl⟩
  | cons op ops ih =>
    cases op with
    | append chunk =>
      obtain ⟨hnext, -, hcount, -⟩ := h.append chunk
      have hhead : appends (.append chunk :: ops) = appends ops + 1 := by simp [appends]
      obtain ⟨hrun, htotal⟩ := ih hnext
      exact ⟨hrun, by rw [run_cons]; omega⟩
    | check => exact ih h
    | read =>
      obtain ⟨hnext, hwritten, hrefused⟩ := h.read
      have hhead : appends (.read :: ops) = appends ops := by simp [appends]
      obtain ⟨hrun, htotal⟩ := ih hnext
      rw [hwritten, hrefused] at htotal
      exact ⟨hrun, by rw [run_cons, hhead]; exact htotal⟩

/-- **The ring of `consensus_init` jams.** However much of it has been read in the meantime, it takes
as many chunks as its array has slots, and none after that. -/
theorem init_ring_flows_iff (ring : Nat → DataChunk) (ops : List RingOp) :
    (run RingRun.step (init ring sizeofAsgRingBuf) ops).Flows ↔
      (appends ops : Int) ≤ asgRingBufSizeLimit := by
  obtain ⟨hrun, htotal⟩ := (filling_init ring).run ops
  have hstart : (init ring sizeofAsgRingBuf).written.length +
      (init ring sizeofAsgRingBuf).refused = 0 := rfl
  rw [hstart, Nat.zero_add] at htotal
  have hbelow := hrun.below
  constructor
  · intro hflows
    have htaken := hflows.taken
    omega
  · intro hfew
    refine hrun.queue.flows ?_
    rcases hrun.full with htaken | hfull
    · exact htaken
    · omega

/-- A chunk is appended and read, so many times. -/
def passThrough : Nat → List RingOp
  | 0 => []
  | k + 1 => .append .zero :: .read :: passThrough k

theorem appends_passThrough (k : Nat) : appends (passThrough k) = k := by
  induction k with
  | zero => rfl
  | succ k ih => simpa [passThrough, appends] using ih

/-- Never more than one chunk is unread. -/
theorem meets_passThrough {bound : Nat} (hbound : 2 ≤ bound) (h : Filling s)
    (hread : s.got.length = s.written.length) (k : Nat) :
    Meets RingRun.step (staysBelow bound) s (passThrough k) := by
  induction k generalizing s with
  | zero => trivial
  | succ k ih =>
    obtain ⟨hnext, hgot, -, hlength⟩ := h.append .zero
    refine ⟨by simp only [staysBelow]; omega, trivial, ih hnext.read.1 ?_⟩
    rcases hlength with hlength | hstep
    · obtain ⟨chunk, -, -, -, hwritten, hgot', -⟩ := hnext.queue.read (by rw [hgot]; omega)
      rw [hwritten, hgot', hgot, List.length_append, List.length_singleton]
      omega
    · have hempty : (s.step (.append .zero)).got.length =
          (s.step (.append .zero)).written.length := by
        rw [hstep]
        exact hread
      rw [hnext.queue.read_of_empty hempty]
      exact hempty

/-- With never more than one chunk unread, the ring jams at the chunk behind its array. -/
theorem init_ring_jams :
    Meets RingRun.step (staysBelow asgRingBufSizeLimit.toNat)
        (init (fun _ => .zero) sizeofAsgRingBuf) (passThrough 1000001) ∧
      ¬(run RingRun.step (init (fun _ => .zero) sizeofAsgRingBuf) (passThrough 1000001)).Flows := by
  refine ⟨meets_passThrough (by decide) (filling_init _) rfl _, fun hflows => ?_⟩
  obtain ⟨hrun, htotal⟩ := (filling_init fun _ => .zero).run (passThrough 1000001)
  have hbelow := hrun.below
  have htaken := hflows.taken
  have hstart : (init (fun _ => .zero) sizeofAsgRingBuf).written.length +
      (init (fun _ => .zero) sizeofAsgRingBuf).refused = 0 := rfl
  rw [hstart, appends_passThrough] at htotal
  rw [asgRingBufSizeLimit] at hbelow
  omega

end RingRun

end XlaneLkm
