import XlaneLkm.QueueMemory
import XlaneLkm.WireCluster

/-!
# The asynchronous queues in memory

Whatever is called on them, the linked queues hold what the lists of the model hold, and no call touches
memory that is not allocated.
-/

namespace XlaneLkm

open LinkedList LinkedList.Memory MachineInt

variable {ι β : Type}

namespace AsyncQueues

/-- The payloads that wait. -/
def packets (qs : AsyncQueues ι β) (i : ι) : List β := (qs.queue i).headOfAsyncPktQueue

theorem update_queue [DecidableEq ι] {γ : Type} (f : AsyncQueue β → γ) (qs : AsyncQueues ι β) (i : ι)
    (queue : AsyncQueue β) : (fun j => f (Function.update qs.queue i queue j)) =
      Function.update (fun j => f (qs.queue j)) i (f queue) :=
  funext fun j => Function.apply_update (fun _ => f) qs.queue i queue j

end AsyncQueues

/-! ### Payloads and skbs -/

theorem isSome_update {buffers : Addr → Option β} {a : Addr} (bytes : β) (a' : Addr) :
    (Function.update buffers a (some bytes) a').isSome ↔ (buffers a').isSome ∨ a' = a := by
  by_cases ha : a' = a
  · subst ha
    simp
  · simp [ha]

theorem allocBuffer_of_none {buffers : Addr → Option β} {a : Addr} (ha : buffers a = none) (bytes : β) :
    allocBuffer a bytes buffers = some (Function.update buffers a (some bytes)) := by
  rw [allocBuffer, ha]
  rfl

theorem writeBuffer_of_isSome {buffers : Addr → Option β} {a : Addr} (ha : (buffers a).isSome)
    (bytes : β) : writeBuffer a bytes buffers = some (Function.update buffers a (some bytes)) := by
  obtain ⟨old, hold⟩ := Option.isSome_iff_exists.mp ha
  rw [writeBuffer, hold]
  rfl

/-- The payloads and skbs of the queued packets: `refs i` are their addresses for the packets of target
`i`. No two packets share a payload. -/
structure Buffers (payloads skbs : Addr → Option β) (refs : ι → List (Addr × Addr))
    (packets : ι → List β) : Prop where
  holds : ∀ i, (refs i).map (fun r => payloads r.1) = (packets i).map some
  skb : ∀ i, ∀ r ∈ refs i, (skbs r.2).isSome
  nodup : ∀ i, ((refs i).map Prod.fst).Nodup
  apart : ∀ i j, i ≠ j → ∀ r ∈ refs i, ∀ r' ∈ refs j, r.1 ≠ r'.1

namespace Buffers

variable {payloads payloads' skbs skbs' : Addr → Option β} {refs : ι → List (Addr × Addr)}
  {packets : ι → List β} {i : ι} {r : Addr × Addr} {rs : List (Addr × Addr)} {bytes : β}

theorem length_eq (h : Buffers payloads skbs refs packets) (i : ι) :
    (refs i).length = (packets i).length := by
  have hlengths := congrArg List.length (h.holds i)
  rwa [List.length_map, List.length_map] at hlengths

theorem isSome (h : Buffers payloads skbs refs packets) (hr : r ∈ refs i) : (payloads r.1).isSome := by
  have hmem : payloads r.1 ∈ (packets i).map some := h.holds i ▸ List.mem_map_of_mem hr
  obtain ⟨x, -, hx⟩ := List.mem_map.mp hmem
  rw [← hx]
  rfl

/-- What is allocated for a new packet belongs to no other. -/
theorem fresh (h : Buffers payloads skbs refs packets) {a : Addr} (ha : payloads a = none)
    (hr : r ∈ refs i) : r.1 ≠ a := by
  rintro rfl
  have hsome := h.isSome hr
  rw [ha] at hsome
  cases hsome

/-- The other buffers are as before. -/
theorem congr (h : Buffers payloads skbs refs packets)
    (hsame : ∀ i, ∀ r ∈ refs i, payloads' r.1 = payloads r.1)
    (hskbs : ∀ a, (skbs a).isSome → (skbs' a).isSome) : Buffers payloads' skbs' refs packets where
  holds i := (List.map_congr_left (hsame i)).trans (h.holds i)
  skb i r hr := hskbs r.2 (h.skb i r hr)
  nodup := h.nodup
  apart := h.apart

variable [DecidableEq ι]

/-- The packets of one target have changed. -/
theorem update (h : Buffers payloads skbs refs packets) (i : ι) {ds : List β}
    (hholds : rs.map (fun r => payloads r.1) = ds.map some) (hskb : ∀ r ∈ rs, (skbs r.2).isSome)
    (hnodup : (rs.map Prod.fst).Nodup) (hapart : ∀ j, j ≠ i → ∀ r ∈ rs, ∀ r' ∈ refs j, r.1 ≠ r'.1) :
    Buffers payloads skbs (Function.update refs i rs) (Function.update packets i ds) := by
  constructor
  · intro j
    by_cases hj : j = i
    · subst hj
      rw [Function.update_self, Function.update_self]
      exact hholds
    · rw [Function.update_of_ne hj, Function.update_of_ne hj]
      exact h.holds j
  · intro j r hr
    by_cases hj : j = i
    · subst hj
      rw [Function.update_self] at hr
      exact hskb r hr
    · rw [Function.update_of_ne hj] at hr
      exact h.skb j r hr
  · intro j
    by_cases hj : j = i
    · subst hj
      rw [Function.update_self]
      exact hnodup
    · rw [Function.update_of_ne hj]
      exact h.nodup j
  · intro j k hne r hr r' hr'
    by_cases hj : j = i
    · subst hj
      rw [Function.update_self] at hr
      rw [Function.update_of_ne hne.symm] at hr'
      exact hapart k hne.symm r hr r' hr'
    · rw [Function.update_of_ne hj] at hr
      by_cases hk : k = i
      · subst hk
        rw [Function.update_self] at hr'
        exact (hapart j hj r' hr' r hr).symm
      · rw [Function.update_of_ne hk] at hr'
        exact h.apart j k hne r hr r' hr'

/-- The first packet of a target has left its queue. -/
theorem tail (h : Buffers payloads skbs refs packets) (hi : refs i = r :: rs) :
    Buffers payloads skbs (Function.update refs i rs) (Function.update packets i (packets i).tail) := by
  have hmem : ∀ r' ∈ rs, r' ∈ refs i := fun r' hr' => hi ▸ List.mem_cons_of_mem r hr'
  have hholds := h.holds i
  have hnodup := h.nodup i
  rw [hi] at hholds hnodup
  refine h.update i ?_ (fun r' hr' => h.skb i r' (hmem r' hr')) (List.nodup_cons.mp hnodup).2
    fun j hj r' hr' => h.apart i j hj.symm r' (hmem r' hr')
  cases hpackets : packets i with
  | nil =>
    rw [hpackets] at hholds
    cases hholds
  | cons bytes rest =>
    rw [hpackets] at hholds
    exact (List.cons_eq_cons.mp hholds).2

/-- A new packet has come to the queue of a target, with the buffers allocated for it. -/
theorem insert (h : Buffers payloads skbs refs packets) (i : ι) (rs : List (Addr × Addr)) (ds : List β)
    {payload skb : Addr} (hnew : payloads payload = none) (zero : β)
    (hrs : ∀ r, r ∈ rs → r = (payload, skb) ∨ r ∈ refs i)
    (hnodup : (rs.map Prod.fst).Nodup)
    (hholds : rs.map (fun r => Function.update payloads payload (some bytes) r.1) = ds.map some) :
    Buffers (Function.update payloads payload (some bytes)) (Function.update skbs skb (some zero))
      (Function.update refs i rs) (Function.update packets i ds) := by
  have hkept : Buffers (Function.update payloads payload (some bytes))
      (Function.update skbs skb (some zero)) refs packets :=
    h.congr (fun j r hr => Function.update_of_ne (h.fresh hnew hr) ..)
      fun a ha => (isSome_update zero a).mpr (.inl ha)
  refine hkept.update i hholds (fun r hr => ?_) hnodup fun j hj r hr r' hr' => ?_
  · rcases hrs r hr with rfl | hold
    · exact (isSome_update zero skb).mpr (.inr rfl)
    · exact hkept.skb i r hold
  · rcases hrs r hr with rfl | hold
    · exact (h.fresh hnew hr').symm
    · exact h.apart i j hj.symm r hold r' hr'

/-- The first packet of a target has left its queue, and its buffers are written to. -/
theorem take (h : Buffers payloads skbs refs packets) (hi : refs i = r :: rs) (zero bytes : β) :
    Buffers (Function.update payloads r.1 (some zero)) (Function.update skbs r.2 (some bytes))
      (Function.update refs i rs) (Function.update packets i (packets i).tail) := by
  have hr : r ∈ refs i := hi ▸ List.mem_cons_self
  refine (h.tail hi).congr (fun j r' hr' => Function.update_of_ne ?_ ..)
    fun a ha => (isSome_update bytes a).mpr (.inl ha)
  by_cases hj : j = i
  · subst hj
    rw [Function.update_self] at hr'
    have hnodup := h.nodup j
    rw [hi] at hnodup
    intro heq
    exact (List.nodup_cons.mp hnodup).1 (heq ▸ List.mem_map_of_mem hr')
  · rw [Function.update_of_ne hj] at hr'
    exact h.apart j i hj r' hr' r hr

end Buffers

namespace AsyncMemory

/-- The memory holds the queues, the packets of target `i` at `lists i` and their buffers at `refs i`.
Beside them are allocated what `others` says and the packets that were emitted, at `gone`. -/
structure Represents (others : Addr → Prop) (q : AsyncMemory ι β) (qs : AsyncQueues ι β)
    (lists : ι → List Addr) (refs : ι → List (Addr × Addr)) (gone : List Addr) : Prop where
  stores : Stores (fun a => others a ∨ a ∈ gone) q.mem q.head lists refs
  buffers : Buffers q.payloads q.skbs refs qs.packets
  doorbell : q.doorbell = fun i => (qs.queue i).doorbell
  emitted : q.emitted = qs.emitted
  leaked : gone.length = q.emitted.length
  nodup : gone.Nodup
  apart : ∀ a ∈ gone, ¬others a

/-- Payloads and skbs are allocated as they are given, and none is ever freed. -/
structure Grows (q : AsyncMemory ι β) (given : List (Addr × Addr)) (q' : AsyncMemory ι β) : Prop where
  payloads : ∀ a, (q'.payloads a).isSome ↔ (q.payloads a).isSome ∨ a ∈ given.map Prod.fst
  skbs : ∀ a, (q'.skbs a).isSome ↔ (q.skbs a).isSome ∨ a ∈ given.map Prod.snd

theorem Grows.of_eq {q q' : AsyncMemory ι β} (hpayloads : q'.payloads = q.payloads)
    (hskbs : q'.skbs = q.skbs) : Grows q [] q' := by
  constructor
  · simp [hpayloads]
  · simp [hskbs]

theorem Grows.trans {q m q' : AsyncMemory ι β} {given given' : List (Addr × Addr)} (h : Grows q given m)
    (h' : Grows m given' q') : Grows q (given ++ given') q' := by
  constructor
  · intro a
    rw [h'.payloads, h.payloads, List.map_append, List.mem_append, or_assoc]
  · intro a
    rw [h'.skbs, h.skbs, List.map_append, List.mem_append, or_assoc]

variable {others : Addr → Prop} {q : AsyncMemory ι β} {qs : AsyncQueues ι β} {lists : ι → List Addr}
  {refs : ι → List (Addr × Addr)} {gone xs : List Addr} {rs : List (Addr × Addr)} {i : ι}
  {apkt payload skb x : Addr} {mem' : Memory Addr (Addr × Addr)} {payloads' skbs' : Addr → Option β}

theorem Represents.doorbell_eq (h : Represents others q qs lists refs gone) (i : ι) :
    q.doorbell i = (qs.queue i).doorbell := congrFun h.doorbell i

theorem Represents.length_eq (h : Represents others q qs lists refs gone) (i : ι) :
    (lists i).length = (qs.packets i).length :=
  (h.stores.length_eq i).trans (h.buffers.length_eq i)

/-- What is written is allocated already. -/
theorem isSome_write {buffers : Addr → Option β} {a : Addr} (ha : (buffers a).isSome) (bytes : β)
    (a' : Addr) : (Function.update buffers a (some bytes) a').isSome ↔ (buffers a').isSome := by
  rw [isSome_update]
  exact or_iff_left_of_imp fun heq => heq ▸ ha

variable [DecidableEq ι]

/-- One queue has changed, and nothing was emitted. -/
theorem Represents.changed (queue : AsyncQueue β) (h : Represents others q qs lists refs gone)
    (hstores : Stores (fun a => others a ∨ a ∈ gone) mem' q.head (Function.update lists i xs)
      (Function.update refs i rs))
    (hbuffers : Buffers payloads' skbs' (Function.update refs i rs)
      (Function.update qs.packets i queue.headOfAsyncPktQueue)) {d : Int} (hd : d = queue.doorbell) :
    Represents others { q with
        mem := mem'
        payloads := payloads'
        skbs := skbs'
        doorbell := Function.update q.doorbell i d }
      { qs with queue := Function.update qs.queue i queue } (Function.update lists i xs)
      (Function.update refs i rs) gone where
  stores := hstores
  buffers := by
    have hpackets := AsyncQueues.update_queue AsyncQueue.headOfAsyncPktQueue qs i queue
    exact (congrArg (Buffers _ _ _) hpackets).mpr hbuffers
  doorbell := by
    rw [AsyncQueues.update_queue, ← h.doorbell, ← hd]
  emitted := h.emitted
  leaked := h.leaked
  nodup := h.nodup
  apart := h.apart

/-! ### What the calls do -/

variable [Zero β]

/-- From the allocation on, a packet has its payload written. -/
theorem prepare_eq (hpayload : q.payloads payload = none) (hskb : q.skbs skb = none)
    (halloc : q.mem.alloc apkt ⟨0, 0, payload, skb⟩ = some mem') (i : ι) (retrans : Bool) (bytes : β)
    (ok : Bool) : q.prepare i retrans apkt payload skb bytes ok =
      (let q' : AsyncMemory ι β := { q with
        mem := mem'
        payloads := Function.update q.payloads payload (some bytes)
        skbs := Function.update q.skbs skb (some 0) }
      if ok then
        (if retrans then q'.pushFrontAsyncPkt i apkt else q'.enqueueAsyncPkt i apkt).map
          fun q => q.ringAaDoorbell i
      else q'.afree apkt) := by
  have hwrite : writeBuffer payload bytes (Function.update q.payloads payload (some 0)) =
      some (Function.update q.payloads payload (some bytes)) := by
    rw [writeBuffer_of_isSome (by rw [Function.update_self]; rfl), Function.update_idem]
  simp only [AsyncMemory.prepare, createAsyncPkt, halloc, allocBuffer_of_none hpayload,
    allocBuffer_of_none hskb, setupAppendMsg, hwrite, Option.bind_some, Option.map_some]

theorem Represents.prepare (h : Represents others q qs lists refs gone) (hnew : q.mem apkt = none)
    (hpayload : q.payloads payload = none) (hskb : q.skbs skb = none) (i : ι) (retrans : Bool) (bytes : β)
    (ok : Bool) : ∃ q' lists' refs', q.prepare i retrans apkt payload skb bytes ok = some q' ∧
      q'.head = q.head ∧
      Represents others q' (qs.call (.prepare i retrans apkt payload skb bytes ok)) lists' refs' gone ∧
      Grows q [(payload, skb)] q' := by
  have hgrows : ∀ q' : AsyncMemory ι β, q'.payloads = Function.update q.payloads payload (some bytes) →
      q'.skbs = Function.update q.skbs skb (some 0) → Grows q [(payload, skb)] q' := by
    intro q' hp hs
    constructor
    · intro a
      rw [hp, isSome_update]
      simp
    · intro a
      rw [hs, isSome_update]
      simp
  have hfresh : payload ∉ (refs i).map Prod.fst := fun hmem => by
    obtain ⟨r, hr, heq⟩ := List.mem_map.mp hmem
    exact h.buffers.fresh hpayload hr heq
  have hqueued : (refs i).map (fun r => Function.update q.payloads payload (some bytes) r.1) =
      (qs.packets i).map some :=
    (List.map_congr_left fun r hr => Function.update_of_ne (h.buffers.fresh hpayload hr) ..).trans
      (h.buffers.holds i)
  have hrung : i32 (q.doorbell i + 1) = i32 ((qs.queue i).doorbell + 1) := by rw [h.doorbell_eq]
  cases ok with
  | false =>
    obtain ⟨m₁, halloc, hcell, hsame⟩ := alloc_spec hnew ⟨0, 0, payload, skb⟩
    obtain ⟨m', hfree, hnone, hsame'⟩ := free_spec (m := m₁) (a := apkt) (by rw [hcell]; rfl)
    -- what could not be written is freed again, but not its buffers
    have hundone : m' = q.mem := by
      funext a
      by_cases ha : a = apkt
      · rw [ha, hnone, hnew]
      · rw [hsame' a ha, hsame a ha]
    refine ⟨{ q with
      payloads := Function.update q.payloads payload (some bytes)
      skbs := Function.update q.skbs skb (some 0) }, lists, refs, ?_, rfl, ?_, hgrows _ rfl rfl⟩
    · rw [prepare_eq hpayload hskb halloc, if_neg Bool.false_ne_true, afree, hfree, hundone,
        Option.map_some]
    · rw [AsyncQueues.call, AsyncQueue.prepare, if_neg Bool.false_ne_true, Function.update_eq_self]
      refine ⟨h.stores, h.buffers.congr (fun j r hr => Function.update_of_ne
        (h.buffers.fresh hpayload hr) ..) (fun a ha => (isSome_update 0 a).mpr (.inl ha)), h.doorbell,
        h.emitted, h.leaked, h.nodup, h.apart⟩
  | true =>
    cases retrans with
    | true =>
      obtain ⟨m₁, m', h₁, h', hstores, -⟩ := h.stores.add hnew i ⟨0, 0, payload, skb⟩
      have hbuffers := h.buffers.insert i ((payload, skb) :: refs i) (bytes :: qs.packets i) hpayload 0
        (fun r hr => List.mem_cons.mp hr)
        (List.nodup_cons.mpr ⟨hfresh, h.buffers.nodup i⟩)
        (List.cons_eq_cons.mpr ⟨Function.update_self .., hqueued⟩)
      have hchanged := h.changed ((qs.queue i).pushFrontAsyncPkt bytes).ringAaDoorbell hstores hbuffers
        hrung
      refine ⟨_, _, _, ?_, ?_, hchanged, hgrows _ rfl rfl⟩
      · rw [prepare_eq hpayload hskb h₁]
        simp only [pushFrontAsyncPkt, h', Option.map_some, if_true]
        rfl
      · rfl
    | false =>
      obtain ⟨m₁, m', h₁, h', hstores, -⟩ := h.stores.addTail hnew i ⟨0, 0, payload, skb⟩
      have hbuffers := h.buffers.insert i (refs i ++ [(payload, skb)]) (qs.packets i ++ [bytes]) hpayload 0
        (fun r hr => (List.mem_append.mp hr).symm.imp_left List.mem_singleton.mp)
        (by
          rw [List.map_append]
          refine List.nodup_append.mpr ⟨h.buffers.nodup i, List.nodup_singleton _, fun a ha b hb heq => ?_⟩
          have hpayload' : a = payload := heq.trans (List.mem_singleton.mp hb)
          exact hfresh (hpayload' ▸ ha))
        (by
          rw [List.map_append, List.map_append, hqueued]
          exact congrArg (_ ++ [·]) (Function.update_self ..))
      have hchanged := h.changed ((qs.queue i).enqueueAsyncPkt bytes).ringAaDoorbell hstores hbuffers
        hrung
      refine ⟨_, _, _, ?_, ?_, hchanged, hgrows _ rfl rfl⟩
      · rw [prepare_eq hpayload hskb h₁]
        simp only [enqueueAsyncPkt, h', Option.map_some, if_true, Bool.false_eq_true, if_false]
        rfl
      · rfl

omit [Zero β] in
/-- The packet at `x` has left a queue, and is emitted. -/
theorem Represents.taken (h : Represents others q qs lists refs gone) {bytes : β} {queue : AsyncQueue β}
    (hstores : Stores (fun a => (others a ∨ a ∈ gone) ∨ a = x) mem' q.head (Function.update lists i xs)
      (Function.update refs i rs))
    (hbuffers : Buffers payloads' skbs' (Function.update refs i rs)
      (Function.update qs.packets i queue.headOfAsyncPktQueue))
    (hi : lists i = x :: xs) {d : Int} (hd : d = queue.doorbell) :
    Represents others
      { mem := mem'
        payloads := payloads'
        skbs := skbs'
        head := q.head
        doorbell := Function.update q.doorbell i d
        emitted := q.emitted ++ [(i, bytes)] }
      { queue := Function.update qs.queue i queue
        emitted := qs.emitted ++ [(i, bytes)] } (Function.update lists i xs) (Function.update refs i rs)
      (gone ++ [x]) := by
  have hxi : x ∈ lists i := hi ▸ List.mem_cons_self
  have hothers : (fun a => others a ∨ a ∈ gone ++ [x]) = fun a => (others a ∨ a ∈ gone) ∨ a = x := by
    funext a
    rw [List.mem_append, List.mem_singleton, or_assoc]
  constructor
  · rw [hothers]
    exact hstores
  · have hpackets := AsyncQueues.update_queue AsyncQueue.headOfAsyncPktQueue qs i queue
    exact (congrArg (Buffers _ _ _) hpackets).mpr hbuffers
  · rw [AsyncQueues.update_queue, ← h.doorbell, ← hd]
  · exact congrArg (· ++ [(i, bytes)]) h.emitted
  · rw [List.length_append, List.length_append, h.leaked]
    rfl
  · refine List.nodup_append.mpr ⟨h.nodup, List.nodup_singleton x, fun a ha b hb heq => ?_⟩
    exact h.stores.apart a (.inr ha) i (heq ▸ List.mem_singleton.mp hb ▸ hxi)
  · intro a ha ho
    rcases List.mem_append.mp ha with hold | hnew
    · exact h.apart a hold ho
    · exact h.stores.apart a (.inl ho) i (List.mem_singleton.mp hnew ▸ hxi)

theorem Represents.emit (h : Represents others q qs lists refs gone) (i : ι) :
    ∃ q' lists' refs' gone', q.emit i = some q' ∧ q'.head = q.head ∧
      Represents others q' (qs.call (.emit i)) lists' refs' gone' ∧ Grows q [] q' := by
  by_cases hd : q.doorbell i > 0
  case neg =>
    refine ⟨q, lists, refs, gone, if_neg hd, rfl, ?_, .of_eq rfl rfl⟩
    have hidle : (qs.queue i).emit = (qs.queue i, none) := if_neg (h.doorbell_eq i ▸ hd)
    rw [AsyncQueues.call, hidle, Function.update_eq_self]
    exact (List.append_nil qs.emitted).symm ▸ h
  case pos =>
    have hd' : (qs.queue i).doorbell > 0 := h.doorbell_eq i ▸ hd
    have hdown : i32 (q.doorbell i - 1) = i32 ((qs.queue i).doorbell - 1) := by rw [h.doorbell_eq]
    have hfirst := (h.stores.rings.ring i).first
    cases hlist : lists i with
    | nil =>
      have hempty : (qs.queue i).headOfAsyncPktQueue = [] :=
        List.length_eq_zero_iff.mp ((h.length_eq i).symm.trans (congrArg List.length hlist))
      have hemit : (qs.queue i).emit = (⟨i32 ((qs.queue i).doorbell - 1), []⟩, none) := by
        simp [AsyncQueue.emit, AsyncQueue.dequeueAsyncPkt, hempty, hd']
      have hpackets : qs.packets i = [] := hempty
      have hstores : Stores (fun a => others a ∨ a ∈ gone) q.mem q.head (Function.update lists i [])
          (Function.update refs i (refs i)) := by
        rw [← hlist, Function.update_eq_self, Function.update_eq_self]
        exact h.stores
      have hbuffers : Buffers q.payloads q.skbs (Function.update refs i (refs i))
          (Function.update qs.packets i []) := by
        rw [← hpackets, Function.update_eq_self, Function.update_eq_self]
        exact h.buffers
      have hrung := h.changed ⟨i32 ((qs.queue i).doorbell - 1), []⟩ hstores hbuffers hdown
      rw [hlist] at hfirst
      refine ⟨{ q with doorbell := Function.update q.doorbell i (i32 (q.doorbell i - 1)) },
        Function.update lists i [], Function.update refs i (refs i), gone, ?_, rfl, ?_, .of_eq rfl rfl⟩
      · simp only [AsyncMemory.emit, dequeueAsyncPkt, hd, hfirst, List.head?_nil, Option.bind_some, if_true]
      · rw [AsyncQueues.call, hemit, Option.toList_none, List.map_nil, List.append_nil]
        exact hrung
    | cons x xs =>
      obtain ⟨r, hrefs, hx, -⟩ := h.stores.data_cons hlist
      obtain ⟨m', hm', hsame, -, hstores⟩ := h.stores.del listPoison1 listPoison2 hlist
      have hr : r ∈ refs i := hrefs ▸ List.mem_cons_self
      have hholds := h.buffers.holds i
      rw [hrefs] at hholds
      cases hqueue : qs.packets i with
      | nil =>
        rw [hqueue] at hholds
        cases hholds
      | cons bytes rest =>
        rw [hqueue] at hholds
        have hpayload : q.payloads r.1 = some bytes := (List.cons_eq_cons.mp hholds).1
        have hpackets : (qs.queue i).headOfAsyncPktQueue = bytes :: rest := hqueue
        have hemit : (qs.queue i).emit = (⟨i32 ((qs.queue i).doorbell - 1), rest⟩, some bytes) := by
          simp [AsyncQueue.emit, AsyncQueue.dequeueAsyncPkt, hpackets, hd']
        have hbuffers := h.buffers.take hrefs 0 bytes
        rw [hqueue] at hbuffers
        have hsent := writeBuffer_of_isSome (h.buffers.skb i r hr) bytes
        have hzeroed := writeBuffer_of_isSome (h.buffers.isSome hr) (0 : β)
        have hdata : m'.data x = some r := (hsame x).trans hx
        rw [AsyncQueues.call, hemit]
        rw [hlist] at hfirst
        refine ⟨_, _, _, _, ?_, ?_, h.taken hstores hbuffers hlist hdown, ?_, ?_⟩
        · simp only [AsyncMemory.emit, dequeueAsyncPkt, listDel, sendApkt, hd, hfirst, List.head?_cons,
            hm', hdata, hpayload, hsent, hzeroed, Option.bind_some, Option.map_some, if_true]
        · rfl
        · intro a
          simpa using isSome_write (h.buffers.isSome hr) 0 a
        · intro a
          simpa using isSome_write (h.buffers.skb i r hr) bytes a

omit [Zero β] in
theorem Represents.asyncClearQueue {fuel : Nat} (h : Represents others q qs lists refs gone)
    (hfuel : ∀ i, (lists i).length < fuel) (i : ι) :
    ∃ q' lists' refs', q.asyncClearQueue fuel i = some q' ∧ q'.head = q.head ∧
      Represents others q' (qs.call (.clear i)) lists' refs' gone ∧ Grows q [] q' := by
  by_cases hd : q.doorbell i ≤ 0
  case pos =>
    refine ⟨q, lists, refs, if_pos hd, rfl, ?_, .of_eq rfl rfl⟩
    rwa [AsyncQueues.call, AsyncQueue.asyncClearQueue, if_pos (h.doorbell_eq i ▸ hd),
      Function.update_eq_self]
  case neg =>
    -- what is left of the queue is what the loop has not come to
    let cleared (ds : List β) : AsyncQueues ι β :=
      { qs with queue := Function.update qs.queue i { qs.queue i with headOfAsyncPktQueue := ds } }
    let I (ys : List Addr) (s : AsyncMemory ι β) : Prop := ∃ ds lists' refs', s.head = q.head ∧
      lists' i = ys ∧ s.payloads = q.payloads ∧ s.skbs = q.skbs ∧
      Represents others s (cleared ds) lists' refs' gone
    have hring : ∀ ys s, I ys s → Ring s.mem (q.head i) ys := by
      rintro ys s ⟨ds, lists', refs', hhead, rfl, -, -, hs⟩
      exact hhead ▸ hs.stores.rings.ring i
    have hbody : ∀ y ys s, I (y :: ys) s →
        ∃ s', ((s.listDel y).bind fun q => q.afree y) = some s' ∧ I ys s' := by
      rintro y ys s ⟨ds, lists', refs', hhead, hys, hp, hk, hs⟩
      obtain ⟨r, hrefs, -, -⟩ := hs.stores.data_cons hys
      obtain ⟨m₁, m', h₁, h', hstores, -⟩ := hs.stores.delFree listPoison1 listPoison2 hys
      have hqueue : (cleared ds).queue i = { qs.queue i with headOfAsyncPktQueue := ds } :=
        Function.update_self ..
      have hpackets : (cleared ds).packets i = ds := congrArg AsyncQueue.headOfAsyncPktQueue hqueue
      have hdoorbell : s.doorbell i = (qs.queue i).doorbell :=
        by rw [hs.doorbell_eq, hqueue]
      have hbuffers := hs.buffers.tail hrefs
      rw [hpackets] at hbuffers
      have hchanged := hs.changed { qs.queue i with headOfAsyncPktQueue := ds.tail } hstores hbuffers
        hdoorbell
      refine ⟨{ s with mem := m' }, ?_, ds.tail, Function.update lists' i ys,
        Function.update refs' i (refs' i).tail, hhead, ?_, hp, hk, ?_⟩
      · simp only [listDel, afree, h₁, h', Option.map_some, Option.bind_some]
      · exact Function.update_self ..
      · simpa only [cleared, Function.update_eq_self, Function.update_idem] using hchanged
    have huncleared : cleared (qs.queue i).headOfAsyncPktQueue = qs := by
      simp only [cleared, Function.update_eq_self]
    have hstart : I (lists i) q := ⟨_, lists, refs, rfl, rfl, rfl, rfl, by rwa [huncleared]⟩
    obtain ⟨q', hq', ds, lists', refs', hhead, hnil, hp, hk, hend⟩ :=
      forEachSafe_spec hring hbody hstart (hfuel i)
    have hds : ds = [] := by
      have hlength := hend.length_eq i
      rw [hnil] at hlength
      simpa [cleared, AsyncQueues.packets] using hlength.symm
    have hclear : qs.call (.clear i) = cleared [] := by
      rw [AsyncQueues.call, AsyncQueue.asyncClearQueue, if_neg (h.doorbell_eq i ▸ hd)]
    rw [hclear, AsyncMemory.asyncClearQueue, if_neg hd, (h.stores.rings.ring i).isEmpty, Option.bind_some]
    by_cases hempty : lists i = []
    · have hqueue : (qs.queue i).headOfAsyncPktQueue = [] :=
        List.length_eq_zero_iff.mp ((h.length_eq i).symm.trans (congrArg List.length hempty))
      refine ⟨q, lists, refs, by rw [hempty, List.isEmpty_nil, if_pos rfl], rfl, ?_, .of_eq rfl rfl⟩
      rwa [← hqueue, huncleared]
    · refine ⟨q', lists', refs', ?_, hhead, hds ▸ hend, .of_eq hp hk⟩
      rw [if_neg (by simpa using hempty)]
      exact hq'

/-- What a call allocates is put where nothing is. -/
def GivesUnused : Option (AsyncMemory ι β) → AsyncCall ι β → Prop
  | some q, .prepare _ _ apkt payload skb _ _ =>
    (q.mem apkt).isNone ∧ (q.payloads payload).isNone ∧ (q.skbs skb).isNone
  | _, _ => True

instance GivesUnused.decidable :
    (q : Option (AsyncMemory ι β)) → (c : AsyncCall ι β) → Decidable (GivesUnused q c)
  | some q, .prepare _ _ apkt payload skb _ _ => inferInstanceAs (Decidable ((q.mem apkt).isNone = true ∧
      (q.payloads payload).isNone = true ∧ (q.skbs skb).isNone = true))
  | none, .prepare .. | none, .emit _ | none, .clear _ | some _, .emit _ | some _, .clear _ =>
    inferInstanceAs (Decidable True)

/-- The payload and the skb that a call allocates. -/
def given : AsyncCall ι β → List (Addr × Addr)
  | .prepare _ _ _ payload skb _ _ => [(payload, skb)]
  | _ => []

theorem Represents.call {fuel : Nat} (h : Represents others q qs lists refs gone)
    (hfuel : ∀ i, (lists i).length < fuel) (c : AsyncCall ι β) (hunused : GivesUnused (some q) c) :
    ∃ q' lists' refs' gone', q.call fuel c = some q' ∧ q'.head = q.head ∧
      Represents others q' (qs.call c) lists' refs' gone' ∧ Grows q (given c) q' := by
  cases c with
  | prepare i retrans apkt payload skb bytes ok =>
    obtain ⟨hnew, hpayload, hskb⟩ := hunused
    obtain ⟨q', lists', refs', hcall⟩ := h.prepare (Option.isNone_iff_eq_none.mp hnew)
      (Option.isNone_iff_eq_none.mp hpayload) (Option.isNone_iff_eq_none.mp hskb) i retrans bytes ok
    exact ⟨q', lists', refs', gone, hcall⟩
  | emit i => exact h.emit i
  | clear i =>
    obtain ⟨q', lists', refs', hcall⟩ := h.asyncClearQueue hfuel i
    exact ⟨q', lists', refs', gone, hcall⟩

end AsyncMemory

namespace AsyncQueue

theorem prepare_length (aqueue : AsyncQueue β) (retrans : Bool) (payload : β) (ok : Bool) :
    (aqueue.prepare retrans payload ok).headOfAsyncPktQueue.length ≤
      aqueue.headOfAsyncPktQueue.length + 1 := by
  unfold prepare
  split
  · cases retrans with
    | true => exact Nat.le_refl _
    | false => exact (List.length_append ..).le
  · exact Nat.le_succ _

theorem emit_length (aqueue : AsyncQueue β) :
    aqueue.emit.1.headOfAsyncPktQueue.length ≤ aqueue.headOfAsyncPktQueue.length := by
  obtain ⟨doorbell, packets⟩ := aqueue
  unfold emit dequeueAsyncPkt
  split
  · cases packets with
    | nil => exact Nat.le_refl _
    | cons payload rest => exact Nat.le_succ _
  · exact Nat.le_refl _

theorem asyncClearQueue_length (aqueue : AsyncQueue β) :
    aqueue.asyncClearQueue.headOfAsyncPktQueue.length ≤ aqueue.headOfAsyncPktQueue.length := by
  unfold asyncClearQueue
  split
  · exact Nat.le_refl _
  · exact Nat.zero_le _

end AsyncQueue

theorem AsyncQueues.call_length [DecidableEq ι] (qs : AsyncQueues ι β) (c : AsyncCall ι β) (i : ι) :
    ((qs.call c).queue i).headOfAsyncPktQueue.length ≤ (qs.queue i).headOfAsyncPktQueue.length + 1 := by
  have hupdate : ∀ j (queue : AsyncQueue β),
      queue.headOfAsyncPktQueue.length ≤ (qs.queue j).headOfAsyncPktQueue.length + 1 →
      (Function.update qs.queue j queue i).headOfAsyncPktQueue.length ≤
        (qs.queue i).headOfAsyncPktQueue.length + 1 := by
    intro j queue hle
    by_cases hj : i = j
    · subst hj
      rwa [Function.update_self]
    · rw [Function.update_of_ne hj]
      exact Nat.le_succ _
  cases c with
  | prepare j retrans apkt payload skb bytes ok => exact hupdate j _ (AsyncQueue.prepare_length ..)
  | emit j => exact hupdate j _ (Nat.le_succ_of_le (AsyncQueue.emit_length _))
  | clear j => exact hupdate j _ (Nat.le_succ_of_le (AsyncQueue.asyncClearQueue_length _))

namespace AsyncMemory

variable [DecidableEq ι] [Zero β] {fuel : Nat}

theorem Represents.run (h : Represents others q qs lists refs gone) {calls : List (AsyncCall ι β)}
    (hfuel : ∀ i, (lists i).length + calls.length < fuel)
    (hunused : Run.Meets (step fuel) GivesUnused (some q) calls) :
    ∃ q' lists' refs' gone', q.run fuel calls = some q' ∧ q'.head = q.head ∧
      Represents others q' (qs.run calls) lists' refs' gone' ∧ Grows q (calls.flatMap given) q' := by
  induction calls generalizing q qs lists refs gone with
  | nil => exact ⟨q, lists, refs, gone, rfl, rfl, h, .of_eq rfl rfl⟩
  | cons c calls ih =>
    obtain ⟨hc, hrest⟩ := hunused
    have hroom : ∀ i, (lists i).length < fuel := fun i => Nat.lt_of_le_of_lt (Nat.le_add_right ..) (hfuel i)
    obtain ⟨q₁, lists₁, refs₁, gone₁, hcall, hhead, h₁, hgrows⟩ := h.call hroom c hc
    have hstep : step fuel (some q) c = some q₁ := hcall
    have hfuel₁ : ∀ i, (lists₁ i).length + calls.length < fuel := fun i => by
      have hlength := qs.call_length c i
      have hbound := hfuel i
      rw [← AsyncQueues.packets, ← AsyncQueues.packets, ← h₁.length_eq, ← h.length_eq] at hlength
      rw [List.length_cons] at hbound
      omega
    obtain ⟨q', lists', refs', gone', hrun, hhead', h', hgrows'⟩ := ih h₁ hfuel₁ (hstep ▸ hrest)
    refine ⟨q', lists', refs', gone', ?_, hhead'.trans hhead, h', hgrows.trans hgrows'⟩
    rw [AsyncMemory.run, Run.run_cons, hstep]
    exact hrun

/-! ### The start -/

omit [Zero β]

/-- Some of the queues are initialised, and nothing else has changed. -/
structure Initialised (q : AsyncMemory ι β) (done : List ι) (q' : AsyncMemory ι β) : Prop where
  emptied : Emptied q.mem q.head done q'.mem
  doorbell : ∀ i ∈ done, q'.doorbell i = 0
  head : q'.head = q.head
  emitted : q'.emitted = q.emitted
  payloads : q'.payloads = q.payloads
  skbs : q'.skbs = q.skbs

theorem Initialised.next {q' : AsyncMemory ι β} {done : List ι} (h : Initialised q done q')
    (hheads : Function.Injective q.head) (i : ι) (hi : (q.mem (q.head i)).isSome) :
    ∃ q'', q'.initAsgardAsyncQueue i = some q'' ∧ Initialised q (done ++ [i]) q'' := by
  obtain ⟨m', hm', hemptied⟩ := h.emptied.next hheads i hi
  refine ⟨{ q' with mem := m', doorbell := Function.update q'.doorbell i 0 }, ?_, hemptied, ?_, h.head,
    h.emitted, h.payloads, h.skbs⟩
  · rw [AsyncMemory.initAsgardAsyncQueue, h.head, hm', Option.map_some]
  · intro j hj
    dsimp only
    by_cases heq : j = i
    · rw [heq, Function.update_self]
    · rw [Function.update_of_ne heq]
      exact h.doorbell j ((List.mem_append.mp hj).resolve_right fun hmem =>
        heq (List.mem_singleton.mp hmem))

theorem Initialised.all {q' : AsyncMemory ι β} {done : List ι} (h : Initialised q done q')
    (hheads : Function.Injective q.head) (halloc : ∀ i, (q.mem (q.head i)).isSome) (todo : List ι) :
    ∃ q'', todo.foldlM initAsgardAsyncQueue q' = some q'' ∧ Initialised q (done ++ todo) q'' := by
  induction todo generalizing q' done with
  | nil => exact ⟨q', rfl, (List.append_nil done).symm ▸ h⟩
  | cons i todo ih =>
    obtain ⟨q₁, hq₁, h₁⟩ := h.next hheads i (halloc i)
    rw [List.append_cons]
    obtain ⟨q'', hq'', h''⟩ := ih h₁
    refine ⟨q'', ?_, h''⟩
    rw [List.foldlM_cons, hq₁]
    exact hq''

theorem initQueues_represents {k : Nat} {q : AsyncMemory (Fin k) β} (hheads : Function.Injective q.head)
    (halloc : ∀ i, (q.mem (q.head i)).isSome) (hemitted : q.emitted = []) :
    ∃ q', q.initQueues = some q' ∧ Grows q [] q' ∧
      Represents (fun a => (q.mem a).isSome) q' AsyncQueues.init (fun _ => []) (fun _ => []) [] := by
  have hstart : Initialised q [] q := ⟨Emptied.none q.mem q.head, by simp, rfl, rfl, rfl, rfl⟩
  obtain ⟨q', hq', h⟩ := hstart.all hheads halloc (List.finRange k)
  have hall : ∀ i, i ∈ [] ++ List.finRange k := List.mem_finRange
  have hstores := h.emptied.stores hheads hall
  have hbuffers : Buffers q'.payloads q'.skbs (fun _ : Fin k => []) AsyncQueues.init.packets :=
    ⟨fun _ => rfl, by simp, fun _ => List.nodup_nil, by simp⟩
  refine ⟨q', hq', .of_eq h.payloads h.skbs, ?_, hbuffers, funext fun i => h.doorbell i (hall i),
    h.emitted.trans hemitted, ?_, List.nodup_nil, by simp⟩
  · rw [h.head]
    simp only [List.not_mem_nil, or_false]
    exact hstores
  · rw [h.emitted, hemitted, List.length_nil, List.length_nil]

/-- **The asynchronous queues in memory.** From the registration of the targets on, whatever packets are
queued, emitted and cleared, in whatever order and wherever the allocator puts them: no call reads,
writes or frees memory that is not allocated, the linked queues are the lists of the model, and a packet
has one place in one queue and a payload of its own. Beside what was allocated before, it is the queued
packets and as many as were emitted that are allocated, and every payload and every skb that was ever
allocated: none of these is freed. -/
theorem async_queues_memory_safe [Zero β] {k fuel : Nat} {q : AsyncMemory (Fin k) β}
    (hheads : Function.Injective q.head) (halloc : ∀ i, (q.mem (q.head i)).isSome)
    (hemitted : q.emitted = []) {calls : List (AsyncCall (Fin k) β)} (hfuel : calls.length < fuel)
    (hunused : Run.Meets (step fuel) GivesUnused q.initQueues calls) :
    ∃ q' lists refs gone, q.initQueues.bind (fun q => q.run fuel calls) = some q' ∧
      Represents (fun a => (q.mem a).isSome) q' (AsyncQueues.init.run calls) lists refs gone ∧
      Grows q (calls.flatMap given) q' := by
  obtain ⟨q₀, hq₀, hgrows₀, hinit⟩ := initQueues_represents hheads halloc hemitted
  rw [hq₀] at hunused
  have hroom : ∀ i : Fin k, ([] : List Addr).length + calls.length < fuel := fun _ => by
    rwa [List.length_nil, Nat.zero_add]
  obtain ⟨q', lists, refs, gone, hrun, -, hend, hgrows⟩ := hinit.run hroom hunused
  exact ⟨q', lists, refs, gone, by rw [hq₀]; exact hrun, hend, hgrows₀.trans hgrows⟩

/-- The heads of three queues, and nothing else. -/
def threeHeads : AsyncMemory (Fin 3) Nat where
  mem a := if 100 ≤ a ∧ a < 103 then some ⟨0, 0, 0, 0⟩ else none
  payloads _ := none
  skbs _ := none
  head i := 100 + i
  doorbell _ := 7
  emitted := []

/-- A packet overtakes another, one could not be written, one queue is cleared, and addresses are used
again. -/
def busyQueues : List (AsyncCall (Fin 3) Nat) :=
  [.prepare 0 false 1 11 21 10 true, .prepare 0 true 2 12 22 20 true, .prepare 1 false 3 13 23 30 false,
    .prepare 1 false 3 14 24 31 true, .emit 0, .clear 0, .prepare 0 false 1 15 25 11 true, .emit 1]

example : ((threeHeads.initQueues.bind fun q => q.run 9 busyQueues).map fun q =>
    (q.emitted, q.mem.next 100, q.skbs 22, q.payloads 13)) =
      some ([(0, 20), (1, 31)], some 1, some 20, some 30) := by
  decide +kernel

theorem async_queues_memory_safe_busyQueues :
    Run.Meets (step 9) GivesUnused threeHeads.initQueues busyQueues ∧
    ∃ q' lists refs gone, threeHeads.initQueues.bind (fun q => q.run 9 busyQueues) = some q' ∧
      Represents (fun a => (threeHeads.mem a).isSome) q' (AsyncQueues.init.run busyQueues) lists refs gone ∧
      Grows threeHeads (busyQueues.flatMap given) q' := by
  have hunused : Run.Meets (step 9) GivesUnused threeHeads.initQueues busyQueues := by decide +kernel
  have hheads : Function.Injective threeHeads.head := fun i j heq => Fin.ext (Nat.add_left_cancel heq)
  exact ⟨hunused, async_queues_memory_safe hheads (by decide) rfl (by decide) hunused⟩

end AsyncMemory

/-! ### The queues of a station -/

namespace WireNode

/-- The queues `a` become `a'` by calls. -/
def Serves (a a' : Nat → AsyncQueue AsgardPayload) : Prop :=
  ∃ calls : List (AsyncCall Nat AsgardPayload), ∀ emitted,
    (AsyncQueues.run { queue := a, emitted := emitted } calls).queue = a'

variable {a a' a'' : Nat → AsyncQueue AsgardPayload}

theorem Serves.refl (a : Nat → AsyncQueue AsgardPayload) : Serves a a := ⟨[], fun _ => rfl⟩

theorem Serves.trans (h : Serves a a') (h' : Serves a' a'') : Serves a a'' := by
  obtain ⟨calls, hcalls⟩ := h
  obtain ⟨calls', hcalls'⟩ := h'
  refine ⟨calls ++ calls', fun emitted => ?_⟩
  rw [AsyncQueues.run, Run.run_append]
  have hend := hcalls' (AsyncQueues.run { queue := a, emitted := emitted } calls).emitted
  rwa [← hcalls emitted] at hend

theorem Serves.call (a : Nat → AsyncQueue AsgardPayload) (c : AsyncCall Nat AsgardPayload)
    (h : ∀ emitted, (AsyncQueues.call { queue := a, emitted := emitted } c).queue = a') : Serves a a' :=
  ⟨[c], h⟩

variable {n : WireNode}

theorem serves_foldl {γ : Type*} {f : WireNode → γ → WireNode}
    (h : ∀ m x, Serves m.aapriv (f m x).aapriv) (l : List γ) (n : WireNode) :
    Serves n.aapriv (l.foldl f n).aapriv := by
  induction l generalizing n with
  | nil => exact .refl n.aapriv
  | cons x l ih => exact (h n x).trans (ih (f n x))

theorem queueAppend_serves (n : WireNode) (lid : Nat) (r : ConRecord) (retrans : Bool) :
    Serves n.aapriv (n.queueAppend lid r retrans).aapriv :=
  .call _ (.prepare lid retrans 0 0 0
    (AsgardPayload.zero.putAppend (UInt16.ofNat n.ins.instanceId) r) true)
    fun _ => rfl

theorem emitAsyncUnicast_serves (n : WireNode) (i : Nat) :
    Serves n.aapriv (n.emitAsyncUnicast i).aapriv := by
  refine .call _ (.emit i) fun _ => ?_
  change Function.update n.aapriv i (n.aapriv i).emit.1 = _
  unfold emitAsyncUnicast AsyncQueue.emit
  split
  · dsimp only
    split <;> rfl
  · exact Function.update_eq_self i n.aapriv

theorem transmit_serves (retrans : Bool) (n : WireNode) (x : Dest × Option ConRecord) :
    Serves n.aapriv (n.transmit retrans x).aapriv := by
  unfold transmit
  split
  · split
    case h_1 => exact n.queueAppend_serves _ _ retrans
    all_goals exact .refl n.aapriv
  · exact .refl n.aapriv
  · exact .refl n.aapriv

theorem goOn_serves (n : WireNode) (e : Event) (before node : Node) :
    Serves n.aapriv (n.goOn e before node).aapriv :=
  serves_foldl (transmit_serves (e.retrans n.node)) _ { n with
    node := node
    events := n.events ++ [e] }

theorem tick_serves (n : WireNode) (pings : Nat → Option PpRecord) :
    Serves n.aapriv (n.tick pings).aapriv := by
  unfold tick
  split
  · exact .refl n.aapriv
  · have hemit := serves_foldl (f := emitHb) (fun m _ => .refl m.aapriv) (List.range n.node.numOfTargets) n
    have hpre := serves_foldl (f := preHb n.node.heartbeat pings) (fun m _ => .refl m.aapriv)
      (List.range n.node.numOfTargets) ((List.range n.node.numOfTargets).foldl emitHb n)
    exact (hemit.trans hpre).trans (goOn_serves ..)

theorem emitPktsNonScheduled_serves (n : WireNode) : Serves n.aapriv n.emitPktsNonScheduled.aapriv := by
  have hone : ∀ (m : WireNode) i, Serves m.aapriv (m.emitFired i).aapriv := fun m i => by
    unfold emitFired
    split <;> exact .refl m.aapriv
  unfold emitPktsNonScheduled
  split
  · exact .refl n.aapriv
  · exact serves_foldl hone _ n

theorem emitAsyncPkts_serves (n : WireNode) : Serves n.aapriv n.emitAsyncPkts.aapriv := by
  have hmulticast : n.emitAsyncMulticastPkt.aapriv = n.aapriv := by
    unfold emitAsyncMulticastPkt
    split
    · dsimp only
      split <;> rfl
    · rfl
  unfold emitAsyncPkts
  split_ifs
  · exact .refl n.aapriv
  · exact hmulticast ▸ .refl n.aapriv
  · exact serves_foldl emitAsyncUnicast_serves _ n

theorem asgardPostPayload_serves (n : WireNode) (frame : Frame) (behind : Nat → UInt8)
    (cqeBcnt : UInt32) (postTs : Nat) :
    Serves n.aapriv (n.asgardPostPayload frame behind cqeBcnt postTs).aapriv := by
  unfold asgardPostPayload
  split
  · exact .refl n.aapriv
  · split
    · exact .refl n.aapriv
    · dsimp only
      split <;> exact goOn_serves ..

theorem pktProcessHandler_serves (n : WireNode) (k : Nat) :
    Serves n.aapriv (n.pktProcessHandler k).aapriv := by
  unfold pktProcessHandler
  split
  · exact .refl n.aapriv
  · next work _ =>
    refine serves_foldl (f := postPayload work) (fun m call => ?_) _ { n with
      asgardWq := n.asgardWq.eraseIdx k }
    unfold postPayload
    split
    · exact goOn_serves ..
    · exact .refl m.aapriv

end WireNode

namespace WireCluster

variable {κ : Type*} [DecidableEq κ] (c : WireCluster κ)

theorem step_serves (w : WireWorld κ) (move : WireMove κ) (i : κ) :
    WireNode.Serves (w.station i).aapriv ((c.step w move).station i).aapriv := by
  have hset : ∀ j n, WireNode.Serves (w.station j).aapriv n.aapriv →
      WireNode.Serves (w.station i).aapriv ((w.set j n).station i).aapriv := by
    intro j n h
    dsimp only [WireWorld.set]
    by_cases hj : i = j
    · subst hj
      rwa [Function.update_self]
    · rw [Function.update_of_ne hj]
      exact .refl _
  cases move with
  | act j e =>
    rw [step]
    split
    · exact hset j _ (WireNode.goOn_serves ..)
    · exact .refl _
  | tick j pings => exact hset j _ (WireNode.tick_serves ..)
  | pp j k lid r =>
    refine hset j _ ?_
    unfold WireNode.setupPpMsg
    split <;> exact .refl _
  | emitNonScheduled j => exact hset j _ (WireNode.emitPktsNonScheduled_serves _)
  | emitAsync j => exact hset j _ (WireNode.emitAsyncPkts_serves _)
  | arrive dst src k behind cqeBcnt postTs =>
    rw [step]
    split
    · split
      · exact hset dst _ (WireNode.asgardPostPayload_serves ..)
      · exact .refl _
    · exact .refl _
  | handle j k => exact hset j _ (WireNode.pktProcessHandler_serves ..)

/-- **The queues of a station** are what calls make of the empty ones. -/
theorem run_serves (moves : List (WireMove κ)) (i : κ) :
    ∃ calls : List (AsyncCall Nat AsgardPayload),
      ((c.run moves).station i).aapriv = (AsyncQueues.init.run calls).queue := by
  have hserved : WireNode.Serves (c.init.station i).aapriv ((c.run moves).station i).aapriv :=
    Run.invariant_run (I := fun w => WireNode.Serves (c.init.station i).aapriv (w.station i).aapriv) c.step
      (fun w move h => h.trans (c.step_serves w move i)) (.refl _) moves
  obtain ⟨calls, hcalls⟩ := hserved
  exact ⟨calls, (hcalls []).symm⟩

end WireCluster

end XlaneLkm
