import XlaneLkm.QueueMemory
import XlaneLkm.Proof.Retransmission
import XlaneLkm.Cluster

/-!
# The retransmission lists in memory

The lists that a leader keeps of the entries its followers miss, link by link. As for the asynchronous
queues, no call touches memory that is not allocated. A list that is set up again while it holds requests
loses them: a node sets its lists up on becoming leader, and empties them on ceasing to be it.
-/

namespace XlaneLkm

open LinkedList LinkedList.Memory

variable {ι : Type}

namespace RetransMemory

/-- The memory holds the lists, the requests of target `t` at `lists t`. Beside them are allocated what
`others` says and the requests that were lost, at `lost`. -/
structure Represents (others : Addr → Prop) (r : RetransMemory ι) (rs : RetransLists ι)
    (lists : ι → List Addr) (lost : List Addr) : Prop where
  stores : Stores (fun a => others a ∨ a ∈ lost) r.mem r.retransHead lists rs.retransHead
  entries : r.retransEntries = rs.retransEntries
  total : r.numRetransmissions = rs.numRetransmissions
  returned : r.returned = rs.returned
  counted : ∀ t, rs.retransEntries t = (rs.retransHead t).length

variable [DecidableEq ι] {others : Addr → Prop} {r : RetransMemory ι} {rs : RetransLists ι}
  {lists : ι → List Addr} {lost : List Addr} {fuel : Nat}

theorem counted_update {entries : ι → Int} {heads : ι → List Int} {t : ι} {xs : List Int} {n : Int}
    (h : ∀ t, entries t = (heads t).length) (hn : n = xs.length) (t' : ι) :
    Function.update entries t n t' = (Function.update heads t xs t').length := by
  by_cases heq : t' = t
  · rw [heq, Function.update_self, Function.update_self, hn]
  · rw [Function.update_of_ne heq, Function.update_of_ne heq, h]

theorem Represents.queueRetransmission (h : Represents others r rs lists lost) (t : ι) (retransIdx : Int)
    {newReq : Addr} (hfuel : (lists t).length < fuel) (hnew : r.mem newReq = none) :
    ∃ r' lists', r.queueRetransmission fuel t retransIdx newReq = some r' ∧
      r'.retransHead = r.retransHead ∧
      Represents others r' (rs.queueRetransmission t retransIdx) lists' lost := by
  have hfound := (h.stores.rings.ring t).findSafe (p := (· = retransIdx)) (h.stores.holds t) hfuel
  by_cases hmem : retransIdx ∈ rs.retransHead t
  · have hany : (rs.retransHead t).any (fun idx => decide (idx = retransIdx)) = true := by simpa using hmem
    refine ⟨r, lists, ?_, rfl, ?_⟩
    · rw [RetransMemory.queueRetransmission, hfound, hany, Option.bind_some, if_pos rfl]
    · rwa [RetransLists.queueRetransmission, if_pos hmem]
  · have hany : (rs.retransHead t).any (fun idx => decide (idx = retransIdx)) = false := by
      rw [Bool.eq_false_iff]
      simpa using hmem
    obtain ⟨m₁, m', h₁, h', hstores, -⟩ := h.stores.addTail hnew t ⟨0, 0, retransIdx⟩
    rw [RetransLists.queueRetransmission, if_neg hmem]
    refine ⟨{ r with
      mem := m'
      numRetransmissions := Function.update r.numRetransmissions t (r.numRetransmissions t + 1)
      retransEntries := Function.update r.retransEntries t (r.retransEntries t + 1) }, _, ?_, rfl,
      hstores, ?_, ?_, h.returned, counted_update h.counted ?_⟩
    · simp only [RetransMemory.queueRetransmission, hfound, hany, h₁, h', Option.bind_some,
        Option.map_some, Bool.false_eq_true, if_false]
    · rw [h.entries]
    · rw [h.total]
    · rw [h.counted, List.length_append]
      rfl

theorem Represents.getNextIdxForTarget (h : Represents others r rs lists lost) (t : ι) (nextIdx : Int) :
    ∃ r' lists', r.getNextIdxForTarget t nextIdx = some (r', (rs.getNextIdxForTarget t nextIdx).2) ∧
      r'.retransHead = r.retransHead ∧
      Represents others r' (rs.getNextIdxForTarget t nextIdx).1 lists' lost := by
  have hcounted := h.counted t
  rw [RetransMemory.getNextIdxForTarget, RetransLists.getNextIdxForTarget, h.entries]
  cases hlist : lists t with
  | nil =>
    have hempty : rs.retransHead t = [] :=
      List.length_eq_zero_iff.mp ((h.stores.length_eq t).symm.trans (congrArg List.length hlist))
    rw [hempty] at hcounted
    have hnone : ¬rs.retransEntries t > 0 := by
      rw [hcounted]
      exact lt_irrefl _
    exact ⟨r, lists, by rw [if_neg hnone, if_neg hnone], rfl, by rwa [if_neg hnone]⟩
  | cons x xs =>
    obtain ⟨request, hrequests, hx, -⟩ := h.stores.data_cons hlist
    obtain ⟨m₁, m', h₁, h', hstores, -⟩ := h.stores.delFree listPoison1 listPoison2 hlist
    have hfirst := (h.stores.rings.ring t).first
    rw [hlist, List.head?_cons] at hfirst
    rw [hrequests] at hcounted
    have hsome : rs.retransEntries t > 0 := by
      rw [hcounted]
      exact Int.natCast_pos.mpr (Nat.zero_lt_succ _)
    rw [if_pos hsome, if_pos hsome, hrequests]
    refine ⟨{ r with
      mem := m'
      retransEntries := Function.update r.retransEntries t (r.retransEntries t - 1) }, _, ?_, rfl,
      hstores, ?_, h.total, h.returned, counted_update h.counted ?_⟩
    · simp only [hfirst, hx, listDel, afree, h₁, h', Option.bind_some, Option.map_some]
      rw [h.entries]
    · rw [h.entries]
    · rw [hcounted, List.length_cons]
      omega

/-- The counter is down to what is left of the list. -/
def leftOver (rs : RetransLists ι) (t : ι) (ds : List Int) : RetransLists ι :=
  { rs with
    retransHead := Function.update rs.retransHead t ds
    retransEntries := Function.update rs.retransEntries t ds.length }

theorem leftOver_retransHead (rs : RetransLists ι) (t : ι) (ds : List Int) :
    (leftOver rs t ds).retransHead t = ds := Function.update_self ..

theorem Represents.cleanRequestTransmissionList (h : Represents others r rs lists lost) (t : ι)
    (hfuel : (lists t).length < fuel) :
    ∃ r', r.cleanRequestTransmissionList fuel t = some r' ∧ r'.retransHead = r.retransHead ∧
      Represents others r' (rs.cleanRequestTransmissionList t) (Function.update lists t []) lost := by
  let I (ys : List Addr) (s : RetransMemory ι) : Prop := ∃ ds, s.retransHead = r.retransHead ∧
    Represents others s (leftOver rs t ds) (Function.update lists t ys) lost
  have hring : ∀ ys s, I ys s → Ring s.mem (r.retransHead t) ys := by
    rintro ys s ⟨ds, hhead, hs⟩
    have hring := hs.stores.rings.ring t
    rwa [hhead, Function.update_self] at hring
  have hbody : ∀ y ys s, I (y :: ys) s →
      ∃ s', ((s.listDel y).bind fun r => (r.afree y).map fun r => { r with
        retransEntries := Function.update r.retransEntries t (r.retransEntries t - 1) }) = some s' ∧
        I ys s' := by
    rintro y ys s ⟨ds, hhead, hs⟩
    have hlist : Function.update lists t (y :: ys) t = y :: ys := Function.update_self ..
    obtain ⟨d, hds, -, -⟩ := hs.stores.data_cons hlist
    obtain ⟨m₁, m', h₁, h', hstores, -⟩ := hs.stores.delFree listPoison1 listPoison2 hlist
    rw [leftOver_retransHead] at hds hstores
    have hlength : (ds.length : ℤ) - 1 = ds.tail.length := by
      rw [hds, List.length_cons, List.tail_cons]
      omega
    refine ⟨{ s with
      mem := m'
      retransEntries := Function.update s.retransEntries t (s.retransEntries t - 1) }, ?_, ds.tail, hhead,
      ?_, ?_, hs.total, hs.returned, ?_⟩
    · simp only [listDel, afree, h₁, h', Option.map_some, Option.bind_some]
    · simpa only [leftOver, Function.update_idem] using hstores
    · dsimp only [leftOver]
      rw [hs.entries]
      dsimp only [leftOver]
      rw [Function.update_self, Function.update_idem, hlength]
    · exact counted_update h.counted rfl
  have hall : leftOver rs t (rs.retransHead t) = rs := by
    rw [leftOver, ← h.counted, Function.update_eq_self, Function.update_eq_self]
  have hstart : I (lists t) r := ⟨rs.retransHead t, rfl, by rwa [hall, Function.update_eq_self]⟩
  have hclean : rs.cleanRequestTransmissionList t = leftOver rs t [] := by
    rw [RetransLists.cleanRequestTransmissionList, h.counted, sub_self]
    rfl
  rw [hclean, RetransMemory.cleanRequestTransmissionList, (h.stores.rings.ring t).isEmpty,
    Option.bind_some]
  by_cases hempty : lists t = []
  · have hnone : rs.retransHead t = [] :=
      List.length_eq_zero_iff.mp ((h.stores.length_eq t).symm.trans (congrArg List.length hempty))
    refine ⟨r, by rw [hempty, List.isEmpty_nil, if_pos rfl], rfl, ?_⟩
    rwa [← hnone, hall, ← hempty, Function.update_eq_self]
  · obtain ⟨r', hr', ds, hhead, hend⟩ := forEachSafe_spec hring hbody hstart hfuel
    have hds : ds = [] := by
      have hlength := hend.stores.length_eq t
      rw [leftOver_retransHead, Function.update_self] at hlength
      exact List.length_eq_zero_iff.mp hlength.symm
    refine ⟨r', ?_, hhead, hds ▸ hend⟩
    rw [if_neg (by simpa using hempty)]
    exact hr'

theorem Represents.initializeIndex (h : Represents others r rs lists lost) (t : ι) :
    ∃ r', r.initializeIndex t = some r' ∧ r'.retransHead = r.retransHead ∧
      Represents others r' (rs.initializeIndex t) (Function.update lists t []) (lost ++ lists t) := by
  obtain ⟨m', hm', -, hstores⟩ := h.stores.initHead t
  have hothers : (fun a => others a ∨ a ∈ lost ++ lists t) =
      fun a => (others a ∨ a ∈ lost) ∨ a ∈ lists t := by
    funext a
    rw [List.mem_append, or_assoc]
  refine ⟨{ r with
    mem := m'
    numRetransmissions := Function.update r.numRetransmissions t 0
    retransEntries := Function.update r.retransEntries t 0 }, ?_, rfl, ?_, ?_, ?_, h.returned,
    counted_update h.counted rfl⟩
  · rw [RetransMemory.initializeIndex, hm', Option.map_some]
  · rw [hothers]
    exact hstores
  · dsimp only [RetransLists.initializeIndex]
    rw [h.entries]
  · dsimp only [RetransLists.initializeIndex]
    rw [h.total]

/-! ### The loops over the targets -/

theorem Represents.cleanRequestTransmissionLists (h : Represents others r rs lists lost) (l : List ι)
    (hfuel : ∀ t, (lists t).length < fuel) :
    ∃ r' lists', l.foldlM (RetransMemory.cleanRequestTransmissionList fuel) r = some r' ∧
      r'.retransHead = r.retransHead ∧
      Represents others r' (l.foldl RetransLists.cleanRequestTransmissionList rs) lists' lost := by
  induction l generalizing r rs lists with
  | nil => exact ⟨r, lists, rfl, rfl, h⟩
  | cons t l ih =>
    obtain ⟨r₁, hr₁, hhead₁, h₁⟩ := h.cleanRequestTransmissionList t (hfuel t)
    have hfuel₁ : ∀ t', (Function.update lists t [] t').length < fuel := fun t' => by
      by_cases heq : t' = t
      · rw [heq, Function.update_self]
        exact Nat.lt_of_le_of_lt (Nat.zero_le _) (hfuel t)
      · rw [Function.update_of_ne heq]
        exact hfuel t'
    obtain ⟨r', lists', hr', hhead', h'⟩ := ih h₁ hfuel₁
    refine ⟨r', lists', ?_, hhead'.trans hhead₁, h'⟩
    rw [List.foldlM_cons, hr₁]
    exact hr'

theorem Represents.initializeIndices (h : Represents others r rs lists lost) (l : List ι) :
    ∃ r' lists' lost', l.foldlM RetransMemory.initializeIndex r = some r' ∧
      r'.retransHead = r.retransHead ∧ ((∀ t, lists t = []) → lost' = lost) ∧
      Represents others r' (l.foldl RetransLists.initializeIndex rs) lists' lost' := by
  induction l generalizing r rs lists lost with
  | nil => exact ⟨r, lists, lost, rfl, rfl, fun _ => rfl, h⟩
  | cons t l ih =>
    obtain ⟨r₁, hr₁, hhead₁, h₁⟩ := h.initializeIndex t
    obtain ⟨r', lists', lost', hr', hhead', hlost', h'⟩ := ih h₁
    refine ⟨r', lists', lost', ?_, hhead'.trans hhead₁, fun hempty => ?_, h'⟩
    · rw [List.foldlM_cons, hr₁]
      exact hr'
    · have hstays : ∀ t', Function.update lists t [] t' = [] := fun t' => by
        by_cases heq : t' = t
        · rw [heq, Function.update_self]
        · rw [Function.update_of_ne heq, hempty]
      rw [hlost' hstays, hempty, List.append_nil]

/-! ### The first use -/

/-- The lists in `done` have been set up, and nothing else has changed. -/
structure SetUp (r : RetransMemory ι) (done : List ι) (r' : RetransMemory ι) : Prop where
  emptied : Emptied r.mem r.retransHead done r'.mem
  entries : ∀ t ∈ done, r'.retransEntries t = 0
  total : ∀ t ∈ done, r'.numRetransmissions t = 0
  retransHead : r'.retransHead = r.retransHead
  returned : r'.returned = r.returned

theorem SetUp.next {r' : RetransMemory ι} {done : List ι} (h : SetUp r done r')
    (hheads : Function.Injective r.retransHead) (t : ι) (ht : (r.mem (r.retransHead t)).isSome) :
    ∃ r'', r'.initializeIndex t = some r'' ∧ SetUp r (done ++ [t]) r'' := by
  obtain ⟨m', hm', hemptied⟩ := h.emptied.next hheads t ht
  have hzero : ∀ f : ι → Int, (∀ t' ∈ done, f t' = 0) →
      ∀ t' ∈ done ++ [t], Function.update f t 0 t' = 0 := by
    intro f hf t' ht'
    by_cases heq : t' = t
    · rw [heq, Function.update_self]
    · rw [Function.update_of_ne heq]
      exact hf t' ((List.mem_append.mp ht').resolve_right fun hmem => heq (List.mem_singleton.mp hmem))
  refine ⟨{ r' with
    mem := m'
    numRetransmissions := Function.update r'.numRetransmissions t 0
    retransEntries := Function.update r'.retransEntries t 0 }, ?_, hemptied, hzero _ h.entries,
    hzero _ h.total, h.retransHead, h.returned⟩
  rw [RetransMemory.initializeIndex, h.retransHead, hm', Option.map_some]

theorem SetUp.all {r' : RetransMemory ι} {done : List ι} (h : SetUp r done r')
    (hheads : Function.Injective r.retransHead) (halloc : ∀ t, (r.mem (r.retransHead t)).isSome)
    (todo : List ι) :
    ∃ r'', todo.foldlM RetransMemory.initializeIndex r' = some r'' ∧ SetUp r (done ++ todo) r'' := by
  induction todo generalizing r' done with
  | nil => exact ⟨r', rfl, (List.append_nil done).symm ▸ h⟩
  | cons t todo ih =>
    obtain ⟨r₁, hr₁, h₁⟩ := h.next hheads t (halloc t)
    rw [List.append_cons]
    obtain ⟨r'', hr'', h''⟩ := ih h₁
    refine ⟨r'', ?_, h''⟩
    rw [List.foldlM_cons, hr₁]
    exact hr''

end RetransMemory

namespace RetransLists

variable {k : Nat}

def empty : RetransLists ι where
  retransHead _ := []
  retransEntries _ := 0
  numRetransmissions _ := 0
  returned := []

theorem initializeIndex_foldl [DecidableEq ι] (l : List ι) (rs : RetransLists ι) :
    l.foldl initializeIndex rs =
      { retransHead := fun t => if t ∈ l then [] else rs.retransHead t
        retransEntries := fun t => if t ∈ l then 0 else rs.retransEntries t
        numRetransmissions := fun t => if t ∈ l then 0 else rs.numRetransmissions t
        returned := rs.returned } := by
  induction l generalizing rs with
  | nil => rfl
  | cons t l ih =>
    rw [List.foldl_cons, ih]
    have hupdate : ∀ {γ : Type} (f : ι → γ) (x : γ),
        (fun t' => if t' ∈ l then x else Function.update f t x t') =
          fun t' => if t' ∈ t :: l then x else f t' := by
      intro γ f x
      funext t'
      by_cases heq : t' = t
      · simp [heq]
      · simp [heq]
    simp only [initializeIndex, hupdate]

theorem initializeIndices_eq (rs : RetransLists (Fin k)) :
    rs.call .initializeIndices = { empty with returned := rs.returned } := by
  rw [call, initializeIndex_foldl]
  simp [empty, List.mem_finRange]

end RetransLists

namespace RetransLists

variable {ι : Type} [DecidableEq ι] {k : Nat}

theorem queueRetransmission_length (rs : RetransLists ι) (remoteLid : ι) (retransIdx : Int) (t : ι) :
    ((rs.queueRetransmission remoteLid retransIdx).retransHead t).length ≤
      (rs.retransHead t).length + 1 := by
  unfold queueRetransmission
  split
  · exact Nat.le_succ _
  · dsimp only
    by_cases heq : t = remoteLid
    · rw [heq, Function.update_self, List.length_append]
      exact Nat.le_refl _
    · rw [Function.update_of_ne heq]
      exact Nat.le_succ _

theorem getNextIdxForTarget_length (rs : RetransLists ι) (targetId : ι) (nextIdx : Int) (t : ι) :
    ((rs.getNextIdxForTarget targetId nextIdx).1.retransHead t).length ≤ (rs.retransHead t).length := by
  unfold getNextIdxForTarget
  split
  · split
    · exact Nat.le_refl _
    · next request rest hlist =>
      dsimp only
      by_cases heq : t = targetId
      · rw [heq, Function.update_self, hlist]
        exact Nat.le_succ _
      · rw [Function.update_of_ne heq]
  · exact Nat.le_refl _

theorem cleanRequestTransmissionLists_length (rs : RetransLists ι) (l : List ι) (t : ι) :
    ((l.foldl cleanRequestTransmissionList rs).retransHead t).length ≤ (rs.retransHead t).length := by
  induction l generalizing rs with
  | nil => exact Nat.le_refl _
  | cons i l ih =>
    refine (ih (rs.cleanRequestTransmissionList i)).trans ?_
    dsimp only [cleanRequestTransmissionList]
    by_cases heq : t = i
    · rw [heq, Function.update_self]
      exact Nat.zero_le _
    · rw [Function.update_of_ne heq]

theorem call_length (rs : RetransLists (Fin k)) (c : RetransListCall (Fin k)) (t : Fin k) :
    ((rs.call c).retransHead t).length ≤ (rs.retransHead t).length + 1 := by
  cases c with
  | queueRetransmission remoteLid retransIdx newReq => exact rs.queueRetransmission_length _ _ t
  | getNextIdxForTarget targetId nextIdx =>
    exact Nat.le_succ_of_le (rs.getNextIdxForTarget_length targetId nextIdx t)
  | cleanRequestTransmissionLists =>
    exact Nat.le_succ_of_le (rs.cleanRequestTransmissionLists_length _ t)
  | initializeIndices =>
    rw [initializeIndices_eq]
    exact Nat.zero_le _

/-- The lists are set up only when nothing is in them. -/
def SetsUpEmpty (rs : RetransLists (Fin k)) : RetransListCall (Fin k) → Prop
  | .initializeIndices => ∀ t, rs.retransHead t = []
  | _ => True

end RetransLists

namespace RetransMemory

variable {k fuel : Nat} {others : Addr → Prop} {r : RetransMemory (Fin k)} {rs : RetransLists (Fin k)}
  {lists : Fin k → List Addr} {lost : List Addr}

/-- The request of a call is put where nothing is. -/
def GivesUnused : Option (RetransMemory (Fin k)) → RetransListCall (Fin k) → Prop
  | some r, .queueRetransmission _ _ newReq => (r.mem newReq).isNone
  | _, _ => True

instance GivesUnused.decidable :
    (r : Option (RetransMemory (Fin k))) → (c : RetransListCall (Fin k)) → Decidable (GivesUnused r c)
  | some r, .queueRetransmission _ _ newReq => inferInstanceAs (Decidable ((r.mem newReq).isNone = true))
  | none, .queueRetransmission .. | none, .getNextIdxForTarget .. | none, .cleanRequestTransmissionLists
  | none, .initializeIndices | some _, .getNextIdxForTarget ..
  | some _, .cleanRequestTransmissionLists | some _, .initializeIndices => inferInstanceAs (Decidable True)

theorem Represents.call (h : Represents others r rs lists lost) (hfuel : ∀ t, (lists t).length < fuel)
    (c : RetransListCall (Fin k)) (hunused : GivesUnused (some r) c) :
    ∃ r' lists' lost', r.call fuel c = some r' ∧ r'.retransHead = r.retransHead ∧
      (rs.SetsUpEmpty c → lost' = lost) ∧ Represents others r' (rs.call c) lists' lost' := by
  cases c with
  | queueRetransmission remoteLid retransIdx newReq =>
    obtain ⟨r', lists', hr', hhead, h'⟩ := h.queueRetransmission remoteLid retransIdx (hfuel remoteLid)
      (Option.isNone_iff_eq_none.mp hunused)
    exact ⟨r', lists', lost, hr', hhead, fun _ => rfl, h'⟩
  | getNextIdxForTarget targetId nextIdx =>
    obtain ⟨r', lists', hr', hhead, h'⟩ := h.getNextIdxForTarget targetId nextIdx
    refine ⟨{ r' with returned := r'.returned ++
      [(targetId, (rs.getNextIdxForTarget targetId nextIdx).2)] }, lists', lost, ?_, hhead, fun _ => rfl,
      h'.stores, h'.entries, h'.total, congrArg (· ++ _) h'.returned, h'.counted⟩
    rw [RetransMemory.call, hr', Option.map_some]
  | cleanRequestTransmissionLists =>
    obtain ⟨r', lists', hr', hhead, h'⟩ := h.cleanRequestTransmissionLists (List.finRange k) hfuel
    exact ⟨r', lists', lost, hr', hhead, fun _ => rfl, h'⟩
  | initializeIndices =>
    obtain ⟨r', lists', lost', hr', hhead, hlost, h'⟩ := h.initializeIndices (List.finRange k)
    refine ⟨r', lists', lost', hr', hhead, fun hempty => hlost fun t => ?_, h'⟩
    have hlength := h.stores.length_eq t
    rw [hempty t] at hlength
    exact List.length_eq_zero_iff.mp hlength

theorem Represents.run (h : Represents others r rs lists lost) {calls : List (RetransListCall (Fin k))}
    (hfuel : ∀ t, (lists t).length + calls.length < fuel)
    (hunused : Run.Meets (step fuel) GivesUnused (some r) calls) :
    ∃ r' lists' lost', r.run fuel calls = some r' ∧
      (Run.Meets RetransLists.call RetransLists.SetsUpEmpty rs calls → lost' = lost) ∧
      Represents others r' (rs.run calls) lists' lost' := by
  induction calls generalizing r rs lists lost with
  | nil => exact ⟨r, lists, lost, rfl, fun _ => rfl, h⟩
  | cons c calls ih =>
    obtain ⟨hc, hrest⟩ := hunused
    have hroom : ∀ t, (lists t).length < fuel := fun t => Nat.lt_of_le_of_lt (Nat.le_add_right ..) (hfuel t)
    obtain ⟨r₁, lists₁, lost₁, hcall, -, hlost₁, h₁⟩ := h.call hroom c hc
    have hstep : step fuel (some r) c = some r₁ := hcall
    have hfuel₁ : ∀ t, (lists₁ t).length + calls.length < fuel := fun t => by
      have hlength := rs.call_length c t
      have hbound := hfuel t
      rw [← h₁.stores.length_eq, ← h.stores.length_eq] at hlength
      rw [List.length_cons] at hbound
      omega
    obtain ⟨r', lists', lost', hrun, hlost', h'⟩ := ih h₁ hfuel₁ (hstep ▸ hrest)
    refine ⟨r', lists', lost', ?_, fun hmeets => (hlost' hmeets.2).trans (hlost₁ hmeets.1), h'⟩
    rw [RetransMemory.run, Run.run_cons, hstep]
    exact hrun

theorem initializeIndices_represents (hheads : Function.Injective r.retransHead)
    (halloc : ∀ t, (r.mem (r.retransHead t)).isSome) (hreturned : r.returned = []) :
    ∃ r', r.initializeIndices = some r' ∧
      Represents (fun a => (r.mem a).isSome) r' RetransLists.empty (fun _ => []) [] := by
  have hstart : SetUp r [] r := ⟨Emptied.none r.mem r.retransHead, by simp, by simp, rfl, rfl⟩
  obtain ⟨r', hr', h⟩ := hstart.all hheads halloc (List.finRange k)
  have hall : ∀ t, t ∈ [] ++ List.finRange k := List.mem_finRange
  refine ⟨r', hr', ?_, funext fun t => h.entries t (hall t), funext fun t => h.total t (hall t),
    h.returned.trans hreturned, fun _ => rfl⟩
  rw [h.retransHead]
  simp only [List.not_mem_nil, or_false]
  exact h.emptied.stores hheads hall

/-- **The retransmission lists in memory.** From the first time on that they are set up, whatever is
called in whatever order: no call reads, writes or frees memory that is not allocated, the linked lists
and their counters are those of the model, and `get_next_idx_for_target` returns the same. The requests
in the lists are all that is allocated beside what was before, unless lists were set up again while
there were requests in them. As long as the arrays have a slot for every target, the heads, the locks and
the counters do not overlap in the struct they stand in. -/
theorem retrans_lists_memory_safe (hfew : k ≤ clusterSize) (hheads : Function.Injective r.retransHead)
    (halloc : ∀ t, (r.mem (r.retransHead t)).isSome) (hreturned : r.returned = [])
    {calls : List (RetransListCall (Fin k))} (hfuel : calls.length < fuel)
    (hunused : Run.Meets (step fuel) GivesUnused r.initializeIndices calls) :
    ∃ r' lists lost, r.initializeIndices.bind (fun r => r.run fuel calls) = some r' ∧
      Represents (fun a => (r.mem a).isSome) r' (RetransLists.empty.run calls) lists lost ∧
      (Run.Meets RetransLists.call RetransLists.SetsUpEmpty RetransLists.empty calls → lost = []) ∧
      ∀ lk, CmdLogField.Disjoint (CmdLogField.listAreas lk k) := by
  obtain ⟨r₀, hr₀, hinit⟩ := initializeIndices_represents hheads halloc hreturned
  rw [hr₀] at hunused
  have hroom : ∀ t : Fin k, ([] : List Addr).length + calls.length < fuel := fun _ => by
    rwa [List.length_nil, Nat.zero_add]
  obtain ⟨r', lists, lost, hrun, hlost, hend⟩ := hinit.run hroom hunused
  exact ⟨r', lists, lost, by rw [hr₀]; exact hrun, hend, hlost,
    fun lk => CmdLogField.listAreas_disjoint lk hfew⟩

/-- Memory with the heads of three lists, as an allocator returns it. -/
def threeLists : RetransMemory (Fin 3) where
  mem a := if 100 ≤ a ∧ a < 103 then some ⟨7, 7, 7⟩ else none
  retransHead t := 100 + t
  retransEntries _ := 7
  numRetransmissions _ := 7
  returned := []

/-- The second follower misses the entries 4 and 7, asks for 4 twice, and gets it; then the leader stops,
and another term starts. -/
def askedTwice : List (RetransListCall (Fin 3)) :=
  [.queueRetransmission 1 4 1, .queueRetransmission 1 7 2, .queueRetransmission 1 4 3,
    .getNextIdxForTarget 1 9, .getNextIdxForTarget 0 9, .cleanRequestTransmissionLists,
    .initializeIndices, .queueRetransmission 1 8 1]

example : ((threeLists.initializeIndices.bind fun r => r.run 9 askedTwice).map fun r =>
    (r.returned, (r.mem 1).map (·.data), (r.mem 2).isSome, r.retransEntries 1)) =
      some ([(1, 4, true), (0, 9, false)], some 8, false, 1) := by
  decide +kernel

theorem retrans_lists_memory_safe_askedTwice :
    Run.Meets (step 9) GivesUnused threeLists.initializeIndices askedTwice ∧
    ∃ r' lists lost, threeLists.initializeIndices.bind (fun r => r.run 9 askedTwice) = some r' ∧
      Represents (fun a => (threeLists.mem a).isSome) r' (RetransLists.empty.run askedTwice) lists lost ∧
      (Run.Meets RetransLists.call RetransLists.SetsUpEmpty RetransLists.empty askedTwice → lost = []) ∧
      ∀ lk, CmdLogField.Disjoint (CmdLogField.listAreas lk 3) := by
  have hunused : Run.Meets (step 9) GivesUnused threeLists.initializeIndices askedTwice := by decide +kernel
  have hheads : Function.Injective threeLists.retransHead := fun i j heq => Fin.ext (Nat.add_left_cancel heq)
  exact ⟨hunused, retrans_lists_memory_safe le_rfl hheads (by decide) rfl (by decide) hunused⟩

end RetransMemory

end XlaneLkm
