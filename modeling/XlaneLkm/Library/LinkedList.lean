import Mathlib.Data.List.Nodup
import Mathlib.Data.List.GetD
import Mathlib.Logic.Function.Basic

/-!
# Circular doubly linked lists

Lists whose links stand in their entries, as C programs keep them. A memory holds the entries that are
allocated; a read or a write anywhere else fails. The head of a list is an entry that holds no data of
the list. A ring of entries, one linked to the next in both directions and the last to the head, is a
list of their addresses: each operation takes a ring to the ring of the list it stands for, and leaves
alone whatever is not in that ring.
-/

namespace LinkedList

variable {α β : Type}

structure Cell (α β : Type) where
  next : α
  prev : α
  data : β

/-- The allocated entries, by their addresses. -/
abbrev Memory (α β : Type) := α → Option (Cell α β)

namespace Memory

variable {m m' : Memory α β} {a b c v new : α}

def next (m : Memory α β) (a : α) : Option α := (m a).map Cell.next

def prev (m : Memory α β) (a : α) : Option α := (m a).map Cell.prev

def data (m : Memory α β) (a : α) : Option β := (m a).map Cell.data

/-! ### What a write changes -/

/-- The memories differ in the links of these entries at most. -/
structure Writes (cells : List α) (m m' : Memory α β) : Prop where
  same : ∀ a ∉ cells, m' a = m a
  data : ∀ a, m'.data a = m.data a

theorem Writes.refl (m : Memory α β) : Writes [] m m := ⟨fun _ _ => rfl, fun _ => rfl⟩

theorem Writes.mono {cells cells' : List α} (h : Writes cells m m') (hcells : cells ⊆ cells') :
    Writes cells' m m' := ⟨fun a ha => h.same a fun hmem => ha (hcells hmem), h.data⟩

theorem Writes.trans {cells : List α} {m'' : Memory α β} (h : Writes cells m m')
    (h' : Writes cells m' m'') : Writes cells m m'' where
  same a ha := (h'.same a ha).trans (h.same a ha)
  data a := (h'.data a).trans (h.data a)

/-- What is allocated stays allocated. -/
theorem Writes.isSome {cells : List α} (h : Writes cells m m') (a : α) :
    (m' a).isSome = (m a).isSome := by
  have hdata := congrArg Option.isSome (h.data a)
  rwa [Memory.data, Memory.data, Option.isSome_map, Option.isSome_map] at hdata

theorem isSome_of_next (h : m.next a = some b) : (m a).isSome :=
  Option.isSome_map.symm.trans (Option.isSome_of_eq_some h)

/-! ### Segments -/

/-- From `a` over the entries `xs` to `b`. -/
def Segment (m : Memory α β) (a : α) : List α → α → Prop
  | [], b => m.next a = some b ∧ m.prev b = some a
  | x :: xs, b => m.next a = some x ∧ m.prev x = some a ∧ Segment m x xs b

variable {xs ys : List α}

theorem Segment.next (h : Segment m a xs b) : m.next a = some (xs.headD b) := by
  cases xs with
  | nil => exact h.1
  | cons x xs => exact h.1

theorem Segment.prev (h : Segment m a xs b) : m.prev b = some (xs.getLastD a) := by
  induction xs generalizing a with
  | nil => exact h.2
  | cons x xs ih =>
    rw [List.getLastD_cons]
    exact ih h.2.2

theorem Segment.isSome (h : Segment m a xs b) {x : α} (hx : x ∈ a :: xs) : (m x).isSome := by
  induction xs generalizing a with
  | nil =>
    obtain rfl := List.mem_singleton.mp hx
    exact isSome_of_next h.1
  | cons y ys ih =>
    rcases List.mem_cons.mp hx with rfl | hrest
    · exact isSome_of_next h.1
    · exact ih h.2.2 hrest

theorem Segment.congr (h : Segment m a xs b) (hnext : ∀ x ∈ a :: xs, m'.next x = m.next x)
    (hprev : ∀ x ∈ xs ++ [b], m'.prev x = m.prev x) : Segment m' a xs b := by
  induction xs generalizing a with
  | nil => exact ⟨(hnext a List.mem_cons_self).trans h.1, (hprev b List.mem_cons_self).trans h.2⟩
  | cons x xs ih =>
    refine ⟨(hnext a List.mem_cons_self).trans h.1, (hprev x List.mem_cons_self).trans h.2.1, ?_⟩
    exact ih h.2.2 (fun y hy => hnext y (List.mem_cons_of_mem a hy))
      fun y hy => hprev y (List.mem_cons_of_mem x hy)

theorem segment_append {x : α} :
    Segment m a (xs ++ x :: ys) b ↔ Segment m a xs x ∧ Segment m x ys b := by
  induction xs generalizing a with
  | nil => exact ⟨fun h => ⟨⟨h.1, h.2.1⟩, h.2.2⟩, fun h => ⟨h.1.1, h.1.2, h.2⟩⟩
  | cons y xs ih =>
    constructor
    · rintro ⟨hnext, hprev, hrest⟩
      exact ⟨⟨hnext, hprev, (ih.mp hrest).1⟩, (ih.mp hrest).2⟩
    · rintro ⟨⟨hnext, hprev, hrest⟩, hend⟩
      exact ⟨hnext, hprev, ih.mpr ⟨hrest, hend⟩⟩

theorem headD_mem_ring (xs : List α) (head : α) : xs.headD head ∈ head :: xs := by
  cases xs with
  | nil => exact List.mem_cons_self
  | cons x xs => exact List.mem_cons_of_mem head List.mem_cons_self

variable [DecidableEq α]

/-! ### Operations -/

def setNext (a v : α) (m : Memory α β) : Option (Memory α β) :=
  (m a).map fun cell => Function.update m a (some { cell with next := v })

def setPrev (a v : α) (m : Memory α β) : Option (Memory α β) :=
  (m a).map fun cell => Function.update m a (some { cell with prev := v })

/-- The address is one the allocator may give out. -/
def alloc (a : α) (cell : Cell α β) (m : Memory α β) : Option (Memory α β) :=
  match m a with
  | none => some (Function.update m a (some cell))
  | some _ => none

def free (a : α) (m : Memory α β) : Option (Memory α β) :=
  (m a).map fun _ => Function.update m a none

/-- `head` is an empty list. -/
def initHead (head : α) (m : Memory α β) : Option (Memory α β) := do
  let m ← m.setNext head head
  m.setPrev head head

/-- Inserts an entry between two consecutive ones. -/
def insertBetween (new prev next : α) (m : Memory α β) : Option (Memory α β) := do
  let m ← m.setPrev next new
  let m ← m.setNext new next
  let m ← m.setPrev new prev
  m.setNext prev new

def add (new head : α) (m : Memory α β) : Option (Memory α β) := do
  let next ← m.next head
  m.insertBetween new head next

def addTail (new head : α) (m : Memory α β) : Option (Memory α β) := do
  let prev ← m.prev head
  m.insertBetween new prev head

/-- Takes an entry out, and leaves its links pointing to nowhere. -/
def del (poison₁ poison₂ entry : α) (m : Memory α β) : Option (Memory α β) := do
  let prev ← m.prev entry
  let next ← m.next entry
  let m ← m.setPrev next prev
  let m ← m.setNext prev next
  let m ← m.setNext entry poison₁
  m.setPrev entry poison₂

def isEmpty (head : α) (m : Memory α β) : Option Bool := (m.next head).map fun next => next = head

/-- The first entry, `none` of an empty list. -/
def first (head : α) (m : Memory α β) : Option (Option α) :=
  (m.next head).map fun next => if next = head then none else some next

/-- The loop that goes on to `n` after the body for `pos`, and has read `n` before it. -/
def forEachLoop {σ : Type} (mem : σ → Memory α β) (head : α) (body : α → σ → Option σ) :
    Nat → α → α → σ → Option σ
  | 0, _, _, _ => none
  | fuel + 1, pos, n, s =>
    if pos = head then some s
    else do
      let s ← body pos s
      let next ← (mem s).next n
      forEachLoop mem head body fuel n next s

/-- A loop over the entries whose body may take out and free the entry it is at. -/
def forEachSafe {σ : Type} (mem : σ → Memory α β) (head : α) (body : α → σ → Option σ) (fuel : Nat)
    (s : σ) : Option σ := do
  let pos ← (mem s).next head
  let n ← (mem s).next pos
  forEachLoop mem head body fuel pos n s

/-- A loop over the entries that is left at the first one whose data meet `p`. -/
def findLoop (p : β → Bool) (head : α) : Nat → α → α → Memory α β → Option Bool
  | 0, _, _, _ => none
  | fuel + 1, pos, n, m =>
    if pos = head then some false
    else
      match m.data pos with
      | none => none
      | some d => if p d then some true else (m.next n).bind fun next => findLoop p head fuel n next m

def findSafe (p : β → Bool) (head : α) (fuel : Nat) (m : Memory α β) : Option Bool :=
  (m.next head).bind fun pos => (m.next pos).bind fun n => findLoop p head fuel pos n m

/-! ### What the operations do -/

theorem setNext_spec (ha : (m a).isSome) (v : α) : ∃ m', m.setNext a v = some m' ∧ Writes [a] m m' ∧
    (∀ x, m'.next x = if x = a then some v else m.next x) ∧ ∀ x, m'.prev x = m.prev x := by
  obtain ⟨cell, hcell⟩ := Option.isSome_iff_exists.mp ha
  refine ⟨_, by rw [setNext, hcell]; rfl, ⟨fun x hx => ?_, fun x => ?_⟩, fun x => ?_, fun x => ?_⟩
  · exact Function.update_of_ne (List.ne_of_not_mem_cons hx) _ _
  all_goals
    by_cases hx : x = a
    · subst hx
      simp [Memory.data, Memory.next, Memory.prev, hcell]
    · simp [Memory.data, Memory.next, Memory.prev, hx]

theorem setPrev_spec (ha : (m a).isSome) (v : α) : ∃ m', m.setPrev a v = some m' ∧ Writes [a] m m' ∧
    (∀ x, m'.next x = m.next x) ∧ ∀ x, m'.prev x = if x = a then some v else m.prev x := by
  obtain ⟨cell, hcell⟩ := Option.isSome_iff_exists.mp ha
  refine ⟨_, by rw [setPrev, hcell]; rfl, ⟨fun x hx => ?_, fun x => ?_⟩, fun x => ?_, fun x => ?_⟩
  · exact Function.update_of_ne (List.ne_of_not_mem_cons hx) _ _
  all_goals
    by_cases hx : x = a
    · subst hx
      simp [Memory.data, Memory.next, Memory.prev, hcell]
    · simp [Memory.data, Memory.next, Memory.prev, hx]

/-- The links after an entry is put between `a` and `b`. -/
structure Inserted (new a b : α) (m m' : Memory α β) : Prop where
  next_prev : m'.next a = some new
  next_new : m'.next new = some b
  prev_next : m'.prev b = some new
  prev_new : m'.prev new = some a
  next_same : ∀ x, x ≠ a → x ≠ new → m'.next x = m.next x
  prev_same : ∀ x, x ≠ b → x ≠ new → m'.prev x = m.prev x

theorem insertBetween_spec (hnew : (m new).isSome) (ha : (m a).isSome) (hb : (m b).isSome)
    (hnewa : new ≠ a) (hnewb : new ≠ b) :
    ∃ m', m.insertBetween new a b = some m' ∧ Writes [new, a, b] m m' ∧ Inserted new a b m m' := by
  obtain ⟨m₁, h₁, hwrites₁, hnext₁, hprev₁⟩ := setPrev_spec hb new
  obtain ⟨m₂, h₂, hwrites₂, hnext₂, hprev₂⟩ := setNext_spec (hwrites₁.isSome new ▸ hnew) b
  obtain ⟨m₃, h₃, hwrites₃, hnext₃, hprev₃⟩ :=
    setPrev_spec (hwrites₂.isSome new ▸ hwrites₁.isSome new ▸ hnew) a
  obtain ⟨m₄, h₄, hwrites₄, hnext₄, hprev₄⟩ :=
    setNext_spec (hwrites₃.isSome a ▸ hwrites₂.isSome a ▸ hwrites₁.isSome a ▸ ha) new
  refine ⟨m₄, ?_, ?_, ?_, ?_, ?_, ?_, fun x hxa hxnew => ?_, fun x hxb hxnew => ?_⟩
  · simp only [insertBetween, h₁, h₂, h₃, h₄, Option.bind_eq_bind, Option.bind_some]
  · have hfirst : Writes [new, a, b] m m₂ := (hwrites₁.mono (by simp)).trans (hwrites₂.mono (by simp))
    exact (hfirst.trans (hwrites₃.mono (by simp))).trans (hwrites₄.mono (by simp))
  · rw [hnext₄, if_pos rfl]
  · rw [hnext₄, if_neg hnewa, hnext₃, hnext₂, if_pos rfl]
  · rw [hprev₄, hprev₃, if_neg hnewb.symm, hprev₂, hprev₁, if_pos rfl]
  · rw [hprev₄, hprev₃, if_pos rfl]
  · rw [hnext₄, if_neg hxa, hnext₃, hnext₂, if_neg hxnew, hnext₁]
  · rw [hprev₄, hprev₃, if_neg hxnew, hprev₂, hprev₁, if_neg hxb]

/-- The links after an entry between `a` and `b` is taken out. -/
structure Removed (e a b : α) (m m' : Memory α β) : Prop where
  next_prev : m'.next a = some b
  prev_next : m'.prev b = some a
  next_same : ∀ x, x ≠ a → x ≠ e → m'.next x = m.next x
  prev_same : ∀ x, x ≠ b → x ≠ e → m'.prev x = m.prev x

theorem del_spec (poison₁ poison₂ : α) {e : α} (hprev : m.prev e = some a) (hnext : m.next e = some b)
    (ha : (m a).isSome) (hb : (m b).isSome) (hea : a ≠ e) (heb : b ≠ e) :
    ∃ m', m.del poison₁ poison₂ e = some m' ∧ Writes [e, a, b] m m' ∧ Removed e a b m m' := by
  have he := isSome_of_next hnext
  obtain ⟨m₁, h₁, hwrites₁, hnext₁, hprev₁⟩ := setPrev_spec hb a
  obtain ⟨m₂, h₂, hwrites₂, hnext₂, hprev₂⟩ := setNext_spec (hwrites₁.isSome a ▸ ha) b
  obtain ⟨m₃, h₃, hwrites₃, hnext₃, hprev₃⟩ :=
    setNext_spec (hwrites₂.isSome e ▸ hwrites₁.isSome e ▸ he) poison₁
  obtain ⟨m₄, h₄, hwrites₄, hnext₄, hprev₄⟩ :=
    setPrev_spec (hwrites₃.isSome e ▸ hwrites₂.isSome e ▸ hwrites₁.isSome e ▸ he) poison₂
  refine ⟨m₄, ?_, ?_, ?_, ?_, fun x hxa hxe => ?_, fun x hxb hxe => ?_⟩
  · simp only [del, hprev, hnext, h₁, h₂, h₃, h₄, Option.bind_eq_bind, Option.bind_some]
  · have hfirst : Writes [e, a, b] m m₂ := (hwrites₁.mono (by simp)).trans (hwrites₂.mono (by simp))
    exact (hfirst.trans (hwrites₃.mono (by simp))).trans (hwrites₄.mono (by simp))
  · rw [hnext₄, hnext₃, if_neg hea, hnext₂, if_pos rfl]
  · rw [hprev₄, if_neg heb, hprev₃, hprev₂, hprev₁, if_pos rfl]
  · rw [hnext₄, hnext₃, if_neg hxe, hnext₂, if_neg hxa, hnext₁]
  · rw [hprev₄, if_neg hxe, hprev₃, hprev₂, hprev₁, if_neg hxb]

/-! ### Rings -/

omit [DecidableEq α] in
theorem Segment.insertFirst (h : Segment m a ys b) (hins : Inserted new a (ys.headD b) m m')
    (ha : a ∉ ys) (hb : b ∉ ys) (hnodup : ys.Nodup) (hnew : new ∉ ys) (hnewb : new ≠ b) :
    Segment m' a (new :: ys) b := by
  refine ⟨hins.next_prev, hins.prev_new, ?_⟩
  cases ys with
  | nil => exact ⟨hins.next_new, hins.prev_next⟩
  | cons y ys =>
    refine ⟨hins.next_new, hins.prev_next, h.2.2.congr (fun x hx => ?_) fun x hx => ?_⟩
    · exact hins.next_same x (fun heq => ha (heq ▸ hx)) fun heq => hnew (heq ▸ hx)
    · rcases List.mem_append.mp hx with hin | hend
      · refine hins.prev_same x (fun heq => ?_) fun heq => hnew (List.mem_cons_of_mem y (heq ▸ hin))
        exact (List.nodup_cons.mp hnodup).1 ((show x = y from heq) ▸ hin)
      · obtain rfl := List.mem_singleton.mp hend
        exact hins.prev_same x (fun heq => hb (heq ▸ List.mem_cons_self)) hnewb.symm

omit [DecidableEq α] in
theorem Segment.removeFirst {e : α} (h : Segment m e ys b) (hrem : Removed e a (ys.headD b) m m')
    (ha : a ∉ ys) (hb : b ∉ ys) (hnodup : (e :: ys).Nodup) (heb : b ≠ e) : Segment m' a ys b := by
  obtain ⟨he, hys⟩ := List.nodup_cons.mp hnodup
  cases ys with
  | nil => exact ⟨hrem.next_prev, hrem.prev_next⟩
  | cons y ys =>
    refine ⟨hrem.next_prev, hrem.prev_next, h.2.2.congr (fun x hx => ?_) fun x hx => ?_⟩
    · exact hrem.next_same x (fun heq => ha (heq ▸ hx)) fun heq => he (heq ▸ hx)
    · rcases List.mem_append.mp hx with hin | hend
      · refine hrem.prev_same x (fun heq => ?_) fun heq => he (List.mem_cons_of_mem y (heq ▸ hin))
        exact (List.nodup_cons.mp hys).1 ((show x = y from heq) ▸ hin)
      · obtain rfl := List.mem_singleton.mp hend
        exact hrem.prev_same x (fun heq => hb (heq ▸ List.mem_cons_self)) heb

/-- The list `xs` with this head. -/
structure Ring (m : Memory α β) (head : α) (xs : List α) : Prop where
  nodup : (head :: xs).Nodup
  segment : Segment m head xs head

variable {head : α}

omit [DecidableEq α] in
theorem Ring.isSome (h : Ring m head xs) {x : α} (hx : x ∈ head :: xs) : (m x).isSome :=
  h.segment.isSome hx

omit [DecidableEq α] in
/-- What is not written to stays a ring. -/
theorem Ring.congr (h : Ring m head xs) (hsame : ∀ x ∈ head :: xs, m' x = m x) : Ring m' head xs where
  nodup := h.nodup
  segment := by
    refine h.segment.congr (fun x hx => congrArg (Option.map _) (hsame x hx)) fun x hx => ?_
    refine congrArg (Option.map _) (hsame x ?_)
    rcases List.mem_append.mp hx with hin | hend
    · exact List.mem_cons_of_mem head hin
    · exact List.mem_singleton.mp hend ▸ List.mem_cons_self

theorem ring_initHead (hhead : (m head).isSome) :
    ∃ m', m.initHead head = some m' ∧ Writes [head] m m' ∧ Ring m' head [] := by
  obtain ⟨m₁, h₁, hwrites₁, hnext₁, hprev₁⟩ := setNext_spec hhead head
  obtain ⟨m₂, h₂, hwrites₂, hnext₂, hprev₂⟩ := setPrev_spec (hwrites₁.isSome head ▸ hhead) head
  refine ⟨m₂, ?_, hwrites₁.trans hwrites₂, List.nodup_singleton head, ?_, ?_⟩
  · simp only [initHead, h₁, h₂, Option.bind_eq_bind, Option.bind_some]
  · rw [hnext₂, hnext₁, if_pos rfl]
  · rw [hprev₂, if_pos rfl]

theorem Ring.add (h : Ring m head xs) (hcell : (m new).isSome) (hnew : new ∉ head :: xs) :
    ∃ m', m.add new head = some m' ∧ Writes (new :: head :: xs) m m' ∧ Ring m' head (new :: xs) := by
  obtain ⟨hhead, hxs⟩ := List.nodup_cons.mp h.nodup
  have hfirst := headD_mem_ring xs head
  obtain ⟨m', hm', hwrites, hins⟩ := insertBetween_spec hcell (h.isSome List.mem_cons_self)
    (h.isSome hfirst) (List.ne_of_not_mem_cons hnew) fun heq => hnew (heq ▸ hfirst)
  refine ⟨m', ?_, hwrites.mono ?_, ?_, ?_⟩
  · simp only [Memory.add, h.segment.next, Option.bind_eq_bind, Option.bind_some, hm']
  · intro x hx
    simp only [List.mem_cons, List.not_mem_nil, or_false] at hx
    rcases hx with rfl | rfl | rfl
    · exact List.mem_cons_self
    · exact List.mem_cons_of_mem new List.mem_cons_self
    · exact List.mem_cons_of_mem new hfirst
  · have hswap := (List.Perm.swap head new xs).nodup_iff
    exact hswap.mp (List.nodup_cons.mpr ⟨hnew, h.nodup⟩)
  · exact h.segment.insertFirst hins hhead hhead hxs (List.not_mem_of_not_mem_cons hnew)
      (List.ne_of_not_mem_cons hnew)

omit [DecidableEq α] in
/-- A segment that ends before the place of a change. -/
theorem Segment.before {p q e : α} (h : Segment m a xs p) (hnodup : (a :: (xs ++ [p])).Nodup)
    (he : e ∉ a :: (xs ++ [p])) (hq : q ∉ xs ++ [p])
    (hnext : ∀ x, x ≠ p → x ≠ e → m'.next x = m.next x)
    (hprev : ∀ x, x ≠ q → x ≠ e → m'.prev x = m.prev x) : Segment m' a xs p := by
  refine h.congr (fun x hx => hnext x (fun heq => ?_) fun heq => ?_) fun x hx => hprev x (fun heq => ?_)
    fun heq => ?_
  · have hdisjoint := List.nodup_append.mp (List.cons_append ▸ hnodup)
    exact hdisjoint.2.2 x hx p List.mem_cons_self heq
  · exact he (heq ▸ List.mem_append_left [p] hx)
  · exact hq (heq ▸ hx)
  · exact he (heq ▸ List.mem_cons_of_mem a hx)

theorem Ring.addTail (h : Ring m head xs) (hcell : (m new).isSome) (hnew : new ∉ head :: xs) :
    ∃ m', m.addTail new head = some m' ∧ Writes (new :: head :: xs) m m' ∧
      Ring m' head (xs ++ [new]) := by
  obtain ⟨hhead, hxs⟩ := List.nodup_cons.mp h.nodup
  have hlast : xs.getLastD head ∈ head :: xs := List.getLastD_mem_cons
  have hnewhead := List.ne_of_not_mem_cons hnew
  obtain ⟨m', hm', hwrites, hins⟩ := insertBetween_spec hcell (h.isSome hlast)
    (h.isSome List.mem_cons_self) (fun heq => hnew (heq ▸ hlast)) hnewhead
  refine ⟨m', ?_, hwrites.mono ?_, ?_, ?_⟩
  · simp only [Memory.addTail, h.segment.prev, Option.bind_eq_bind, Option.bind_some, hm']
  · intro x hx
    simp only [List.mem_cons, List.not_mem_nil, or_false] at hx
    rcases hx with rfl | rfl | rfl
    · exact List.mem_cons_self
    · exact List.mem_cons_of_mem new hlast
    · exact List.mem_cons_of_mem new List.mem_cons_self
  · rw [← List.cons_append]
    exact List.nodup_append.mpr ⟨h.nodup, List.nodup_singleton new, fun x hx y hy heq =>
      hnew (List.mem_singleton.mp hy ▸ heq ▸ hx)⟩
  · rcases List.eq_nil_or_concat xs with rfl | ⟨ys, p, rfl⟩
    · exact h.segment.insertFirst hins List.not_mem_nil List.not_mem_nil List.nodup_nil
        List.not_mem_nil hnewhead
    · rw [List.concat_eq_append] at *
      rw [List.getLastD_concat] at hins
      obtain ⟨hbefore, hend⟩ := segment_append.mp h.segment
      rw [List.append_assoc]
      refine segment_append.mpr ⟨?_, ?_⟩
      · exact hbefore.before h.nodup hnew hhead hins.next_same hins.prev_same
      · exact hend.insertFirst hins List.not_mem_nil List.not_mem_nil List.nodup_nil
          List.not_mem_nil hnewhead

theorem Ring.del (poison₁ poison₂ : α) {e : α} (h : Ring m head (xs ++ e :: ys)) :
    ∃ m', m.del poison₁ poison₂ e = some m' ∧ Writes (head :: (xs ++ e :: ys)) m m' ∧
      Ring m' head (xs ++ ys) := by
  obtain ⟨hbefore, hafter⟩ := segment_append.mp h.segment
  have hperm : (head :: (xs ++ e :: ys)).Perm (e :: head :: (xs ++ ys)) :=
    (List.perm_middle.cons head).trans (.swap e head _)
  obtain ⟨he, hrest⟩ := List.nodup_cons.mp (hperm.nodup_iff.mp h.nodup)
  have hlast : xs.getLastD head ∈ head :: (xs ++ ys) :=
    List.cons_append ▸ List.mem_append_left ys List.getLastD_mem_cons
  have hfirst : ys.headD head ∈ head :: (xs ++ ys) := by
    rcases List.mem_cons.mp (headD_mem_ring ys head) with heq | hmem
    · rw [heq]
      exact List.mem_cons_self
    · exact List.mem_cons_of_mem head (List.mem_append_right xs hmem)
  have hin : ∀ {x}, x ∈ head :: (xs ++ ys) → x ∈ head :: (xs ++ e :: ys) := fun hx =>
    hperm.mem_iff.mpr (List.mem_cons_of_mem e hx)
  obtain ⟨m', hm', hwrites, hrem⟩ := del_spec poison₁ poison₂ hbefore.prev
    hafter.next (h.isSome (hin hlast)) (h.isSome (hin hfirst)) (fun heq => he (heq ▸ hlast))
    fun heq => he (heq ▸ hfirst)
  refine ⟨m', hm', hwrites.mono ?_, hrest, ?_⟩
  · intro x hx
    simp only [List.mem_cons, List.not_mem_nil, or_false] at hx
    rcases hx with rfl | rfl | rfl
    · exact hperm.mem_iff.mpr List.mem_cons_self
    · exact hin hlast
    · exact hin hfirst
  · obtain ⟨hhead, hall⟩ := List.nodup_cons.mp hrest
    have hheade : head ≠ e := fun heq => he (heq ▸ List.mem_cons_self)
    have heys : (e :: ys).Nodup := ((List.nodup_cons.mp h.nodup).2).of_append_right
    have hheadys : head ∉ ys := fun hmem => hhead (List.mem_append_right xs hmem)
    rcases List.eq_nil_or_concat xs with rfl | ⟨zs, p, rfl⟩
    · exact hafter.removeFirst hrem hheadys hheadys heys hheade
    · rw [List.concat_eq_append] at *
      rw [List.getLastD_concat] at hrem
      obtain ⟨hzs, -⟩ := segment_append.mp hbefore
      have hdisjoint := (List.nodup_append.mp hall).2.2
      have hp : p ∈ zs ++ [p] := List.mem_append_right zs List.mem_cons_self
      rw [List.append_assoc]
      refine segment_append.mpr ⟨?_, ?_⟩
      · refine hzs.before ?_ ?_ (fun hmem => ?_) hrem.next_same hrem.prev_same
        · exact List.nodup_cons.mpr
            ⟨fun hmem => hhead (List.mem_append_left ys hmem), hall.of_append_left⟩
        · exact fun hmem => he (List.cons_append ▸ List.mem_append_left ys hmem)
        · rcases List.mem_cons.mp (headD_mem_ring ys head) with heq | hys
          · exact hhead (List.mem_append_left ys (heq ▸ hmem))
          · exact hdisjoint _ hmem _ hys rfl
      · exact hafter.removeFirst hrem (fun hmem => hdisjoint p hp p hmem rfl) hheadys heys hheade

theorem Ring.delFirst (poison₁ poison₂ : α) {e : α} (h : Ring m head (e :: ys)) :
    ∃ m', m.del poison₁ poison₂ e = some m' ∧ Writes (head :: e :: ys) m m' ∧ Ring m' head ys :=
  Ring.del poison₁ poison₂ (List.nil_append (e :: ys) ▸ h)

theorem Ring.first (h : Ring m head xs) : m.first head = some xs.head? := by
  rw [Memory.first, h.segment.next, Option.map_some]
  cases xs with
  | nil => exact congrArg some (if_pos rfl)
  | cons x xs =>
    have hne : x ≠ head := fun heq => (List.nodup_cons.mp h.nodup).1 (heq ▸ List.mem_cons_self)
    exact congrArg some (if_neg hne)

theorem Ring.isEmpty (h : Ring m head xs) : m.isEmpty head = some xs.isEmpty := by
  rw [Memory.isEmpty, h.segment.next, Option.map_some]
  cases xs with
  | nil => exact congrArg some (decide_eq_true rfl)
  | cons x xs =>
    have hne : x ≠ head := fun heq => (List.nodup_cons.mp h.nodup).1 (heq ▸ List.mem_cons_self)
    exact congrArg some (decide_eq_false hne)

theorem alloc_spec (ha : m a = none) (cell : Cell α β) :
    ∃ m', m.alloc a cell = some m' ∧ m' a = some cell ∧ ∀ x, x ≠ a → m' x = m x := by
  refine ⟨_, by rw [alloc, ha], Function.update_self _ _ _, fun x hx => Function.update_of_ne hx _ _⟩

theorem free_spec (ha : (m a).isSome) :
    ∃ m', m.free a = some m' ∧ m' a = none ∧ ∀ x, x ≠ a → m' x = m x := by
  obtain ⟨cell, hcell⟩ := Option.isSome_iff_exists.mp ha
  exact ⟨_, by rw [free, hcell]; rfl, Function.update_self _ _ _, fun x hx => Function.update_of_ne hx _ _⟩

/-! ### Loops -/

section Loops

variable {σ : Type} {mem : σ → Memory α β} {body : α → σ → Option σ} {I : List α → σ → Prop}
  (hring : ∀ ys s, I ys s → Ring (mem s) head ys)
  (hbody : ∀ y ys s, I (y :: ys) s → ∃ s', body y s = some s' ∧ I ys s')

include hring hbody

theorem forEachLoop_spec {fuel : Nat} {n : α} {s : σ} (hs : I xs s) (hfuel : xs.length < fuel)
    (hn : xs ≠ [] → (mem s).next (xs.headD head) = some n) :
    ∃ s', forEachLoop mem head body fuel (xs.headD head) n s = some s' ∧ I [] s' := by
  induction fuel generalizing xs n s with
  | zero => exact absurd hfuel (Nat.not_lt_zero _)
  | succ fuel ih =>
    cases xs with
    | nil => exact ⟨s, if_pos rfl, hs⟩
    | cons x xs =>
      have hne : x ≠ head := fun heq =>
        (List.nodup_cons.mp (hring _ _ hs).nodup).1 (heq ▸ List.mem_cons_self)
      obtain ⟨s', hs', hI⟩ := hbody x xs s hs
      have hnext : n = xs.headD head := by
        have hsegment := (hring _ _ hs).segment.2.2.next
        exact Option.some.inj ((hn (List.cons_ne_nil x xs)).symm.trans hsegment)
      obtain ⟨n', hn'⟩ : ∃ n', (mem s').next n = some n' := by
        obtain ⟨cell, hcell⟩ := Option.isSome_iff_exists.mp
          ((hring _ _ hI).isSome (headD_mem_ring xs head))
        exact ⟨cell.next, by rw [hnext, Memory.next, hcell]; rfl⟩
      obtain ⟨s'', hs'', hend⟩ := ih hI (Nat.lt_of_succ_lt_succ hfuel) fun _ => hnext ▸ hn'
      refine ⟨s'', ?_, hend⟩
      rw [forEachLoop, if_neg (show (x :: xs).headD head ≠ head from hne)]
      simp only [List.headD_cons, hs', hn', Option.bind_eq_bind, Option.bind_some]
      rw [hnext]
      exact hs''

/-- **Loop rule.** A body that takes out the first entry, and keeps what is to be kept, is run for each
entry, and nothing but entries of the list is read on the way. -/
theorem forEachSafe_spec {fuel : Nat} {s : σ} (hs : I xs s) (hfuel : xs.length < fuel) :
    ∃ s', forEachSafe mem head body fuel s = some s' ∧ I [] s' := by
  have hfirst := (hring xs s hs).segment.next
  obtain ⟨cell, hcell⟩ := Option.isSome_iff_exists.mp
    ((hring xs s hs).isSome (headD_mem_ring xs head))
  have hn : (mem s).next (xs.headD head) = some cell.next := by
    rw [Memory.next, hcell]
    rfl
  obtain ⟨s', hs', hend⟩ := forEachLoop_spec hring hbody hs hfuel fun _ => hn
  refine ⟨s', ?_, hend⟩
  simp only [forEachSafe, hfirst, hn, Option.bind_eq_bind, Option.bind_some]
  exact hs'

end Loops

/-- The data of the entries. -/
def Holds (m : Memory α β) (xs : List α) (ds : List β) : Prop := xs.map m.data = ds.map some

theorem findLoop_spec {p : β → Bool} {fuel : Nat} {n : α} {ds : List β} (h : Segment m a xs head)
    (hhead : head ∉ xs) (hsome : (m head).isSome) (hdata : Holds m xs ds) (hfuel : xs.length < fuel)
    (hn : xs ≠ [] → m.next (xs.headD head) = some n) :
    findLoop p head fuel (xs.headD head) n m = some (ds.any p) := by
  induction fuel generalizing a xs n ds with
  | zero => exact absurd hfuel (Nat.not_lt_zero _)
  | succ fuel ih =>
    cases xs with
    | nil =>
      obtain rfl : ds = [] := List.map_eq_nil_iff.mp hdata.symm
      exact if_pos rfl
    | cons x xs =>
      cases ds with
      | nil => cases hdata
      | cons d ds =>
        obtain ⟨hd, hrest⟩ := List.cons_eq_cons.mp hdata
        have hne : x ≠ head := fun heq => hhead (heq ▸ List.mem_cons_self)
        have hnext : n = xs.headD head :=
          Option.some.inj ((hn (List.cons_ne_nil x xs)).symm.trans h.2.2.next)
        rw [findLoop, if_neg (show (x :: xs).headD head ≠ head from hne)]
        simp only [List.headD_cons, hd, List.any_cons]
        by_cases hp : p d
        · rw [if_pos hp, hp, Bool.true_or]
        · obtain ⟨n', hn'⟩ : ∃ n', m.next n = some n' := by
            have hcell : (m (xs.headD head)).isSome := by
              cases xs with
              | nil => exact hsome
              | cons y ys => exact h.2.2.isSome (List.mem_cons_of_mem x List.mem_cons_self)
            obtain ⟨cell, hcell⟩ := Option.isSome_iff_exists.mp hcell
            exact ⟨cell.next, by rw [hnext, Memory.next, hcell]; rfl⟩
          rw [if_neg hp, hn', Option.bind_some, Bool.eq_false_iff.mpr hp, Bool.false_or, hnext]
          exact ih h.2.2 (fun hmem => hhead (List.mem_cons_of_mem x hmem)) hrest
            (Nat.lt_of_succ_lt_succ hfuel) fun _ => hnext ▸ hn'

theorem Ring.findSafe {p : β → Bool} {fuel : Nat} {ds : List β} (h : Ring m head xs)
    (hdata : Holds m xs ds) (hfuel : xs.length < fuel) : m.findSafe p head fuel = some (ds.any p) := by
  obtain ⟨cell, hcell⟩ := Option.isSome_iff_exists.mp (h.isSome (headD_mem_ring xs head))
  have hn : m.next (xs.headD head) = some cell.next := by
    rw [Memory.next, hcell]
    rfl
  simp only [Memory.findSafe, h.segment.next, hn, Option.bind_some]
  exact findLoop_spec h.segment (List.nodup_cons.mp h.nodup).1 (h.isSome List.mem_cons_self) hdata hfuel
    fun _ => hn

omit [DecidableEq α] in
theorem Holds.congr {ds : List β} (h : Holds m xs ds) (hsame : ∀ x ∈ xs, m'.data x = m.data x) :
    Holds m' xs ds := (List.map_congr_left hsame).trans h

omit [DecidableEq α] in
theorem Holds.append {ds ds' : List β} (h : Holds m xs ds) (h' : Holds m ys ds') :
    Holds m (xs ++ ys) (ds ++ ds') := by
  rw [Holds, List.map_append, List.map_append, h, h']

/-! ### Several rings in one memory -/

section Rings

variable {κ : Type*} {heads : κ → α} {lists : κ → List α}

/-- Rings without a common entry. -/
structure Rings (m : Memory α β) (heads : κ → α) (lists : κ → List α) : Prop where
  ring : ∀ k, Ring m (heads k) (lists k)
  apart : ∀ k k', k ≠ k' → ∀ x ∈ heads k :: lists k, x ∉ heads k' :: lists k'

/-- The entry is in none of the rings. -/
def Fresh (heads : κ → α) (lists : κ → List α) (a : α) : Prop := ∀ k, a ∉ heads k :: lists k

omit [DecidableEq α] in
theorem Rings.fresh (h : Rings m heads lists) (ha : m a = none) : Fresh heads lists a := fun k hmem => by
  have hsome := (h.ring k).isSome hmem
  rw [ha] at hsome
  cases hsome

omit [DecidableEq α] in
/-- **Frame rule.** What is done to one ring leaves the others as they are. -/
theorem Rings.update [DecidableEq κ] (h : Rings m heads lists) {k : κ} (hring : Ring m' (heads k) xs)
    (hsame : ∀ x, x ∉ heads k :: lists k → ¬Fresh heads lists x → m' x = m x)
    (hxs : ∀ x ∈ xs, x ∈ heads k :: lists k ∨ Fresh heads lists x) :
    Rings m' heads (Function.update lists k xs) := by
  have hown : ∀ x ∈ heads k :: xs, x ∈ heads k :: lists k ∨ Fresh heads lists x := fun x hx => by
    rcases List.mem_cons.mp hx with rfl | hx
    · exact .inl List.mem_cons_self
    · exact hxs x hx
  have hapart : ∀ k', k' ≠ k → ∀ x ∈ heads k' :: lists k', x ∉ heads k :: xs := fun k' hne x hx hmem => by
    rcases hown x hmem with hold | hfresh
    · exact h.apart k' k hne x hx hold
    · exact hfresh k' hx
  constructor
  · intro k'
    by_cases hk : k' = k
    · subst hk
      rw [Function.update_self]
      exact hring
    · rw [Function.update_of_ne hk]
      exact (h.ring k').congr fun x hx =>
        hsame x (h.apart k' k hk x hx) fun hfresh => hfresh k' hx
  · intro k' k'' hne x hx hx'
    by_cases hk : k' = k
    · subst hk
      rw [Function.update_self] at hx
      rw [Function.update_of_ne hne.symm] at hx'
      exact hapart k'' hne.symm x hx' hx
    · rw [Function.update_of_ne hk] at hx
      by_cases hk' : k'' = k
      · subst hk'
        rw [Function.update_self] at hx'
        exact hapart k' hk x hx hx'
      · rw [Function.update_of_ne hk'] at hx'
        exact h.apart k' k'' hne x hx hx'

omit [DecidableEq α] in
theorem Rings.congr (h : Rings m heads lists) (hsame : ∀ x, ¬Fresh heads lists x → m' x = m x) :
    Rings m' heads lists where
  ring k := (h.ring k).congr fun x hx => hsame x fun hfresh => hfresh k hx
  apart := h.apart

variable [DecidableEq κ] {k : κ} {cell : Cell α β}

omit [DecidableEq α] in
/-- A new entry has been allocated, and put into one of the rings. -/
theorem Rings.inserted {m₁ : Memory α β} (h : Rings m heads lists) (hnew : m new = none)
    (halloc : ∀ x, x ≠ new → m₁ x = m x) (hwrites : Writes (new :: heads k :: lists k) m₁ m')
    (hring : Ring m' (heads k) xs) (hxs : ∀ x ∈ xs, x = new ∨ x ∈ lists k) :
    Rings m' heads (Function.update lists k xs) := by
  have hfresh := h.fresh hnew
  refine h.update hring (fun x hx hold => ?_) fun x hx => ?_
  · have hne : x ≠ new := fun heq => hold (heq ▸ hfresh)
    rw [hwrites.same x fun hmem => (List.mem_cons.mp hmem).elim hne hx, halloc x hne]
  · rcases hxs x hx with rfl | hold
    · exact .inr hfresh
    · exact .inl (List.mem_cons_of_mem _ hold)

theorem Rings.addTail (h : Rings m heads lists) (hnew : m new = none) (k : κ) (cell : Cell α β) :
    ∃ m₁ m', m.alloc new cell = some m₁ ∧ m₁.addTail new (heads k) = some m' ∧
      Rings m' heads (Function.update lists k (lists k ++ [new])) ∧ m'.data new = some cell.data ∧
      ∀ x, x ≠ new → m'.data x = m.data x := by
  obtain ⟨m₁, h₁, hcell, hsame⟩ := alloc_spec hnew cell
  have hfresh := h.fresh hnew k
  have hring : Ring m₁ (heads k) (lists k) :=
    (h.ring k).congr fun x hx => hsame x fun heq => hfresh (heq ▸ hx)
  obtain ⟨m', h', hwrites, hring'⟩ := hring.addTail (by rw [hcell]; rfl) hfresh
  refine ⟨m₁, m', h₁, h', h.inserted hnew hsame hwrites hring' fun x hx => ?_, ?_, fun x hx => ?_⟩
  · exact (List.mem_append.mp hx).symm.imp_left List.mem_singleton.mp
  · rw [hwrites.data, Memory.data, hcell]
    rfl
  · rw [hwrites.data, Memory.data, Memory.data, hsame x hx]

theorem Rings.add (h : Rings m heads lists) (hnew : m new = none) (k : κ) (cell : Cell α β) :
    ∃ m₁ m', m.alloc new cell = some m₁ ∧ m₁.add new (heads k) = some m' ∧
      Rings m' heads (Function.update lists k (new :: lists k)) ∧ m'.data new = some cell.data ∧
      ∀ x, x ≠ new → m'.data x = m.data x := by
  obtain ⟨m₁, h₁, hcell, hsame⟩ := alloc_spec hnew cell
  have hfresh := h.fresh hnew k
  have hring : Ring m₁ (heads k) (lists k) :=
    (h.ring k).congr fun x hx => hsame x fun heq => hfresh (heq ▸ hx)
  obtain ⟨m', h', hwrites, hring'⟩ := hring.add (by rw [hcell]; rfl) hfresh
  refine ⟨m₁, m', h₁, h', h.inserted hnew hsame hwrites hring' fun x hx => ?_, ?_, fun x hx => ?_⟩
  · exact List.mem_cons.mp hx
  · rw [hwrites.data, Memory.data, hcell]
    rfl
  · rw [hwrites.data, Memory.data, Memory.data, hsame x hx]

/-- The first entry of a ring is taken out, and stays allocated. -/
theorem Rings.del (poison₁ poison₂ : α) {x : α} (h : Rings m heads lists) (hk : lists k = x :: xs) :
    ∃ m', m.del poison₁ poison₂ x = some m' ∧ Rings m' heads (Function.update lists k xs) ∧
      Fresh heads (Function.update lists k xs) x ∧ (m' x).isSome ∧ ∀ a, m'.data a = m.data a := by
  have hring := hk ▸ h.ring k
  obtain ⟨m', hm', hwrites, hrest⟩ := hring.delFirst poison₁ poison₂
  have hx : x ∈ heads k :: lists k := hk ▸ List.mem_cons_of_mem _ List.mem_cons_self
  refine ⟨m', hm', h.update hrest (fun y hy _ => hwrites.same y (hk ▸ hy)) fun y hy => .inl ?_,
    fun k' => ?_, ?_, hwrites.data⟩
  · rw [hk]
    exact List.mem_cons_of_mem _ (List.mem_cons_of_mem x hy)
  · by_cases hk' : k' = k
    · subst hk'
      rw [Function.update_self]
      intro hmem
      have hnodup := hring.nodup
      rw [List.nodup_cons, List.nodup_cons] at hnodup
      rcases List.mem_cons.mp hmem with rfl | hin
      · exact hnodup.1 List.mem_cons_self
      · exact hnodup.2.1 hin
    · rw [Function.update_of_ne hk']
      exact h.apart k k' (Ne.symm hk') x hx
  · rw [hwrites.isSome]
    exact (h.ring k).isSome hx

/-! ### Lists of data -/

omit [DecidableEq α] in
theorem mem_of_rest {x a : α} {j : κ} (hk : lists k = x :: xs) (ha : a ∈ Function.update lists k xs j) :
    a ∈ lists j := by
  by_cases hj : j = k
  · subst hj
    rw [Function.update_self] at ha
    exact hk ▸ List.mem_cons_of_mem x ha
  · rwa [Function.update_of_ne hj] at ha

omit [DecidableEq α] in
theorem mem_lists_iff {x : α} (hk : lists k = x :: xs) (a : α) :
    (∃ j, a ∈ lists j) ↔ a = x ∨ ∃ j, a ∈ Function.update lists k xs j := by
  constructor
  · rintro ⟨j, hj⟩
    by_cases heq : j = k
    · subst heq
      rw [hk] at hj
      refine (List.mem_cons.mp hj).imp_right fun hrest => ⟨j, ?_⟩
      rwa [Function.update_self]
    · exact .inr ⟨j, by rwa [Function.update_of_ne heq]⟩
  · rintro (rfl | ⟨j, hj⟩)
    · exact ⟨k, hk ▸ List.mem_cons_self⟩
    · exact ⟨j, mem_of_rest hk hj⟩

/-- Rings that hold these lists of data. What is allocated beside their entries is said by `others`. -/
structure Stores (others : α → Prop) (m : Memory α β) (heads : κ → α) (lists : κ → List α)
    (data : κ → List β) : Prop where
  rings : Rings m heads lists
  holds : ∀ k, Holds m (lists k) (data k)
  apart : ∀ a, others a → ∀ k, a ∉ lists k
  allocated : ∀ a, (m.data a).isSome ↔ others a ∨ ∃ k, a ∈ lists k

variable {others : α → Prop} {data : κ → List β}

omit [DecidableEq α] [DecidableEq κ] in
theorem Stores.length_eq (h : Stores others m heads lists data) (k : κ) :
    (lists k).length = (data k).length := by
  have hlengths := congrArg List.length (h.holds k)
  rwa [List.length_map, List.length_map] at hlengths

omit [DecidableEq α] [DecidableEq κ] in
theorem Stores.ne_new (h : Stores others m heads lists data) (hnew : m new = none) {a : α}
    (ha : others a ∨ ∃ k, a ∈ lists k) : a ≠ new := by
  rintro rfl
  have hsome := (h.allocated a).mpr ha
  rw [Memory.data, hnew] at hsome
  cases hsome

omit [DecidableEq α] in
/-- Lists of data that belong to the rings stay with them when one of both changes. -/
theorem holds_update {m' : Memory α β} {ds : List β} (hk : Holds m' xs ds)
    (hother : ∀ j, j ≠ k → Holds m' (lists j) (data j)) (j : κ) :
    Holds m' (Function.update lists k xs j) (Function.update data k ds j) := by
  by_cases hj : j = k
  · subst hj
    rwa [Function.update_self, Function.update_self]
  · rw [Function.update_of_ne hj, Function.update_of_ne hj]
    exact hother j hj

omit [DecidableEq α] in
/-- A new entry has come to one of the rings. -/
theorem Stores.inserted {ds : List β} (h : Stores others m heads lists data) (hnew : m new = none)
    (hrings : Rings m' heads (Function.update lists k xs)) (hxs : ∀ a, a ∈ xs ↔ a = new ∨ a ∈ lists k)
    (hdata : (m'.data new).isSome) (hsame : ∀ a, a ≠ new → m'.data a = m.data a)
    (hholds : Holds m' xs ds) :
    Stores others m' heads (Function.update lists k xs) (Function.update data k ds) where
  rings := hrings
  holds := holds_update hholds fun j _ =>
    (h.holds j).congr fun a ha => hsame a (h.ne_new hnew (.inr ⟨j, ha⟩))
  apart a ha j hj := by
    by_cases heq : j = k
    · subst heq
      rw [Function.update_self, hxs] at hj
      exact hj.elim (h.ne_new hnew (.inl ha)) (h.apart a ha j)
    · rw [Function.update_of_ne heq] at hj
      exact h.apart a ha j hj
  allocated a := by
    have hlists : (∃ j, a ∈ Function.update lists k xs j) ↔ a = new ∨ ∃ j, a ∈ lists j := by
      constructor
      · rintro ⟨j, hj⟩
        by_cases heq : j = k
        · subst heq
          rw [Function.update_self, hxs] at hj
          exact hj.imp_right fun hold => ⟨j, hold⟩
        · rw [Function.update_of_ne heq] at hj
          exact .inr ⟨j, hj⟩
      · rintro (rfl | ⟨j, hj⟩)
        · exact ⟨k, by rw [Function.update_self, hxs]; exact .inl rfl⟩
        · by_cases heq : j = k
          · subst heq
            exact ⟨j, by rw [Function.update_self, hxs]; exact .inr hj⟩
          · exact ⟨j, by rwa [Function.update_of_ne heq]⟩
    rw [hlists]
    by_cases ha : a = new
    · subst ha
      simp [hdata]
    · simp [hsame a ha, h.allocated, ha]

theorem Stores.addTail (h : Stores others m heads lists data) (hnew : m new = none) (k : κ)
    (cell : Cell α β) :
    ∃ m₁ m', m.alloc new cell = some m₁ ∧ m₁.addTail new (heads k) = some m' ∧
      Stores others m' heads (Function.update lists k (lists k ++ [new]))
        (Function.update data k (data k ++ [cell.data])) ∧ ∀ a, others a → m'.data a = m.data a := by
  obtain ⟨m₁, m', h₁, h', hrings, hdata, hsame⟩ := h.rings.addTail hnew k cell
  have hmem : ∀ a, a ∈ lists k ++ [new] ↔ a = new ∨ a ∈ lists k := fun a => by
    rw [List.mem_append, List.mem_singleton, or_comm]
  have hholds : Holds m' (lists k ++ [new]) (data k ++ [cell.data]) :=
    ((h.holds k).congr fun a ha => hsame a (h.ne_new hnew (.inr ⟨k, ha⟩))).append
      (List.cons_eq_cons.mpr ⟨hdata, rfl⟩)
  exact ⟨m₁, m', h₁, h', h.inserted hnew hrings hmem (hdata ▸ rfl) hsame hholds,
    fun a ha => hsame a (h.ne_new hnew (.inl ha))⟩

theorem Stores.add (h : Stores others m heads lists data) (hnew : m new = none) (k : κ)
    (cell : Cell α β) :
    ∃ m₁ m', m.alloc new cell = some m₁ ∧ m₁.add new (heads k) = some m' ∧
      Stores others m' heads (Function.update lists k (new :: lists k))
        (Function.update data k (cell.data :: data k)) ∧ ∀ a, others a → m'.data a = m.data a := by
  obtain ⟨m₁, m', h₁, h', hrings, hdata, hsame⟩ := h.rings.add hnew k cell
  have hholds : Holds m' (new :: lists k) (cell.data :: data k) :=
    List.cons_eq_cons.mpr
      ⟨hdata, (h.holds k).congr fun a ha => hsame a (h.ne_new hnew (.inr ⟨k, ha⟩))⟩
  exact ⟨m₁, m', h₁, h', h.inserted hnew hrings (fun a => List.mem_cons) (hdata ▸ rfl) hsame hholds,
    fun a ha => hsame a (h.ne_new hnew (.inl ha))⟩

omit [DecidableEq α] [DecidableEq κ] in
/-- What a list begins with is stored at its first entry. -/
theorem Stores.data_cons {x : α} (h : Stores others m heads lists data) (hk : lists k = x :: xs) :
    ∃ d, data k = d :: (data k).tail ∧ m.data x = some d ∧ Holds m xs (data k).tail := by
  have hholds := h.holds k
  rw [hk] at hholds
  cases hdata : data k with
  | nil =>
    rw [hdata] at hholds
    cases hholds
  | cons d ds =>
    rw [hdata] at hholds
    obtain ⟨hd, hds⟩ := List.cons_eq_cons.mp hholds
    exact ⟨d, rfl, hd, hds⟩

/-- The first entry of a ring is taken out, and stays allocated. -/
theorem Stores.del (poison₁ poison₂ : α) {x : α} (h : Stores others m heads lists data)
    (hk : lists k = x :: xs) :
    ∃ m', m.del poison₁ poison₂ x = some m' ∧ (∀ a, m'.data a = m.data a) ∧
      Fresh heads (Function.update lists k xs) x ∧
      Stores (fun a => others a ∨ a = x) m' heads (Function.update lists k xs)
        (Function.update data k (data k).tail) := by
  obtain ⟨m', hm', hrings, hfresh, -, hsame⟩ := h.rings.del poison₁ poison₂ hk
  obtain ⟨d, -, -, hholds⟩ := h.data_cons hk
  refine ⟨m', hm', hsame, hfresh, hrings, ?_, ?_, fun a => ?_⟩
  · exact holds_update (hholds.congr fun a _ => hsame a) fun j _ => (h.holds j).congr fun a _ => hsame a
  · rintro a (ha | rfl) j hj
    · exact h.apart a ha j (mem_of_rest hk hj)
    · exact hfresh j (List.mem_cons_of_mem _ hj)
  · rw [hsame, h.allocated, mem_lists_iff hk, or_assoc]

/-- The first entry of a ring is taken out and freed. -/
theorem Stores.delFree (poison₁ poison₂ : α) {x : α} (h : Stores others m heads lists data)
    (hk : lists k = x :: xs) :
    ∃ m₁ m', m.del poison₁ poison₂ x = some m₁ ∧ m₁.free x = some m' ∧
      Stores others m' heads (Function.update lists k xs) (Function.update data k (data k).tail) ∧
      ∀ a, others a → m'.data a = m.data a := by
  obtain ⟨m₁, h₁, hsame₁, hfresh, hrest⟩ := h.del poison₁ poison₂ hk
  have hne : ∀ a, others a → a ≠ x := fun a ha heq => h.apart a ha k (hk ▸ heq ▸ List.mem_cons_self)
  have hnot : ∀ j, x ∉ Function.update lists k xs j := fun j hj =>
    hfresh j (List.mem_cons_of_mem _ hj)
  obtain ⟨m', h', hnone, hsame⟩ := free_spec
    (Option.isSome_map.symm.trans ((hrest.allocated x).mpr (.inl (.inr rfl))))
  have hdata : ∀ a, a ≠ x → m'.data a = m₁.data a := fun a ha => by
    rw [Memory.data, Memory.data, hsame a ha]
  refine ⟨m₁, m', h₁, h', ⟨?_, ?_, ?_, fun a => ?_⟩, fun a ha => ?_⟩
  · exact hrest.rings.congr fun a ha => hsame a fun heq => ha (heq ▸ hfresh)
  · exact fun j => (hrest.holds j).congr fun a ha => hdata a fun heq => hnot j (heq ▸ ha)
  · exact fun a ha => hrest.apart a (.inl ha)
  · by_cases ha : a = x
    · subst ha
      have hothers : ¬others a := fun ho => hne a ho rfl
      have hleft : ¬∃ j, a ∈ Function.update lists k xs j := fun ⟨j, hj⟩ => hnot j hj
      simp [Memory.data, hnone, hothers, hleft]
    · rw [hdata a ha, hrest.allocated]
      simp [ha]
  · rw [hdata a (hne a ha), hsame₁]

/-- A list is made empty without a look at its entries, which stay allocated. -/
theorem Stores.initHead (h : Stores others m heads lists data) (k : κ) :
    ∃ m', m.initHead (heads k) = some m' ∧ (∀ a, m'.data a = m.data a) ∧
      Stores (fun a => others a ∨ a ∈ lists k) m' heads (Function.update lists k [])
        (Function.update data k []) := by
  obtain ⟨m', hm', hwrites, hring⟩ := ring_initHead ((h.rings.ring k).isSome List.mem_cons_self)
  have hrest : ∀ a j, a ∈ Function.update lists k [] j ↔ a ∈ lists j ∧ j ≠ k := by
    intro a j
    by_cases hj : j = k
    · subst hj
      simp
    · simp [hj]
  refine ⟨m', hm', hwrites.data, h.rings.update hring (fun a ha _ => hwrites.same a fun hmem => ?_) (by simp),
    ?_, ?_, fun a => ?_⟩
  · exact ha (List.mem_singleton.mp hmem ▸ List.mem_cons_self)
  · exact holds_update rfl fun j _ => (h.holds j).congr fun a _ => hwrites.data a
  · rintro a ha j hj
    obtain ⟨hold, hne⟩ := (hrest a j).mp hj
    rcases ha with ha | ha
    · exact h.apart a ha j hold
    · exact h.rings.apart j k hne a (List.mem_cons_of_mem _ hold) (List.mem_cons_of_mem _ ha)
  · rw [hwrites.data, h.allocated, or_assoc]
    refine or_congr_right ⟨fun ⟨j, hj⟩ => ?_, fun hor => ?_⟩
    · by_cases heq : j = k
      · exact .inl (heq ▸ hj)
      · exact .inr ⟨j, (hrest a j).mpr ⟨hj, heq⟩⟩
    · rcases hor with hk | ⟨j, hj⟩
      · exact ⟨k, hk⟩
      · exact ⟨j, ((hrest a j).mp hj).1⟩

/-! ### The first use -/

/-- The heads in `done` have been initialised. -/
structure Emptied (m : Memory α β) (heads : κ → α) (done : List κ) (m' : Memory α β) : Prop where
  ring : ∀ k ∈ done, Ring m' (heads k) []
  data : ∀ a, m'.data a = m.data a

omit [DecidableEq α] [DecidableEq κ] in
theorem Emptied.none (m : Memory α β) (heads : κ → α) : Emptied m heads [] m :=
  ⟨by simp, fun _ => rfl⟩

omit [DecidableEq κ] in
theorem Emptied.next {done : List κ} (h : Emptied m heads done m') (hheads : Function.Injective heads)
    (k : κ) (hk : (m (heads k)).isSome) :
    ∃ m'', m'.initHead (heads k) = some m'' ∧ Emptied m heads (done ++ [k]) m'' := by
  have hsome : (m' (heads k)).isSome := by
    have hdata := congrArg Option.isSome (h.data (heads k))
    rwa [Memory.data, Memory.data, Option.isSome_map, Option.isSome_map, hk] at hdata
  obtain ⟨m'', hm'', hwrites, hring⟩ := ring_initHead hsome
  refine ⟨m'', hm'', fun j hj => ?_, fun a => (hwrites.data a).trans (h.data a)⟩
  by_cases heq : j = k
  · exact heq ▸ hring
  · have hold : j ∈ done := (List.mem_append.mp hj).resolve_right fun hmem =>
      heq (List.mem_singleton.mp hmem)
    refine (h.ring j hold).congr fun a ha => hwrites.same a fun hmem => heq (hheads ?_)
    exact (List.mem_singleton.mp ha).symm.trans (List.mem_singleton.mp hmem)

omit [DecidableEq α] [DecidableEq κ] in
theorem Emptied.stores {done : List κ} (h : Emptied m heads done m') (hheads : Function.Injective heads)
    (hall : ∀ k, k ∈ done) :
    Stores (fun a => (m a).isSome) m' heads (fun _ => []) fun _ => [] where
  rings :=
    { ring := fun k => h.ring k (hall k)
      apart := fun _ _ hne _ ha ha' =>
        hne (hheads ((List.mem_singleton.mp ha).symm.trans (List.mem_singleton.mp ha'))) }
  holds _ := rfl
  apart _ _ _ := List.not_mem_nil
  allocated a := by
    rw [h.data, Memory.data, Option.isSome_map]
    simp

end Rings

end Memory

end LinkedList
