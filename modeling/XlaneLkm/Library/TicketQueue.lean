import Mathlib.Data.List.Nodup
import Mathlib.Data.List.Pairwise
import Mathlib.Data.List.Basic

/-!
# A queue with tickets

Values wait in the order of their arrival, no value twice at the same time. Each accepted value gets
the next ticket and keeps it, so that two requests for one value, one after the other, stay apart. What
is taken out is recorded. Every operation keeps the order of the tickets.
-/

universe u

structure TicketQueue (α : Type u) where
  /-- Every value ever accepted, oldest first; its position is its ticket. -/
  accepted : List α
  /-- What was taken out, oldest first. -/
  served : List (Nat × α)
  waiting : List (Nat × α)
  ordered : ((served ++ waiting).map Prod.fst).Pairwise (· < ·)
  issued : ∀ r ∈ served ++ waiting, accepted[r.1]? = some r.2
  distinct : (waiting.map Prod.snd).Nodup

namespace TicketQueue

variable {α : Type u}

def empty : TicketQueue α where
  accepted := []
  served := []
  waiting := []
  ordered := .nil
  issued := by simp
  distinct := .nil

/-- The waiting values, without their tickets. -/
def values (q : TicketQueue α) : List α := q.waiting.map Prod.snd

/-- The values taken out so far. -/
def handed (q : TicketQueue α) : List α := q.served.map Prod.snd

theorem ticket_lt (q : TicketQueue α) {r : Nat × α} (hr : r ∈ q.served ++ q.waiting) :
    r.1 < q.accepted.length :=
  (List.getElem?_eq_some_iff.mp (q.issued r hr)).1

/-- A value that is not waiting joins the end. -/
def accept (q : TicketQueue α) (a : α) (ha : a ∉ q.values) : TicketQueue α where
  accepted := q.accepted ++ [a]
  served := q.served
  waiting := q.waiting ++ [(q.accepted.length, a)]
  ordered := by
    rw [← List.append_assoc, List.map_append, List.pairwise_append]
    refine ⟨q.ordered, List.pairwise_singleton _ _, ?_⟩
    intro k hk l hl
    obtain ⟨r, hr, rfl⟩ := List.mem_map.mp hk
    obtain rfl : l = q.accepted.length := by simpa using hl
    exact q.ticket_lt hr
  issued := by
    intro r hr
    rw [← List.append_assoc, List.mem_append, List.mem_singleton] at hr
    rcases hr with hr | rfl
    · rw [List.getElem?_append_left (q.ticket_lt hr)]
      exact q.issued r hr
    · exact List.getElem?_concat_length
  distinct := by
    rw [List.map_append, List.map_singleton]
    exact List.nodup_append_comm.mp (List.nodup_cons.mpr ⟨ha, q.distinct⟩)

/-- The value that has waited longest is taken out. -/
def serve (q : TicketQueue α) (r : Nat × α) (rest : List (Nat × α)) (h : q.waiting = r :: rest) :
    TicketQueue α where
  accepted := q.accepted
  served := q.served ++ [r]
  waiting := rest
  ordered := by
    rw [List.append_assoc, List.singleton_append, ← h]
    exact q.ordered
  issued := by
    rw [List.append_assoc, List.singleton_append, ← h]
    exact q.issued
  distinct := by
    have hnodup := q.distinct
    rw [h, List.map_cons] at hnodup
    exact hnodup.of_cons

/-- Nobody waits any more. -/
def clear (q : TicketQueue α) : TicketQueue α where
  accepted := q.accepted
  served := q.served
  waiting := []
  ordered := by
    rw [List.append_nil]
    exact q.ordered.sublist ((List.sublist_append_left q.served q.waiting).map _)
  issued := by
    intro r hr
    rw [List.append_nil] at hr
    exact q.issued r (List.mem_append_left _ hr)
  distinct := .nil

theorem handed_append_values (q : TicketQueue α) :
    (q.handed ++ q.values).map some =
      ((q.served ++ q.waiting).map Prod.fst).map fun ticket => q.accepted[ticket]? := by
  rw [handed, values, ← List.map_append, List.map_map, List.map_map]
  exact List.map_congr_left fun r hr => (q.issued r hr).symm

/-- What a queue is asked. -/
inductive Op (α : Type u) where
  | push (a : α)
  | pop
  | clear

variable [DecidableEq α]

def step (q : TicketQueue α) : Op α → TicketQueue α
  | .push a => if ha : a ∈ q.values then q else q.accept a ha
  | .pop =>
    match h : q.waiting with
    | [] => q
    | r :: rest => q.serve r rest h
  | .clear => q.clear

def run (q : TicketQueue α) (ops : List (Op α)) : TicketQueue α := ops.foldl step q

variable (q : TicketQueue α)

theorem step_push_of_mem {a : α} (ha : a ∈ q.values) : q.step (.push a) = q := dif_pos ha

theorem step_push_values {a : α} (ha : a ∉ q.values) : (q.step (.push a)).values = q.values ++ [a] := by
  rw [step, dif_neg ha]
  exact List.map_append

theorem step_push_accepted {a : α} (ha : a ∉ q.values) :
    (q.step (.push a)).accepted = q.accepted ++ [a] := by
  rw [step, dif_neg ha, accept]

theorem step_push_handed (a : α) : (q.step (.push a)).handed = q.handed := by
  rw [step]
  split <;> rfl

theorem step_pop_accepted : (q.step .pop).accepted = q.accepted := by
  simp only [step]
  split <;> rfl

theorem step_pop_values : (q.step .pop).values = q.values.tail := by
  simp only [step]
  split
  case h_1 h => rw [values, h, List.map_nil, List.tail_nil]
  case h_2 r rest h =>
    have hvalues : q.values = r.2 :: rest.map Prod.snd := by rw [values, h, List.map_cons]
    rw [hvalues, List.tail_cons]
    rfl

theorem step_pop_handed : (q.step .pop).handed = q.handed ++ q.values.take 1 := by
  simp only [step]
  split
  case h_1 h => rw [values, h, List.map_nil, List.take_nil, List.append_nil]
  case h_2 r rest h =>
    have hvalues : q.values = r.2 :: rest.map Prod.snd := by rw [values, h, List.map_cons]
    rw [hvalues, List.take_succ_cons, List.take_zero]
    exact List.map_append

end TicketQueue
