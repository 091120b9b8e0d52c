import Mathlib.Logic.Relation

/-!
# Runs of a deterministic system under an environment

The environment picks events, the system answers each with one step. `run` is the state after a list
of events, `Meets` says that every step of the run satisfies a condition on the state before it and
the event. An invariant of the conditioned step is an invariant of the conditioned run, and a
property of the final state that can only be lost, never regained, may be assumed all along the run.
What the steps add to a log is what the run gives out. A system that keeps answering one event settles
once it is idle.
-/

namespace Run

variable {σ ε : Type*} (step : σ → ε → σ)

def run (s : σ) (events : List ε) : σ := events.foldl step s

/-- Every step of the run from `s` meets `C`, a condition on the state before the step. -/
def Meets (C : σ → ε → Prop) (s : σ) : List ε → Prop
  | [] => True
  | e :: events => C s e ∧ Meets C (step s e) events

instance Meets.decidable (C : σ → ε → Prop) [∀ s e, Decidable (C s e)] (s : σ) :
    (events : List ε) → Decidable (Meets step C s events)
  | [] => isTrue trivial
  | e :: events =>
    have := Meets.decidable C (step s e) events
    inferInstanceAs (Decidable (C s e ∧ Meets step C (step s e) events))

/-- What the steps of the run from `s` give out, one after the other. -/
def outputs {β : Type*} (out : σ → ε → List β) (s : σ) : List ε → List β
  | [] => []
  | e :: events => out s e ++ outputs out (step s e) events

@[simp]
theorem run_nil (s : σ) : run step s [] = s := rfl

@[simp]
theorem run_cons (s : σ) (e : ε) (events : List ε) :
    run step s (e :: events) = run step (step s e) events := rfl

theorem run_append (s : σ) (first second : List ε) :
    run step s (first ++ second) = run step (run step s first) second :=
  List.foldl_append

@[simp]
theorem meets_nil (C : σ → ε → Prop) (s : σ) : Meets step C s [] := trivial

@[simp]
theorem meets_cons (C : σ → ε → Prop) (s : σ) (e : ε) (events : List ε) :
    Meets step C s (e :: events) ↔ C s e ∧ Meets step C (step s e) events := Iff.rfl

theorem meets_append {C : σ → ε → Prop} {s : σ} {first second : List ε} :
    Meets step C s (first ++ second) ↔
      Meets step C s first ∧ Meets step C (run step s first) second := by
  induction first generalizing s with
  | nil => simp
  | cons e first ih => simp [ih, and_assoc]

theorem outputs_append {β : Type*} (out : σ → ε → List β) (s : σ) (first second : List ε) :
    outputs step out s (first ++ second) =
      outputs step out s first ++ outputs step out (run step s first) second := by
  induction first generalizing s with
  | nil => rfl
  | cons e first ih =>
    calc outputs step out s (e :: first ++ second)
        = out s e ++ outputs step out (step s e) (first ++ second) := rfl
      _ = out s e ++ (outputs step out (step s e) first ++
            outputs step out (run step (step s e) first) second) := by rw [ih]
      _ = outputs step out s (e :: first) ++ outputs step out (run step s (e :: first)) second := by
            rw [← List.append_assoc]
            rfl

theorem meets_true (s : σ) (events : List ε) : Meets step (fun _ _ => True) s events := by
  induction events generalizing s with
  | nil => trivial
  | cons e events ih => exact ⟨trivial, ih _⟩

theorem Meets.mono {C C' : σ → ε → Prop} (h : ∀ s e, C s e → C' s e) {s : σ} {events : List ε}
    (hmeets : Meets step C s events) : Meets step C' s events := by
  induction events generalizing s with
  | nil => trivial
  | cons e events ih => exact ⟨h s e hmeets.1, ih hmeets.2⟩

/-- **Invariant rule.** What every conditioned step preserves, every conditioned run preserves. -/
theorem invariant {C : σ → ε → Prop} {I : σ → Prop}
    (hstep : ∀ s e, I s → C s e → I (step s e)) {s : σ} {events : List ε} (hs : I s)
    (hmeets : Meets step C s events) : I (run step s events) := by
  induction events generalizing s with
  | nil => exact hs
  | cons e events ih => exact ih (hstep s e hs hmeets.1) hmeets.2

/-- **Exactness rule.** As long as an invariant holds, the condition is exactly what a step needs to
behave, and keeps the invariant. Then runs whose steps meet the condition are those that behave. -/
theorem meets_iff {P C : σ → ε → Prop} {I : σ → Prop} (hstep : ∀ s e, I s → (P s e ↔ C s e))
    (hkeep : ∀ s e, I s → C s e → I (step s e)) {s : σ} (hs : I s) (events : List ε) :
    Meets step P s events ↔ Meets step C s events := by
  induction events generalizing s with
  | nil => exact Iff.rfl
  | cons e events ih =>
    rw [meets_cons, meets_cons, hstep s e hs]
    exact and_congr_right fun hcond => ih (hkeep s e hs hcond)

theorem invariant_run {I : σ → Prop} (hstep : ∀ s e, I s → I (step s e)) {s : σ} (hs : I s)
    (events : List ε) : I (run step s events) :=
  invariant step (fun s e h _ => hstep s e h) hs (meets_true step s events)

/-- A property that no step regains, holding at the end of a run, holds at every state of it. -/
theorem holds_before {B : σ → Prop} (hback : ∀ s e, B (step s e) → B s) {s : σ}
    {events : List ε} (hend : B (run step s events)) : B s := by
  induction events generalizing s with
  | nil => exact hend
  | cons e events ih => exact hback s e (ih hend)

/-- **Invariant rule under a final condition.** The invariant may use a property `B` of the states
that is only assumed of the last one, as long as no step regains `B`. -/
theorem invariant_of_final {C : σ → ε → Prop} {I B : σ → Prop}
    (hback : ∀ s e, B (step s e) → B s)
    (hstep : ∀ s e, I s → C s e → B (step s e) → I (step s e)) {s : σ} {events : List ε}
    (hs : I s) (hmeets : Meets step C s events) (hend : B (run step s events)) :
    I (run step s events) := by
  induction events generalizing s with
  | nil => exact hs
  | cons e events ih =>
    exact ih (hstep s e hs hmeets.1 (holds_before step hback hend)) hmeets.2 hend

/-- What single moves preserve, sequences of moves preserve. -/
theorem preserved_of_moves {R : σ → σ → Prop} {I : σ → Prop}
    (hmove : ∀ s t, R s t → I s → I t) {s t : σ} (h : Relation.ReflTransGen R s t) (hs : I s) :
    I t := by
  induction h with
  | refl => exact hs
  | tail _ hmv ih => exact hmove _ _ hmv ih

/-- A fold of functions that move along `R` while `P` holds moves along `R`. -/
theorem moves_foldl {R : σ → σ → Prop} {β : Type*} (P : σ → Prop) (f : σ → β → σ)
    (hP : ∀ s b, P s → P (f s b)) (hmove : ∀ s b, P s → Relation.ReflTransGen R s (f s b))
    (l : List β) (s : σ) (hs : P s) : Relation.ReflTransGen R s (l.foldl f s) := by
  induction l generalizing s with
  | nil => exact .refl
  | cons b l ih => exact (hmove s b hs).trans (ih (f s b) (hP s b hs))

/-! ### What the steps of a run add up to -/

/-- `T` says of a step what it may give out. The run gives out the list, piece by piece. -/
inductive Yields {β : Type*} (T : σ → ε → List β → Prop) : σ → List ε → List β → Prop
  | nil {s : σ} : Yields T s [] []
  | cons {s : σ} {e : ε} {events : List ε} {out rest : List β} :
    T s e out → Yields T (step s e) events rest → Yields T s (e :: events) (out ++ rest)

/-- What every step adds to a log is what the run gives out. -/
theorem yields_of_log {β : Type*} {T : σ → ε → List β → Prop} {I : σ → Prop} (log : σ → List β)
    (hkeep : ∀ s e, I s → I (step s e))
    (hstep : ∀ s e, I s → ∃ out, log (step s e) = log s ++ out ∧ T s e out) {s : σ} (hs : I s)
    (events : List ε) :
    ∃ out, log (run step s events) = log s ++ out ∧ Yields step T s events out := by
  induction events generalizing s with
  | nil => exact ⟨[], (List.append_nil _).symm, .nil⟩
  | cons e events ih =>
    obtain ⟨out, hlog, hout⟩ := hstep s e hs
    obtain ⟨rest, hlogs, hrest⟩ := ih (hkeep s e hs)
    refine ⟨out ++ rest, ?_, .cons hout hrest⟩
    rw [run_cons, hlogs, hlog, List.append_assoc]

/-! ### One event again and again -/

/-- Some number of repetitions of the event end in an idle state. -/
def Settles (e : ε) (Idle : σ → Prop) (s s' : σ) : Prop :=
  ∃ k, run step s (List.replicate k e) = s' ∧ Idle s'

variable {e : ε} {Idle : σ → Prop} {s s' : σ}

/-- The event does nothing to an idle state, so nothing else can be reached from it. -/
theorem settles_idle (hidle : ∀ s, Idle s → step s e = s) (hs : Idle s) :
    Settles step e Idle s s' ↔ s' = s := by
  have hstays : ∀ k, run step s (List.replicate k e) = s := fun k => by
    induction k with
    | zero => rfl
    | succ k ih => rw [List.replicate_succ, run_cons, hidle s hs, ih]
  constructor
  · rintro ⟨k, rfl, -⟩
    exact hstays k
  · rintro rfl
    exact ⟨0, rfl, hs⟩

theorem settles_step (hs : ¬Idle s) :
    Settles step e Idle s s' ↔ Settles step e Idle (step s e) s' := by
  constructor
  · rintro ⟨k, hrun, hidle⟩
    cases k with
    | zero =>
      obtain rfl : s = s' := hrun
      exact absurd hidle hs
    | succ k => exact ⟨k, hrun, hidle⟩
  · rintro ⟨k, hrun, hidle⟩
    exact ⟨k + 1, hrun, hidle⟩

/-- An event that counts, up to a limit, counts its repetitions. -/
theorem run_replicate_count (count : σ → Nat) (B : σ → Prop) {limit : Nat}
    (hstep : ∀ s, B s → count s < limit → B (step s e) ∧ count (step s e) = count s + 1) (hs : B s)
    {k : Nat} (hk : count s + k ≤ limit) :
    B (run step s (List.replicate k e)) ∧ count (run step s (List.replicate k e)) = count s + k := by
  induction k generalizing s with
  | zero => exact ⟨hs, rfl⟩
  | succ k ih =>
    obtain ⟨hkept, hcount⟩ := hstep s hs (by omega)
    obtain ⟨hend, htotal⟩ := ih hkept (by omega)
    refine ⟨hend, ?_⟩
    rw [List.replicate_succ, run_cons, htotal, hcount]
    omega

end Run
