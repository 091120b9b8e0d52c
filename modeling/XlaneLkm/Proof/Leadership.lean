import XlaneLkm.Proof.Roles

/-!
# One leader per term at each node

Three handlers compare the term of a packet with the own one, each in its own way, and nominations
and own candidatures raise it too. A candidate may accept a leader of its present term, since it has
accepted or been none in that term before; every other role asks for a newer one.
-/

namespace XlaneLkm

open MachineInt

/-- The terms of the leaders a node knows, itself included. -/
structure Roles.Ordered (r : Roles) : Prop where
  nonneg : 0 ≤ r.term
  le_max : r.term ≤ 2147483647
  accepted_le : ∀ a ∈ r.accepted, a.2 ≤ r.term
  leads_le : ∀ T ∈ r.leads, T ≤ r.term
  accepted_lt : r.nstate = .candidate → ∀ a ∈ r.accepted, a.2 < r.term
  leads_lt : r.nstate = .candidate → ∀ T ∈ r.leads, T < r.term
  distinct : (r.accepted.map Prod.snd).Nodup
  disjoint : ∀ a ∈ r.accepted, a.2 ∉ r.leads

namespace Node

variable {n n' : Node} {e : Event} {r : Roles}

/-- No nomination carries a term from 2^31 on, and no own candidature starts in the last term. -/
def termsInRange (n : Node) : Event → Prop
  | .handle _ pkt => pkt.opcodeVal = some .nomi → pkt.param1.toNat < 2147483648
  | e => n.startsCandidature e → n.priv.term < 2147483647

instance (n : Node) : (e : Event) → Decidable (n.termsInRange e)
  | .rx .. | .handle .. | .tick | .request .. | .oneShot .. | .work .. | .user .. | .leConfig ..
  | .pmStart | .pmStop | .pmHalt | .pmFail | .start | .stop => inferInstanceAs (Decidable (_ → _))

theorem turn_consistent (h : n.Turn e r) (hn : n.roles.Consistent) : r.Consistent := by
  cases h with
  | same => exact hn
  | accept h => exact ⟨nofun, fun h => nomatch h.1⟩
  | catchUp h => exact hn
  | giveUp h => exact ⟨nofun, fun h => nomatch h.1⟩
  | lead h => exact ⟨fun _ => ⟨rfl, h.1⟩, fun _ => rfl⟩
  | stand state h => exact ⟨nofun, fun h => nomatch h.1⟩
  | start h => exact ⟨nofun, fun h => nomatch h.1⟩
  | stop => exact ⟨nofun, fun h => nomatch h.2⟩

theorem consistent_init (c : Config) (u : Uninit) : (consensusInit c u).roles.Consistent :=
  ⟨fun h => absurd h Bool.false_ne_true, fun h => nomatch h.1⟩

theorem consistent_run (c : Config) (u : Uninit) (events : List Event) :
    (run (consensusInit c u) events).roles.Consistent :=
  Run.invariant_run step
    (fun m e hm => turn_consistent (m.step_turns e hm).roles hm)
    (consistent_init c u) events

/-- The term of a leader that is accepted is above those of all leaders before. -/
theorem takesLeader_term {lid : Nat} {pkt : ConRecord} (hn : n.roles.Ordered)
    (h : n.takesLeader lid pkt) : n.priv.term ≤ asI32 pkt.param1 ∧
      (∀ a ∈ n.roles.accepted, a.2 < asI32 pkt.param1) ∧
      ∀ T ∈ n.roles.leads, T < asI32 pkt.param1 := by
  rcases h.2 with ⟨-, hnew, -⟩ | ⟨hrole, hterm, -⟩ | ⟨-, hnew, -⟩
  · exact ⟨hnew.le, fun a ha => (hn.accepted_le a ha).trans_lt hnew,
      fun T hT => (hn.leads_le T hT).trans_lt hnew⟩
  · exact ⟨hterm, fun a ha => (hn.accepted_lt hrole a ha).trans_le hterm,
      fun T hT => (hn.leads_lt hrole T hT).trans_le hterm⟩
  · exact ⟨hnew.le, fun a ha => (hn.accepted_le a ha).trans_lt hnew,
      fun T hT => (hn.leads_le T hT).trans_lt hnew⟩

theorem catchesUp_term {lid : Nat} {pkt : ConRecord} (hn : n.roles.Ordered)
    (h : n.catchesUp lid pkt) (hrange : pkt.param1.toNat < 2147483648) :
    n.priv.term < asI32 pkt.param1 := by
  have hnonneg : 0 ≤ n.priv.term := hn.nonneg
  have hmax : n.priv.term ≤ 2147483647 := hn.le_max
  have hnew := h.2.2
  rw [u32_eq_toNat hnonneg (by omega)] at hnew
  rw [asI32, i32_eq_self (by omega) (by omega)]
  omega

theorem turn_ordered (h : n.Turn e r) (hrange : n.termsInRange e) (hn : n.roles.Ordered) :
    r.Ordered ∧ n.priv.term ≤ r.term := by
  cases h with
  | same => exact ⟨hn, le_rfl⟩
  | @accept lid pkt h =>
    obtain ⟨hterm, haccepted, hleads⟩ := takesLeader_term hn h
    refine ⟨⟨hn.nonneg.trans hterm, asI32_le _, ?_, fun T hT => (hleads T hT).le,
      nofun, nofun, ?_, ?_⟩, hterm⟩
    · rintro a (_ | ⟨_, ha⟩)
      · exact le_rfl
      · exact (haccepted a ha).le
    · refine List.nodup_cons.mpr ⟨fun hmem => ?_, hn.distinct⟩
      obtain ⟨a, ha, heq⟩ := List.mem_map.mp hmem
      exact (haccepted a ha).ne heq
    · rintro a (_ | ⟨_, ha⟩)
      · exact fun hmem => lt_irrefl _ (hleads _ hmem)
      · exact hn.disjoint a ha
  | @catchUp lid pkt h =>
    have hnew := catchesUp_term hn h (hrange h.1.2.2)
    exact ⟨⟨hn.nonneg.trans hnew.le, asI32_le _, fun a ha => (hn.accepted_le a ha).trans hnew.le,
      fun T hT => (hn.leads_le T hT).trans hnew.le,
      fun _ a ha => (hn.accepted_le a ha).trans_lt hnew,
      fun _ T hT => (hn.leads_le T hT).trans_lt hnew, hn.distinct, hn.disjoint⟩, hnew.le⟩
  | giveUp h =>
    exact ⟨{ hn with accepted_lt := nofun, leads_lt := nofun }, le_rfl⟩
  | lead h =>
    refine ⟨⟨hn.nonneg, hn.le_max, hn.accepted_le, ?_, nofun, nofun,
      hn.distinct, fun a ha hmem => ?_⟩, le_rfl⟩
    · rintro T (_ | ⟨_, hT⟩)
      · exact le_rfl
      · exact hn.leads_le T hT
    · rcases List.mem_cons.mp hmem with heq | hold
      · exact (hn.accepted_lt h.2.1 a ha).ne heq
      · exact hn.disjoint a ha hold
  | stand state h =>
    have hnonneg : 0 ≤ n.priv.term := hn.nonneg
    have hlt : n.priv.term < 2147483647 := by
      cases e
      case handle => exact absurd h id
      all_goals exact hrange h
    have hnext : i32 (n.priv.term + 1) = n.priv.term + 1 := i32_eq_self (by omega) (by omega)
    have haccepted : ∀ a ∈ n.roles.accepted, a.2 < n.priv.term + 1 :=
      fun a ha => Int.lt_add_one_iff.mpr (hn.accepted_le a ha)
    have hleads : ∀ T ∈ n.roles.leads, T < n.priv.term + 1 :=
      fun T hT => Int.lt_add_one_iff.mpr (hn.leads_le T hT)
    rw [hnext]
    exact ⟨⟨by dsimp only; omega, by dsimp only; omega, fun a ha => (haccepted a ha).le,
      fun T hT => (hleads T hT).le, fun _ => haccepted, fun _ => hleads, hn.distinct, hn.disjoint⟩,
      by dsimp only; omega⟩
  | start h =>
    exact ⟨{ hn with accepted_lt := nofun, leads_lt := nofun }, le_rfl⟩
  | stop => exact ⟨{ hn with }, le_rfl⟩

/-- Roles and leaders known, and the term not below a given one. -/
structure TermsInv (T : Int) (n : Node) : Prop where
  consistent : n.roles.Consistent
  ordered : n.roles.Ordered
  le_term : T ≤ n.priv.term

theorem termsInv_step {T : Int} (hn : TermsInv T n) (hrange : n.termsInRange e) :
    TermsInv T (n.step e) := by
  have hturn := (n.step_turns e hn.consistent).roles
  obtain ⟨hordered, hterm⟩ := turn_ordered hturn hrange hn.ordered
  exact ⟨turn_consistent hturn hn.consistent, hordered, hn.le_term.trans hterm⟩

theorem termsInv_init (c : Config) (u : Uninit) : TermsInv 0 (consensusInit c u) where
  consistent := consistent_init c u
  ordered := ⟨le_rfl, Int.le.intro_sub _ rfl, nofun, nofun, nofun, nofun, .nil, nofun⟩
  le_term := le_rfl

/-- **At most one leader per term at each node**: the term never falls, the leaders accepted in one
term are one, and no leader is accepted in a term the node leads in itself. -/
theorem one_leader_per_term (c : Config) (u : Uninit) (events : List Event)
    (hmeets : Run.Meets step termsInRange (consensusInit c u) events) :
    (∀ before after, events = before ++ after →
      (run (consensusInit c u) before).priv.term ≤ (run (consensusInit c u) events).priv.term) ∧
    (∀ a b T, (a, T) ∈ (run (consensusInit c u) events).hist.accepted →
      (b, T) ∈ (run (consensusInit c u) events).hist.accepted → a = b) ∧
    ∀ T voters, (T, voters) ∈ (run (consensusInit c u) events).hist.leads →
      ∀ a, (a, T) ∉ (run (consensusInit c u) events).hist.accepted := by
  have hend : TermsInv 0 (run (consensusInit c u) events) :=
    Run.invariant step (fun _ _ => termsInv_step) (termsInv_init c u) hmeets
  refine ⟨?_, fun a b T ha hb => ?_, fun T voters hlead a ha => ?_⟩
  · rintro before after rfl
    obtain ⟨hbefore, hafter⟩ := (Run.meets_append step).mp hmeets
    have hstart : TermsInv 0 (run (consensusInit c u) before) :=
      Run.invariant step (fun _ _ => termsInv_step) (termsInv_init c u) hbefore
    have hsplit : run (consensusInit c u) (before ++ after) =
        run (run (consensusInit c u) before) after := Run.run_append step _ _ _
    rw [hsplit]
    exact (Run.invariant step (fun _ _ => termsInv_step)
      { hstart with le_term := le_rfl } hafter).le_term
  · exact congrArg Prod.fst (List.inj_on_of_nodup_map hend.ordered.distinct ha hb rfl)
  · exact hend.ordered.disjoint (a, T) ha (List.mem_map_of_mem hlead)

/-- Node 1 stands in term 1, and node 2, elected with the last term there is, falls silent. -/
def lastTerm : List Event :=
  joining ++ .handle 0 (setLeOpcode .alive 2147483647 (-1) (-1) 0) :: List.replicate 14 .tick

theorem one_leader_per_term_accepted :
    (∀ before after, lastTerm.take 4 = before ++ after →
      (run (consensusInit (smallConfig 1 [2, 3]) zeroUninit) before).priv.term ≤
        (run (consensusInit (smallConfig 1 [2, 3]) zeroUninit) (lastTerm.take 4)).priv.term) ∧
    (∀ a b T, (a, T) ∈ (run (consensusInit (smallConfig 1 [2, 3]) zeroUninit)
        (lastTerm.take 4)).hist.accepted →
      (b, T) ∈ (run (consensusInit (smallConfig 1 [2, 3]) zeroUninit)
        (lastTerm.take 4)).hist.accepted → a = b) ∧
    ∀ T voters, (T, voters) ∈ (run (consensusInit (smallConfig 1 [2, 3]) zeroUninit)
        (lastTerm.take 4)).hist.leads →
      ∀ a, (a, T) ∉ (run (consensusInit (smallConfig 1 [2, 3]) zeroUninit)
        (lastTerm.take 4)).hist.accepted :=
  one_leader_per_term (smallConfig 1 [2, 3]) zeroUninit (lastTerm.take 4)
    (by decide +kernel)

/-- The next own candidature leaves the range of the term. -/
theorem term_decreases :
    ¬ ∀ (c : Config) (u : Uninit) (events : List Event),
      (∀ lid pkt, Event.handle lid pkt ∈ events → pkt.param1.toNat < 2147483648) →
      ∀ before after, events = before ++ after →
        (run (consensusInit c u) before).priv.term ≤ (run (consensusInit c u) events).priv.term := by
  intro h
  have hcarried : ∀ lid pkt, Event.handle lid pkt ∈ lastTerm → pkt.param1.toNat < 2147483648 := by
    intro lid pkt hmem
    simp only [lastTerm, joining, List.cons_append, List.nil_append, List.mem_cons, reduceCtorEq,
      List.mem_replicate, false_or, and_false, or_false, Event.handle.injEq] at hmem
    rw [hmem.2]
    decide
  have hterm := h (smallConfig 1 [2, 3]) zeroUninit lastTerm hcarried (lastTerm.take 4)
    (lastTerm.drop 4) (List.take_append_drop 4 lastTerm).symm
  revert hterm
  decide +kernel

end Node

end XlaneLkm
