import XlaneLkm.Proof.Leadership

/-!
# The messages of a leader

Nothing in an ALIVE or an APPEND is signed, and its receivers take its term on trust. A node sends
them only while it leads, in the term of the election that made it the leader.
-/

namespace XlaneLkm

open MachineInt

namespace Node

variable {start n : Node} {events : List Event} {e : Event} {T : Int}

/-- At some event of the run the node has entered LEADER in term `T` by a vote, and since then it has
been the running leader of that term. -/
def LeadsSince (start : Node) (events : List Event) (T : Int) : Prop :=
  ∃ before lid pkt after, events = before ++ .handle lid pkt :: after ∧
    (run start before).takesVote pkt ∧
    (run start (before ++ [.handle lid pkt])).roles.leads = T :: (run start before).roles.leads ∧
    ∀ since, since <+: after →
      (run start (before ++ .handle lid pkt :: since)).priv.nstate = .leader ∧
      (run start (before ++ .handle lid pkt :: since)).priv.state = .running ∧
      (run start (before ++ .handle lid pkt :: since)).priv.term = T

theorem LeadsSince.of_lead {lid : Nat} {pkt : ConRecord} (hvote : (run start events).takesVote pkt)
    (hroles : ((run start events).step (.handle lid pkt)).roles =
      { (run start events).roles with
        nstate := .leader
        isLeader := true
        leads := (run start events).priv.term :: (run start events).roles.leads }) :
    LeadsSince start (events ++ [.handle lid pkt]) (run start events).priv.term := by
  refine ⟨events, lid, pkt, [], rfl, hvote, ?_, fun since hsince => ?_⟩
  · rw [run_snoc, hroles]
  · rw [List.prefix_nil.mp hsince, run_snoc]
    exact ⟨congrArg Roles.nstate hroles, (congrArg Roles.state hroles).trans hvote.1,
      congrArg Roles.term hroles⟩

theorem LeadsSince.of_same (h : LeadsSince start events T)
    (hroles : ((run start events).step e).roles = (run start events).roles) :
    LeadsSince start (events ++ [e]) T := by
  obtain ⟨before, lid, pkt, after, rfl, hvote, hleads, hsince⟩ := h
  refine ⟨before, lid, pkt, after ++ [e], by simp, hvote, hleads, fun since hprefix => ?_⟩
  rcases List.prefix_concat_iff.mp hprefix with rfl | hold
  · obtain ⟨hnstate, hstate, hterm⟩ := hsince after (List.prefix_refl after)
    rw [show before ++ .handle lid pkt :: (after ++ [e]) = before ++ .handle lid pkt :: after ++ [e] by
      simp, run_snoc]
    exact ⟨(congrArg Roles.nstate hroles).trans hnstate, (congrArg Roles.state hroles).trans hstate,
      (congrArg Roles.term hroles).trans hterm⟩
  · exact hsince since hold

/-- A node that says it is the leader has been since an election in its present term. -/
theorem leadsSince (c : Config) (u : Uninit) (events : List Event)
    (h : (run (consensusInit c u) events).sdev.isLeader = true) :
    LeadsSince (consensusInit c u) events (run (consensusInit c u) events).priv.term := by
  induction events using List.reverseRecOn with
  | nil => cases h
  | append_singleton events e ih =>
    rw [run_snoc] at h ⊢
    have hconsistent := consistent_run c u events
    have hturn := ((run (consensusInit c u) events).step_turns e hconsistent).roles
    generalize hroles : ((run (consensusInit c u) events).step e).roles = r at hturn
    have hleader : r.isLeader = true := hroles ▸ h
    have hterm : ((run (consensusInit c u) events).step e).priv.term = r.term :=
      congrArg Roles.term hroles
    rw [hterm]
    cases hturn with
    | same => exact (ih hleader).of_same hroles
    | catchUp hcatch =>
      -- a leader does not look at nominations
      have hrole := (hconsistent.mp hleader).1
      rcases hcatch.1.2.1 with hstate | hstate
      · cases hstate.symm.trans hrole
      · cases hstate.symm.trans hrole
    | lead hvote => exact .of_lead hvote hroles
    | _ => cases hleader

/-- **Leader messages are authentic**: `is_leader` says what role and protocol state say, and every
ALIVE and every APPEND a step sends carries a term in which the node has been the leader since a vote
made it so. -/
theorem leader_messages_authentic (c : Config) (u : Uninit) (events : List Event) (e : Event) :
    ((run (consensusInit c u) events).sdev.isLeader = true ↔
      (run (consensusInit c u) events).priv.nstate = .leader ∧
        (run (consensusInit c u) events).priv.state = .running) ∧
    ∃ fresh, (run (consensusInit c u) (events ++ [e])).sent =
        fresh ++ (run (consensusInit c u) events).sent ∧
      ∀ dest pkt, (dest, some pkt) ∈ fresh → pkt.fromLeader →
        ∃ T, pkt.param1 = toU32 T ∧ LeadsSince (consensusInit c u) (events ++ [e]) T := by
  have hconsistent := consistent_run c u events
  refine ⟨hconsistent, ?_⟩
  obtain ⟨fresh, hsent, hterm⟩ := ((run (consensusInit c u) events).step_turns e hconsistent).sends
  rw [run_snoc]
  refine ⟨fresh, hsent, fun dest pkt hmem hfrom => ?_⟩
  obtain ⟨hleader, hparam⟩ := hterm dest pkt hmem hfrom
  rw [← run_snoc] at hleader hparam
  exact ⟨_, hparam, leadsSince c u _ hleader⟩

end Node

end XlaneLkm
