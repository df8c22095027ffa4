import TandemAio.Replicas

/-!
# What a failure report stops

When a deployment that a node has reported as failed is not handed out again.
-/

open Reasoning Reasoning.Prog

namespace TandemAio

namespace HostStore

variable {s s' s'' : HostStore} {p q : Pid} {n nodeId : NodeId}

/-- What `claim_assignment` returns. -/
def claimed (s : HostStore) (nodeId : NodeId) : Option Pid :=
  (s.serveQueue nodeId).head?.filter fun pid ↦ (s.deploy pid).isSome

/-- The answer of a claim goes to the node that claims. -/
theorem claimAssignment_answers (s : HostStore) (nodeId : NodeId) :
    ((s.claimAssignment nodeId).node nodeId).answers =
      (s.node nodeId).answers ++ (s.claimed nodeId).toList := by
  unfold claimAssignment claimed
  cases hhead : (s.serveQueue nodeId).head? with
  | none => simp
  | some pid =>
    dsimp only
    cases hd : s.deploy pid with
    | none => simp [hd]
    | some d =>
      have hkept : (some pid).filter (fun pid ↦ (s.deploy pid).isSome) = some pid := by
        simp [Option.filter, hd]
      rw [hkept]
      simp

/-- A deployment that exists has failed, and no queue has it. -/
def Settled (s : HostStore) (p : Pid) : Prop :=
  ∀ d, s.deploy p = some d → d.status = .failed ∧ ∀ n, p ∉ s.serveQueue n

theorem Settled.not_claimed (h : s.Settled p) (n : NodeId) : s.claimed n ≠ some p := by
  intro hclaimed
  obtain ⟨hhead, hsome⟩ := Option.filter_eq_some_iff.mp hclaimed
  obtain ⟨d, hd⟩ := Option.isSome_iff_exists.mp hsome
  exact (h d hd).2 n (List.mem_of_head? hhead)

/-- The deployment does not come back to life, and while it is not running no queue gets it. -/
structure Withholds (p : Pid) (s s' : HostStore) : Prop where
  deploy : ∀ d', s'.deploy p = some d' →
    ∃ d, s.deploy p = some d ∧ (d.status = .failed → d'.status = .failed)
  queue : (∀ d, s.deploy p = some d → d.status = .failed) →
    ∀ n, p ∈ s'.serveQueue n → p ∈ s.serveQueue n

theorem Withholds.refl (p : Pid) (s : HostStore) : Withholds p s s :=
  ⟨fun d hd ↦ ⟨d, hd, id⟩, fun _ _ hn ↦ hn⟩

theorem Withholds.trans (h : Withholds p s s') (h' : Withholds p s' s'') : Withholds p s s'' := by
  refine ⟨fun d'' hd'' ↦ ?_, fun hfailed n hn ↦ ?_⟩
  · obtain ⟨d', hd', hstatus'⟩ := h'.deploy d'' hd''
    obtain ⟨d, hd, hstatus⟩ := h.deploy d' hd'
    exact ⟨d, hd, hstatus' ∘ hstatus⟩
  · apply h.queue hfailed
    refine h'.queue (fun d' hd' ↦ ?_) n hn
    obtain ⟨d, hd, hstatus⟩ := h.deploy d' hd'
    exact hstatus (hfailed d hd)

theorem Withholds.settled (h : Withholds p s s') (hs : s.Settled p) : s'.Settled p := by
  intro d' hd'
  obtain ⟨d, hd, hstatus⟩ := h.deploy d' hd'
  have hfailed : ∀ d, s.deploy p = some d → d.status = .failed := fun d hd ↦ (hs d hd).1
  exact ⟨hstatus (hs d hd).1, fun n hn ↦ (hs d hd).2 n (h.queue hfailed n hn)⟩

/-- A step that leaves the deployment and puts it into no queue. -/
theorem Withholds.of_deploy_eq (hdeploy : s'.deploy p = s.deploy p)
    (queue : ∀ n, p ∈ s'.serveQueue n → p ∈ s.serveQueue n) : Withholds p s s' :=
  ⟨fun d hd ↦ ⟨d, hdeploy ▸ hd, id⟩, fun _ ↦ queue⟩

/-! ## Each step -/

theorem assignNodes_withholds (s : HostStore) (q : Pid) : Withholds p s (s.assignNodes q) := by
  have hpushed := assignNodes_pushed s q
  refine ⟨fun d hd ↦ ⟨d, hpushed.deploy ▸ hd, id⟩, fun hfailed n hn ↦ ?_⟩
  rcases (hpushed.queue n p).mp hn with hn | ⟨rfl, hn⟩
  · exact hn
  · -- only a running deployment is assigned
    unfold assigned at hn
    cases hd : s.deploy p with
    | none =>
      rw [hd] at hn
      cases hn
    | some d =>
      have hrunning : d.status ≠ .running := by
        rw [hfailed d hd]
        decide
      rw [hd] at hn
      dsimp only at hn
      rw [if_neg hrunning] at hn
      cases hn

theorem reapDeployment_withholds (s : HostStore) (q : Pid) :
    Withholds p s (s.reapDeployment q) := by
  unfold reapDeployment
  dsimp only
  refine Withholds.trans ?_ (assignNodes_withholds _ q)
  exact .of_deploy_eq rfl fun _ hn ↦ hn

theorem reapStaleServeNodes_withholds (s : HostStore) (members : List Pid) :
    Withholds p s (s.reapStaleServeNodes members) := by
  unfold reapStaleServeNodes
  induction members generalizing s with
  | nil => exact .refl p s
  | cons q members ih => exact (reapDeployment_withholds s q).trans (ih _)

theorem createServeDeployment_withholds {startCommand : List String} {replicas : Int}
    {apiKey : ApiKey} (hne : q ≠ p) :
    Withholds p s (s.createServeDeployment q startCommand replicas apiKey) := by
  unfold createServeDeployment
  dsimp only
  refine Withholds.trans ?_ (assignNodes_withholds _ q)
  refine .of_deploy_eq ?_ fun _ hn ↦ hn
  exact Function.update_of_ne hne.symm _ _

theorem removeDeployment_withholds (s : HostStore) (q : Pid) :
    Withholds p s (s.removeDeployment q) := by
  refine ⟨fun d' hd' ↦ ?_, fun _ _ hn ↦ hn⟩
  change Function.update s.deploy q none p = some d' at hd'
  by_cases hne : p = q
  · rw [hne, Function.update_self] at hd'
    cases hd'
  · rw [Function.update_of_ne hne] at hd'
    exact ⟨d', hd', id⟩

theorem markFailed_withholds (s : HostStore) (q : Pid) : Withholds p s (s.markFailed q) := by
  unfold markFailed
  cases hd : s.deploy q with
  | none => exact .refl p s
  | some d =>
    refine ⟨fun d' hd' ↦ ?_, fun _ _ hn ↦ hn⟩
    change Function.update s.deploy q _ p = some d' at hd'
    by_cases hne : p = q
    · subst hne
      rw [Function.update_self] at hd'
      cases hd'
      exact ⟨d, hd, fun _ ↦ rfl⟩
    · rw [Function.update_of_ne hne] at hd'
      exact ⟨d', hd', id⟩

/-- A claim takes the head of the queue, and leaves every deployment. -/
theorem claimAssignment_queue (s : HostStore) (nodeId : NodeId) :
    (s.claimAssignment nodeId).deploy = s.deploy ∧
      (s.claimAssignment nodeId).serveQueue =
        Function.update s.serveQueue nodeId (s.serveQueue nodeId).tail := by
  unfold claimAssignment
  cases hhead : (s.serveQueue nodeId).head? with
  | none =>
    have hnil : s.serveQueue nodeId = [] := List.head?_eq_none_iff.mp hhead
    refine ⟨rfl, ?_⟩
    rw [hnil, List.tail_nil, ← hnil, Function.update_eq_self]
  | some pid =>
    dsimp only
    cases s.deploy pid with
    | none => exact ⟨rfl, rfl⟩
    | some d => exact ⟨rfl, rfl⟩

theorem claimAssignment_withholds (s : HostStore) (nodeId : NodeId) :
    Withholds p s (s.claimAssignment nodeId) := by
  obtain ⟨hdeploy, hqueue⟩ := claimAssignment_queue s nodeId
  refine Withholds.of_deploy_eq (by rw [hdeploy]) fun n hn ↦ ?_
  rw [hqueue] at hn
  by_cases hnode : n = nodeId
  · rw [hnode, Function.update_self] at hn
    rw [hnode]
    exact List.mem_of_mem_tail hn
  · rwa [Function.update_of_ne hnode] at hn

theorem takeAnswer_withholds (s : HostStore) (nodeId : NodeId) :
    Withholds p s (s.takeAnswer nodeId) := by
  unfold takeAnswer
  split
  · exact .refl p s
  · exact .of_deploy_eq rfl fun _ hn ↦ hn

theorem nodesNext_withholds (s : HostStore) (nodeId : NodeId) (pids : List Pid) :
    Withholds p s (s.nodesNext nodeId pids).1 := by
  induction pids generalizing s with
  | nil => exact .refl p s
  | cons q pids ih =>
    unfold nodesNext
    split
    · refine Withholds.trans ?_ (ih _)
      exact .of_deploy_eq rfl fun _ hn ↦ hn
    · exact ih s

end HostStore

/-! ## Runs -/

/-- A step of which a poll may list any pids, whatever the node runs. -/
inductive ServeStep [Sha256] : HostAction → HostStore → HostStore → Prop
  | host {a : HostAction} {s s' : HostStore} : HostStep a s s' → ServeStep a s s'
  | poll {s : HostStore} {nodeId : NodeId} {pids : List Pid} :
      ServeStep (.poll nodeId pids) s
        ((s.nodesNext nodeId pids).1.appsStopped nodeId (s.nodesNext nodeId pids).2)

/-- The step deploys `pid`. -/
def HostAction.Deploys (pid : Pid) (a : HostAction) : Prop :=
  ∃ startCommand replicas apiKey, a = .deploy pid startCommand replicas apiKey

/-- The states that come after `s₀`.  A later deployment draws another pid. -/
inductive LaterRun [Sha256] (pid : Pid) (s₀ : HostStore) : HostStore → Prop
  | start : LaterRun pid s₀ s₀
  | step {a : HostAction} {s s' : HostStore} : LaterRun pid s₀ s → ¬a.Deploys pid →
      ServeStep a s s' → LaterRun pid s₀ s'

section Runs

variable [Sha256] {s s' s₀ : HostStore} {p pid : Pid} {nodeId : NodeId} {a : HostAction}

theorem ServeStep.withholds (h : ServeStep a s s') (hnew : ¬a.Deploys p) :
    HostStore.Withholds p s s' := by
  cases h with
  | poll => exact (HostStore.nodesNext_withholds _ _ _).trans (.of_deploy_eq rfl fun _ hn ↦ hn)
  | host h =>
    cases h with
    | compute => exact .of_deploy_eq rfl fun _ hn ↦ hn
    | deploy hunused =>
      apply HostStore.createServeDeployment_withholds
      rintro rfl
      exact hnew ⟨_, _, _, rfl⟩
    | sweep => exact HostStore.reapStaleServeNodes_withholds _ _
    | remove => exact HostStore.removeDeployment_withholds _ _
    | failed => exact HostStore.markFailed_withholds _ _
    | claim => exact HostStore.claimAssignment_withholds _ _
    | receive => exact HostStore.takeAnswer_withholds _ _
    | started => exact .of_deploy_eq rfl fun _ hn ↦ hn
    | givenUp => exact .of_deploy_eq rfl fun _ hn ↦ hn
    | poll => exact (HostStore.nodesNext_withholds _ _ _).trans (.of_deploy_eq rfl fun _ hn ↦ hn)

theorem LaterRun.settled (h : LaterRun p s₀ s) (hs : s₀.Settled p) : s.Settled p := by
  induction h with
  | start => exact hs
  | step _ hnew hstep ih => exact (hstep.withholds hnew).settled ih

/-- A node that claims again and again gets every deployment of its queue. -/
theorem exists_later_claimed {before after : List Pid} (hqueue : s.serveQueue nodeId =
    before ++ pid :: after) (hd : (s.deploy pid).isSome = true) :
    ∃ s', LaterRun pid s s' ∧ s'.claimed nodeId = some pid := by
  induction before generalizing s with
  | nil =>
    refine ⟨s, .start, ?_⟩
    unfold HostStore.claimed
    rw [hqueue]
    simp [hd]
  | cons q before ih =>
    obtain ⟨hdeploy, hrest⟩ := HostStore.claimAssignment_queue s nodeId
    have htail : (s.claimAssignment nodeId).serveQueue nodeId = before ++ pid :: after := by
      rw [hrest, Function.update_self, hqueue]
      rfl
    obtain ⟨s', hlater, hclaimed⟩ := ih htail (by rw [hdeploy]; exact hd)
    refine ⟨s', ?_, hclaimed⟩
    have hfirst : LaterRun pid s (s.claimAssignment nodeId) := by
      refine .step .start ?_ (.host .claim)
      rintro ⟨_, _, _, hclaim⟩
      cases hclaim
    have hchain : ∀ {t}, LaterRun pid (s.claimAssignment nodeId) t → LaterRun pid s t := by
      intro t ht
      induction ht with
      | start => exact hfirst
      | step _ hnew hstep ih => exact .step ih hnew hstep
    exact hchain hlater

/-- After a failure report no claim returns the deployment exactly when it was in no queue, or did
not exist. -/
theorem failed_not_handed_iff (s : HostStore) (pid : Pid) :
    (∀ s', LaterRun pid (s.markFailed pid) s' → ∀ n, s'.claimed n ≠ some pid) ↔
      s.deploy pid = none ∨ ∀ n, pid ∉ s.serveQueue n := by
  constructor
  · intro h
    cases hd : s.deploy pid with
    | none => exact Or.inl rfl
    | some d =>
      right
      intro n hn
      have hmark : s.markFailed pid = s.putDeploy pid { d with status := .failed } := by
        unfold HostStore.markFailed
        rw [hd]
      obtain ⟨before, after, hqueue⟩ := List.append_of_mem hn
      have hafter : (s.markFailed pid).serveQueue n = before ++ pid :: after := by
        rw [hmark]
        exact hqueue
      have hsome : ((s.markFailed pid).deploy pid).isSome = true := by
        rw [hmark, HostStore.putDeploy_deploy, Function.update_self]
        rfl
      obtain ⟨s', hlater, hclaimed⟩ := exists_later_claimed hafter hsome
      exact h s' hlater n hclaimed
  · intro h s' hlater n
    refine (hlater.settled ?_).not_claimed n
    intro d' hd'
    unfold HostStore.markFailed at hd' ⊢
    cases hd : s.deploy pid with
    | none =>
      rw [hd] at hd'
      dsimp only at hd'
      rw [hd] at hd'
      cases hd'
    | some d =>
      rw [hd] at hd'
      dsimp only at hd' ⊢
      rw [HostStore.putDeploy_deploy, Function.update_self] at hd'
      cases hd'
      refine ⟨rfl, ?_⟩
      rcases h with h | h
      · rw [hd] at h
        cases h
      · exact h

end Runs

/-! ## A second node with the failed deployment -/

namespace Sample

/-- The first node has claimed the deployment, and the other has it in its queue. -/
def claimedOnce : HostStore := swept.claimAssignment nodeB

theorem claimedOnce_run : HostRun (fun _ _ ↦ True) (.initial server) claimedOnce := by
  refine .step (.step (.step (.step (.step (.step .start trivial
    (computed_step (a := .tick second) rfl)) trivial oneHost_step) trivial
    (.deploy oneHost_unused)) trivial joined_step) trivial
    (.sweep (List.nodup_singleton web) fun pid ↦ ?_)) trivial .claim
  rfl

end Sample

open Sample in
/-- The first node gives up and reports it, and then the other claims. -/
theorem failed_is_handed_out :
    HostRun (fun _ _ ↦ True) (.initial server) claimedOnce ∧
      (claimedOnce.node nodeB).answers = [web] ∧ claimedOnce.deploymentActive web = true ∧
      (claimedOnce.markFailed web).deploymentActive web = false ∧
      (claimedOnce.markFailed web).claimed nodeA = some web ∧
      ¬∀ s', LaterRun web (claimedOnce.markFailed web) s' → ∀ n, s'.claimed n ≠ some web := by
  have hfacts : (claimedOnce.node nodeB).answers = [web] ∧
      claimedOnce.deploymentActive web = true ∧
      (claimedOnce.markFailed web).deploymentActive web = false ∧
      (claimedOnce.markFailed web).claimed nodeA = some web := by
    decide +kernel
  obtain ⟨hanswers, hactive, hfailed, hclaimed⟩ := hfacts
  exact ⟨claimedOnce_run, hanswers, hactive, hfailed, hclaimed, fun h ↦ h _ .start nodeA hclaimed⟩

end TandemAio
