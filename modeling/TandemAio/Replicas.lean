import Mathlib.Data.Set.Card
import TandemAio.Hosting

/-!
# How many nodes host a deployment

The nodes that hold a deployment, against its replicas, over every run.
-/

open Reasoning Reasoning.Prog

namespace TandemAio

namespace HostStore

variable {s s' s'' : HostStore} {p q pid : Pid} {n nodeId : NodeId}

/-- A node that has the deployment in its queue, is starting it, or is recorded as serving it. -/
def Holds (s : HostStore) (pid : Pid) (n : NodeId) : Prop :=
  pid ∈ s.serveQueue n ∨ pid ∈ (s.node n).starting ∨ n ∈ s.currentServingNodeIds pid

/-- The healthy nodes that have reported within the stale window. -/
def reported (s : HostStore) (pid : Pid) : List NodeId :=
  ((s.servingNodes pid).keep fun e ↦
    s.store.clock - serveNodeStaleSeconds < e.2 && s.nodeHealthyNow e.1).members

/-- The nodes that a refill would choose from. -/
def candidates (s : HostStore) : List NodeId := s.store.healthyNodeIds none none

/-- Every node that was given the deployment and has not reported is a candidate, and so few
candidates come before it that a refill chooses it again. -/
def Refillable (s : HostStore) (pid : Pid) : Prop :=
  ∀ d, s.deploy pid = some d → d.status = .running → ∀ n, s.Occupies pid n → n ∉ s.reported pid →
    n ∈ s.candidates ∧
      (s.reported pid).length + rank s.candidates (s.reported pid) n < d.replicas

/-! ## What `assign_nodes` does -/

/-- `ns` are the nodes whose queues got the pid. -/
structure Pushed (pid : Pid) (ns : List NodeId) (s s' : HostStore) : Prop where
  store : s'.store = s.store
  deploy : s'.deploy = s.deploy
  serving : s'.servingNodes = s.servingNodes
  node : s'.node = s.node
  queue : ∀ n q, q ∈ s'.serveQueue n ↔ q ∈ s.serveQueue n ∨ q = pid ∧ n ∈ ns

theorem Pushed.nil (pid : Pid) (s : HostStore) : Pushed pid [] s s :=
  ⟨rfl, rfl, rfl, rfl, fun n q ↦ by simp⟩

theorem mem_pushServe {m : NodeId} : q ∈ (s.pushServe m pid).serveQueue n ↔
    q ∈ s.serveQueue n ∨ q = pid ∧ n = m := by
  rw [pushServe_serveQueue]
  by_cases hn : n = m
  · rw [hn, Function.update_self, List.mem_append, List.mem_singleton]
    simp
  · rw [Function.update_of_ne hn]
    simp [hn]

theorem assignLoop_pushed (pid : Pid) (replicas : Nat) (l already : List NodeId) (s : HostStore) :
    Pushed pid (fill replicas l already) s (assignLoop pid replicas l already s) := by
  induction l generalizing already s with
  | nil => exact .nil pid s
  | cons m rest ih =>
    unfold assignLoop fill
    split
    · exact .nil pid s
    · split
      · exact ih already s
      · have h := ih (m :: already) (s.pushServe m pid)
        refine ⟨h.store, h.deploy, h.serving, h.node, fun n q ↦ ?_⟩
        rw [h.queue, mem_pushServe, List.mem_cons]
        tauto

/-- The nodes that `assign_nodes` chooses. -/
def assigned (s : HostStore) (pid : Pid) : List NodeId :=
  match s.deploy pid with
  | none => []
  | some d =>
    if d.status = .running then fill d.replicas s.candidates (s.currentServingNodeIds pid) else []

theorem assignNodes_pushed (s : HostStore) (pid : Pid) :
    Pushed pid (s.assigned pid) s (s.assignNodes pid) := by
  unfold assignNodes assigned
  cases hd : s.deploy pid with
  | none => exact .nil pid s
  | some d =>
    dsimp only
    by_cases hrunning : d.status = .running
    · rw [if_neg (not_not.mpr hrunning), if_pos hrunning]
      exact assignLoop_pushed _ _ _ _ _
    · rw [if_pos hrunning, if_neg hrunning]
      exact .nil pid s

theorem assigned_eq {d : ServeDeployment} (hd : s.deploy pid = some d)
    (hrunning : d.status = .running) :
    s.assigned pid = fill d.replicas s.candidates (s.currentServingNodeIds pid) := by
  unfold assigned
  rw [hd]
  exact if_pos hrunning

/-- What a sweep does to one deployment. -/
theorem reapDeployment_pushed (s : HostStore) (pid : Pid) :
    ∃ nodes : Scored NodeId Time, nodes.members = s.reported pid ∧
      Pushed pid ((s.setServing pid nodes).assigned pid) (s.setServing pid nodes)
        (s.reapDeployment pid) := by
  refine ⟨_, ?_, assignNodes_pushed _ pid⟩
  rw [Scored.keep_keep]
  rfl

/-! ## Other deployments -/

/-- Nothing that concerns the deployment has changed. -/
structure SameFor (p : Pid) (s s' : HostStore) : Prop where
  store : s'.store = s.store
  deploy : s'.deploy p = s.deploy p
  serving : s'.servingNodes p = s.servingNodes p
  node : s'.node = s.node
  queue : ∀ n, p ∈ s'.serveQueue n ↔ p ∈ s.serveQueue n

theorem SameFor.refl (p : Pid) (s : HostStore) : SameFor p s s :=
  ⟨rfl, rfl, rfl, rfl, fun _ ↦ Iff.rfl⟩

theorem SameFor.trans (h : SameFor p s s') (h' : SameFor p s' s'') : SameFor p s s'' :=
  ⟨h'.store.trans h.store, h'.deploy.trans h.deploy, h'.serving.trans h.serving,
    h'.node.trans h.node, fun n ↦ (h'.queue n).trans (h.queue n)⟩

theorem Pushed.sameFor {ns : List NodeId} (h : Pushed q ns s s') (hne : p ≠ q) :
    SameFor p s s' :=
  ⟨h.store, by rw [h.deploy], by rw [h.serving], h.node, fun n ↦ by
    rw [h.queue]
    simp [hne]⟩

theorem setServing_sameFor {nodes : Scored NodeId Time} (hne : p ≠ q) :
    SameFor p s (s.setServing q nodes) :=
  ⟨rfl, rfl, Function.update_of_ne hne _ _, rfl, fun _ ↦ Iff.rfl⟩

theorem reapDeployment_sameFor (hne : p ≠ q) : SameFor p s (s.reapDeployment q) := by
  obtain ⟨nodes, -, hpushed⟩ := reapDeployment_pushed s q
  exact (setServing_sameFor hne).trans (hpushed.sameFor hne)

theorem foldl_reapDeployment_sameFor {members : List Pid} (h : p ∉ members) :
    SameFor p s (members.foldl reapDeployment s) := by
  induction members generalizing s with
  | nil => exact .refl p s
  | cons q members ih =>
    rw [List.mem_cons, not_or] at h
    exact (reapDeployment_sameFor h.1).trans (ih h.2)

theorem SameFor.occupies (h : SameFor p s s') : s'.Occupies p n ↔ s.Occupies p n := by
  unfold Occupies
  rw [h.queue, h.node]

theorem SameFor.reported (h : SameFor p s s') : s'.reported p = s.reported p := by
  unfold HostStore.reported nodeHealthyNow
  rw [h.serving, h.store]

theorem SameFor.refillable (h : SameFor p s s') (hs : s.Refillable p) : s'.Refillable p := by
  intro d hd hrunning n hn hnot
  rw [h.occupies] at hn
  rw [h.reported] at hnot ⊢
  rw [h.deploy] at hd
  unfold candidates
  rw [h.store]
  exact hs d hd hrunning n hn hnot

/-! ## The invariant -/

/-- A node that was given the deployment, or is recorded as serving it. -/
def Has (s : HostStore) (pid : Pid) (n : NodeId) : Prop :=
  s.Occupies pid n ∨ n ∈ s.currentServingNodeIds pid

/-- No more nodes than replicas have the deployment. -/
def Bounded (s : HostStore) (pid : Pid) : Prop :=
  ∀ d, s.deploy pid = some d →
    ∃ nodes : List NodeId, nodes.length ≤ d.replicas ∧ ∀ n, s.Has pid n → n ∈ nodes

/-- No node gets the deployment, and its replicas stay. -/
structure Shrinks (p : Pid) (s s' : HostStore) : Prop where
  deploy : ∀ d', s'.deploy p = some d' → ∃ d, s.deploy p = some d ∧ d.replicas = d'.replicas
  has : ∀ n, s'.Has p n → s.Has p n

theorem Shrinks.bounded (h : Shrinks p s s') (hs : s.Bounded p) : s'.Bounded p := by
  intro d' hd'
  obtain ⟨d, hd, hreplicas⟩ := h.deploy d' hd'
  obtain ⟨nodes, hlen, hall⟩ := hs d hd
  exact ⟨nodes, hreplicas ▸ hlen, fun n hn ↦ hall n (h.has n hn)⟩

theorem Shrinks.of_deploy_eq (hdeploy : s'.deploy p = s.deploy p)
    (has : ∀ n, s'.Has p n → s.Has p n) : Shrinks p s s' :=
  ⟨fun d' hd' ↦ ⟨d', hdeploy ▸ hd', rfl⟩, has⟩

theorem SameFor.shrinks (h : SameFor p s s') : Shrinks p s s' := by
  apply Shrinks.of_deploy_eq h.deploy
  rintro n (hn | hn)
  · exact Or.inl (h.occupies.mp hn)
  · right
    unfold currentServingNodeIds at hn ⊢
    rwa [h.serving] at hn

theorem setServing_current {nodes : Scored NodeId Time} (h : nodes.members = s.reported p) :
    (s.setServing p nodes).currentServingNodeIds p = s.reported p := by
  unfold currentServingNodeIds
  rw [setServing_servingNodes, Function.update_self, h]

theorem setServing_assigned {d : ServeDeployment} {nodes : Scored NodeId Time}
    (h : nodes.members = s.reported p) (hd : s.deploy p = some d) (hrunning : d.status = .running) :
    (s.setServing p nodes).assigned p = fill d.replicas s.candidates (s.reported p) := by
  rw [assigned_eq (s := s.setServing p nodes) hd hrunning, setServing_current h]
  rfl

/-- A refill that chooses every node which has the deployment keeps the bound. -/
theorem reapDeployment_bounded (hs : s.Bounded p) (hrefill : s.Refillable p) :
    (s.reapDeployment p).Bounded p := by
  obtain ⟨nodes, hmembers, hpushed⟩ := reapDeployment_pushed s p
  have hserving : (s.reapDeployment p).currentServingNodeIds p = s.reported p := by
    unfold currentServingNodeIds
    rw [hpushed.serving, setServing_servingNodes, Function.update_self, hmembers]
  have hoccupies : ∀ n, (s.reapDeployment p).Occupies p n →
      s.Occupies p n ∨ n ∈ (s.setServing p nodes).assigned p := by
    intro n hn
    unfold Occupies at hn ⊢
    rw [hpushed.queue, hpushed.node] at hn
    simp only [setServing_serveQueue, setServing_node, true_and] at hn
    tauto
  intro d hd
  rw [hpushed.deploy] at hd
  change s.deploy p = some d at hd
  obtain ⟨before, hlen, hall⟩ := hs d hd
  have hreported : (s.reported p).length ≤ d.replicas := by
    have hsubset : s.reported p ⊆ before := by
      intro n hn
      apply hall n
      right
      unfold HostStore.reported at hn
      obtain ⟨x, hx, -⟩ := Scored.mem_members_keep.mp hn
      exact Scored.mem_members.mpr ⟨x, hx⟩
    have hnodup : (s.reported p).Nodup := Scored.members_nodup _
    exact (hnodup.subperm hsubset).length_le.trans hlen
  by_cases hrunning : d.status = .running
  · have hassigned := setServing_assigned hmembers hd hrunning
    refine ⟨s.reported p ++ fill d.replicas s.candidates (s.reported p), ?_, ?_⟩
    · rw [List.length_append]
      exact length_fill hreported
    · rintro n (hn | hn)
      · rw [List.mem_append]
        by_cases hmem : n ∈ s.reported p
        · exact Or.inl hmem
        · right
          rcases hoccupies n hn with hn | hn
          · -- it is chosen again
            obtain ⟨hcandidate, hrank⟩ := hrefill d hd hrunning n hn hmem
            have hsorted : s.candidates.Pairwise (· ≤ ·) :=
              (List.pairwise_insertionSort _ _).filter _
            exact (mem_fill_iff hsorted hcandidate hmem).mpr hrank
          · exact hassigned ▸ hn
      · rw [hserving] at hn
        exact List.mem_append_left _ hn
  · have hassigned : (s.setServing p nodes).assigned p = [] := by
      have hd' : (s.setServing p nodes).deploy p = some d := hd
      unfold assigned
      rw [hd']
      exact if_neg hrunning
    refine ⟨before, hlen, ?_⟩
    rintro n (hn | hn)
    · rcases hoccupies n hn with hn | hn
      · exact hall n (Or.inl hn)
      · rw [hassigned] at hn
        exact absurd hn List.not_mem_nil
    · apply hall n
      right
      rw [hserving] at hn
      unfold HostStore.reported at hn
      obtain ⟨x, hx, -⟩ := Scored.mem_members_keep.mp hn
      exact Scored.mem_members.mpr ⟨x, hx⟩

/-- A refill that leaves out a candidate which has the deployment exceeds the replicas. -/
theorem reapDeployment_exceeds {d : ServeDeployment} (hd : s.deploy p = some d)
    (hrunning : d.status = .running) (hn : s.Occupies p n) (hnot : n ∉ s.reported p)
    (hcandidate : n ∈ s.candidates)
    (hrank : d.replicas ≤ (s.reported p).length + rank s.candidates (s.reported p) n) :
    ∃ nodes : List NodeId, nodes.Nodup ∧ d.replicas < nodes.length ∧
      ∀ m ∈ nodes, (s.reapDeployment p).Has p m := by
  obtain ⟨nodes, hmembers, hpushed⟩ := reapDeployment_pushed s p
  have hassigned := setServing_assigned hmembers hd hrunning
  have hsorted : s.candidates.Pairwise (· ≤ ·) := (List.pairwise_insertionSort _ _).filter _
  have hout : n ∉ fill d.replicas s.candidates (s.reported p) := by
    rw [mem_fill_iff hsorted hcandidate hnot]
    exact not_lt.mpr hrank
  have hfull := fill_full hcandidate hnot hout
  refine ⟨n :: (s.reported p ++ fill d.replicas s.candidates (s.reported p)), ?_, ?_, ?_⟩
  · have hreported : (s.reported p).Nodup := Scored.members_nodup _
    rw [List.nodup_cons, List.mem_append, not_or, List.nodup_append]
    refine ⟨⟨hnot, hout⟩, hreported, fill_nodup, fun a ha b hb ↦ ?_⟩
    rintro rfl
    exact fill_not_mem hb ha
  · rw [List.length_cons, List.length_append]
    omega
  · intro m hm
    rcases List.mem_cons.mp hm with rfl | hm
    · left
      unfold Occupies at hn ⊢
      rw [hpushed.queue, hpushed.node]
      simp only [setServing_serveQueue, setServing_node]
      tauto
    · rcases List.mem_append.mp hm with hm | hm
      · right
        unfold currentServingNodeIds
        rw [hpushed.serving, setServing_servingNodes, Function.update_self, hmembers]
        exact hm
      · left
        unfold Occupies
        rw [hpushed.queue, hassigned]
        exact Or.inl (Or.inr ⟨rfl, hm⟩)

theorem reapStaleServeNodes_bounded {members : List Pid} (hnodup : members.Nodup)
    (hs : s.Bounded p) (hrefill : s.Refillable p) : (s.reapStaleServeNodes members).Bounded p := by
  unfold reapStaleServeNodes
  by_cases hmem : p ∈ members
  · obtain ⟨before, after, rfl⟩ := List.append_of_mem hmem
    rw [List.nodup_append] at hnodup
    have hbefore : p ∉ before := fun h ↦ hnodup.2.2 p h p List.mem_cons_self rfl
    have hafter : p ∉ after := (List.nodup_cons.mp hnodup.2.1).1
    have hfirst := foldl_reapDeployment_sameFor (s := s) hbefore
    rw [List.foldl_append, List.foldl_cons]
    apply (foldl_reapDeployment_sameFor hafter).shrinks.bounded
    exact reapDeployment_bounded (hfirst.shrinks.bounded hs) (hfirst.refillable hrefill)
  · exact (foldl_reapDeployment_sameFor hmem).shrinks.bounded hs

/-! ## The other steps -/

theorem putDeploy_sameFor {d : ServeDeployment} (hne : p ≠ q) : SameFor p s (s.putDeploy q d) :=
  ⟨rfl, Function.update_of_ne hne _ _, rfl, rfl, fun _ ↦ Iff.rfl⟩

theorem addDeployment_sameFor : SameFor p s (s.addDeployment q) :=
  ⟨rfl, rfl, rfl, rfl, fun _ ↦ Iff.rfl⟩

/-- A new deployment is assigned to as many nodes as it has replicas. -/
theorem createServeDeployment_bounded {startCommand : List String} {replicas : Int}
    {apiKey : ApiKey} (hunused : s.Unused q) (hs : s.Bounded p) :
    (s.createServeDeployment q startCommand replicas apiKey).Bounded p := by
  unfold createServeDeployment
  dsimp only
  generalize hd : (⟨startCommand, (max 1 replicas).toNat, apiKey, .running, s.store.clock⟩ :
    ServeDeployment) = d
  have hrunning : d.status = .running := by rw [← hd]
  have hpushed := assignNodes_pushed ((s.putDeploy q d).addDeployment q) q
  by_cases hne : p = q
  · subst hne
    obtain ⟨-, hserving, hnone⟩ := hunused
    have hput : ((s.putDeploy p d).addDeployment p).deploy p = some d := Function.update_self ..
    have hassigned := assigned_eq hput hrunning
    have hcurrent : ((s.putDeploy p d).addDeployment p).currentServingNodeIds p = [] := hserving
    rw [hcurrent] at hassigned
    intro d' hd'
    rw [hpushed.deploy, hput] at hd'
    cases hd'
    refine ⟨((s.putDeploy p d).addDeployment p).assigned p, ?_, ?_⟩
    · have hroom : ([] : List NodeId).length ≤ d.replicas := Nat.zero_le _
      rw [hassigned]
      simpa using length_fill hroom
    · rintro n (hn | hn)
      · unfold Occupies at hn
        rw [hpushed.queue, hpushed.node] at hn
        simp only [addDeployment_serveQueue, putDeploy_serveQueue, addDeployment_node,
          putDeploy_node, true_and] at hn
        have hno := hnone n
        unfold Occupies at hno
        tauto
      · unfold currentServingNodeIds at hn hserving
        rw [hpushed.serving] at hn
        change n ∈ (s.servingNodes p).members at hn
        rw [hserving] at hn
        exact absurd hn List.not_mem_nil
  · have hsame : SameFor p s ((s.putDeploy q d).addDeployment q) :=
      (putDeploy_sameFor hne).trans addDeployment_sameFor
    exact (hsame.trans (hpushed.sameFor hne)).shrinks.bounded hs

theorem removeDeployment_shrinks : Shrinks p s (s.removeDeployment q) := by
  constructor
  · intro d' hd'
    change Function.update s.deploy q none p = some d' at hd'
    by_cases hne : p = q
    · rw [hne, Function.update_self] at hd'
      cases hd'
    · rw [Function.update_of_ne hne] at hd'
      exact ⟨d', hd', rfl⟩
  · rintro n (hn | hn)
    · exact Or.inl hn
    · right
      unfold removeDeployment currentServingNodeIds at hn
      rw [setServing_servingNodes] at hn
      by_cases hne : p = q
      · rw [hne, Function.update_self] at hn
        exact absurd hn List.not_mem_nil
      · rw [Function.update_of_ne hne] at hn
        exact hn

theorem markFailed_shrinks : Shrinks p s (s.markFailed q) := by
  unfold markFailed
  cases hd : s.deploy q with
  | none => exact (SameFor.refl p s).shrinks
  | some d =>
    refine ⟨fun d' hd' ↦ ?_, fun n hn ↦ hn⟩
    change Function.update s.deploy q _ p = some d' at hd'
    by_cases hne : p = q
    · subst hne
      rw [Function.update_self] at hd'
      cases hd'
      exact ⟨d, hd, rfl⟩
    · rw [Function.update_of_ne hne] at hd'
      exact ⟨d', hd', rfl⟩

/-- A change of one node that gives it no deployment which it did not have. -/
theorem modifyNode_shrinks {f : ServeNode → ServeNode}
    (hf : p ∈ (f (s.node nodeId)).answers ∨ p ∈ (f (s.node nodeId)).starting ∨
      p ∈ (f (s.node nodeId)).apps → s.Occupies p nodeId) :
    Shrinks p s (s.modifyNode nodeId f) := by
  refine Shrinks.of_deploy_eq rfl ?_
  rintro n (hn | hn)
  · left
    unfold Occupies at hn
    rw [modifyNode_node, modifyNode_serveQueue] at hn
    by_cases hnode : n = nodeId
    · rw [hnode, Function.update_self] at hn
      rw [hnode]
      rcases hn with hn | hn
      · exact Or.inl (hnode ▸ hn)
      · exact hf hn
    · rw [Function.update_of_ne hnode] at hn
      exact hn
  · exact Or.inr hn

theorem popServe_shrinks : Shrinks p s (s.popServe nodeId) := by
  refine Shrinks.of_deploy_eq rfl ?_
  rintro n (hn | hn)
  · left
    unfold Occupies at hn ⊢
    rw [popServe_serveQueue] at hn
    by_cases hnode : n = nodeId
    · rw [hnode, Function.update_self] at hn
      rw [hnode]
      rcases hn with hn | hn
      · exact Or.inl (List.mem_of_mem_tail hn)
      · exact Or.inr hn
    · rw [Function.update_of_ne hnode] at hn
      exact hn
  · exact Or.inr hn

/-- An assignment moves from the queue of the node to its answer. -/
theorem claimAssignment_shrinks : Shrinks p s (s.claimAssignment nodeId) := by
  unfold claimAssignment
  cases hhead : (s.serveQueue nodeId).head? with
  | none => exact (SameFor.refl p s).shrinks
  | some q =>
    dsimp only
    cases hd : s.deploy q with
    | none => exact popServe_shrinks
    | some d =>
      refine Shrinks.of_deploy_eq rfl ?_
      rintro n (hn | hn)
      · left
        unfold Occupies at hn ⊢
        rw [modifyNode_node, modifyNode_serveQueue, popServe_serveQueue] at hn
        by_cases hnode : n = nodeId
        · subst hnode
          rw [Function.update_self, Function.update_self] at hn
          simp only [List.mem_append, List.mem_singleton, popServe_node] at hn
          rcases hn with hn | (hn | rfl) | hn
          · exact Or.inl (List.mem_of_mem_tail hn)
          · exact Or.inr (Or.inl hn)
          · exact Or.inl (List.mem_of_head? hhead)
          · exact Or.inr (Or.inr hn)
        · rw [Function.update_of_ne hnode, Function.update_of_ne hnode] at hn
          exact hn
      · exact Or.inr hn

theorem takeAnswer_shrinks : Shrinks p s (s.takeAnswer nodeId) := by
  unfold takeAnswer
  cases hanswers : (s.node nodeId).answers with
  | nil => exact (SameFor.refl p s).shrinks
  | cons q rest =>
    apply modifyNode_shrinks
    unfold Occupies
    rw [hanswers]
    intro h
    rcases h with h | h | h
    · exact Or.inr (Or.inl (List.mem_cons_of_mem q h))
    · dsimp only at h
      split at h
      · rcases List.mem_append.mp h with h | h
        · exact Or.inr (Or.inr (Or.inl h))
        · rw [List.mem_singleton.mp h]
          exact Or.inr (Or.inl List.mem_cons_self)
      · exact Or.inr (Or.inr (Or.inl h))
    · exact Or.inr (Or.inr (Or.inr h))

theorem appStarted_shrinks (hstart : q ∈ (s.node nodeId).starting) :
    Shrinks p s (s.appStarted nodeId q) := by
  apply modifyNode_shrinks
  unfold Occupies
  intro h
  rcases h with h | h | h
  · exact Or.inr (Or.inl h)
  · exact Or.inr (Or.inr (Or.inl (List.mem_of_mem_filter h)))
  · rcases List.mem_append.mp h with h | h
    · exact Or.inr (Or.inr (Or.inr h))
    · rw [List.mem_singleton.mp h]
      exact Or.inr (Or.inr (Or.inl hstart))

theorem appGivenUp_shrinks : Shrinks p s (s.appGivenUp nodeId q) := by
  apply modifyNode_shrinks
  unfold Occupies
  intro h
  rcases h with h | h | h
  · exact Or.inr (Or.inl h)
  · exact Or.inr (Or.inr (Or.inl (List.mem_of_mem_filter h)))
  · exact Or.inr (Or.inr (Or.inr h))

theorem appsStopped_shrinks {stop : List Pid} : Shrinks p s (s.appsStopped nodeId stop) := by
  apply modifyNode_shrinks
  unfold Occupies
  intro h
  rcases h with h | h | h
  · exact Or.inr (Or.inl h)
  · exact Or.inr (Or.inr (Or.inl h))
  · exact Or.inr (Or.inr (Or.inr (List.mem_of_mem_filter h)))

/-- A node that reports an app which it runs has the deployment already. -/
theorem markServing_shrinks (hrun : q ∈ (s.node nodeId).apps) :
    Shrinks p s (s.markServing q nodeId) := by
  refine Shrinks.of_deploy_eq rfl ?_
  rintro n (hn | hn)
  · exact Or.inl hn
  · unfold markServing currentServingNodeIds at hn
    rw [setServing_servingNodes] at hn
    by_cases hne : p = q
    · subst hne
      rw [Function.update_self, Scored.mem_members_add] at hn
      rcases hn with rfl | hn
      · exact Or.inl (Or.inr (Or.inr (Or.inr hrun)))
      · exact Or.inr hn
    · rw [Function.update_of_ne hne] at hn
      exact Or.inr hn

theorem Shrinks.trans (h : Shrinks p s s') (h' : Shrinks p s' s'') : Shrinks p s s'' := by
  refine ⟨fun d' hd' ↦ ?_, fun n hn ↦ h.has n (h'.has n hn)⟩
  obtain ⟨d₁, hd₁, heq₁⟩ := h'.deploy d' hd'
  obtain ⟨d, hd, heq⟩ := h.deploy d₁ hd₁
  exact ⟨d, hd, heq.trans heq₁⟩

theorem nodesNext_shrinks {pids : List Pid} (hrun : pids ⊆ (s.node nodeId).apps) :
    Shrinks p s (s.nodesNext nodeId pids).1 := by
  induction pids generalizing s with
  | nil => exact (SameFor.refl p s).shrinks
  | cons q pids ih =>
    obtain ⟨hq, hrest⟩ := List.cons_subset.mp hrun
    unfold nodesNext
    split
    · exact (markServing_shrinks hq).trans (ih hrest)
    · exact ih hrest

/-- A step keeps the bound; a sweep does when it refills the nodes that have the deployment. -/
theorem bounded_step [Sha256] {a : HostAction} (h : HostStep a s s') (hs : s.Bounded p)
    (hrefill : ∀ members, a = .sweep members → s.Refillable p) : s'.Bounded p := by
  cases h with
  | compute => exact Shrinks.bounded ⟨fun d hd ↦ ⟨d, hd, rfl⟩, fun n hn ↦ hn⟩ hs
  | deploy hunused => exact createServeDeployment_bounded hunused hs
  | sweep hnodup hmembers => exact reapStaleServeNodes_bounded hnodup hs (hrefill _ rfl)
  | remove => exact removeDeployment_shrinks.bounded hs
  | failed => exact markFailed_shrinks.bounded hs
  | claim => exact claimAssignment_shrinks.bounded hs
  | receive => exact takeAnswer_shrinks.bounded hs
  | started hstart => exact (appStarted_shrinks hstart).bounded hs
  | givenUp => exact appGivenUp_shrinks.bounded hs
  | poll hrun => exact ((nodesNext_shrinks hrun).trans appsStopped_shrinks).bounded hs

end HostStore

/-! ## Every run -/

/-- A sweep chooses again the nodes that have the deployment and have not reported. -/
def RefillsHolders (pid : Pid) (a : HostAction) (s : HostStore) : Prop :=
  ∀ members, a = .sweep members → s.Refillable pid

theorem HostRun.bounded [Sha256] {pid : Pid} {store : Store} {s : HostStore}
    (h : HostRun (RefillsHolders pid) (.initial store) s) : s.Bounded pid := by
  induction h with
  | start => exact fun d hd ↦ by cases hd
  | step _ hok hstep ih => exact HostStore.bounded_step hstep ih hok

/-- In a run whose sweeps choose the holders again, a deployment is never held by more nodes than
it has replicas. -/
theorem replicas_bound [Sha256] {pid : Pid} {store : Store} {s : HostStore} {d : ServeDeployment}
    (h : HostRun (RefillsHolders pid) (.initial store) s) (hd : s.deploy pid = some d) :
    {n | s.Holds pid n}.encard ≤ d.replicas := by
  obtain ⟨nodes, hlen, hall⟩ := h.bounded d hd
  have hsubset : {n | s.Holds pid n} ⊆ ↑nodes.toFinset := by
    rintro n (hn | hn | hn)
    · exact List.mem_toFinset.mpr (hall n (Or.inl (Or.inl hn)))
    · exact List.mem_toFinset.mpr (hall n (Or.inl (Or.inr (Or.inr (Or.inl hn)))))
    · exact List.mem_toFinset.mpr (hall n (Or.inr hn))
  calc {n | s.Holds pid n}.encard
      ≤ (↑nodes.toFinset : Set NodeId).encard := Set.encard_le_encard hsubset
    _ = nodes.toFinset.card := Set.encard_coe_eq_coe_finsetCard _
    _ ≤ d.replicas := by exact_mod_cast (List.toFinset_card_le nodes).trans hlen

/-! ## A refill while a node starts the app -/

/-- Every node that holds the deployment is healthy. -/
def HoldersHealthy (pid : Pid) (s : HostStore) : Prop :=
  ∀ n, s.Holds pid n → s.nodeHealthyNow n

namespace Sample

/-- The state after an action on the side of the task queue. -/
def computed (s : HostStore) (a : Action) : HostStore :=
  { s with store := ((exec 50 (handle a) s.store).map (·.2)).getD s.store }

theorem computed_step {s : HostStore} {a : Action}
    (h : (exec 50 (handle a) s.store).isSome = true) :
    HostStep (.compute a) s (computed s a) := by
  obtain ⟨r, hr⟩ := Option.isSome_iff_exists.mp h
  unfold computed
  rw [hr]
  exact .compute (runs_of_exec hr)

def web : Pid := name "serve_1"

/-- A server with one node. -/
def oneHost : HostStore :=
  computed (computed (.initial server) (.tick second)) (join nodeB keyB none)

/-- The deployment is in the queue of that node. -/
def deployed : HostStore := oneHost.createServeDeployment web ["run"] 1 (name "key-1")

/-- A second node, whose id comes before the first. -/
def joined : HostStore := computed deployed (join nodeA keyA none)

def swept : HostStore := joined.reapStaleServeNodes [web]

theorem oneHost_step :
    HostStep (.compute (join nodeB keyB none)) (computed (.initial server) (.tick second)) oneHost :=
  computed_step (by decide +kernel)

theorem joined_step : HostStep (.compute (join nodeA keyA none)) deployed joined :=
  computed_step (by decide +kernel)

theorem oneHost_unused : oneHost.Unused web :=
  ⟨rfl, rfl, fun n hn ↦ by rcases hn with hn | hn | hn | hn <;> cases hn⟩

theorem deployed_queue {n : NodeId} (h : web ∈ deployed.serveQueue n) : n = nodeB := by
  have hassigned : ((oneHost.putDeploy web
      ⟨["run"], 1, name "key-1", .running, oneHost.store.clock⟩).addDeployment web).assigned web =
      [nodeB] := by
    decide +kernel
  have hpushed := HostStore.assignNodes_pushed ((oneHost.putDeploy web
    ⟨["run"], 1, name "key-1", .running, oneHost.store.clock⟩).addDeployment web) web
  rw [hassigned] at hpushed
  have hmem := (hpushed.queue n web).mp h
  rcases hmem with hmem | ⟨-, hmem⟩
  · cases hmem
  · exact List.mem_singleton.mp hmem

theorem deployed_occupies {n : NodeId} (h : deployed.Occupies web n) : n = nodeB := by
  have hnode : deployed.node n = ⟨[], [], [], []⟩ := rfl
  unfold HostStore.Occupies at h
  rw [hnode] at h
  rcases h with h | h | h | h
  · exact deployed_queue h
  · cases h
  · cases h
  · cases h

theorem swept_queue {n : NodeId} (h : web ∈ swept.serveQueue n) : n = nodeA ∨ n = nodeB := by
  obtain ⟨nodes, hmembers, hpushed⟩ := HostStore.reapDeployment_pushed joined web
  have hassigned : ∀ m ∈ (joined.setServing web nodes).assigned web, m = nodeA ∨ m = nodeB := by
    have hall : ∀ m ∈ joined.candidates, m = nodeA ∨ m = nodeB := by decide +kernel
    intro m hm
    unfold HostStore.assigned at hm
    split at hm
    · cases hm
    · split at hm
      · exact hall m (fill_subset hm)
      · cases hm
  have hmem := (hpushed.queue n web).mp h
  rcases hmem with hmem | ⟨-, hmem⟩
  · exact Or.inr (deployed_queue hmem)
  · exact hassigned n hmem

end Sample

open Sample in
/-- The sweep chooses the new node, since the first has not reported that it serves. -/
theorem sweep_over_assigns :
    ¬∀ s d, HostRun (fun _ s ↦ HoldersHealthy web s) (.initial server) s → HoldersHealthy web s →
      s.deploy web = some d → {n | s.Holds web n}.encard ≤ d.replicas := by
  intro h
  have hempty : ∀ s : HostStore, s.serveQueue = (fun _ ↦ []) → s.node = (fun _ ↦ ⟨[], [], [], []⟩) →
      s.servingNodes = (fun _ ↦ .empty) → HoldersHealthy web s := by
    intro s hqueue hnode hserving n hn
    unfold HostStore.Holds HostStore.currentServingNodeIds at hn
    rw [hqueue, hnode, hserving] at hn
    rcases hn with hn | hn | hn <;> cases hn
  have hqueued : ∀ s : HostStore, s.node = (fun _ ↦ ⟨[], [], [], []⟩) →
      (s.servingNodes web).members = [] →
      (∀ n, web ∈ s.serveQueue n → s.nodeHealthyNow n) → HoldersHealthy web s := by
    intro s hnode hserving hall n hn
    unfold HostStore.Holds HostStore.currentServingNodeIds at hn
    rw [hnode, hserving] at hn
    rcases hn with hn | hn | hn
    · exact hall n hn
    · cases hn
    · cases hn
  have hdeployed : HoldersHealthy web deployed := by
    apply hqueued deployed rfl rfl
    intro n hn
    rw [deployed_queue hn]
    decide +kernel
  have hjoined : HoldersHealthy web joined := by
    apply hqueued joined rfl rfl
    intro n hn
    rw [deployed_queue hn]
    decide +kernel
  have hswept : HoldersHealthy web swept := by
    apply hqueued swept rfl rfl
    intro n hn
    rcases swept_queue hn with rfl | rfl
    · decide +kernel
    · decide +kernel
  have hrun : HostRun (fun _ s ↦ HoldersHealthy web s) (.initial server) swept := by
    refine .step (.step (.step (.step (.step .start (hempty _ rfl rfl rfl)
      (computed_step (a := .tick second) rfl)) (hempty _ rfl rfl rfl) oneHost_step)
      (hempty _ rfl rfl rfl) (.deploy oneHost_unused)) hdeployed joined_step) hjoined
      (.sweep (List.nodup_singleton web) fun pid ↦ ?_)
    rfl
  obtain ⟨d, hd⟩ : ∃ d, swept.deploy web = some d := ⟨_, rfl⟩
  have hreplicas : (swept.deploy web).map (·.replicas) = some 1 := by decide +kernel
  rw [hd, Option.map_some] at hreplicas
  have hreplica : d.replicas = 1 := Option.some.inj hreplicas
  have hle := h swept d hrun hswept hd
  rw [hreplica] at hle
  have hone := Set.encard_le_one_iff.mp hle
  have hA : swept.Holds web nodeA := Or.inl (by decide +kernel)
  have hB : swept.Holds web nodeB := Or.inl (by decide +kernel)
  exact absurd (hone nodeA nodeB hA hB) (by decide)

open Sample in
/-- A sweep that finds the only node chooses it again. -/
theorem replicas_bound_one_host :
    {n | (deployed.reapStaleServeNodes [web]).Holds web n}.encard ≤ 1 := by
  have hrefill : deployed.Refillable web := by
    intro d hd _ n hn _
    rw [deployed_occupies hn]
    cases hd
    decide +kernel
  have hrun : HostRun (RefillsHolders web) (.initial server)
      (deployed.reapStaleServeNodes [web]) := by
    refine .step (.step (.step (.step .start ?_ (computed_step (a := .tick second) rfl)) ?_
      oneHost_step) ?_ (.deploy oneHost_unused))
      (fun _ _ ↦ hrefill) (.sweep (List.nodup_singleton web) fun pid ↦ ?_)
    · exact fun members h ↦ by cases h
    · exact fun members h ↦ by cases h
    · exact fun members h ↦ by cases h
    · rfl
  exact replicas_bound hrun rfl

end TandemAio
