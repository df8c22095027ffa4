import TandemAio.Nodes

/-!
# Runs of atomic requests

What can happen to the server between two of its states, and the runs these steps make up: every
request runs alone from start to end, in any order and with any passage of time between requests.
-/

open Reasoning Reasoning.Prog

namespace TandemAio

/-- A request, a step of the server's own, or a step of its environment. -/
inductive Action
  | register (a : Register)
  | createJob (a : CreateJob)
  | createTask (a : CreateTask)
  | claim (auth : NodeAuth) (claimToken downloadToken : Token)
  | download (auth : NodeAuth) (tid : Tid) (downloadToken : Option Token)
  | result (auth : NodeAuth) (tid : Tid) (claimToken : Option Token) (body : ResultBody)
  | health (auth : NodeAuth)
  | availableNodes (requiredRuntime : Option Runtime)
  | sweep
  | refreshJob (jobId : JobId)
  /-- Time passes, or the clock is set. -/
  | tick (now : Time)
  /-- Redis drops a task hash whose time to live has passed. -/
  | expireTask (tid : Tid)

/-- What runs on the server. -/
def handle [Sha256] : Action → Server Response
  | .register a => register a
  | .createJob a => do
    let jobId ← createJob a
    return .jobCreated jobId
  | .createTask a => do
    let tid ← createTask a
    return .taskCreated tid
  | .claim auth claimToken downloadToken => claimTask auth claimToken downloadToken
  | .download auth tid downloadToken => downloadTaskBlob auth tid downloadToken
  | .result auth tid claimToken body => submitTaskResult auth tid claimToken body
  | .health auth => health auth
  | .availableNodes requiredRuntime => do
    let nodeIds ← getAvailableNodes requiredRuntime
    return .nodeIds nodeIds
  | .sweep => do
    sweepStaleWork
    return .silent
  | .refreshJob jobId => do
    let summary ← refreshJobStatus jobId
    return .summary summary
  | .tick now => do
    Server.write (·.setClock now) []
    return .silent
  | .expireTask tid => do
    Server.write (·.dropTask tid) []
    return .silent

/-- The random ids and tokens a step draws. -/
def Action.draws : Action → List Name
  | .register a => [a.nodeId, a.nodeToken]
  | .createJob a => [a.jobId, a.jobToken]
  | .createTask a => [a.tid]
  | .claim _ claimToken downloadToken => [claimToken, downloadToken]
  | _ => []

/-- One step of a run, with the states around it. -/
structure Entry where
  before : Store
  action : Action
  response : Response
  after : Store

/-- Draws are random: no value is drawn twice in a run. -/
def Fresh (tr : List Entry) (a : Action) : Prop :=
  a.draws.Nodup ∧ ∀ x ∈ a.draws, ∀ e ∈ tr, x ∉ e.action.draws

theorem Fresh.of_draws_nil {tr : List Entry} {a : Action} (h : a.draws = []) : Fresh tr a := by
  rw [Fresh, h]
  exact ⟨List.nodup_nil, fun x hx ↦ by cases hx⟩

/-- A run of atomic steps and the state it ends in. -/
inductive Run [Sha256] : List Entry → Store → Prop
  | start (deployment userApi nodeRegistrationToken) :
      Run [] (Store.initial deployment userApi nodeRegistrationToken)
  | step {tr s a r s'} : Run tr s → Fresh tr a → Runs (handle a) s r s' →
      Run (tr ++ [⟨s, a, r, s'⟩]) s'

/-- `Later tr s tr' s'`: a run `tr` that ends in `s` goes on with `tr'` and ends in `s'`. -/
inductive Later [Sha256] (tr : List Entry) (s : Store) : List Entry → Store → Prop
  | refl : Later tr s [] s
  | step {tr' s₁ a r s₂} : Later tr s tr' s₁ → Fresh (tr ++ tr') a → Runs (handle a) s₁ r s₂ →
      Later tr s (tr' ++ [⟨s₁, a, r, s₂⟩]) s₂

theorem Later.run [Sha256] {tr tr' : List Entry} {s s' : Store} (h : Later tr s tr' s')
    (hr : Run tr s) : Run (tr ++ tr') s' := by
  induction h with
  | refl =>
    rw [List.append_nil]
    exact hr
  | step _ hf hs ih =>
    rw [← List.append_assoc]
    exact ih.step hf hs

/-! ## Running a list of actions -/

/-- The entries of a list of actions run one after the other. -/
def perform [Sha256] (fuel : Nat) : Store → List Action → Option (List Entry)
  | _, [] => some []
  | s, a :: as =>
    match exec fuel (handle a) s with
    | none => none
    | some r =>
      match perform fuel r.2 as with
      | none => none
      | some entries => some (⟨s, a, r.1, r.2⟩ :: entries)

/-- The entries of a list of actions on a new server; nothing if they do not all end in time. -/
def performed [Sha256] (fuel : Nat) (s : Store) (actions : List Action) : List Entry :=
  (perform fuel s actions).getD []

/-- The state a list of entries that starts in `s` ends in. -/
def lastStore (s : Store) (tr : List Entry) : Store := (tr.getLast?.map (·.after)).getD s

theorem perform_actions [Sha256] {fuel : Nat} {s : Store} {actions : List Action}
    {entries : List Entry} (h : perform fuel s actions = some entries) :
    entries.map (·.action) = actions := by
  induction actions generalizing s entries with
  | nil =>
    cases h
    rfl
  | cons a as ih =>
    rw [perform] at h
    cases he : exec fuel (handle a) s with
    | none => simp only [he, reduceCtorEq] at h
    | some r =>
      cases hp : perform fuel r.2 as with
      | none => simp only [he, hp, reduceCtorEq] at h
      | some entries' =>
        simp only [he, hp, Option.some.injEq] at h
        rw [← h, List.map_cons, ih hp]

theorem Run.perform [Sha256] {fuel : Nat} {actions : List Action} {tr entries : List Entry}
    {s : Store} (hr : Run tr s) (h : perform fuel s actions = some entries)
    (hd : (tr.flatMap (·.action.draws) ++ actions.flatMap Action.draws).Nodup) :
    Run (tr ++ entries) (lastStore s entries) := by
  induction actions generalizing tr s entries with
  | nil =>
    cases h
    rw [List.append_nil]
    exact hr
  | cons a as ih =>
    rw [TandemAio.perform] at h
    cases he : exec fuel (handle a) s with
    | none => simp only [he, reduceCtorEq] at h
    | some r =>
      cases hp : TandemAio.perform fuel r.2 as with
      | none => simp only [he, hp, reduceCtorEq] at h
      | some entries' =>
        simp only [he, hp, Option.some.injEq] at h
        subst h
        rw [List.flatMap_cons, ← List.append_assoc] at hd
        have hfresh : Fresh tr a := by
          obtain ⟨-, ha, hdis⟩ := List.nodup_append.mp (List.nodup_append.mp hd).1
          refine ⟨ha, fun x hx e he hxe ↦ ?_⟩
          exact hdis x (List.mem_flatMap.mpr ⟨e, he, hxe⟩) x hx rfl
        have hstep := ih (hr.step hfresh (runs_of_exec he)) hp (by
          rw [List.flatMap_append, List.flatMap_cons, List.flatMap_nil, List.append_nil]
          exact hd)
        rw [List.append_assoc, List.singleton_append] at hstep
        cases entries' with
        | nil => exact hstep
        | cons e es =>
          rw [lastStore, List.getLast?_cons_cons] at *
          exact hstep

/-- A new server runs a list of actions. -/
theorem run_performed [Sha256] {fuel : Nat} {actions : List Action} {deployment userApi token}
    (h : (perform fuel (Store.initial deployment userApi token) actions).isSome = true)
    (hd : (actions.flatMap Action.draws).Nodup) :
    Run (performed fuel (Store.initial deployment userApi token) actions)
      (lastStore (Store.initial deployment userApi token)
        (performed fuel (Store.initial deployment userApi token) actions)) := by
  obtain ⟨entries, he⟩ := Option.isSome_iff_exists.mp h
  rw [performed, he, Option.getD_some]
  exact (Run.start deployment userApi token).perform he hd

theorem performed_actions [Sha256] {fuel : Nat} {s : Store} {actions : List Action} {e : Entry}
    (he : e ∈ performed fuel s actions) : e.action ∈ actions := by
  cases hp : perform fuel s actions with
  | none =>
    rw [performed, hp] at he
    cases he
  | some entries =>
    rw [performed, hp, Option.getD_some] at he
    rw [← perform_actions hp]
    exact List.mem_map_of_mem he

theorem performed_map_action [Sha256] {fuel : Nat} {s : Store} {actions : List Action}
    (h : (perform fuel s actions).isSome = true) :
    (performed fuel s actions).map (·.action) = actions := by
  obtain ⟨entries, he⟩ := Option.isSome_iff_exists.mp h
  rw [performed, he, Option.getD_some, perform_actions he]

/-! ## Sample values for runs on concrete inputs -/

namespace Sample

def name (text : String) (valid : text ≠ "" ∧ text.toList.all idChar = true := by decide) : Name :=
  ⟨text, valid⟩

def nodeA : NodeId := name "node_a"
def nodeB : NodeId := name "node_b"
def keyA : Token := name "key-a"
def keyB : Token := name "key-b"
def authA : NodeAuth := ⟨some nodeA, some keyA⟩
def authB : NodeAuth := ⟨some nodeB, some keyB⟩
def job : JobId := name "job_1"
def pid : Pid := name "pid_1"
def task1 : Tid := name "tid_1"
def task2 : Tid := name "tid_2"
def claim1 : Token := name "claim-1"
def claim2 : Token := name "claim-2"
def claim3 : Token := name "claim-3"
def claim4 : Token := name "claim-4"
def claim5 : Token := name "claim-5"
def download1 : Token := name "download-1"
def download2 : Token := name "download-2"
def download3 : Token := name "download-3"
def download4 : Token := name "download-4"
def download5 : Token := name "download-5"

/-- The digest of the empty byte string, for runs in which no other result is hashed. -/
scoped instance : Sha256 where
  hexdigest _ := "e3b0c44298fc1c149afbf4c8996fb92427ae41e4649b934ca495991b7852b855"
  hex _ := by decide

def server : Store := Store.initial (fun _ ↦ none) (fun _ ↦ none) none

/-- A node that runs both kinds of task, with an RSA key or without one. -/
def join (nodeId : NodeId) (token : Token) (pair : Option Nat) : Action :=
  .register ⟨nodeId, token, none, true, (pair.map fun p ↦ .key (.rsa p)).getD .absent⟩

def payload : Blob := .bytes [1]

/-- A WebAssembly task of one byte. -/
def planned (tid : Tid) (assignedNode : Option NodeId) : CreateTask where
  tid := tid
  dek := 1
  iv := 2
  jobId := job
  pid := pid
  name := ""
  filename := "main.wasm"
  payload := payload
  assignedNode := assignedNode
  runtime := .wasm
  taskName := "main"
  timeoutMs := none
  shardIndex := none
  shardTotal := none

def create (tid : Tid) (assignedNode : Option NodeId) : Action :=
  .createTask (planned tid assignedNode)

def newJob (totalTasks : Nat) : CreateJob where
  jobId := job
  jobToken := name "job-token"
  pid := pid
  name := ""
  metadataJson := "{}"
  totalTasks := totalTasks

/-- A receipt with no signature that decodes. -/
def badReceipt : ResultBody := .octetStream [] (.object ⟨none, none, none, none, .undecodable⟩)

/-- A claim of `task1` by `nodeA`, and its result with a receipt that does not verify. -/
def badAttempt (claimToken downloadToken : Token) : List Action :=
  [.claim authA claimToken downloadToken, .result authA task1 (some claimToken) badReceipt]

end Sample

end TandemAio
