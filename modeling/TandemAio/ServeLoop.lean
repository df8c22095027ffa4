import Mathlib.Data.Finset.Basic
import TandemAio.Hosting

/-!
# `serve.rs`: the serve loop of a node and its start tasks

The loop claims assignments, spawns a task for each that is fresh, and shuts down what the server
tells it to stop.  Loop and tasks share three sets, each behind a lock of its own; between two locks
the others may run.
-/

namespace TandemAio

def maxStartAttempts : Nat := 3

/-- A running app process. -/
abbrev AppId := Nat

/-- Where `serve_loop` stands: what it does next. -/
inductive LoopPc
  | claim
  /-- An assignment has come; the three locks are taken together to see whether it is fresh. -/
  | check (pid : Pid)
  | insertStarting (pid : Pid)
  | spawn (pid : Pid)
  | listApps
  | nextRequest
  | stop (pids : List Pid)
  /-- The app is out of `apps` and still runs. -/
  | shutdown (pid : Pid) (app : AppId) (pids : List Pid)
deriving DecidableEq

/-- Where a start task stands. -/
inductive TaskPc
  /-- `setup_app`, for the `n`-th time. -/
  | attempt (n : Nat)
  /-- `setup_app` has returned a running app. -/
  | ready (app : AppId)
  | giveUp
  | report
  /-- The pid is not yet out of `starting`. -/
  | finish
  | done
deriving DecidableEq

structure StartTask where
  pid : Pid
  pc : TaskPc
deriving DecidableEq

structure ServeNodeState where
  /-- The map `apps`. -/
  apps : Pid → Option AppId
  starting : Finset Pid
  givenUp : Finset Pid
  loop : LoopPc
  tasks : List StartTask

namespace ServeNodeState

def initial : ServeNodeState := ⟨fun _ ↦ none, ∅, ∅, .claim, []⟩

@[simps] def goTo (s : ServeNodeState) (loop : LoopPc) : ServeNodeState := { s with loop := loop }

@[simps] def setTask (s : ServeNodeState) (i : Nat) (task : StartTask) : ServeNodeState :=
  { s with tasks := s.tasks.set i task }

@[simps] def setApp (s : ServeNodeState) (pid : Pid) (app : Option AppId) : ServeNodeState :=
  { s with apps := Function.update s.apps pid app }

/-- `!hosting.contains_key(&pid) && !in_flight.contains(&pid) && !abandoned.contains(&pid)` -/
def fresh (s : ServeNodeState) (pid : Pid) : Bool :=
  (s.apps pid).isNone && pid ∉ s.starting && pid ∉ s.givenUp

end ServeNodeState

/-- What a step does to the copies of a deployment. -/
inductive NodeEvent
  | spawned (pid : Pid)
  | inserted (pid : Pid)
  | other

/-- One step of the loop or of a task.  The answers of the server, and whether an app comes up, are
left open. -/
inductive NodeMove : ServeNodeState → NodeEvent → ServeNodeState → Prop
  | claimed {s : ServeNodeState} (pid : Pid) : s.loop = .claim →
      NodeMove s .other (s.goTo (.check pid))
  /-- No assignment, or an error. -/
  | notClaimed {s : ServeNodeState} : s.loop = .claim → NodeMove s .other (s.goTo .listApps)
  | check {s : ServeNodeState} {pid : Pid} : s.loop = .check pid →
      NodeMove s .other (s.goTo (if s.fresh pid then .insertStarting pid else .listApps))
  | insertStarting {s : ServeNodeState} {pid : Pid} : s.loop = .insertStarting pid →
      NodeMove s .other { s.goTo (.spawn pid) with starting := insert pid s.starting }
  | spawn {s : ServeNodeState} {pid : Pid} : s.loop = .spawn pid →
      NodeMove s (.spawned pid) { s.goTo .listApps with tasks := s.tasks ++ [⟨pid, .attempt 1⟩] }
  /-- Without apps the loop sleeps and begins again. -/
  | listEmpty {s : ServeNodeState} : s.loop = .listApps → (∀ pid, s.apps pid = none) →
      NodeMove s .other (s.goTo .claim)
  | list {s : ServeNodeState} {pid : Pid} : s.loop = .listApps → s.apps pid ≠ none →
      NodeMove s .other (s.goTo .nextRequest)
  /-- The answer has a list of pids to stop; an error has none. -/
  | answered {s : ServeNodeState} (stop : List Pid) : s.loop = .nextRequest →
      NodeMove s .other (s.goTo (.stop stop))
  | stopHeld {s : ServeNodeState} {pid : Pid} {pids : List Pid} {app : AppId} :
      s.loop = .stop (pid :: pids) → s.apps pid = some app →
      NodeMove s .other ((s.setApp pid none).goTo (.shutdown pid app pids))
  | stopUnheld {s : ServeNodeState} {pid : Pid} {pids : List Pid} : s.loop = .stop (pid :: pids) →
      s.apps pid = none → NodeMove s .other (s.goTo (.stop pids))
  | shutdown {s : ServeNodeState} {pid : Pid} {app : AppId} {pids : List Pid} :
      s.loop = .shutdown pid app pids → NodeMove s .other (s.goTo (.stop pids))
  /-- `handle_request` only reads `apps`. -/
  | stopped {s : ServeNodeState} : s.loop = .stop [] → NodeMove s .other (s.goTo .claim)
  | setupOk {s : ServeNodeState} {i n : Nat} {pid : Pid} (app : AppId) :
      s.tasks[i]? = some ⟨pid, .attempt n⟩ → NodeMove s .other (s.setTask i ⟨pid, .ready app⟩)
  | setupFailed {s : ServeNodeState} {i n : Nat} {pid : Pid} :
      s.tasks[i]? = some ⟨pid, .attempt n⟩ → NodeMove s .other
        (s.setTask i ⟨pid, if n < maxStartAttempts then .attempt (n + 1) else .giveUp⟩)
  | insert {s : ServeNodeState} {i : Nat} {pid : Pid} {app : AppId} :
      s.tasks[i]? = some ⟨pid, .ready app⟩ →
      NodeMove s (.inserted pid) ((s.setApp pid (some app)).setTask i ⟨pid, .finish⟩)
  | giveUp {s : ServeNodeState} {i : Nat} {pid : Pid} : s.tasks[i]? = some ⟨pid, .giveUp⟩ →
      NodeMove s .other { s.setTask i ⟨pid, .report⟩ with givenUp := insert pid s.givenUp }
  | report {s : ServeNodeState} {i : Nat} {pid : Pid} : s.tasks[i]? = some ⟨pid, .report⟩ →
      NodeMove s .other (s.setTask i ⟨pid, .finish⟩)
  | finish {s : ServeNodeState} {i : Nat} {pid : Pid} : s.tasks[i]? = some ⟨pid, .finish⟩ →
      NodeMove s .other { s.setTask i ⟨pid, .done⟩ with starting := s.starting.erase pid }

/-- The states that come after `s₀`. -/
inductive NodeRun (s₀ : ServeNodeState) : ServeNodeState → Prop
  | start : NodeRun s₀ s₀
  | step {s s' : ServeNodeState} {e : NodeEvent} : NodeRun s₀ s → NodeMove s e s' → NodeRun s₀ s'

/-! ## Copies -/

/-- From the spawn until the app is in `apps` or given up. -/
def TaskPc.inProgress : TaskPc → Bool
  | .attempt _ | .ready _ | .giveUp => true
  | .report | .finish | .done => false

namespace ServeNodeState

/-- The start tasks in progress for a deployment. -/
def startsInProgress (s : ServeNodeState) (pid : Pid) : Nat :=
  s.tasks.countP fun task ↦ task.pid = pid && task.pc.inProgress

/-- The apps that run for a deployment: the one in `apps`, and one that is being shut down. -/
def runningApps (s : ServeNodeState) (pid : Pid) : Nat :=
  (s.apps pid).toList.length + match s.loop with
    | .shutdown pid' _ _ => if pid' = pid then 1 else 0
    | _ => 0

/-- The invariant: a task whose pid is not out of `starting` is the only one for it. -/
structure Exclusive (s : ServeNodeState) : Prop where
  starting : ∀ task ∈ s.tasks, task.pc ≠ .done → task.pid ∈ s.starting
  alone : ∀ (i j : Nat) (task task' : StartTask), s.tasks[i]? = some task →
    s.tasks[j]? = some task' → task.pc ≠ .done → task'.pc ≠ .done → task.pid = task'.pid → i = j
  progress : ∀ task ∈ s.tasks, task.pc.inProgress = true →
    s.apps task.pid = none ∧ task.pid ∉ s.givenUp ∧
      ∀ app pids, s.loop ≠ .shutdown task.pid app pids
  inserting : ∀ pid, s.loop = .insertStarting pid → s.fresh pid = true
  spawning : ∀ pid, s.loop = .spawn pid → s.apps pid = none ∧ pid ∉ s.givenUp ∧
    pid ∈ s.starting ∧ ∀ task ∈ s.tasks, task.pid = pid → task.pc = .done
  shutting : ∀ pid app pids, s.loop = .shutdown pid app pids → s.apps pid = none

variable {s s' : ServeNodeState} {e : NodeEvent} {pid : Pid}

theorem exclusive_initial : initial.Exclusive where
  starting := by simp [initial]
  alone := by simp [initial]
  progress := by simp [initial]
  inserting := by simp [initial]
  spawning := by simp [initial]
  shutting := by simp [initial]

/-- A task that is not done has its pid in `starting`. -/
theorem Exclusive.done_of_not_starting (hs : s.Exclusive) (hpid : pid ∉ s.starting)
    {task : StartTask} (htask : task ∈ s.tasks) (hsame : task.pid = pid) : task.pc = .done := by
  by_contra hpc
  exact hpid (hsame ▸ hs.starting task htask hpc)

/-! ## The loop -/

/-- The loop goes on to a place that starts and stops nothing. -/
theorem Exclusive.goTo (hs : s.Exclusive) {loop : LoopPc}
    (hinserting : ∀ pid, loop = .insertStarting pid → s.fresh pid = true)
    (hspawning : ∀ pid, loop ≠ .spawn pid)
    (hshutting : ∀ pid app pids, loop ≠ .shutdown pid app pids) :
    (s.goTo loop).Exclusive where
  starting := hs.starting
  alone := hs.alone
  progress task htask hpc := by
    obtain ⟨happs, hgiven, -⟩ := hs.progress task htask hpc
    exact ⟨happs, hgiven, fun app pids ↦ hshutting _ _ _⟩
  inserting := hinserting
  spawning pid hloop := absurd hloop (hspawning pid)
  shutting pid app pids hloop := absurd hloop (hshutting pid app pids)

theorem Exclusive.insertStarting (hs : s.Exclusive) (hloop : s.loop = .insertStarting pid) :
    Exclusive { s.goTo (.spawn pid) with starting := insert pid s.starting } := by
  have hfresh := hs.inserting pid hloop
  simp only [fresh, Bool.and_eq_true, Option.isNone_iff_eq_none, decide_eq_true_eq] at hfresh
  obtain ⟨⟨happs, hstarting⟩, hgiven⟩ := hfresh
  refine ⟨fun task htask hpc ↦ ?_, hs.alone, fun task htask hpc ↦ ?_, fun _ h ↦ ?_,
    fun q h ↦ ?_, fun _ _ _ h ↦ ?_⟩
  · exact Finset.mem_insert_of_mem (hs.starting task htask hpc)
  · obtain ⟨htaskApps, htaskGiven, -⟩ := hs.progress task htask hpc
    exact ⟨htaskApps, htaskGiven, fun _ _ h ↦ by cases h⟩
  · cases h
  · cases h
    exact ⟨happs, hgiven, Finset.mem_insert_self _ _,
      fun task htask hsame ↦ hs.done_of_not_starting hstarting htask hsame⟩
  · cases h

/-- No other task is under way for a pid that is spawned. -/
theorem Exclusive.spawn (hs : s.Exclusive) (hloop : s.loop = .spawn pid) :
    Exclusive { s.goTo .listApps with tasks := s.tasks ++ [⟨pid, .attempt 1⟩] } := by
  obtain ⟨happs, hgiven, hstarting, hdone⟩ := hs.spawning pid hloop
  have hmem : ∀ task, task ∈ s.tasks ++ [⟨pid, .attempt 1⟩] →
      task ∈ s.tasks ∨ task = ⟨pid, .attempt 1⟩ := by
    intro task htask
    simpa using htask
  have hget : ∀ (i : Nat) task, (s.tasks ++ [⟨pid, .attempt 1⟩])[i]? = some task →
      s.tasks[i]? = some task ∨ i = s.tasks.length ∧ task = ⟨pid, .attempt 1⟩ := by
    intro i task hi
    rcases Nat.lt_trichotomy i s.tasks.length with hlt | heq | hgt
    · rw [List.getElem?_append_left hlt] at hi
      exact Or.inl hi
    · rw [heq, List.getElem?_append_right (le_refl _), Nat.sub_self] at hi
      exact Or.inr ⟨heq, (Option.some.inj hi).symm⟩
    · rw [List.getElem?_eq_none (by simp only [List.length_append, List.length_singleton]; omega)]
        at hi
      cases hi
  refine ⟨fun task htask hpc ↦ ?_, fun i j task task' hi hj hpc hpc' hsame ↦ ?_,
    fun task htask hpc ↦ ?_, fun _ h ↦ ?_, fun _ h ↦ ?_, fun _ _ _ h ↦ ?_⟩
  · rcases hmem task htask with htask | rfl
    · exact hs.starting task htask hpc
    · exact hstarting
  · rcases hget i task hi with hi | ⟨rfl, rfl⟩
    · rcases hget j task' hj with hj | ⟨rfl, rfl⟩
      · exact hs.alone i j task task' hi hj hpc hpc' hsame
      · exact absurd (hdone task (List.mem_of_getElem? hi) hsame) hpc
    · rcases hget j task' hj with hj | ⟨rfl, rfl⟩
      · exact absurd (hdone task' (List.mem_of_getElem? hj) hsame.symm) hpc'
      · rfl
  · rcases hmem task htask with htask | rfl
    · obtain ⟨htaskApps, htaskGiven, -⟩ := hs.progress task htask hpc
      exact ⟨htaskApps, htaskGiven, fun _ _ h ↦ by cases h⟩
    · exact ⟨happs, hgiven, fun _ _ h ↦ by cases h⟩
  · cases h
  · cases h
  · cases h

theorem Exclusive.stopHeld (hs : s.Exclusive) {app : AppId} {pids : List Pid}
    (hloop : s.loop = .stop (pid :: pids)) (happ : s.apps pid = some app) :
    ((s.setApp pid none).goTo (.shutdown pid app pids)).Exclusive := by
  refine ⟨hs.starting, hs.alone, fun task htask hpc ↦ ?_, fun _ h ↦ ?_, fun _ h ↦ ?_,
    fun q _ _ h ↦ ?_⟩
  · obtain ⟨htaskApps, htaskGiven, -⟩ := hs.progress task htask hpc
    have hne : task.pid ≠ pid := by
      intro hsame
      rw [hsame, happ] at htaskApps
      cases htaskApps
    refine ⟨?_, htaskGiven, fun _ _ h ↦ ?_⟩
    · exact (Function.update_of_ne hne _ _).trans htaskApps
    · cases h
      exact hne rfl
  · cases h
  · cases h
  · cases h
    exact Function.update_self _ _ _

/-! ## The tasks -/

theorem mem_setTask {i : Nat} {task t : StartTask} (h : t ∈ (s.setTask i task).tasks) :
    t ∈ s.tasks ∨ t = task :=
  List.mem_or_eq_of_mem_set h

/-- A task that is under way goes on. -/
theorem Exclusive.setTask (hs : s.Exclusive) {i : Nat} {pc : TaskPc} (pc' : TaskPc)
    (hi : s.tasks[i]? = some ⟨pid, pc⟩) (hpc : pc ≠ .done)
    (hprogress : pc'.inProgress = true → pc.inProgress = true) :
    (s.setTask i ⟨pid, pc'⟩).Exclusive := by
  have hlen : i < s.tasks.length := (List.getElem?_eq_some_iff.mp hi).1
  have hmem : (⟨pid, pc⟩ : StartTask) ∈ s.tasks := List.mem_of_getElem? hi
  -- every task of the new list stands for one of the old list at its place
  have hget : ∀ (j : Nat) t, (s.tasks.set i ⟨pid, pc'⟩)[j]? = some t → t.pc ≠ .done →
      ∃ t', s.tasks[j]? = some t' ∧ t'.pid = t.pid ∧ t'.pc ≠ .done := by
    intro j t hj hdone
    by_cases hij : i = j
    · subst hij
      rw [List.getElem?_set_self hlen] at hj
      cases hj
      exact ⟨_, hi, rfl, hpc⟩
    · rw [List.getElem?_set_ne hij] at hj
      exact ⟨t, hj, rfl, hdone⟩
  refine ⟨fun t ht hdone ↦ ?_, fun j k t t' hj hk hdone hdone' hsame ↦ ?_, fun t ht hin ↦ ?_,
    hs.inserting, fun q hq ↦ ?_, hs.shutting⟩
  · rcases mem_setTask ht with ht | rfl
    · exact hs.starting t ht hdone
    · exact hs.starting ⟨pid, pc⟩ hmem hpc
  · obtain ⟨u, hu, hupid, hudone⟩ := hget j t hj hdone
    obtain ⟨u', hu', hupid', hudone'⟩ := hget k t' hk hdone'
    exact hs.alone j k u u' hu hu' hudone hudone' (hupid.trans (hsame.trans hupid'.symm))
  · rcases mem_setTask ht with ht | rfl
    · exact hs.progress t ht hin
    · exact hs.progress ⟨pid, pc⟩ hmem (hprogress hin)
  · obtain ⟨happs, hgiven, hstarting, hall⟩ := hs.spawning q hq
    refine ⟨happs, hgiven, hstarting, fun t ht hsame ↦ ?_⟩
    rcases mem_setTask ht with ht | rfl
    · exact hall t ht hsame
    · exact absurd (hall _ hmem hsame) hpc

/-- Every other task for the same pid is done. -/
theorem Exclusive.others_done (hs : s.Exclusive) {i : Nat} {pc pc' : TaskPc}
    (hi : s.tasks[i]? = some ⟨pid, pc⟩) (hpc : pc ≠ .done) {t : StartTask}
    (ht : t ∈ (s.setTask i ⟨pid, pc'⟩).tasks) (hsame : t.pid = pid) :
    t = ⟨pid, pc'⟩ ∨ t.pc = .done := by
  have hlen : i < s.tasks.length := (List.getElem?_eq_some_iff.mp hi).1
  obtain ⟨j, hj⟩ := List.getElem?_of_mem ht
  rw [setTask_tasks] at hj
  by_cases hij : i = j
  · subst hij
    rw [List.getElem?_set_self hlen] at hj
    exact Or.inl (Option.some.inj hj).symm
  · rw [List.getElem?_set_ne hij] at hj
    right
    by_contra hdone
    exact hij (hs.alone i j _ t hi hj hpc hdone hsame.symm)

/-- The loop does not begin a pid that a task is under way for. -/
theorem Exclusive.not_beginning (hs : s.Exclusive) {i : Nat} {pc : TaskPc}
    (hi : s.tasks[i]? = some ⟨pid, pc⟩) (hpc : pc ≠ .done) :
    s.loop ≠ .insertStarting pid ∧ s.loop ≠ .spawn pid := by
  have hmem : (⟨pid, pc⟩ : StartTask) ∈ s.tasks := List.mem_of_getElem? hi
  have hstarting : pid ∈ s.starting := hs.starting ⟨pid, pc⟩ hmem hpc
  constructor
  · intro hloop
    have hfresh := hs.inserting pid hloop
    simp only [fresh, Bool.and_eq_true, decide_eq_true_eq] at hfresh
    exact hfresh.1.2 hstarting
  · intro hloop
    exact hpc ((hs.spawning pid hloop).2.2.2 _ hmem rfl)

theorem Exclusive.insert (hs : s.Exclusive) {i : Nat} {app : AppId}
    (hi : s.tasks[i]? = some ⟨pid, .ready app⟩) :
    ((s.setApp pid (some app)).setTask i ⟨pid, .finish⟩).Exclusive := by
  have hmem : (⟨pid, .ready app⟩ : StartTask) ∈ s.tasks := List.mem_of_getElem? hi
  obtain ⟨-, -, hshutdown⟩ := hs.progress _ hmem rfl
  obtain ⟨hinserting, hspawning⟩ := hs.not_beginning hi (by simp)
  have hset := hs.setTask .finish hi (by simp) (by simp [TaskPc.inProgress])
  refine ⟨hset.starting, hset.alone, fun t ht hin ↦ ?_, fun q hq ↦ ?_, fun q hq ↦ ?_,
    fun q app' pids hq ↦ ?_⟩
  · have hne : t.pid ≠ pid := by
      intro hsame
      rcases hs.others_done hi (by simp) ht hsame with rfl | hdone
      · cases hin
      · rw [hdone] at hin
        cases hin
    obtain ⟨happs, hgiven, hloop⟩ := hset.progress t ht hin
    exact ⟨(Function.update_of_ne hne _ _).trans happs, hgiven, hloop⟩
  · have hne : q ≠ pid := by
      rintro rfl
      exact hinserting hq
    have hfresh := hs.inserting q hq
    unfold fresh at hfresh ⊢
    have happs : ((s.setApp pid (some app)).setTask i ⟨pid, .finish⟩).apps q = s.apps q :=
      Function.update_of_ne hne _ _
    rw [happs]
    exact hfresh
  · have hne : q ≠ pid := by
      rintro rfl
      exact hspawning hq
    obtain ⟨happs, hgiven, hstarting, hall⟩ := hset.spawning q hq
    exact ⟨(Function.update_of_ne hne _ _).trans happs, hgiven, hstarting, hall⟩
  · have hne : q ≠ pid := by
      rintro rfl
      exact hshutdown _ _ hq
    exact (Function.update_of_ne hne _ _).trans (hs.shutting q app' pids hq)

theorem Exclusive.giveUp (hs : s.Exclusive) {i : Nat} (hi : s.tasks[i]? = some ⟨pid, .giveUp⟩) :
    Exclusive { s.setTask i ⟨pid, .report⟩ with givenUp := Insert.insert pid s.givenUp } := by
  obtain ⟨hinserting, hspawning⟩ := hs.not_beginning hi (by simp)
  have hset := hs.setTask .report hi (by simp) (by simp [TaskPc.inProgress])
  refine ⟨hset.starting, hset.alone, fun t ht hin ↦ ?_, fun q hq ↦ ?_, fun q hq ↦ ?_,
    hset.shutting⟩
  · have hne : t.pid ≠ pid := by
      intro hsame
      rcases hs.others_done hi (by simp) ht hsame with rfl | hdone
      · cases hin
      · rw [hdone] at hin
        cases hin
    obtain ⟨happs, hgiven, hloop⟩ := hset.progress t ht hin
    exact ⟨happs, by simpa [hne] using hgiven, hloop⟩
  · have hne : q ≠ pid := by
      rintro rfl
      exact hinserting hq
    have hfresh := hset.inserting q hq
    simpa [fresh, hne] using hfresh
  · have hne : q ≠ pid := by
      rintro rfl
      exact hspawning hq
    obtain ⟨happs, hgiven, hstarting, hall⟩ := hset.spawning q hq
    exact ⟨happs, by simpa [hne] using hgiven, hstarting, hall⟩

theorem Exclusive.finish (hs : s.Exclusive) {i : Nat} (hi : s.tasks[i]? = some ⟨pid, .finish⟩) :
    Exclusive { s.setTask i ⟨pid, .done⟩ with starting := s.starting.erase pid } := by
  obtain ⟨-, hspawning⟩ := hs.not_beginning hi (by simp)
  have hset := hs.setTask .done hi (by simp) (by simp [TaskPc.inProgress])
  refine ⟨fun t ht hdone ↦ ?_, hset.alone, hset.progress, fun q hq ↦ ?_, fun q hq ↦ ?_,
    hset.shutting⟩
  · have hne : t.pid ≠ pid := by
      intro hsame
      rcases hs.others_done hi (by simp) ht hsame with rfl | hdone'
      · exact hdone rfl
      · exact hdone hdone'
    exact Finset.mem_erase.mpr ⟨hne, hset.starting t ht hdone⟩
  · have hfresh := hset.inserting q hq
    simp only [fresh, setTask_apps, setTask_starting, setTask_givenUp, Bool.and_eq_true,
      decide_eq_true_eq] at hfresh ⊢
    exact ⟨⟨hfresh.1.1, fun hmem ↦ hfresh.1.2 (Finset.mem_of_mem_erase hmem)⟩, hfresh.2⟩
  · have hne : q ≠ pid := by
      rintro rfl
      exact hspawning hq
    obtain ⟨happs, hgiven, hstarting, hall⟩ := hset.spawning q hq
    exact ⟨happs, hgiven, Finset.mem_erase.mpr ⟨hne, hstarting⟩, hall⟩

/-! ## Every step -/

theorem Exclusive.step (hs : s.Exclusive) (h : NodeMove s e s') : s'.Exclusive := by
  cases h with
  | claimed | notClaimed | listEmpty | list | answered | stopUnheld | shutdown | stopped =>
    exact hs.goTo (fun _ h ↦ by cases h) (fun _ h ↦ by cases h) fun _ _ _ h ↦ by cases h
  | @check pid hloop =>
    apply hs.goTo
    · intro q hq
      by_cases hfresh : s.fresh pid = true
      · rw [if_pos hfresh] at hq
        cases hq
        exact hfresh
      · rw [if_neg hfresh] at hq
        cases hq
    · intro q hq
      split at hq <;> cases hq
    · intro q app pids hq
      split at hq <;> cases hq
  | insertStarting hloop => exact hs.insertStarting hloop
  | spawn hloop => exact hs.spawn hloop
  | stopHeld hloop happ => exact hs.stopHeld hloop happ
  | setupOk app hi => exact hs.setTask (.ready app) hi (by simp) fun _ ↦ rfl
  | setupFailed hi => exact hs.setTask _ hi (by simp) fun _ ↦ rfl
  | insert hi => exact hs.insert hi
  | giveUp hi => exact hs.giveUp hi
  | report hi => exact hs.setTask .finish hi (by simp) (by simp [TaskPc.inProgress])
  | finish hi => exact hs.finish hi

theorem exclusive_run {s₀ : ServeNodeState} (h₀ : s₀.Exclusive) (h : NodeRun s₀ s) :
    s.Exclusive := by
  induction h with
  | start => exact h₀
  | step _ hmove ih => exact ih.step hmove

/-- What is given up stays given up. -/
theorem givenUp_run {s₀ : ServeNodeState} (h : NodeRun s₀ s) : s₀.givenUp ⊆ s.givenUp := by
  induction h with
  | start => exact Finset.Subset.refl _
  | step _ hmove ih =>
    refine ih.trans ?_
    cases hmove with
    | giveUp => exact Finset.subset_insert _ _
    | _ => exact Finset.Subset.refl _

/-- A list with one place at most for a property. -/
theorem countP_le_one {α : Type} {p : α → Bool} {l : List α}
    (h : ∀ (i j : Nat) (a b : α), l[i]? = some a → l[j]? = some b → p a = true → p b = true →
      i = j) : l.countP p ≤ 1 := by
  induction l with
  | nil => simp
  | cons a l ih =>
    by_cases ha : p a = true
    · have hrest : l.countP p = 0 := by
        rw [List.countP_eq_zero]
        intro b hb hpb
        obtain ⟨j, hj⟩ := List.getElem?_of_mem hb
        exact absurd (h 0 (j + 1) a b rfl hj ha hpb) (by omega)
      rw [List.countP_cons_of_pos ha, hrest]
    · rw [List.countP_cons_of_neg ha]
      apply ih
      intro i j b c hi hj hb hc
      have hsame := h (i + 1) (j + 1) b c hi hj hb hc
      omega

/-- At most one task is in progress for a pid. -/
theorem Exclusive.startsInProgress_le (hs : s.Exclusive) (pid : Pid) :
    s.startsInProgress pid ≤ 1 := by
  apply countP_le_one
  intro i j t t' hi hj hin hin'
  simp only [Bool.and_eq_true, decide_eq_true_eq] at hin hin'
  have hdone : ∀ t : StartTask, t.pc.inProgress = true → t.pc ≠ .done := by
    intro t ht hpc
    rw [hpc] at ht
    cases ht
  exact hs.alone i j t t' hi hj (hdone t hin.2) (hdone t' hin'.2) (hin.1.trans hin'.1.symm)

/-- While a task is in progress no app runs for its pid, and otherwise at most one does. -/
theorem Exclusive.copies_le (hs : s.Exclusive) (pid : Pid) :
    s.startsInProgress pid + s.runningApps pid ≤ 1 := by
  have hstarts := hs.startsInProgress_le pid
  by_cases hnone : s.startsInProgress pid = 0
  · rw [hnone, Nat.zero_add]
    unfold runningApps
    cases hloop : s.loop with
    | shutdown pid' app pids =>
      by_cases hsame : pid' = pid
      · have happs := hs.shutting pid' app pids hloop
        rw [← hsame, happs]
        simp
      · simp only [hsame, if_false, Nat.add_zero]
        cases s.apps pid <;> simp
    | _ => cases s.apps pid <;> simp
  · obtain ⟨t, ht, hin⟩ := List.countP_pos_iff.mp (Nat.pos_of_ne_zero hnone)
    simp only [Bool.and_eq_true, decide_eq_true_eq] at hin
    obtain ⟨rfl, hin⟩ := hin
    obtain ⟨happs, -, hloop⟩ := hs.progress t ht hin
    have hrunning : s.runningApps t.pid = 0 := by
      unfold runningApps
      rw [happs]
      cases hl : s.loop with
      | shutdown pid' app pids =>
        have hne : pid' ≠ t.pid := by
          rintro rfl
          exact hloop _ _ hl
        simp [hne]
      | _ => rfl
    omega

end ServeNodeState

/-- In every interleaving a node has at most one copy of a deployment, no insert overwrites an app,
and what was given up is never started again. -/
theorem one_copy {s : ServeNodeState} (h : NodeRun .initial s) :
    (∀ pid, s.startsInProgress pid + s.runningApps pid ≤ 1) ∧
      (∀ pid s', NodeMove s (.inserted pid) s' → s.apps pid = none) ∧
      ∀ pid ∈ s.givenUp, ∀ s', NodeRun s s' →
        s'.startsInProgress pid = 0 ∧ ∀ s'', ¬NodeMove s' (.spawned pid) s'' := by
  have hs := ServeNodeState.exclusive_run ServeNodeState.exclusive_initial h
  refine ⟨hs.copies_le, fun pid s' hmove ↦ ?_, fun pid hgiven s' hlater ↦ ⟨?_, fun s'' hmove ↦ ?_⟩⟩
  · cases hmove with
    | insert hi => exact (hs.progress _ (List.mem_of_getElem? hi) rfl).1
  · have hs' := ServeNodeState.exclusive_run hs hlater
    have hgiven' := ServeNodeState.givenUp_run hlater hgiven
    by_contra hpos
    obtain ⟨t, ht, hin⟩ := List.countP_pos_iff.mp (Nat.pos_of_ne_zero hpos)
    simp only [Bool.and_eq_true, decide_eq_true_eq] at hin
    obtain ⟨rfl, hin⟩ := hin
    exact (hs'.progress t ht hin).2.1 hgiven'
  · have hs' := ServeNodeState.exclusive_run hs hlater
    have hgiven' := ServeNodeState.givenUp_run hlater hgiven
    cases hmove with
    | spawn hloop => exact (hs'.spawning pid hloop).2.1 hgiven'

namespace Sample

theorem serve1_valid : "serve_1" ≠ "" ∧ "serve_1".toList.all idChar = true := by decide

def serveApp : Pid := name "serve_1" serve1_valid

/-- A claimed deployment whose start task has put the app into `apps`. -/
def upAndServing : ServeNodeState where
  apps := Function.update (fun _ ↦ none) serveApp (some 7)
  starting := insert serveApp ∅
  givenUp := ∅
  loop := .listApps
  tasks := [⟨serveApp, .finish⟩]

theorem upAndServing_run : NodeRun .initial upAndServing := by
  have hclaim : NodeRun .initial (ServeNodeState.initial.goTo (.check serveApp)) :=
    .step .start (.claimed serveApp rfl)
  have hfresh : NodeRun .initial (ServeNodeState.initial.goTo (.insertStarting serveApp)) :=
    hclaim.step (.check rfl)
  have hspawn := (hfresh.step (.insertStarting rfl)).step (.spawn rfl)
  have hready := hspawn.step (.setupOk (i := 0) 7 rfl)
  exact hready.step (.insert (i := 0) rfl)

end Sample

open Sample in
theorem one_copy_upAndServing :
    (∀ pid, upAndServing.startsInProgress pid + upAndServing.runningApps pid ≤ 1) ∧
      (∀ pid s', NodeMove upAndServing (.inserted pid) s' → upAndServing.apps pid = none) ∧
      ∀ pid ∈ upAndServing.givenUp, ∀ s', NodeRun upAndServing s' →
        s'.startsInProgress pid = 0 ∧ ∀ s'', ¬NodeMove s' (.spawned pid) s'' :=
  one_copy upAndServing_run

end TandemAio
