import Mathlib.Data.List.Infix
import Mathlib.Logic.Function.Basic
import Mathlib.Tactic.Common

/-!
# `node_service.py`: the node as a plain daemon

The pid file against the process table, on Linux.  A command of the CLI takes one step for each
look at the machine and each change of it; between any two of them processes come and go as they
like, and any of them may be given a pid that the node had.
-/

namespace TandemAio

/-! ## Processes -/

/-- A process, as `/proc` and `os.kill` show it. -/
structure Process where
  /-- What `/proc/<pid>/cmdline` holds; `none` when it cannot be read. -/
  cmdline : Option (List UInt8)
  /-- Whether the user may signal it. -/
  owned : Bool
deriving DecidableEq

structure Machine where
  /-- `none` for a pid that no process has. -/
  processes : Nat → Option Process
  pidFile : Option Nat

/-- `b"tandem-node"` -/
def nodeName : List UInt8 := [116, 97, 110, 100, 101, 109, 45, 110, 111, 100, 101]

/-- What `_pid_is_node` makes of a process. -/
def Process.isNode (p : Process) : Bool :=
  match p.cmdline with
  | none => true
  | some bytes => (bytes.splitOn 0).any fun part ↦ decide (nodeName <:+: part)

namespace Machine

/-- `_pid_alive` -/
def pidAlive (m : Machine) (pid : Nat) : Bool := pid ≠ 0 && (m.processes pid).isSome

/-- `_pid_is_node` -/
def pidIsNode (m : Machine) (pid : Nat) : Bool :=
  match m.processes pid with
  | none => true
  | some p => p.isNode

/-- `_write_pid` -/
def writePid (m : Machine) (pid : Nat) : Machine := { m with pidFile := some pid }

/-- `_clear_pid` -/
def clearPid (m : Machine) : Machine := { m with pidFile := none }

end Machine

inductive Signal
  | sigterm
  | sigkill
deriving DecidableEq

/-- A signal that reached a process. -/
structure SentSignal where
  signal : Signal
  pid : Nat
  target : Process
deriving DecidableEq

/-- What `os.kill` comes to. -/
inductive KillOutcome
  | processLookupError
  | permissionError
  | delivered (target : Process)
deriving DecidableEq

/-- `os.kill`, for a signal that is not the null probe. -/
def Machine.kill (m : Machine) (pid : Nat) : KillOutcome :=
  match m.processes pid with
  | none => .processLookupError
  | some p => if p.owned then .delivered p else .permissionError

/-! ## Commands -/

/-- What asks `_daemon_running`. -/
inductive RunningCaller
  | getStatus
  | cmdNodeStart
  | startDaemon
deriving DecidableEq

/-- How far the CLI has got.  `restart` says whether `_cmd_node_restart` goes on after
`_stop_daemon`. -/
inductive CliPc
  | idle
  /-- `_daemon_running`: `_read_pid`, `_pid_alive`, `_pid_is_node` and the answer. -/
  | readPid (caller : RunningCaller)
  | probe (caller : RunningCaller) (pid : Nat)
  | identify (caller : RunningCaller) (pid : Nat)
  | answer (caller : RunningCaller) (running : Bool)
  /-- `_start_daemon`: `_spawn_detached`, `_write_pid` and the probe at the end. -/
  | spawn
  | writePid (pid : Nat)
  | confirm (pid : Nat)
  /-- `_stop_daemon`: `_read_pid`, `_pid_alive`, `_terminate`. -/
  | stopRead (restart : Bool)
  | stopProbe (restart : Bool) (pid : Nat)
  | terminate (restart : Bool) (pid : Nat)
  /-- The loop, with as many probes left to make. -/
  | wait (restart : Bool) (pid probes : Nat)
  | kill (restart : Bool) (pid : Nat)
  | clearPid (restart : Bool)
deriving DecidableEq

/-- The machine and the CLI on it. -/
structure NodeCli where
  machine : Machine
  pc : CliPc

namespace NodeCli

def initial (m : Machine) : NodeCli := ⟨m, .idle⟩

@[simps] def goTo (s : NodeCli) (pc : CliPc) : NodeCli := { s with pc := pc }

end NodeCli

/-- The first step of a command. -/
inductive Begins : CliPc → Prop
  | start : Begins (.readPid .cmdNodeStart)
  | stop : Begins (.stopRead false)
  | restart : Begins (.stopRead true)
  | status : Begins (.readPid .getStatus)

/-- Where a command goes on when `_daemon_running` has answered. -/
inductive CheckAnswered : RunningCaller → Bool → CliPc → Prop
  | status (running : Bool) : CheckAnswered .getStatus running .idle
  | alreadyRunning : CheckAnswered .cmdNodeStart true .idle
  /-- `start_node`, once the node is registered. -/
  | register : CheckAnswered .cmdNodeStart false (.readPid .startDaemon)
  | bail : CheckAnswered .cmdNodeStart false .idle
  | running : CheckAnswered .startDaemon true .idle
  | spawn : CheckAnswered .startDaemon false .spawn
  /-- `find_node_binary` finds none. -/
  | missingBinary : CheckAnswered .startDaemon false .idle

/-- Where a command goes on after `_stop_daemon`. -/
inductive StopReturned : Bool → CliPc → Prop
  | stop : StopReturned false .idle
  | restart : StopReturned true (.readPid .startDaemon)
  | bail : StopReturned true .idle

/-- Where `_stop_daemon` goes on when the loop has made one of its probes. -/
def afterProbe (restart : Bool) (pid probes : Nat) (alive : Bool) : CliPc :=
  if !alive then .clearPid restart
  else if probes = 0 then .kill restart pid
  else .wait restart pid probes

/-- Where `_stop_daemon` goes on when `_terminate` returns. -/
def afterKill (restart : Bool) (pid : Nat) : Signal → CliPc
  | .sigterm => .wait restart pid 30
  | .sigkill => .clearPid restart

/-- The step at which the CLI is about to send a signal. -/
def CliPc.sending : CliPc → Option (Bool × Nat × Signal)
  | .terminate restart pid => some (restart, pid, .sigterm)
  | .kill restart pid => some (restart, pid, .sigkill)
  | _ => none

/-- One step, and the signal that reaches a process in it. -/
inductive CliStep : NodeCli → Option SentSignal → NodeCli → Prop
  /-- Processes start, crash and exit; a reboot ends them all. -/
  | environment {s : NodeCli} (processes : Nat → Option Process) :
      CliStep s none { s with machine := { s.machine with processes := processes } }
  /-- The user interrupts the CLI, or a reboot does. -/
  | interrupt {s : NodeCli} : CliStep s none (s.goTo .idle)
  | command {s : NodeCli} {pc : CliPc} : s.pc = .idle → Begins pc → CliStep s none (s.goTo pc)
  | readPid {s : NodeCli} {caller : RunningCaller} : s.pc = .readPid caller →
      CliStep s none (s.goTo (match s.machine.pidFile with
        | none => .answer caller false
        | some pid => .probe caller pid))
  | probeAlive {s : NodeCli} {caller : RunningCaller} {pid : Nat} : s.pc = .probe caller pid →
      s.machine.pidAlive pid = true → CliStep s none (s.goTo (.identify caller pid))
  | probeDead {s : NodeCli} {caller : RunningCaller} {pid : Nat} : s.pc = .probe caller pid →
      s.machine.pidAlive pid = false → CliStep s none ⟨s.machine.clearPid, .answer caller false⟩
  | identify {s : NodeCli} {caller : RunningCaller} {pid : Nat} : s.pc = .identify caller pid →
      CliStep s none (s.goTo (.answer caller (s.machine.pidIsNode pid)))
  | answer {s : NodeCli} {caller : RunningCaller} {running : Bool} {pc : CliPc} :
      s.pc = .answer caller running → CheckAnswered caller running pc → CliStep s none (s.goTo pc)
  /-- `subprocess.Popen` gives the binary a pid that is free. -/
  | spawn {s : NodeCli} (binary : List UInt8) {pid : Nat} : s.pc = .spawn → pid ≠ 0 →
      s.machine.processes pid = none →
      CliStep s none ⟨{ s.machine with
        processes := Function.update s.machine.processes pid (some ⟨some (binary ++ [0]), true⟩) },
        .writePid pid⟩
  | writePid {s : NodeCli} {pid : Nat} : s.pc = .writePid pid →
      CliStep s none ⟨s.machine.writePid pid, .confirm pid⟩
  | confirm {s : NodeCli} {pid : Nat} : s.pc = .confirm pid →
      CliStep s none
        ⟨if s.machine.pidAlive pid then s.machine else s.machine.clearPid, .idle⟩
  | stopRead {s : NodeCli} {restart : Bool} : s.pc = .stopRead restart →
      CliStep s none (s.goTo (match s.machine.pidFile with
        | none => .clearPid restart
        | some pid => .stopProbe restart pid))
  | stopProbe {s : NodeCli} {restart : Bool} {pid : Nat} : s.pc = .stopProbe restart pid →
      CliStep s none (s.goTo (if s.machine.pidAlive pid then .terminate restart pid
        else .clearPid restart))
  | delivered {s : NodeCli} {restart : Bool} {pid : Nat} {signal : Signal} {p : Process} :
      s.pc.sending = some (restart, pid, signal) → s.machine.kill pid = .delivered p →
      CliStep s (some ⟨signal, pid, p⟩) (s.goTo (afterKill restart pid signal))
  /-- `ProcessLookupError` is caught. -/
  | gone {s : NodeCli} {restart : Bool} {pid : Nat} {signal : Signal} :
      s.pc.sending = some (restart, pid, signal) → s.machine.kill pid = .processLookupError →
      CliStep s none (s.goTo (afterKill restart pid signal))
  /-- `PermissionError` is not: the command ends with a traceback. -/
  | refused {s : NodeCli} {restart : Bool} {pid : Nat} {signal : Signal} :
      s.pc.sending = some (restart, pid, signal) → s.machine.kill pid = .permissionError →
      CliStep s none (s.goTo .idle)
  | wait {s : NodeCli} {restart : Bool} {pid probes : Nat} : s.pc = .wait restart pid (probes + 1) →
      CliStep s none (s.goTo (afterProbe restart pid probes (s.machine.pidAlive pid)))
  | clearPid {s : NodeCli} {restart : Bool} {pc : CliPc} : s.pc = .clearPid restart →
      StopReturned restart pc → CliStep s none ⟨s.machine.clearPid, pc⟩

/-- No condition on the steps of a run. -/
def EveryStep (_ _ : NodeCli) : Prop := True

/-- The runs from `s₀` whose steps all meet `ok`, with the signals sent in them. -/
inductive CliRun (ok : NodeCli → NodeCli → Prop) (s₀ : NodeCli) :
    List SentSignal → NodeCli → Prop
  | start : CliRun ok s₀ [] s₀
  | step {s s' : NodeCli} {sent : List SentSignal} {signal : Option SentSignal} :
      CliRun ok s₀ sent s → CliStep s signal s' → ok s s' →
      CliRun ok s₀ (sent ++ signal.toList) s'

/-! ## Whom the CLI signals -/

/-- The process that has the pid, if there is one that the user may signal, is recognised as the
node. -/
def Machine.Recognises (m : Machine) (pid : Nat) : Prop :=
  ∀ p, m.pidAlive pid = true → m.processes pid = some p → p.owned = true → m.pidIsNode pid = true

/-- The pid that a command goes on with, to write it down or to signal it. -/
def CliPc.holds : CliPc → Option Nat
  | .writePid pid | .stopProbe _ pid | .terminate _ pid | .wait _ pid (_ + 1) | .kill _ pid =>
    some pid
  | _ => none

/-- The pid is in the pid file, or a command goes on with it. -/
def NodeCli.Records (s : NodeCli) (pid : Nat) : Prop :=
  s.machine.pidFile = some pid ∨ s.pc.holds = some pid

/-- In the step no recorded pid is given to another process of the user's, unless it is a node as
well, and what is spawned is recognised as the node. -/
structure PidKept (s s' : NodeCli) : Prop where
  kept : ∀ pid p, s.Records pid → pid ≠ 0 → s'.machine.processes pid = some p →
    s.machine.processes pid = some p ∨ p.owned = false ∨ p.isNode = true
  spawned : ∀ pid p, s.pc = .spawn → s'.pc = .writePid pid → s'.machine.processes pid = some p →
    p.isNode = true

/-- The invariant: the recorded pids are the node's, and the CLI is about to signal a pid that it
has seen alive. -/
structure NodeCli.OnTarget (s : NodeCli) : Prop where
  recorded : ∀ pid, s.Records pid → s.machine.Recognises pid
  alive : ∀ restart pid signal, s.pc.sending = some (restart, pid, signal) → pid ≠ 0

section Signals

variable {s s' : NodeCli} {pid : Nat}

theorem pidAlive_ne_zero {m : Machine} (h : m.pidAlive pid = true) : pid ≠ 0 := by
  unfold Machine.pidAlive at h
  rw [Bool.and_eq_true] at h
  exact of_decide_eq_true h.1

theorem pidAlive_of_process {m : Machine} {p : Process} (hpid : pid ≠ 0)
    (h : m.processes pid = some p) : m.pidAlive pid = true := by
  unfold Machine.pidAlive
  rw [h, Bool.and_eq_true]
  exact ⟨decide_eq_true hpid, rfl⟩

theorem pidIsNode_eq {m : Machine} {p : Process} (h : m.processes pid = some p) :
    m.pidIsNode pid = p.isNode := by
  unfold Machine.pidIsNode
  rw [h]

theorem kill_delivered {m : Machine} {p : Process} (h : m.kill pid = .delivered p) :
    m.processes pid = some p ∧ p.owned = true ∧ m.pidIsNode pid = p.isNode := by
  unfold Machine.kill at h
  cases hprocess : m.processes pid with
  | none =>
    rw [hprocess] at h
    cases h
  | some q =>
    rw [hprocess] at h
    replace h : (if q.owned then KillOutcome.delivered q else .permissionError) = .delivered p := h
    by_cases howned : q.owned = true
    · rw [if_pos howned] at h
      cases h
      exact ⟨rfl, howned, pidIsNode_eq hprocess⟩
    · rw [if_neg howned] at h
      cases h

/-- A pid that is not recognised is that of a process that a signal reaches. -/
theorem exists_delivered {m : Machine} (h : ¬m.Recognises pid) :
    m.pidAlive pid = true ∧ ∃ p, m.kill pid = .delivered p ∧ p.isNode = false := by
  unfold Machine.Recognises at h
  push Not at h
  obtain ⟨p, halive, hprocess, howned, hnode⟩ := h
  refine ⟨halive, p, ?_, ?_⟩
  · unfold Machine.kill
    rw [hprocess]
    exact if_pos howned
  · rw [pidIsNode_eq hprocess] at hnode
    exact Bool.eq_false_iff.mpr hnode

theorem afterKill_sending (restart : Bool) (signal : Signal) :
    (afterKill restart pid signal).sending = none := by
  cases signal <;> rfl

theorem holds_of_sending {pc : CliPc} {restart : Bool} {signal : Signal}
    (h : pc.sending = some (restart, pid, signal)) : pc.holds = some pid := by
  cases pc with
  | terminate restart' pid' =>
    cases h
    rfl
  | kill restart' pid' =>
    cases h
    rfl
  | _ => cases h

theorem afterKill_holds (restart : Bool) (pid : Nat) (signal : Signal) :
    (afterKill restart pid signal).holds = some pid ∨
      (afterKill restart pid signal).holds = none := by
  cases signal with
  | sigterm => exact Or.inl rfl
  | sigkill => exact Or.inr rfl

theorem afterProbe_holds (restart : Bool) (pid probes : Nat) (alive : Bool) :
    (afterProbe restart pid probes alive).holds = some pid ∨
      (afterProbe restart pid probes alive).holds = none := by
  unfold afterProbe
  split_ifs
  · exact Or.inr rfl
  · exact Or.inl rfl
  · cases probes with
    | zero => exact Or.inr rfl
    | succ probes => exact Or.inl rfl

/-- `_start_daemon` and the probes send no signal: a signal is sent where `_stop_daemon` calls
`_terminate`, to the process that has the pid then. -/
theorem CliStep.sent {e : SentSignal} (h : CliStep s (some e) s') :
    ∃ restart, s.pc.sending = some (restart, e.pid, e.signal) ∧
      s.machine.kill e.pid = .delivered e.target ∧ s'.pc.sending = none := by
  cases h with
  | delivered hsending hkill =>
    rename_i restart pid signal p
    exact ⟨restart, hsending, hkill, afterKill_sending restart signal⟩

/-- A step leaves the processes as they are, unless it is one of the environment, which leaves the
rest as it is, or it spawns the node. -/
theorem CliStep.moves {e : Option SentSignal} (h : CliStep s e s') :
    (s'.machine.processes = s.machine.processes ∧ ∀ pid, s'.pc ≠ .writePid pid) ∨
      (s'.pc = s.pc ∧ s'.machine.pidFile = s.machine.pidFile) ∨
      (s.pc = .spawn ∧ ∃ pid p, pid ≠ 0 ∧ p.owned = true ∧ s'.pc = .writePid pid ∧
        s'.machine.processes = Function.update s.machine.processes pid (some p)) := by
  cases h with
  | environment processes => exact Or.inr (Or.inl ⟨rfl, rfl⟩)
  | interrupt => exact Or.inl ⟨rfl, fun pid h ↦ nomatch h⟩
  | command hpc hbegins => cases hbegins <;> exact Or.inl ⟨rfl, fun pid h ↦ nomatch h⟩
  | readPid hpc =>
    refine Or.inl ⟨rfl, fun pid ↦ ?_⟩
    rw [NodeCli.goTo_pc]
    cases s.machine.pidFile <;> exact fun h ↦ nomatch h
  | probeAlive hpc halive => exact Or.inl ⟨rfl, fun pid h ↦ nomatch h⟩
  | probeDead hpc halive => exact Or.inl ⟨rfl, fun pid h ↦ nomatch h⟩
  | identify hpc => exact Or.inl ⟨rfl, fun pid h ↦ nomatch h⟩
  | answer hpc hanswered => cases hanswered <;> exact Or.inl ⟨rfl, fun pid h ↦ nomatch h⟩
  | spawn binary hpc hpid hfree =>
    exact Or.inr (Or.inr ⟨hpc, _, _, hpid, rfl, rfl, rfl⟩)
  | writePid hpc => exact Or.inl ⟨rfl, fun pid h ↦ nomatch h⟩
  | confirm hpc =>
    refine Or.inl ⟨?_, fun pid h ↦ nomatch h⟩
    dsimp only
    split <;> rfl
  | stopRead hpc =>
    refine Or.inl ⟨rfl, fun pid ↦ ?_⟩
    rw [NodeCli.goTo_pc]
    cases s.machine.pidFile <;> exact fun h ↦ nomatch h
  | stopProbe hpc =>
    refine Or.inl ⟨rfl, fun pid ↦ ?_⟩
    rw [NodeCli.goTo_pc]
    split <;> exact fun h ↦ nomatch h
  | delivered hsending hkill =>
    rename_i restart pid signal p
    exact Or.inl ⟨rfl, fun pid ↦ by cases signal <;> exact fun h ↦ nomatch h⟩
  | gone hsending hkill =>
    rename_i restart pid signal
    exact Or.inl ⟨rfl, fun pid ↦ by cases signal <;> exact fun h ↦ nomatch h⟩
  | refused hsending hkill => exact Or.inl ⟨rfl, fun pid h ↦ nomatch h⟩
  | wait hpc =>
    refine Or.inl ⟨rfl, fun pid ↦ ?_⟩
    rw [NodeCli.goTo_pc]
    unfold afterProbe
    split_ifs <;> exact fun h ↦ nomatch h
  | clearPid hpc hreturned => cases hreturned <;> exact Or.inl ⟨rfl, fun pid h ↦ nomatch h⟩

/-- A pid gets on record when the node is spawned, and not otherwise. -/
theorem CliStep.records {e : Option SentSignal} (h : CliStep s e s') (hr : s'.Records pid) :
    s.Records pid ∨ (s.pc = .spawn ∧ s'.pc = .writePid pid) := by
  -- what a step goes on with, it had, and the pid file is only cleared
  have hfile : s'.pc.holds = none → s'.machine.pidFile = s.machine.pidFile → s.Records pid := by
    intro hholds hsame
    rcases hr with hr | hr
    · exact Or.inl (hsame.symm.trans hr)
    · rw [hholds] at hr
      cases hr
  have hcleared : s'.pc.holds = none → s'.machine.pidFile = none → s.Records pid := by
    intro hholds hnone
    rcases hr with hr | hr
    · rw [hnone] at hr
      cases hr
    · rw [hholds] at hr
      cases hr
  have hheld : ∀ held, s.pc.holds = some held → s'.pc.holds = some held ∨ s'.pc.holds = none →
      s'.machine.pidFile = s.machine.pidFile → s.Records pid := by
    intro held hbefore hafter hsame
    rcases hr with hr | hr
    · exact Or.inl (hsame.symm.trans hr)
    · rcases hafter with hafter | hafter
      · exact Or.inr (hbefore.trans (hafter.symm.trans hr))
      · rw [hafter] at hr
        cases hr
  cases h with
  | environment processes => exact Or.inl hr
  | interrupt => exact Or.inl (hfile rfl rfl)
  | command hpc hbegins => cases hbegins <;> exact Or.inl (hfile rfl rfl)
  | readPid hpc =>
    refine Or.inl (hfile ?_ rfl)
    rw [NodeCli.goTo_pc]
    cases s.machine.pidFile <;> rfl
  | probeAlive hpc halive => exact Or.inl (hfile rfl rfl)
  | probeDead hpc halive => exact Or.inl (hcleared rfl rfl)
  | identify hpc => exact Or.inl (hfile rfl rfl)
  | answer hpc hanswered => cases hanswered <;> exact Or.inl (hfile rfl rfl)
  | spawn binary hpc hpid hfree =>
    rename_i new
    rcases hr with hr | hr
    · exact Or.inl (Or.inl hr)
    · cases hr
      exact Or.inr ⟨hpc, rfl⟩
  | writePid hpc =>
    rename_i written
    rcases hr with hr | hr
    · cases hr
      exact Or.inl (Or.inr (by rw [hpc]; rfl))
    · cases hr
  | confirm hpc =>
    rename_i confirmed
    left
    by_cases halive : s.machine.pidAlive confirmed = true
    · exact hfile rfl (by dsimp only; rw [if_pos halive])
    · exact hcleared rfl (by dsimp only; rw [if_neg halive]; rfl)
  | stopRead hpc =>
    left
    rcases hr with hr | hr
    · exact Or.inl hr
    · rw [NodeCli.goTo_pc] at hr
      cases hpidFile : s.machine.pidFile with
      | none =>
        rw [hpidFile] at hr
        cases hr
      | some recorded =>
        rw [hpidFile] at hr
        cases hr
        exact Or.inl hpidFile
  | stopProbe hpc =>
    refine Or.inl (hheld _ (by rw [hpc]; rfl) ?_ rfl)
    rw [NodeCli.goTo_pc]
    split
    · exact Or.inl rfl
    · exact Or.inr rfl
  | delivered hsending hkill =>
    exact Or.inl (hheld _ (holds_of_sending hsending) (afterKill_holds _ _ _) rfl)
  | gone hsending hkill =>
    exact Or.inl (hheld _ (holds_of_sending hsending) (afterKill_holds _ _ _) rfl)
  | refused hsending hkill => exact Or.inl (hfile rfl rfl)
  | wait hpc =>
    refine Or.inl (hheld _ (by rw [hpc]; rfl) ?_ rfl)
    rw [NodeCli.goTo_pc]
    exact afterProbe_holds _ _ _ _
  | clearPid hpc hreturned => cases hreturned <;> exact Or.inl (hcleared rfl rfl)

/-- The CLI comes to a signal from a probe that has found the pid alive. -/
theorem CliStep.sendsAlive {restart : Bool} {signal : Signal} {e : Option SentSignal}
    (h : CliStep s e s') (hsending : s'.pc.sending = some (restart, pid, signal)) :
    s.pc.sending = some (restart, pid, signal) ∨ pid ≠ 0 := by
  cases h with
  | environment processes => exact Or.inl hsending
  | interrupt => cases hsending
  | command hpc hbegins => cases hbegins <;> cases hsending
  | readPid hpc =>
    rw [NodeCli.goTo_pc] at hsending
    cases hfile : s.machine.pidFile <;> rw [hfile] at hsending <;> cases hsending
  | probeAlive hpc halive => cases hsending
  | probeDead hpc halive => cases hsending
  | identify hpc => cases hsending
  | answer hpc hanswered => cases hanswered <;> cases hsending
  | spawn binary hpc hpid hfree => cases hsending
  | writePid hpc => cases hsending
  | confirm hpc => cases hsending
  | stopRead hpc =>
    rw [NodeCli.goTo_pc] at hsending
    cases hfile : s.machine.pidFile <;> rw [hfile] at hsending <;> cases hsending
  | stopProbe hpc =>
    rename_i restart' pid'
    right
    rw [NodeCli.goTo_pc] at hsending
    cases halive : s.machine.pidAlive pid' with
    | false =>
      rw [halive] at hsending
      cases hsending
    | true =>
      rw [halive] at hsending
      cases hsending
      exact pidAlive_ne_zero halive
  | delivered hsent hkill =>
    rw [NodeCli.goTo_pc, afterKill_sending] at hsending
    cases hsending
  | gone hsent hkill =>
    rw [NodeCli.goTo_pc, afterKill_sending] at hsending
    cases hsending
  | refused hsent hkill => cases hsending
  | wait hpc =>
    rename_i restart' pid' probes
    right
    rw [NodeCli.goTo_pc] at hsending
    unfold afterProbe at hsending
    -- only the last of the thirty probes is followed by a signal
    split_ifs at hsending with hdead hlast
    · cases hsending
    · cases hsending
      rw [Bool.not_eq_true', Bool.not_eq_false] at hdead
      exact pidAlive_ne_zero hdead
    · cases hsending
  | clearPid hpc hreturned => cases hreturned <;> cases hsending

/-- A step that gives no pid to a process meets the condition. -/
theorem PidKept.of_same (hsame : s'.machine.processes = s.machine.processes)
    (hwrite : ∀ pid, s'.pc ≠ .writePid pid) : PidKept s s' where
  kept := by
    intro pid p _ _ hprocess
    left
    rw [← hsame]
    exact hprocess
  spawned := fun pid p _ hpc _ ↦ absurd hpc (hwrite pid)

/-- The invariant holds after a step that meets the condition. -/
theorem CliStep.onTarget {e : Option SentSignal} (h : CliStep s e s') (hok : PidKept s s')
    (hs : s.OnTarget) : s'.OnTarget where
  recorded := by
    intro pid hr p halive hprocess howned
    have hnode : p.isNode = true := by
      rcases h.records hr with hbefore | ⟨hspawn, hwrite⟩
      · have hpid := pidAlive_ne_zero halive
        rcases hok.kept pid p hbefore hpid hprocess with hsame | hother | hnode
        · have hrecognised :=
            hs.recorded pid hbefore p (pidAlive_of_process hpid hsame) hsame howned
          rwa [pidIsNode_eq hsame] at hrecognised
        · rw [howned] at hother
          cases hother
        · exact hnode
      · exact hok.spawned pid p hspawn hwrite hprocess
    rwa [pidIsNode_eq hprocess]
  alive := by
    intro restart pid signal hsending
    rcases h.sendsAlive hsending with hbefore | hpid
    · exact hs.alive restart pid signal hbefore
    · exact hpid

theorem CliStep.sent_isNode {e : SentSignal} (h : CliStep s (some e) s') (hs : s.OnTarget) :
    e.target.isNode = true := by
  obtain ⟨restart, hsending, hkill, -⟩ := h.sent
  obtain ⟨hprocess, howned, hnode⟩ := kill_delivered hkill
  rw [← hnode]
  exact hs.recorded e.pid (Or.inr (holds_of_sending hsending)) e.target
    (pidAlive_of_process (hs.alive restart e.pid e.signal hsending) hprocess) hprocess howned

/-- A step that does not meet the condition leaves the pid of another process on record. -/
theorem CliStep.disturbs {e : Option SentSignal} (h : CliStep s e s') (hnot : ¬PidKept s s') :
    ∃ pid, s'.Records pid ∧ ¬s'.machine.Recognises pid := by
  have hforeign : ∀ pid p, s'.Records pid → pid ≠ 0 → s'.machine.processes pid = some p →
      p.owned = true → p.isNode ≠ true → ∃ pid, s'.Records pid ∧ ¬s'.machine.Recognises pid := by
    intro pid p hr hpid hprocess howned hnode
    refine ⟨pid, hr, fun hrecognises ↦ hnode ?_⟩
    rw [← pidIsNode_eq hprocess]
    exact hrecognises p (pidAlive_of_process hpid hprocess) hprocess howned
  rcases h.moves with ⟨hsame, hwrite⟩ | ⟨hpc, hfile⟩ | ⟨hspawn, pid, p, hpid, howned, hwrite, hnew⟩
  · exact absurd (PidKept.of_same hsame hwrite) hnot
  · by_contra hall
    refine hnot ⟨fun pid p hr hpid hprocess ↦ ?_, fun pid p hspawn hwrite _ ↦ ?_⟩
    · right
      by_contra hneither
      rw [not_or, Bool.not_eq_false] at hneither
      refine hall (hforeign pid p ?_ hpid hprocess hneither.1 hneither.2)
      unfold NodeCli.Records
      rw [hfile, hpc]
      exact hr
    · rw [hpc, hspawn] at hwrite
      cases hwrite
  · by_contra hall
    have hnode : p.isNode = true := by
      by_contra hnode
      have hat : s'.machine.processes pid = some p := by
        rw [hnew]
        exact Function.update_self ..
      exact hall (hforeign pid p (Or.inr (by rw [hwrite]; rfl)) hpid hat howned hnode)
    refine hnot ⟨fun other q _ _ hprocess ↦ ?_, fun other q _ hother hprocess ↦ ?_⟩
    · rw [hnew] at hprocess
      by_cases hsame : other = pid
      · rw [hsame, Function.update_self] at hprocess
        cases hprocess
        exact Or.inr (Or.inr hnode)
      · rw [Function.update_of_ne hsame] at hprocess
        exact Or.inl hprocess
    · rw [hwrite] at hother
      cases hother
      rw [hnew, Function.update_self] at hprocess
      cases hprocess
      exact hnode

end Signals

section Runs

variable {ok : NodeCli → NodeCli → Prop} {s₀ s s' : NodeCli} {sent : List SentSignal}

theorem CliRun.quiet (h : CliRun ok s₀ sent s) (hstep : CliStep s none s') (hok : ok s s') :
    CliRun ok s₀ sent s' := by
  have hrun := CliRun.step h hstep hok
  rwa [Option.toList_none, List.append_nil] at hrun

theorem CliRun.onTarget (h : CliRun PidKept s₀ sent s) (hs₀ : s₀.OnTarget) :
    s.OnTarget ∧ ∀ e ∈ sent, e.target.isNode = true := by
  induction h with
  | start => exact ⟨hs₀, fun e he ↦ (List.not_mem_nil he).elim⟩
  | step hrun hstep hok ih =>
    rename_i s s' sent signal
    obtain ⟨hs, hsent⟩ := ih
    refine ⟨hstep.onTarget hok hs, ?_⟩
    intro e he
    rcases List.mem_append.mp he with he | he
    · exact hsent e he
    · rw [Option.mem_toList] at he
      subst he
      exact hstep.sent_isNode hs

/-- The run can go on to a signal to a process that is not recognised as the node. -/
def GoesAstray (s₀ : NodeCli) (sent : List SentSignal) : Prop :=
  ∃ sent' s, CliRun EveryStep s₀ (sent ++ sent') s ∧ ∃ e ∈ sent', e.target.isNode = false

section Astray

variable {pid : Nat} {restart : Bool} {signal : Signal}

theorem CliRun.astray_of_sending (h : CliRun EveryStep s₀ sent s)
    (hforeign : ¬s.machine.Recognises pid)
    (hsending : s.pc.sending = some (restart, pid, signal)) : GoesAstray s₀ sent := by
  obtain ⟨-, p, hkill, hnode⟩ := exists_delivered hforeign
  exact ⟨[⟨signal, pid, p⟩], _, h.step (.delivered hsending hkill) trivial, _,
    List.mem_singleton_self _, hnode⟩

theorem CliRun.astray_of_probe (h : CliRun EveryStep s₀ sent s)
    (hforeign : ¬s.machine.Recognises pid) (hpc : s.pc = .stopProbe restart pid) :
    GoesAstray s₀ sent := by
  have hsending : (s.goTo (if s.machine.pidAlive pid then .terminate restart pid
      else .clearPid restart)).pc.sending = some (restart, pid, .sigterm) := by
    rw [NodeCli.goTo_pc, if_pos (exists_delivered hforeign).1]
    rfl
  exact (h.quiet (.stopProbe hpc) trivial).astray_of_sending hforeign hsending

/-- All the probes of the loop find the process alive. -/
theorem CliRun.astray_of_wait {probes : Nat} (h : CliRun EveryStep s₀ sent s)
    (hforeign : ¬s.machine.Recognises pid) (hpc : s.pc = .wait restart pid (probes + 1)) :
    GoesAstray s₀ sent := by
  have halive := (exists_delivered hforeign).1
  induction probes generalizing s with
  | zero =>
    have hsending : (s.goTo (afterProbe restart pid 0 (s.machine.pidAlive pid))).pc.sending =
        some (restart, pid, .sigkill) := by
      rw [NodeCli.goTo_pc, halive]
      rfl
    exact (h.quiet (.wait hpc) trivial).astray_of_sending hforeign hsending
  | succ probes ih =>
    refine ih (h.quiet (.wait hpc) trivial) hforeign ?_ halive
    rw [NodeCli.goTo_pc, halive]
    rfl

/-- A `tandem node stop` reads the pid file. -/
theorem CliRun.astray_of_pidFile (h : CliRun EveryStep s₀ sent s)
    (hforeign : ¬s.machine.Recognises pid) (hfile : s.machine.pidFile = some pid) :
    GoesAstray s₀ sent := by
  have hstop := (h.quiet .interrupt trivial).quiet (.command rfl .stop) trivial
  have hread := hstop.quiet (.stopRead rfl) trivial
  rw [NodeCli.goTo_machine, NodeCli.goTo_machine, hfile] at hread
  exact hread.astray_of_probe hforeign rfl

/-- From a state in which the pid of another process is on record a run can go on to a signal to
it. -/
theorem CliRun.astray (h : CliRun EveryStep s₀ sent s) (hr : s.Records pid)
    (hforeign : ¬s.machine.Recognises pid) : GoesAstray s₀ sent := by
  rcases hr with hfile | hheld
  · exact h.astray_of_pidFile hforeign hfile
  · cases hpc : s.pc with
    | writePid held =>
      rw [hpc] at hheld
      cases hheld
      exact (h.quiet (.writePid hpc) trivial).astray_of_pidFile hforeign rfl
    | stopProbe restart held =>
      rw [hpc] at hheld
      cases hheld
      exact h.astray_of_probe hforeign hpc
    | terminate restart held =>
      rw [hpc] at hheld
      cases hheld
      have hsending : s.pc.sending = some (restart, pid, .sigterm) := by
        rw [hpc]
        rfl
      exact h.astray_of_sending hforeign hsending
    | kill restart held =>
      rw [hpc] at hheld
      cases hheld
      have hsending : s.pc.sending = some (restart, pid, .sigkill) := by
        rw [hpc]
        rfl
      exact h.astray_of_sending hforeign hsending
    | wait restart held probes =>
      rw [hpc] at hheld
      cases probes with
      | zero => cases hheld
      | succ probes =>
        cases hheld
        exact h.astray_of_wait hforeign hpc
    | _ =>
      rw [hpc] at hheld
      cases hheld

end Astray

/-- If the pid file names no other process at first, runs that meet the condition signal the node
only.  A run in which a step does not meet it, or that starts with the pid of another process in
the pid file, can go on to a signal to that process. -/
theorem cli_signals_node (m : Machine) :
    ((∀ pid, m.pidFile = some pid → m.Recognises pid) →
        ∀ sent s, CliRun PidKept (.initial m) sent s → ∀ e ∈ sent, e.target.isNode = true) ∧
      (∀ sent s signal s', CliRun EveryStep (.initial m) sent s → CliStep s signal s' →
        ¬PidKept s s' → GoesAstray (.initial m) sent) ∧
      ((∃ pid, m.pidFile = some pid ∧ ¬m.Recognises pid) → GoesAstray (.initial m) []) := by
  refine ⟨fun hm sent s hrun ↦ ?_, fun sent s signal s' hrun hstep hnot ↦ ?_, ?_⟩
  · refine (hrun.onTarget ⟨?_, ?_⟩).2
    · rintro pid (hfile | hheld)
      · exact hm pid hfile
      · cases hheld
    · intro restart pid signal hsending
      cases hsending
  · obtain ⟨pid, hr, hforeign⟩ := hstep.disturbs hnot
    obtain ⟨sent', s'', hrun', e, he, hnode⟩ := (hrun.step hstep trivial).astray hr hforeign
    rw [List.append_assoc] at hrun'
    exact ⟨_, s'', hrun', e, List.mem_append_right _ he, hnode⟩
  · rintro ⟨pid, hfile, hforeign⟩
    exact CliRun.start.astray (Or.inl hfile) hforeign

end Runs

/-! ## A pid that another process was given -/

/-- `/home/u/.tandem/bin/tandem-node` and its end. -/
def nodeBinary : List UInt8 :=
  [47, 104, 111, 109, 101, 47, 117, 47, 46, 116, 97, 110, 100, 101, 109, 47, 98, 105, 110, 47] ++
    nodeName

/-- An editor: `vim notes.txt`. -/
def editor : Process :=
  ⟨some [118, 105, 109, 0, 110, 111, 116, 101, 115, 46, 116, 120, 116, 0], true⟩

/-- A machine on which one process has the pid that the pid file names. -/
def machineWith (p : Process) : Machine :=
  ⟨Function.update (fun _ ↦ none) 4242 (some p), some 4242⟩

def freshMachine : Machine := ⟨fun _ ↦ none, none⟩

def nodeProcess : Process := ⟨some (nodeBinary ++ [0]), true⟩

/-- The machine on which the node has just been spawned. -/
def spawnedMachine : Machine := { machineWith nodeProcess with pidFile := none }

/-- `tandem node start` on a fresh machine, up to its end. -/
theorem run_start {ok : NodeCli → NodeCli → Prop}
    (hok : ∀ s s', s'.machine.processes = s.machine.processes → (∀ pid, s'.pc ≠ .writePid pid) →
      ok s s')
    (hspawn : ok ⟨freshMachine, .spawn⟩ ⟨spawnedMachine, .writePid 4242⟩) :
    CliRun ok (.initial freshMachine) [] ⟨machineWith nodeProcess, .idle⟩ := by
  have hcommand : CliRun ok (.initial freshMachine) [] ⟨freshMachine, .readPid .cmdNodeStart⟩ :=
    CliRun.start.quiet (.command rfl .start) (hok _ _ rfl nofun)
  have hregister : CliRun ok (.initial freshMachine) [] ⟨freshMachine, .readPid .startDaemon⟩ :=
    (hcommand.quiet (.readPid rfl) (hok _ _ rfl nofun)).quiet (.answer rfl .register)
      (hok _ _ rfl nofun)
  have hready : CliRun ok (.initial freshMachine) [] ⟨freshMachine, .spawn⟩ :=
    (hregister.quiet (.readPid rfl) (hok _ _ rfl nofun)).quiet (.answer rfl .spawn)
      (hok _ _ rfl nofun)
  have hwritten : CliRun ok (.initial freshMachine) []
      ⟨machineWith nodeProcess, .confirm 4242⟩ :=
    (hready.quiet (.spawn nodeBinary rfl (by decide) rfl) hspawn).quiet (.writePid rfl)
      (hok _ _ rfl nofun)
  have hconfirmed := hwritten.quiet (CliStep.confirm rfl) (hok _ _ rfl nofun)
  exact hconfirmed

/-- The node is started, the machine reboots, an editor is given the pid, and `tandem node stop`
ends it. -/
theorem stop_signals_editor : ∃ sent s, CliRun EveryStep (.initial freshMachine) sent s ∧
    ∃ e ∈ sent, e.signal = .sigterm ∧ e.target.isNode = false := by
  have hstarted : CliRun EveryStep (.initial freshMachine) [] ⟨machineWith nodeProcess, .idle⟩ :=
    run_start (fun _ _ _ _ ↦ trivial) trivial
  have hreused : CliRun EveryStep (.initial freshMachine) [] ⟨machineWith editor, .idle⟩ :=
    hstarted.quiet (.environment (machineWith editor).processes) trivial
  have hstop : CliRun EveryStep (.initial freshMachine) []
      ⟨machineWith editor, .stopProbe false 4242⟩ :=
    (hreused.quiet (.command rfl .stop) trivial).quiet (.stopRead rfl) trivial
  have hprobed := hstop.quiet (CliStep.stopProbe rfl) trivial
  have hkill : (machineWith editor).kill 4242 = .delivered editor := rfl
  have hsent := hprobed.step (.delivered rfl hkill) trivial
  exact ⟨_, _, hsent, ⟨.sigterm, 4242, editor⟩, List.mem_singleton_self _, rfl, by decide⟩

/-- The node is started and stopped; the signal goes to the node. -/
theorem stop_signals_node : ∃ sent s, CliRun PidKept (.initial freshMachine) sent s ∧
    sent = [⟨.sigterm, 4242, nodeProcess⟩] ∧ ∀ e ∈ sent, e.target.isNode = true := by
  have hspawn : PidKept ⟨freshMachine, .spawn⟩ ⟨spawnedMachine, .writePid 4242⟩ := by
    constructor
    · rintro pid p (hfile | hheld)
      · cases hfile
      · cases hheld
    · rintro pid p - hwrite hprocess
      cases hwrite
      have hp : some nodeProcess = some p := hprocess
      cases hp
      decide
  have hstop : CliRun PidKept (.initial freshMachine) []
      ⟨machineWith nodeProcess, .stopProbe false 4242⟩ :=
    ((run_start (fun _ _ ↦ .of_same) hspawn).quiet (.command rfl .stop) (.of_same rfl nofun)).quiet
      (.stopRead rfl) (.of_same rfl nofun)
  have hprobed := hstop.quiet (CliStep.stopProbe rfl) (.of_same rfl nofun)
  have hkill : (machineWith nodeProcess).kill 4242 = .delivered nodeProcess := rfl
  have hsent := hprobed.step (.delivered rfl hkill) (.of_same rfl nofun)
  exact ⟨_, _, hsent, rfl, (cli_signals_node freshMachine).1 nofun _ _ hsent⟩

end TandemAio
