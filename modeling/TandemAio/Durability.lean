import TandemAio.Fencing
import TandemAio.JobStatus
import TandemAio.Payload
import TandemAio.Purge
import TandemAio.Receipts

/-!
# Results are durable until they are purged

What `get_job_results` answers of a completed task, over every run of requests and of the purge
script.
-/

open Reasoning Reasoning.Prog

namespace TandemAio

/-! ## The text of a file name -/

theorem idChar_ne_dot {c : Char} (h : idChar c = true) : c ≠ '.' := by
  rintro rfl
  revert h
  decide

theorem blobSuffix_dot (filename : String) : ∃ rest, (blobSuffix filename).toList = '.' :: rest := by
  unfold blobSuffix
  dsimp only
  split
  · -- the dot is no white space: it stays in front
    unfold strStrip
    have hfirst : isspace '.' = false := by decide
    rw [String.toList_ofList, String.toList_ofList]
    exact stripChars_cons hfirst _
  · exact ⟨_, rfl⟩

def Path.tid : Path → Tid
  | .task _ tid _ | .result _ tid => tid

theorem beforeDot_append {tid : Tid} {suffix : String} (h : ∃ rest, suffix.toList = '.' :: rest) :
    beforeDot (tid.text ++ suffix) = tid.text := by
  obtain ⟨rest, hrest⟩ := h
  have hid : ∀ c ∈ tid.text.toList, decide (c ≠ '.') = true := by
    intro c hc
    exact decide_eq_true (idChar_ne_dot (List.all_eq_true.mp tid.valid.2 c hc))
  unfold beforeDot
  rw [String.toList_append, hrest, List.takeWhile_append_of_pos hid,
    List.takeWhile_cons_of_neg (by simp), List.append_nil, String.ofList_toList]

/-- The text before the first dot of a file's name is the id of its task. -/
theorem beforeDot_name (path : Path) : beforeDot path.name = path.tid.text := by
  cases path with
  | task jobId tid filename => exact beforeDot_append (blobSuffix_dot filename)
  | result jobId tid => exact beforeDot_append ⟨_, rfl⟩

/-! ## What the reader and the cleaner do -/

namespace Store

def resultItem (s : Store) (tid : Tid) : Option ResultItem :=
  (s.task tid).map fun task ↦
    { summary := taskSummary task tid
      resultB64 := if task.status = .completed then
        some ((task.resultPath.bind s.file).getD (.bytes [])) else none }

/-- Whether a turn of the loop of `purge` deletes its file. -/
def deletes (s : Store) (v : Visit) : Bool :=
  v.execute && shouldDelete (s.task v.filepath.tid) v.now v.retentionSeconds

def visited (s : Store) (v : Visit) : Store := if s.deletes v then s.dropFile v.filepath else s

end Store

variable {s s' : Store} {l : Label} {t : Tid} {task : Task} {j : JobId} {v : Visit}

theorem wp_resultItem (s : Store) (tid : Tid) :
    wp (resultItem tid) (fun o s' ↦ o = s.resultItem tid ∧ s' = s) s := by
  rw [resultItem, wp_bind, Server.wp_read]
  unfold Store.resultItem
  cases s.task tid with
  | none => simp only [wp_pure, Option.map_none, and_self]
  | some task =>
    dsimp only
    have hstatus : (taskSummary task tid).status = task.status := rfl
    rw [hstatus]
    by_cases hcompleted : task.status = .completed
    · rw [if_pos hcompleted, wp_bind]
      cases hpath : task.resultPath with
      | none => simp [readBytes, hcompleted, hpath]
      | some path => simp [readBytes, hcompleted, hpath]
    · rw [if_neg hcompleted]
      by_cases herror : task.error = ""
      · simp [herror, hcompleted]
      · simp [herror, hcompleted, taskSummary]

theorem getJobResults_runs {items : List ResultItem} (h : Runs (getJobResults j) s items s') :
    items = (s.jobTasks j).filterMap s.resultItem ∧ s' = s := by
  have hwp : wp (getJobResults j)
      (fun items s' ↦ items = (s.jobTasks j).filterMap s.resultItem ∧ s' = s) s := by
    rw [getJobResults, wp_bind, Server.wp_read]
    exact wp_collect (wp_resultItem s) _
  exact hwp.elim h

theorem wp_purgeFile (s : Store) (v : Visit) :
    wp (purgeFile v) (fun _ s' ↦ s' = s.visited v) s := by
  have htask : getTaskNamed (beforeDot v.filepath.name) = Server.getTask v.filepath.tid := by
    rw [beforeDot_name]
    exact dif_pos v.filepath.tid.valid
  rw [purgeFile, htask, wp_bind, Server.wp_read]
  unfold Store.visited Store.deletes
  cases (v.execute && shouldDelete (s.task v.filepath.tid) v.now v.retentionSeconds) with
  | false => simp only [Bool.false_eq_true, if_false, wp_pure]
  | true => simp only [if_true, Server.wp_write]

theorem visited_task (s : Store) (v : Visit) : (s.visited v).task = s.task := by
  unfold Store.visited
  split <;> rfl

theorem visited_file (s : Store) (v : Visit) (path : Path) : (s.visited v).file path =
    if s.deletes v = true ∧ v.filepath = path then none else s.file path := by
  unfold Store.visited
  by_cases hdeletes : s.deletes v = true
  · by_cases hpath : v.filepath = path
    · rw [if_pos hdeletes, if_pos ⟨hdeletes, hpath⟩, ← hpath, Store.dropFile_file,
        Function.update_self]
    · rw [if_pos hdeletes, if_neg fun h ↦ hpath h.2, Store.dropFile_file,
        Function.update_of_ne (Ne.symm hpath)]
  · rw [if_neg hdeletes, if_neg fun h ↦ hdeletes h.1]

/-! ## What every state of a run keeps -/

/-- A task is listed by its own job. -/
def OwnList (s : Store) : Prop :=
  ∀ j t, t ∈ s.jobTasks j → ∀ task, s.task t = some task → task.jobId = j

/-- The last write to a completed task is its completion. -/
def Stamped (s : Store) : Prop :=
  ∀ t task, s.task t = some task → task.status = .completed →
    task.completedAt = some task.updatedAt ∧ task.resultPath = some (.result task.jobId t)

structure Sound (D : List Name) (s : Store) : Prop where
  known : Known D s
  coherent : Coherent s
  ownBlobs : OwnBlobs s
  ownList : OwnList s
  stamped : Stamped s

/-- An edit keeps what a task is. -/
theorem Edit.jobId {task' : Task} (h : Edit s t task l task') : task'.jobId = task.jobId := by
  cases h <;> rfl

theorem OwnList.move (h : OwnList s) (hm : Move s l s') : OwnList s' := by
  intro j t hmem task' ht'
  by_cases hcreate : ∃ a, l = .createTask a
  · obtain ⟨a, rfl⟩ := hcreate
    cases hm with
    | createTask _ hnew =>
      rw [Store.create_jobTasks] at hmem
      rw [Store.create_task] at ht'
      have hold : t ∈ s.jobTasks j ∨ t = a.tid ∧ j = a.jobId := by
        by_cases hj : j = a.jobId
        · subst hj
          rw [Function.update_self] at hmem
          exact (List.mem_append.mp hmem).imp id fun hmem ↦ ⟨List.mem_singleton.mp hmem, rfl⟩
        · rw [Function.update_of_ne hj] at hmem
          exact Or.inl hmem
      by_cases ht : t = a.tid
      · subst ht
        rw [Function.update_self, Option.some.injEq] at ht'
        subst ht'
        rcases hold with hold | ⟨-, rfl⟩
        · exact absurd hold (hnew.jobTasks j)
        · rfl
      · rw [Function.update_of_ne ht] at ht'
        rcases hold with hold | ⟨rfl, -⟩
        · exact h j t hold task' ht'
        · exact absurd rfl ht
  · have hlist := hm.jobTasks_eq fun a ha ↦ hcreate ⟨a, ha⟩
    rw [hlist] at hmem
    rcases hm.task_cases ht' with ⟨ht, -⟩ | ⟨a, rfl, -⟩ | ⟨task, ht, hedit⟩
    · exact h j t hmem task' ht
    · exact absurd ⟨a, rfl⟩ hcreate
    · rw [hedit.jobId]
      exact h j t hmem task ht

theorem Stamped.move (h : Stamped s) (hm : Move s l s') : Stamped s' := by
  intro t task' ht' hcompleted
  rcases hm.task_cases ht' with ⟨ht, -⟩ | ⟨a, rfl, -, rfl⟩ | ⟨task, ht, hedit⟩
  · exact h t task' ht hcompleted
  · cases hcompleted
  · cases hedit with
    | complete => exact ⟨rfl, rfl⟩
    | lease =>
      -- a lease is extended for a live task only
      cases hm with
      | lease hs hlive =>
        obtain rfl := Option.some.inj (ht.symm.trans hs)
        rw [show task.status = .completed from hcompleted] at hlive
        cases hlive
    | requeue | claim | start | fail => cases hcompleted

theorem Sound.move {D : List Name} (h : Sound D s) (hm : Move s l s')
    (hl : ∀ x ∈ l.draws, x ∈ D) : Sound D s' :=
  ⟨h.known.move hm hl, h.coherent.move hm, h.ownBlobs.move hm, h.ownList.move hm,
    h.stamped.move hm⟩

theorem Sound.visited {D : List Name} (h : Sound D s) (v : Visit) : Sound D (s.visited v) := by
  unfold Store.visited
  split
  · have hkept : ∀ path blob, (s.dropFile v.filepath).file path = some blob →
        s.file path = some blob := by
      intro path blob hfile
      rw [Store.dropFile_file] at hfile
      by_cases hpath : path = v.filepath
      · rw [hpath, Function.update_self] at hfile
        cases hfile
      · rwa [Function.update_of_ne hpath] at hfile
    refine ⟨{ h.known with taskFile := ?_, resultFile := ?_ },
      fun t task ht ↦ (h.coherent t task ht).frame (fun _ ↦ rfl) fun _ _ _ hp ↦ hp, h.ownBlobs,
      h.ownList, h.stamped⟩
    · exact fun j t f blob hfile ↦ h.known.taskFile j t f blob (hkept _ _ hfile)
    · exact fun j t blob hfile ↦ h.known.resultFile j t blob (hkept _ _ hfile)
  · exact h

/-! ## Steps -/

section Steps

variable [Sha256] {tr tr₁ tr₂ : List QueueEvent} {ev : QueueEvent} {e : Entry}

theorem PurgeStep.sound (h : PurgeStep tr ev s s') (hs : Sound (drawn (requestsOf tr)) s) :
    Sound (drawn (requestsOf (tr ++ [ev]))) s' := by
  cases h with
  | @request _ a r _ hf hr =>
    have hdrawn : drawn (requestsOf (tr ++ [.request ⟨s, a, r, s'⟩])) =
        drawn (requestsOf tr) ++ a.draws := by
      rw [requestsOf_append, drawn_append]
      exact congrArg _ (List.append_nil _)
    rw [hdrawn]
    have hstart : Sound (drawn (requestsOf tr) ++ a.draws) s :=
      { hs with known := hs.known.mono fun x hx ↦ List.mem_append_left _ hx }
    have hvia := Runs.via (hs.known.newTo (fresh_iff.mp hf).2) hr
    exact hvia.invariant (fun s₁ l s₂ hl hm h₁ ↦
      h₁.move hm fun x hx ↦ List.mem_append_right _ (hl.draws x hx)) hstart
  | @visit _ v _ hr =>
    obtain rfl := (wp_purgeFile s v).elim hr
    have hdrawn : requestsOf (tr ++ [.visit v]) = requestsOf tr := by
      rw [requestsOf_append]
      exact List.append_nil _
    rw [hdrawn]
    exact hs.visited v

theorem PurgeRun.sound (h : PurgeRun tr s) : Sound (drawn (requestsOf tr)) s := by
  induction h with
  | start =>
    refine ⟨.initial _ _ _, fun _ _ ht ↦ ?_, fun _ _ ht ↦ ?_, fun _ _ ht ↦ ?_, fun _ _ ht ↦ ?_⟩
    all_goals cases ht
  | step _ hstep ih => exact hstep.sound ih

/-! ## The result of a task -/

/-- A submission that is accepted with these bytes as the result. -/
def Entry.delivers (e : Entry) (t : Tid) (bytes : List UInt8) : Prop :=
  ∃ auth claimToken receipt, e.action = .result auth t claimToken (.octetStream bytes receipt) ∧
    e.response.ended = some .completed

/-- A turn of the purge script that comes to a result more than its retention after the task was
completed. -/
def QueueEvent.purges (path : Path) (completedAt : Time) : QueueEvent → Bool
  | .visit v => v.execute && (decide (v.filepath = path) &&
      decide (v.retentionSeconds < v.now - completedAt))
  | .request _ => false

/-- The task is as it was completed and its file has the result, if it was not purged since. -/
def HoldsResult (task : Task) (t : Tid) (bytes : List UInt8) (since : List QueueEvent)
    (s : Store) : Prop :=
  s.task t = none ∨ s.task t = some task ∧ s.file (.result task.jobId t) =
    if since.any (QueueEvent.purges (.result task.jobId t) task.updatedAt) then none
    else some (.bytes bytes)

omit [Sha256] in
/-- Only the completion of a task writes its result. -/
theorem Move.result_frame (hm : Move s l s') (hown : OwnBlobs s)
    (hcomplete : ∀ n bytes, l ≠ .complete n t bytes) :
    s'.file (.result j t) = s.file (.result j t) := by
  cases hm with
  | createTask a =>
    have hne : Path.result j t ≠ a.blobPath := fun he ↦ by cases he
    rw [Store.create_file, Function.update_of_ne hne]
  | @complete n _ tid task _ bytes _ ht =>
    obtain ⟨j', f', hpath⟩ := hown tid task ht
    have hne : Path.result j t ≠ task.blobPath := by
      rw [hpath]
      exact fun he ↦ by cases he
    have hresult : Path.result j t ≠ .result task.jobId tid := by
      intro he
      exact hcomplete n bytes (by rw [(Path.result.inj he).2])
    rw [Store.complete_file, Function.update_of_ne hne, Function.update_of_ne hresult]
  | @fail n _ tid task _ _ _ ht =>
    obtain ⟨j', f', hpath⟩ := hown tid task ht
    have hne : Path.result j t ≠ task.blobPath := by
      rw [hpath]
      exact fun he ↦ by cases he
    rw [Store.fail_file, Function.update_of_ne hne]
  | _ => rfl

omit [Sha256] in
/-- A task that is gone does not come back. -/
theorem Move.task_none (hm : Move s l s') (hnew : ∀ a, l = .createTask a → a.tid ≠ t)
    (ht : s.task t = none) : s'.task t = none := by
  cases ht' : s'.task t with
  | none => rfl
  | some task' =>
    rcases hm.task_cases ht' with ⟨hs, -⟩ | ⟨a, rfl, ha, -⟩ | ⟨task, hs, -⟩
    · rw [ht] at hs
      cases hs
    · exact absurd ha (hnew a rfl)
    · rw [ht] at hs
      cases hs

omit [Sha256] in
theorem HoldsResult.move {bytes : List UInt8} {since : List QueueEvent}
    (h : HoldsResult task t bytes since s) (hf : task.status.finished = true) (hcoh : Coherent s)
    (hown : OwnBlobs s) (hm : Move s l s') (hnew : ∀ a, l = .createTask a → a.tid ≠ t) :
    HoldsResult task t bytes since s' := by
  rcases h with hnone | ⟨ht, hfile⟩
  · exact Or.inl (hm.task_none hnew hnone)
  · rcases hcoh.finished_final hm ht hf with ht' | hnone
    · refine Or.inr ⟨ht', (hm.result_frame hown fun n bytes hl ↦ ?_).trans hfile⟩
      -- a submission completes a live task only
      subst hl
      cases hm with
      | complete _ _ hs _ hc =>
        obtain rfl := Option.some.inj (ht.symm.trans hs)
        exact TaskStatus.not_finished_of_live (hcoh.holder hs hc) hf
    · exact Or.inl hnone

omit [Sha256] in
theorem HoldsResult.visited {bytes : List UInt8} {since : List QueueEvent}
    (h : HoldsResult task t bytes since s) (hf : task.status.finished = true) (v : Visit) :
    HoldsResult task t bytes (since ++ [.visit v]) (s.visited v) := by
  unfold HoldsResult
  rw [visited_task]
  rcases h with hnone | ⟨ht, hfile⟩
  · exact Or.inl hnone
  · refine Or.inr ⟨ht, ?_⟩
    have hpurges : (s.deletes v = true ∧ v.filepath = .result task.jobId t) ↔
        QueueEvent.purges (.result task.jobId t) task.updatedAt (.visit v) = true := by
      unfold Store.deletes QueueEvent.purges
      by_cases hpath : v.filepath = .result task.jobId t
      · have htid : v.filepath.tid = t := by
          rw [hpath]
          rfl
        rw [htid, ht]
        simp [shouldDelete, hf, hpath]
      · simp [hpath]
    rw [visited_file, hfile, List.any_append, List.any_cons, List.any_nil, Bool.or_false]
    by_cases hpurged : QueueEvent.purges (.result task.jobId t) task.updatedAt (.visit v) = true
    · rw [if_pos (hpurges.mpr hpurged), hpurged, Bool.or_true, if_pos rfl]
    · rw [if_neg fun h ↦ hpurged (hpurges.mp h), Bool.eq_false_iff.mpr hpurged, Bool.or_false]

theorem HoldsResult.step {bytes : List UInt8} {since : List QueueEvent}
    (h : HoldsResult task t bytes since s) (hf : task.status.finished = true)
    (hs : Sound (drawn (requestsOf tr)) s) (ht : t ∈ drawn (requestsOf tr))
    (hstep : PurgeStep tr ev s s') : HoldsResult task t bytes (since ++ [ev]) s' := by
  cases hstep with
  | @request _ a r _ hfresh hr =>
    have hany : ∀ path time, (since ++ [QueueEvent.request ⟨s, a, r, s'⟩]).any
        (QueueEvent.purges path time) = since.any (QueueEvent.purges path time) := by
      intro path time
      rw [List.any_append]
      exact Bool.or_false _
    have hnotNew := (fresh_iff.mp hfresh).2
    have hkept : Coherent s' ∧ OwnBlobs s' ∧ HoldsResult task t bytes since s' := by
      refine (Runs.via (hs.known.newTo hnotNew) hr).invariant (I := fun s ↦ Coherent s ∧
        OwnBlobs s ∧ HoldsResult task t bytes since s) (fun s₁ l s₂ hl hm h₁ ↦ ?_)
        ⟨hs.coherent, hs.ownBlobs, h⟩
      refine ⟨h₁.1.move hm, h₁.2.1.move hm, h₁.2.2.move hf h₁.1 h₁.2.1 hm fun a' hc ↦ ?_⟩
      subst hc
      rintro rfl
      refine hnotNew a'.tid ?_ ht
      rw [hl.createTask]
      exact List.mem_cons_self
    unfold HoldsResult
    rw [hany]
    exact hkept.2.2
  | @visit _ v _ hr =>
    obtain rfl := (wp_purgeFile s v).elim hr
    exact h.visited hf v

/-- The submission writes the result. -/
theorem Entry.delivers.holds {bytes : List UInt8} (hd : e.delivers t bytes)
    (hown : OwnBlobs e.before) (hr : Runs (handle e.action) e.before e.response e.after) :
    ∃ task, task.status = .completed ∧ e.after.task t = some task ∧
      HoldsResult task t bytes [] e.after := by
  obtain ⟨auth, claimToken, receipt, ha, hended⟩ := hd
  rw [ha] at hr
  have hsubmitted := (wp_submitTaskResult e.before auth t claimToken _).elim hr
  generalize hresponse : e.response = r at hsubmitted hended
  generalize hafter : e.after = s' at hsubmitted
  cases hsubmitted with
  | refused hrefusal => cases r <;> simp [Response.ended, Response.refusal] at hended hrefusal
  | rejected => simp [Response.ended] at hended
  | @completed n task _ _ s₁ _ hmay _ hcharge he =>
    subst he
    have hcharged : s₁.task = e.before.task := by
      rcases Store.chargeFor_eq hcharge with rfl | ⟨k, amount, rfl⟩ <;> rfl
    have hstored : ((s₁.complete t n task bytes).refresh task.jobId).task t =
        some (task.complete (.result task.jobId t) s₁.clock) := by
      rw [Store.refresh_task, Store.complete_task, Function.update_self, hcharged, hmay.stored,
        Option.map_some]
    refine ⟨_, rfl, hstored, Or.inr ⟨hstored, ?_⟩⟩
    obtain ⟨j, f, hpath⟩ := hown t task hmay.stored
    have hne : Path.result task.jobId t ≠ task.blobPath := by
      rw [hpath]
      exact fun he ↦ by cases he
    show (s₁.complete t n task bytes).file (.result task.jobId t) = some (.bytes bytes)
    rw [Store.complete_file, Function.update_of_ne hne, Function.update_self]

/-- From its submission on, a result is held until it is purged. -/
theorem PurgeRun.holdsResult {bytes : List UInt8} (h : PurgeRun tr s)
    (htr : tr = tr₁ ++ .request e :: tr₂) (hd : e.delivers t bytes) :
    ∃ task, task.status = .completed ∧ t ∈ drawn (requestsOf tr) ∧
      HoldsResult task t bytes tr₂ s := by
  induction h generalizing tr₂ with
  | start => simp at htr
  | @step tr ev s s' hr hs ih =>
    rcases List.eq_nil_or_concat tr₂ with rfl | ⟨tr₃, ev', rfl⟩
    · obtain ⟨rfl, hev⟩ := List.append_inj' htr rfl
      obtain rfl := List.singleton_inj.mp hev
      clear ih
      cases hs with
      | request hf hruns =>
        obtain ⟨task, hcompleted, hafter, hholds⟩ := hd.holds hr.sound.ownBlobs hruns
        have hknown := (hr.step (.request hf hruns)).sound.known.task t task hafter
        exact ⟨task, hcompleted, hknown, hholds⟩
    · rw [List.concat_eq_append, ← List.cons_append, ← List.append_assoc] at htr
      obtain ⟨hbefore, hev⟩ := List.append_inj' htr rfl
      obtain rfl := List.singleton_inj.mp hev
      obtain ⟨task, hcompleted, hknown, hholds⟩ := ih hbefore
      refine ⟨task, hcompleted, ?_, ?_⟩
      · rw [requestsOf_append, drawn_append]
        exact List.mem_append_left _ hknown
      · rw [List.concat_eq_append]
        exact hholds.step (by rw [hcompleted]; rfl) hr.sound hknown hs

/-! ## A completed task has been submitted -/

theorem Via.completes {a : Action} {r : Response} (hvia : Via (a.may s r) s s')
    (ht' : s'.task t = some task) (hcompleted : task.status = .completed) :
    (∃ task₀, s.task t = some task₀ ∧ task₀.status = .completed) ∨
      ∃ n bytes, a.may s r (.complete n t bytes) := by
  have hkept : ∀ task, s'.task t = some task → task.status = .completed →
      (∃ task₀, s.task t = some task₀ ∧ task₀.status = .completed) ∨
        ∃ n bytes, a.may s r (.complete n t bytes) := by
    refine hvia.invariant (I := fun s₁ ↦ ∀ task, s₁.task t = some task →
      task.status = .completed → _) (fun s₁ l s₂ hl hm h₁ task₂ ht₂ hc ↦ ?_)
      fun task ht hc ↦ Or.inl ⟨task, ht, hc⟩
    rcases hm.task_cases ht₂ with ⟨hs, -⟩ | ⟨a', rfl, -, rfl⟩ | ⟨task₁, hs, hedit⟩
    · exact h₁ task₂ hs hc
    · cases hc
    · cases hedit with
      | complete n bytes => exact Or.inr ⟨n, bytes, hl⟩
      | lease => exact h₁ task₁ hs hc
      | requeue | claim | start | fail => cases hc
  exact hkept task ht' hcompleted

theorem Submitted.delivers {auth : NodeAuth} {tid : Tid} {claimToken : Option Token}
    {body : ResultBody} {r : Response} (h : Submitted s auth tid claimToken body r s')
    (hended : r.ended = some .completed) :
    ∃ bytes receipt, body = .octetStream bytes receipt := by
  cases h with
  | refused hrefusal => cases r <;> simp [Response.ended, Response.refusal] at hended hrefusal
  | rejected => simp [Response.ended] at hended
  | failed => simp [Response.ended] at hended
  | completed => exact ⟨_, _, rfl⟩

theorem PurgeRun.delivered (h : PurgeRun tr s) (ht : s.task t = some task)
    (hcompleted : task.status = .completed) :
    ∃ tr₁ e tr₂ bytes, tr = tr₁ ++ .request e :: tr₂ ∧ e.delivers t bytes := by
  induction h generalizing task with
  | start => cases ht
  | @step tr ev s s' hr hs ih =>
    have hlater : ∀ task₀, s.task t = some task₀ → task₀.status = .completed →
        ∃ tr₁ e tr₂ bytes, tr ++ [ev] = tr₁ ++ .request e :: tr₂ ∧ e.delivers t bytes := by
      intro task₀ ht₀ hc₀
      obtain ⟨tr₁, e, tr₂, bytes, rfl, hd⟩ := ih ht₀ hc₀
      exact ⟨tr₁, e, tr₂ ++ [ev], bytes, by simp, hd⟩
    cases hs with
    | @request _ a r _ hf hruns =>
      have hvia := Runs.via (hr.sound.known.newTo (fresh_iff.mp hf).2) hruns
      rcases hvia.completes ht hcompleted with ⟨task₀, ht₀, hc₀⟩ | ⟨n, bytes, hmay⟩
      · exact hlater task₀ ht₀ hc₀
      · obtain ⟨auth, claimToken, body, rfl, -, hended⟩ := hmay.complete
        have hsubmitted := (wp_submitTaskResult s auth t claimToken body).elim hruns
        obtain ⟨bytes, receipt, rfl⟩ := hsubmitted.delivers hended
        exact ⟨tr, _, [], bytes, rfl, auth, claimToken, receipt, rfl, hended⟩
    | @visit _ v _ hruns =>
      obtain rfl := (wp_purgeFile s v).elim hruns
      rw [visited_task] at ht
      exact hlater task ht hcompleted

/-- An item of a completed task has the bytes that were submitted for it, or none once the purge
script has come to its file more than its retention after the completion. -/
theorem results_durable {items : List ResultItem} {item : ResultItem} (h : PurgeRun tr s)
    (hq : Runs (getJobResults j) s items s') (hitem : item ∈ items)
    (hcompleted : item.summary.status = .completed) :
    ∃ completedAt, item.summary.completedAt = some completedAt ∧
      (∃ tr₁ e tr₂ bytes, tr = tr₁ ++ .request e :: tr₂ ∧ e.delivers item.summary.tid bytes) ∧
      ∀ tr₁ e tr₂ bytes, tr = tr₁ ++ .request e :: tr₂ → e.delivers item.summary.tid bytes →
        item.resultB64 = some (.bytes (if tr₂.any (QueueEvent.purges
          (.result j item.summary.tid) completedAt) then [] else bytes)) := by
  obtain ⟨rfl, -⟩ := getJobResults_runs hq
  obtain ⟨t, hmem, hresult⟩ := List.mem_filterMap.mp hitem
  obtain ⟨task, ht, rfl⟩ := Option.map_eq_some_iff.mp hresult
  have hstatus : task.status = .completed := hcompleted
  obtain ⟨hcompletedAt, hpath⟩ := h.sound.stamped t task ht hstatus
  have hjob : task.jobId = j := h.sound.ownList j t hmem task ht
  refine ⟨task.updatedAt, hcompletedAt, h.delivered ht hstatus, fun tr₁ e tr₂ bytes htr hd ↦ ?_⟩
  obtain ⟨task', -, -, hholds⟩ := h.holdsResult (t := t) htr hd
  rcases hholds with hnone | ⟨ht', hfile⟩
  · cases ht.symm.trans hnone
  · obtain rfl := Option.some.inj (ht.symm.trans ht')
    rw [hjob] at hfile hpath
    show (if task.status = .completed then
      some ((task.resultPath.bind s.file).getD (.bytes [])) else none) = _
    rw [if_pos hstatus, hpath, Option.bind_some, hfile]
    show _ = some (Blob.bytes (if (tr₂.any (QueueEvent.purges (.result j t) task.updatedAt)) = true
      then [] else bytes))
    split <;> rfl

theorem PurgeRun.visit (h : PurgeRun tr s) (v : Visit) :
    PurgeRun (tr ++ [.visit v]) (s.visited v) := by
  obtain ⟨_, s', hvisit, hs'⟩ := wp_purgeFile s v
  rw [← hs']
  exact h.step (.visit hvisit)

/-- An execution of the purge script is a part of a run. -/
theorem PurgeRun.purge {execute : Bool} {retentionSeconds : Time} {files : List Path}
    (h : PurgeRun tr s) (hr : Runs (purge execute retentionSeconds files) s () s') :
    PurgeRun (tr ++ files.map fun filepath ↦
      .visit ⟨execute, retentionSeconds, s.clock, filepath⟩) s' := by
  obtain ⟨now, s₀, hnow, hloop⟩ := Runs.of_bind hr
  have htime : now = s.clock ∧ s₀ = s :=
    ((Server.wp_read _ _ (fun now s₀ ↦ now = s.clock ∧ s₀ = s) s).mpr ⟨rfl, rfl⟩).elim hnow
  obtain ⟨rfl, rfl⟩ := htime
  generalize s₀.clock = now at hloop
  clear hr hnow
  induction files generalizing tr s₀ with
  | nil =>
    cases hloop
    rw [List.map_nil, List.append_nil]
    exact h
  | cons filepath files ih =>
    obtain ⟨_, s₁, hfile, hrest⟩ := Runs.of_bind hloop
    have hstep := h.step (.visit hfile)
    have hpurged := ih s₁ hstep hrest
    rw [List.append_assoc] at hpurged
    exact hpurged

end Steps

namespace Sample

/-- `nodeA` delivers one byte for `task1`, and two hours pass. -/
def delivering : List Action :=
  downloadTask1 ++ [.result authA task1 (some claim1) (.octetStream [42]
    (.object (reportSuccess 1 task1 ⟨[42], 7, Sha256.hexdigest [], hashed_nil⟩))),
    .tick (7201 * second)]

def delivered : Store := lastStore server (performed 200 server delivering)

/-- The purge script comes to the result with the default retention of one hour. -/
def purging : Visit := ⟨true, 3600 * second, 7201 * second, .result job task1⟩

theorem delivered_run : ∃ tr₁ e tr₂, PurgeRun (tr₁ ++ .request e :: tr₂) delivered ∧
    e.delivers task1 [42] := by
  have hrun : Run (performed 200 server delivering) delivered :=
    run_performed (by decide +kernel) (by decide +kernel)
  have haction : (performed 200 server delivering).map (·.action) = delivering :=
    performed_map_action (by decide +kernel)
  have hended : ((performed 200 server delivering)[6]?).map (·.response.ended) =
      some (some .completed) := by
    decide +kernel
  obtain ⟨e, he, hcompleted⟩ := Option.map_eq_some_iff.mp hended
  have he' : ((performed 200 server delivering).map (·.action))[6]? = some e.action := by
    rw [List.getElem?_map, he, Option.map_some]
  rw [haction] at he'
  obtain ⟨hlt, heq⟩ := List.getElem?_eq_some_iff.mp he
  have hsplit := List.take_append_drop 6 (performed 200 server delivering)
  rw [List.drop_eq_getElem_cons hlt, heq] at hsplit
  rw [← hsplit] at hrun
  have hpurgeRun := hrun.purgeRun
  rw [List.map_append, List.map_cons] at hpurgeRun
  exact ⟨_, e, _, hpurgeRun, authA, some claim1, _, (Option.some.inj he').symm, hcompleted⟩

theorem queried (s : Store) (bytes : List UInt8)
    (h : (exec 20 (getJobResults job) s).map (fun r ↦ r.1.map fun item ↦
      (item.summary.tid, item.summary.status, item.resultB64)) =
        some [(task1, .completed, some (.bytes bytes)), (task2, .queued, none)]) :
    ∃ items item s', Runs (getJobResults job) s items s' ∧ item ∈ items ∧
      item.summary.tid = task1 ∧ item.summary.status = .completed ∧
      item.resultB64 = some (.bytes bytes) := by
  obtain ⟨⟨items, s'⟩, hexec, hitems⟩ := Option.map_eq_some_iff.mp h
  have hmem : (task1, TaskStatus.completed, some (Blob.bytes bytes)) ∈ items.map fun item ↦
      (item.summary.tid, item.summary.status, item.resultB64) := by
    rw [show items.map _ = _ from hitems]
    exact List.mem_cons_self
  obtain ⟨item, hitem, heq⟩ := List.mem_map.mp hmem
  obtain ⟨htid, hstatus⟩ := Prod.mk.inj heq
  obtain ⟨hstatus, hbytes⟩ := Prod.mk.inj hstatus
  exact ⟨items, item, s', runs_of_exec hexec, hitem, htid, hstatus, hbytes⟩

end Sample

open Sample in
theorem results_durable_delivered : ∃ (item : ResultItem) (completedAt : Time),
    item.summary.tid = task1 ∧ item.resultB64 = some (.bytes [42]) ∧
      item.summary.completedAt = some completedAt := by
  obtain ⟨tr₁, e, tr₂, hrun, hd⟩ := delivered_run
  obtain ⟨items, item, s', hruns, hitem, htid, hstatus, hbytes⟩ :=
    queried delivered [42] (by decide +kernel)
  obtain ⟨completedAt, hcompletedAt, -⟩ := results_durable hrun hruns hitem hstatus
  exact ⟨item, completedAt, htid, hbytes, hcompletedAt⟩

open Sample in
/-- The purge deletes the result of a task whose hash lives, and the answer has no bytes. -/
theorem purged_result_is_empty :
    ¬∀ tr s s' j items item, PurgeRun tr s → Runs (getJobResults j) s items s' → item ∈ items →
      item.summary.status = .completed → ∀ tr₁ e tr₂ bytes, tr = tr₁ ++ .request e :: tr₂ →
      e.delivers item.summary.tid bytes → item.resultB64 = some (.bytes bytes) := by
  intro h
  obtain ⟨tr₁, e, tr₂, hrun, hd⟩ := delivered_run
  have hpurged := hrun.visit purging
  obtain ⟨items, item, s'', hruns, hitem, htid, hstatus, hbytes⟩ :=
    queried (delivered.visited purging) [] (by decide +kernel)
  rw [List.append_assoc, List.cons_append] at hpurged
  rw [← htid] at hd
  have hall := h _ _ _ _ _ _ hpurged hruns hitem hstatus tr₁ e _ [42] rfl hd
  rw [hbytes] at hall
  cases hall

end TandemAio
