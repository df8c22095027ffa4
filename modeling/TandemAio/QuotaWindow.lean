import Mathlib
import TandemAio.Reasoning.Expiring
import TandemAio.Store

/-!
# `app/utils/quota.py`: the window of a quota

`record_usage` is three Redis commands.  Those of any number of calls interleave, and a call may
stop between two of its own.
-/

open Reasoning

namespace TandemAio

def quotaResetSeconds : Time := 86400 * second

/-- How far a call of `record_usage` has got. -/
inductive RecordPc
  | idle
  /-- Before the `TTL`. -/
  | charged (apiKey : ApiKey)
  /-- The `TTL` was negative; before the `EXPIRE`. -/
  | unlimited (apiKey : ApiKey)
deriving DecidableEq

/-- The counters `quota:<api_key>:instructions_used`, and the calls. -/
structure QuotaCounters where
  now : Time
  /-- `none` when there is no such key. -/
  counter : ApiKey → Option (Expiring Int)
  call : Nat → RecordPc

inductive QuotaCommand
  | incrby (i : Nat) (apiKey : ApiKey) (amount : Int)
  | ttl (i : Nat)
  | expire (i : Nat)
  /-- The call stops where it is. -/
  | die (i : Nat)
  | tick (now : Time)
deriving DecidableEq

namespace QuotaCounters

def initial : QuotaCounters := ⟨0, fun _ ↦ none, fun _ ↦ .idle⟩

/-- What `check_quota` reads. -/
def used (s : QuotaCounters) (apiKey : ApiKey) : Option Int :=
  (Expiring.present s.now (s.counter apiKey)).map Expiring.value

/-- When the counter is due to vanish. -/
def deadline (s : QuotaCounters) (apiKey : ApiKey) : Option Time :=
  (Expiring.present s.now (s.counter apiKey)).bind Expiring.expireAt

@[simps] def goTo (s : QuotaCounters) (i : Nat) (pc : RecordPc) : QuotaCounters :=
  { s with call := Function.update s.call i pc }

@[simps] def write (s : QuotaCounters) (apiKey : ApiKey) (c : Option (Expiring Int)) :
    QuotaCounters :=
  { s with counter := Function.update s.counter apiKey c }

/-- The call adds to the counter; Redis refuses a sum that is no signed 64-bit integer. -/
def adds (s : QuotaCounters) (i : Nat) (apiKey : ApiKey) (amount : Int) : Prop :=
  s.call i = .idle ∧ -2 ^ 63 ≤ (s.used apiKey).getD 0 + amount ∧
    (s.used apiKey).getD 0 + amount < 2 ^ 63

instance adds.decidable (s : QuotaCounters) (i : Nat) (apiKey : ApiKey) (amount : Int) :
    Decidable (s.adds i apiKey amount) := inferInstanceAs (Decidable (_ ∧ _))

/-- One command of `record_usage`. -/
def step (s : QuotaCounters) : QuotaCommand → QuotaCounters
  | .incrby i apiKey amount =>
    if s.adds i apiKey amount then
      (s.write apiKey (Expiring.incrby s.now amount (s.counter apiKey))).goTo i (.charged apiKey)
    else s
  | .ttl i =>
    match s.call i with
    | .charged apiKey =>
      s.goTo i (if Expiring.unlimited s.now (s.counter apiKey) then .unlimited apiKey else .idle)
    | _ => s
  | .expire i =>
    match s.call i with
    | .unlimited apiKey =>
      (s.write apiKey (Expiring.limit s.now quotaResetSeconds (s.counter apiKey))).goTo i .idle
    | _ => s
  | .die i => s.goTo i .idle
  | .tick now => if s.now ≤ now then { s with now := now } else s

def run (s : QuotaCounters) (commands : List QuotaCommand) : QuotaCounters := commands.foldl step s

/-- What a command adds to a counter. -/
def charge (s : QuotaCounters) (apiKey : ApiKey) : QuotaCommand → Int
  | .incrby i apiKey' amount => if apiKey' = apiKey ∧ s.adds i apiKey' amount then amount else 0
  | _ => 0

/-- What the commands of a run add to a counter. -/
def charges (s : QuotaCounters) (apiKey : ApiKey) : List QuotaCommand → Int
  | [] => 0
  | c :: rest => s.charge apiKey c + (s.step c).charges apiKey rest

/-- With this command a call for the key returns. -/
def returns (s : QuotaCounters) (apiKey : ApiKey) : QuotaCommand → Bool
  | .ttl i => s.call i = .charged apiKey && !Expiring.unlimited s.now (s.counter apiKey)
  | .expire i => s.call i = .unlimited apiKey
  | _ => false

/-- A call for the key returns in a run. -/
def anyReturns (s : QuotaCounters) (apiKey : ApiKey) : List QuotaCommand → Bool
  | [] => false
  | c :: rest => s.returns apiKey c || (s.step c).anyReturns apiKey rest

/-- The commands since the counter was last absent, the first of which has made it: it has been
there ever since and holds what they have added, it vanishes no earlier than a day after the first
of them and is due within a day once a call has returned. -/
structure WindowSince (apiKey : ApiKey) (s : QuotaCounters) (commands : List QuotaCommand) :
    Prop where
  opened : s.used apiKey = none
  charged : ∃ i amount rest, commands = .incrby i apiKey amount :: rest ∧ s.adds i apiKey amount
  present : ∀ first, first ≠ [] → first <+: commands → (s.run first).used apiKey ≠ none
  counted : (s.run commands).used apiKey = some (s.charges apiKey commands)
  due : ∀ d, (s.run commands).deadline apiKey = some d →
    s.now + quotaResetSeconds ≤ d ∧ d ≤ (s.run commands).now + quotaResetSeconds
  limited : s.anyReturns apiKey commands = true → (s.run commands).deadline apiKey ≠ none

variable {s : QuotaCounters} {apiKey : ApiKey} {c : QuotaCommand} {commands : List QuotaCommand}

/-! ## Runs in two parts -/

theorem run_append (first second : List QuotaCommand) :
    s.run (first ++ second) = (s.run first).run second := List.foldl_append

theorem run_concat : s.run (commands ++ [c]) = (s.run commands).step c := run_append commands [c]

theorem charges_append (first second : List QuotaCommand) :
    s.charges apiKey (first ++ second) =
      s.charges apiKey first + (s.run first).charges apiKey second := by
  induction first generalizing s with
  | nil => exact (Int.zero_add _).symm
  | cons c rest ih =>
    rw [List.cons_append, charges, ih, charges, Int.add_assoc]
    rfl

theorem charges_concat :
    s.charges apiKey (commands ++ [c]) =
      s.charges apiKey commands + (s.run commands).charge apiKey c := by
  rw [charges_append, charges, charges, Int.add_zero]

theorem anyReturns_append (first second : List QuotaCommand) :
    s.anyReturns apiKey (first ++ second) =
      (s.anyReturns apiKey first || (s.run first).anyReturns apiKey second) := by
  induction first generalizing s with
  | nil => rfl
  | cons c rest ih =>
    rw [List.cons_append, anyReturns, ih, anyReturns, Bool.or_assoc]
    rfl

theorem anyReturns_concat :
    s.anyReturns apiKey (commands ++ [c]) =
      (s.anyReturns apiKey commands || (s.run commands).returns apiKey c) := by
  rw [anyReturns_append, anyReturns, anyReturns, Bool.or_false]

/-! ## What a command does to a counter -/

/-- Everything that one command can do to the counter of a key. -/
inductive CounterStep (s : QuotaCounters) (apiKey : ApiKey) (c : QuotaCommand) : Prop
  | same : (s.step c).used apiKey = s.used apiKey →
      (s.step c).deadline apiKey = s.deadline apiKey → s.charge apiKey c = 0 →
      (s.used apiKey ≠ none → s.returns apiKey c = true → s.deadline apiKey ≠ none) →
      CounterStep s apiKey c
  | vanishes (d : Time) : s.deadline apiKey = some d → d ≤ (s.step c).now →
      (s.step c).used apiKey = none → CounterStep s apiKey c
  | adds (i : Nat) (amount : Int) : c = .incrby i apiKey amount → s.adds i apiKey amount →
      (s.step c).used apiKey = some ((s.used apiKey).getD 0 + s.charge apiKey c) →
      (s.step c).deadline apiKey = s.deadline apiKey → s.returns apiKey c = false →
      (s.step c).now = s.now → CounterStep s apiKey c
  | limits (i : Nat) : s.call i = .unlimited apiKey → s.used apiKey ≠ none →
      (s.step c).used apiKey = s.used apiKey →
      (s.step c).deadline apiKey = some (s.now + quotaResetSeconds) → s.charge apiKey c = 0 →
      (s.step c).now = s.now → CounterStep s apiKey c

/-- A counter that is absent is not due. -/
theorem deadline_of_absent (h : s.used apiKey = none) : s.deadline apiKey = none := by
  unfold deadline
  rw [Option.map_eq_none_iff.mp h]
  rfl

theorem used_goTo (i : Nat) (pc : RecordPc) : (s.goTo i pc).used apiKey = s.used apiKey := rfl

theorem deadline_goTo (i : Nat) (pc : RecordPc) :
    (s.goTo i pc).deadline apiKey = s.deadline apiKey := rfl

section Write

variable {apiKey' : ApiKey} {x : Option (Expiring Int)}

theorem used_write_self (h : Expiring.present s.now x = x) :
    (s.write apiKey x).used apiKey = x.map Expiring.value := by
  unfold used
  rw [write_counter, Function.update_self, write_now, h]

theorem deadline_write_self (h : Expiring.present s.now x = x) :
    (s.write apiKey x).deadline apiKey = x.bind Expiring.expireAt := by
  unfold deadline
  rw [write_counter, Function.update_self, write_now, h]

theorem used_write_of_ne (h : apiKey ≠ apiKey') :
    (s.write apiKey' x).used apiKey = s.used apiKey := by
  unfold used
  rw [write_counter, Function.update_of_ne h, write_now]

theorem deadline_write_of_ne (h : apiKey ≠ apiKey') :
    (s.write apiKey' x).deadline apiKey = s.deadline apiKey := by
  unfold deadline
  rw [write_counter, Function.update_of_ne h, write_now]

end Write

theorem counterStep_incrby (i : Nat) (apiKey' : ApiKey) (amount : Int) :
    CounterStep s apiKey (.incrby i apiKey' amount) := by
  by_cases hadds : s.adds i apiKey' amount
  · have hstep : s.step (.incrby i apiKey' amount) =
        (s.write apiKey' (Expiring.incrby s.now amount (s.counter apiKey'))).goTo i
          (.charged apiKey') :=
      if_pos hadds
    by_cases hkey : apiKey = apiKey'
    · subst hkey
      have hcharge : s.charge apiKey (.incrby i apiKey amount) = amount := if_pos ⟨rfl, hadds⟩
      refine .adds i amount rfl hadds ?_ ?_ rfl (by rw [hstep]; rfl)
      · rw [hstep, used_goTo, used_write_self Expiring.present_incrby, hcharge]
        rfl
      · rw [hstep, deadline_goTo, deadline_write_self Expiring.present_incrby]
        rfl
    · have hcharge : s.charge apiKey (.incrby i apiKey' amount) = 0 :=
        if_neg fun h ↦ hkey h.1.symm
      refine .same ?_ ?_ hcharge fun _ h ↦ by cases h
      · rw [hstep, used_goTo, used_write_of_ne hkey]
      · rw [hstep, deadline_goTo, deadline_write_of_ne hkey]
  · have hstep : s.step (.incrby i apiKey' amount) = s := if_neg hadds
    have hcharge : s.charge apiKey (.incrby i apiKey' amount) = 0 := if_neg fun h ↦ hadds h.2
    exact .same (by rw [hstep]) (by rw [hstep]) hcharge fun _ h ↦ by cases h

theorem step_ttl (i : Nat) : s.step (.ttl i) = s ∨ ∃ pc, s.step (.ttl i) = s.goTo i pc := by
  cases hcall : s.call i with
  | charged apiKey' =>
    right
    refine ⟨if Expiring.unlimited s.now (s.counter apiKey') then .unlimited apiKey' else .idle, ?_⟩
    simp only [step, hcall]
  | idle | unlimited => exact .inl (by simp only [step, hcall])

theorem step_expire (i : Nat) :
    (s.step (.expire i) = s ∧ ∀ apiKey', s.call i ≠ .unlimited apiKey') ∨
      ∃ apiKey', s.call i = .unlimited apiKey' ∧ s.step (.expire i) =
        (s.write apiKey' (Expiring.limit s.now quotaResetSeconds (s.counter apiKey'))).goTo i
          .idle := by
  cases hcall : s.call i with
  | unlimited apiKey' => exact .inr ⟨apiKey', rfl, by simp only [step, hcall]⟩
  | idle | charged => exact .inl ⟨by simp only [step, hcall], fun _ h ↦ by cases h⟩

theorem counterStep_ttl (i : Nat) : CounterStep s apiKey (.ttl i) := by
  have hreturns : s.used apiKey ≠ none → s.returns apiKey (.ttl i) = true →
      s.deadline apiKey ≠ none := by
    intro _ h hnone
    have hlimited := (Bool.and_eq_true_iff.mp h).2
    unfold deadline at hnone
    unfold Expiring.unlimited at hlimited
    rw [hnone] at hlimited
    cases hlimited
  rcases step_ttl (s := s) i with hstep | ⟨pc, hstep⟩
  · exact .same (by rw [hstep]) (by rw [hstep]) rfl hreturns
  · exact .same (by rw [hstep, used_goTo]) (by rw [hstep, deadline_goTo]) rfl hreturns

theorem counterStep_expire (i : Nat) : CounterStep s apiKey (.expire i) := by
  rcases step_expire (s := s) i with ⟨hstep, hcall⟩ | ⟨apiKey', hcall, hstep⟩
  · refine .same (by rw [hstep]) (by rw [hstep]) rfl fun _ h ↦ ?_
    exact absurd (of_decide_eq_true h) (hcall apiKey)
  · by_cases hkey : apiKey = apiKey'
    · subst hkey
      have hpresent : Expiring.present s.now (Expiring.limit s.now quotaResetSeconds
          (s.counter apiKey)) = _ := Expiring.present_limit (by decide)
      have hused : (s.step (.expire i)).used apiKey = s.used apiKey := by
        rw [hstep, used_goTo, used_write_self hpresent]
        unfold Expiring.limit
        rw [Option.map_map]
        rfl
      have hdeadline : (s.step (.expire i)).deadline apiKey =
          (s.used apiKey).map fun _ ↦ s.now + quotaResetSeconds := by
        rw [hstep, deadline_goTo, deadline_write_self hpresent]
        unfold Expiring.limit used
        cases Expiring.present s.now (s.counter apiKey) <;> rfl
      cases habsent : s.used apiKey with
      | none =>
        -- the key has vanished in the meantime
        refine .same hused ?_ rfl fun h ↦ absurd habsent h
        rw [hdeadline, habsent, deadline_of_absent habsent]
        rfl
      | some v =>
        refine .limits i hcall (by rw [habsent]; exact Option.some_ne_none v) hused ?_ rfl
          (by rw [hstep]; rfl)
        rw [hdeadline, habsent]
        rfl
    · have hne : s.call i ≠ .unlimited apiKey := by
        rw [hcall]
        exact fun h ↦ hkey (RecordPc.unlimited.inj h).symm
      refine .same ?_ ?_ rfl fun _ h ↦ absurd (of_decide_eq_true h) hne
      · rw [hstep, used_goTo, used_write_of_ne hkey]
      · rw [hstep, deadline_goTo, deadline_write_of_ne hkey]

theorem counterStep_tick (now : Time) : CounterStep s apiKey (.tick now) := by
  by_cases hle : s.now ≤ now
  · have hstep : s.step (.tick now) = { s with now := now } := if_pos hle
    rcases Expiring.present_later hle (s.counter apiKey) with hsame | ⟨hgone, hdue⟩
    · refine .same ?_ ?_ rfl fun _ h ↦ by cases h
      · rw [hstep]
        exact congrArg (Option.map Expiring.value) hsame
      · rw [hstep]
        exact congrArg (Option.bind · Expiring.expireAt) hsame
    · have hnone : (s.step (.tick now)).used apiKey = none := by
        rw [hstep]
        exact congrArg (Option.map Expiring.value) hgone
      cases hk : Expiring.present s.now (s.counter apiKey) with
      | none =>
        have habsent : s.used apiKey = none := congrArg (Option.map Expiring.value) hk
        refine .same (hnone.trans habsent.symm) ?_ rfl fun _ h ↦ by cases h
        rw [deadline_of_absent hnone, deadline_of_absent habsent]
      | some k =>
        obtain ⟨d, hd, hpast⟩ := hdue k hk
        refine .vanishes d ?_ ?_ hnone
        · unfold deadline
          rw [hk, Option.bind_some, hd]
        · rw [hstep]
          exact hpast
  · have hstep : s.step (.tick now) = s := if_neg hle
    exact .same (by rw [hstep]) (by rw [hstep]) rfl fun _ h ↦ by cases h

theorem counterStep (s : QuotaCounters) (apiKey : ApiKey) (c : QuotaCommand) :
    CounterStep s apiKey c := by
  cases c with
  | incrby i apiKey' amount => exact counterStep_incrby i apiKey' amount
  | ttl i => exact counterStep_ttl i
  | expire i => exact counterStep_expire i
  | die i => exact .same rfl rfl rfl fun _ h ↦ by cases h
  | tick now => exact counterStep_tick now

theorem step_now (c : QuotaCommand) : s.now ≤ (s.step c).now := by
  cases c with
  | incrby i apiKey' amount =>
    unfold step
    dsimp only
    split <;> exact le_refl _
  | ttl i =>
    rcases step_ttl (s := s) i with hstep | ⟨pc, hstep⟩
    · rw [hstep]
    · rw [hstep]
      exact le_refl _
  | expire i =>
    rcases step_expire (s := s) i with ⟨hstep, -⟩ | ⟨apiKey', -, hstep⟩
    · rw [hstep]
    · rw [hstep]
      exact le_refl _
  | die i => exact le_refl _
  | tick now =>
    unfold step
    dsimp only
    split
    · assumption
    · exact le_refl _

theorem run_now (commands : List QuotaCommand) : s.now ≤ (s.run commands).now := by
  induction commands generalizing s with
  | nil => exact le_refl _
  | cons c rest ih => exact le_trans (step_now c) ih

/-! ## Windows -/

theorem WindowSince.concat (h : s.WindowSince apiKey commands)
    (hused : ((s.run commands).step c).used apiKey ≠ none) :
    s.WindowSince apiKey (commands ++ [c]) := by
  have hpresent : (s.run commands).used apiKey ≠ none := by
    rw [h.counted]
    exact Option.some_ne_none _
  have hcharged : ∃ i amount rest, commands ++ [c] = .incrby i apiKey amount :: rest ∧
      s.adds i apiKey amount := by
    obtain ⟨i, amount, rest, hfirst, hadds⟩ := h.charged
    exact ⟨i, amount, rest ++ [c], congrArg (· ++ [c]) hfirst, hadds⟩
  have hthere : ∀ first, first ≠ [] → first <+: commands ++ [c] →
      (s.run first).used apiKey ≠ none := by
    intro first hne hfirst
    rcases List.prefix_concat_iff.mp hfirst with rfl | hfirst
    · rw [run_concat]
      exact hused
    · exact h.present first hne hfirst
  have hlater : (s.run commands).now + quotaResetSeconds ≤
      ((s.run commands).step c).now + quotaResetSeconds := Int.add_le_add_right (step_now c) _
  rcases counterStep (s.run commands) apiKey c with
    ⟨hsame, hdeadline, hcharge, hreturns⟩ | ⟨d, -, -, hnone⟩ |
    ⟨i, amount, -, -, hadd, hdeadline, hreturns, -⟩ |
    ⟨i, -, -, hsame, hdeadline, hcharge, hsamenow⟩
  · refine ⟨h.opened, hcharged, hthere, ?_, fun d hd ↦ ?_, fun hany ↦ ?_⟩
    · rw [run_concat, charges_concat, hsame, hcharge, Int.add_zero, h.counted]
    · rw [run_concat, hdeadline] at hd
      rw [run_concat]
      exact ⟨(h.due d hd).1, le_trans (h.due d hd).2 hlater⟩
    · rw [run_concat, hdeadline]
      rw [anyReturns_concat, Bool.or_eq_true] at hany
      rcases hany with hbefore | hlast
      · exact h.limited hbefore
      · exact hreturns hpresent hlast
  · exact absurd hnone hused
  · refine ⟨h.opened, hcharged, hthere, ?_, fun d hd ↦ ?_, fun hany ↦ ?_⟩
    · rw [run_concat, charges_concat, hadd, h.counted, Option.getD_some]
    · rw [run_concat, hdeadline] at hd
      rw [run_concat]
      exact ⟨(h.due d hd).1, le_trans (h.due d hd).2 hlater⟩
    · rw [run_concat, hdeadline]
      rw [anyReturns_concat, hreturns, Bool.or_false] at hany
      exact h.limited hany
  · refine ⟨h.opened, hcharged, hthere, ?_, fun d hd ↦ ?_, fun _ ↦ ?_⟩
    · rw [run_concat, charges_concat, hsame, hcharge, Int.add_zero, h.counted]
    · rw [run_concat, hdeadline] at hd
      obtain rfl := Option.some.inj hd
      rw [run_concat, hsamenow]
      exact ⟨Int.add_le_add_right (run_now commands) _, le_refl _⟩
    · rw [run_concat, hdeadline]
      exact Option.some_ne_none _

/-- A command that makes an absent counter present opens a window. -/
theorem WindowSince.opens (hnone : s.used apiKey = none)
    (hused : (s.step c).used apiKey ≠ none) : s.WindowSince apiKey [c] := by
  rcases counterStep s apiKey c with
    ⟨hsame, -⟩ | ⟨d, -, -, hnone'⟩ | ⟨i, amount, hc, hadds, hadd, hdeadline, hreturns, -⟩ |
    ⟨i, -, hpresent, -⟩
  · rw [hsame] at hused
    exact absurd hnone hused
  · exact absurd hnone' hused
  · have hrun : s.run [c] = s.step c := rfl
    have hdue : (s.run [c]).deadline apiKey = none := by
      rw [hrun, hdeadline, deadline_of_absent hnone]
    refine ⟨hnone, ⟨i, amount, [], by rw [hc], hadds⟩, fun first hne hfirst ↦ ?_, ?_, fun d hd ↦ ?_,
      fun hany ↦ ?_⟩
    · rcases List.prefix_concat_iff.mp (show first <+: [] ++ [c] from hfirst) with rfl | hnil
      · exact hused
      · exact absurd (List.prefix_nil.mp hnil) hne
    · rw [hrun, hadd, hnone, charges, charges, Int.add_zero, Option.getD_none, Int.zero_add]
    · rw [hdue] at hd
      cases hd
    · rw [anyReturns, anyReturns, hreturns] at hany
      cases hany
  · exact absurd hnone hpresent

/-- Whatever follows a state without the counter, the counter is absent or in its window. -/
theorem windowSince_or (hnone : s.used apiKey = none) (commands : List QuotaCommand) :
    (s.run commands).used apiKey = none ∨
      ∃ old new, commands = old ++ new ∧ (s.run old).WindowSince apiKey new := by
  induction commands using List.reverseRecOn with
  | nil => exact .inl hnone
  | append_singleton commands c ih =>
    by_cases hused : (s.run (commands ++ [c])).used apiKey = none
    · exact .inl hused
    · right
      rw [run_concat] at hused
      rcases ih with habsent | ⟨old, new, rfl, hwindow⟩
      · exact ⟨commands, [c], rfl, .opens habsent hused⟩
      · refine ⟨old, new ++ [c], List.append_assoc old new [c], hwindow.concat ?_⟩
        rw [run_append] at hused
        exact hused

/-! ## Deadlines -/

/-- No call is about to set the deadline of a key. -/
def NonePending (s : QuotaCounters) (apiKey : ApiKey) : Prop := ∀ i, s.call i ≠ .unlimited apiKey

theorem NonePending.goTo {i : Nat} {pc : RecordPc} (h : s.NonePending apiKey)
    (hpc : pc ≠ .unlimited apiKey) : (s.goTo i pc).NonePending apiKey := by
  intro j
  rw [goTo_call, Function.update_apply]
  split
  · exact hpc
  · exact h j

/-- While the key has a deadline, no call finds that it has none. -/
theorem NonePending.step (h : s.NonePending apiKey) (hd : s.deadline apiKey ≠ none)
    (c : QuotaCommand) : (s.step c).NonePending apiKey := by
  cases c with
  | incrby i apiKey' amount =>
    unfold QuotaCounters.step
    dsimp only
    split
    · exact NonePending.goTo (s := s.write apiKey' _) h fun hpc ↦ by cases hpc
    · exact h
  | ttl i =>
    cases hcall : s.call i with
    | charged apiKey' =>
      simp only [QuotaCounters.step, hcall]
      refine h.goTo fun hpc ↦ ?_
      split at hpc
      · rename_i hunlimited
        obtain rfl := RecordPc.unlimited.inj hpc
        exact hd (Option.isNone_iff_eq_none.mp hunlimited)
      · cases hpc
    | idle | unlimited =>
      simp only [QuotaCounters.step, hcall]
      exact h
  | expire i =>
    rcases step_expire (s := s) i with ⟨hstep, -⟩ | ⟨apiKey', -, hstep⟩
    · rw [hstep]
      exact h
    · rw [hstep]
      exact NonePending.goTo (s := s.write apiKey' _) h fun hpc ↦ by cases hpc
  | die i => exact h.goTo fun hpc ↦ by cases hpc
  | tick now =>
    unfold QuotaCounters.step
    dsimp only
    split <;> exact h

/-- The window that is open is still open, with the same deadline. -/
structure Holding (apiKey : ApiKey) (d : Time) (s : QuotaCounters) (commands : List QuotaCommand) :
    Prop where
  pending : (s.run commands).NonePending apiKey
  deadline : (s.run commands).deadline apiKey = some d
  counted : (s.run commands).used apiKey =
    some ((s.used apiKey).getD 0 + s.charges apiKey commands)

theorem deadline_future {d : Time} (h : s.deadline apiKey = some d) : s.now < d := by
  obtain ⟨key, hkey, hd⟩ := Option.bind_eq_some_iff.mp h
  exact (Expiring.present_eq_some.mp hkey).2 d hd

theorem Holding.concat {d : Time} (h : s.Holding apiKey d commands) :
    s.Holding apiKey d (commands ++ [c]) ∨
      (d ≤ (s.run (commands ++ [c])).now ∧ (s.run (commands ++ [c])).used apiKey = none) := by
  have hdue : (s.run commands).deadline apiKey ≠ none := by
    rw [h.deadline]
    exact Option.some_ne_none d
  have hpending := h.pending.step hdue c
  rcases counterStep (s.run commands) apiKey c with
    ⟨hsame, hdeadline, hcharge, -⟩ | ⟨d', hd', hpast, hnone⟩ |
    ⟨i, amount, -, -, hadd, hdeadline, -, -⟩ | ⟨i, hcall, -⟩
  · left
    refine ⟨run_concat ▸ hpending, ?_, ?_⟩
    · rw [run_concat, hdeadline, h.deadline]
    · rw [run_concat, charges_concat, hsame, hcharge, Int.add_zero, h.counted]
  · right
    rw [h.deadline] at hd'
    obtain rfl := Option.some.inj hd'
    rw [run_concat]
    exact ⟨hpast, hnone⟩
  · left
    refine ⟨run_concat ▸ hpending, ?_, ?_⟩
    · rw [run_concat, hdeadline, h.deadline]
    · rw [run_concat, charges_concat, hadd, h.counted, Option.getD_some, Int.add_assoc]
  · exact absurd hcall (h.pending i)

theorem holding_or {d : Time} (hd : s.deadline apiKey = some d) (hpending : s.NonePending apiKey)
    (commands : List QuotaCommand) :
    s.Holding apiKey d commands ∨ ∃ before after, commands = before ++ after ∧
      d ≤ (s.run before).now ∧ (s.run before).used apiKey = none := by
  induction commands using List.reverseRecOn with
  | nil =>
    refine .inl ⟨hpending, hd, ?_⟩
    cases hused : s.used apiKey with
    | none =>
      rw [deadline_of_absent hused] at hd
      cases hd
    | some v =>
      rw [charges, Int.add_zero]
      exact hused
  | append_singleton commands c ih =>
    rcases ih with hholding | ⟨before, after, rfl, hpast, hnone⟩
    · rcases hholding.concat (c := c) with hholding | ⟨hpast, hnone⟩
      · exact .inl hholding
      · exact .inr ⟨commands ++ [c], [], (List.append_nil _).symm, hpast, hnone⟩
    · exact .inr ⟨before, after ++ [c], List.append_assoc before after [c], hpast, hnone⟩

end QuotaCounters

/-- In every interleaving of calls of `record_usage`, any of which may stop between two of its
commands, a counter that is there holds exactly what was added since it was last absent.  It does
not vanish within a day of the first of these charges, and from the first return of a call on it is
due to vanish within a day. -/
theorem quota_window (apiKey : ApiKey) (commands : List QuotaCommand) :
    (QuotaCounters.initial.run commands).used apiKey = none ∨
      ∃ old new, commands = old ++ new ∧
        (QuotaCounters.initial.run old).WindowSince apiKey new :=
  QuotaCounters.windowSince_or rfl commands

/-- A window has the deadline for good that it has when no call is about to set one: until then
every later charge is added to it, and from then on none of its charges counts. -/
theorem quota_deadline_kept {s : QuotaCounters} {apiKey : ApiKey} {d : Time}
    (hd : s.deadline apiKey = some d) (hpending : s.NonePending apiKey)
    (commands : List QuotaCommand) :
    ((s.run commands).now < d → (s.run commands).deadline apiKey = some d ∧
      (s.run commands).used apiKey =
        some ((s.used apiKey).getD 0 + s.charges apiKey commands)) ∧
    (d ≤ (s.run commands).now → (s.run commands).used apiKey = none ∨
      ∃ old new, commands = old ++ new ∧ d ≤ (s.run old).now ∧
        (s.run old).WindowSince apiKey new) := by
  rcases QuotaCounters.holding_or hd hpending commands with
    hholding | ⟨before, after, rfl, hpast, hnone⟩
  · refine ⟨fun _ ↦ ⟨hholding.deadline, hholding.counted⟩, fun hle ↦ ?_⟩
    exact absurd (QuotaCounters.deadline_future hholding.deadline) (not_lt.mpr hle)
  · have hnow : d ≤ (s.run (before ++ after)).now := by
      rw [QuotaCounters.run_append]
      exact le_trans hpast (QuotaCounters.run_now after)
    refine ⟨fun hlt ↦ absurd hlt (not_lt.mpr hnow), fun _ ↦ ?_⟩
    rw [QuotaCounters.run_append]
    rcases QuotaCounters.windowSince_or hnone after with habsent | ⟨old, new, rfl, hwindow⟩
    · exact .inl habsent
    · refine .inr ⟨before ++ old, new, (List.append_assoc before old new).symm, ?_, ?_⟩
      · rw [QuotaCounters.run_append]
        exact le_trans hpast (QuotaCounters.run_now old)
      · rw [QuotaCounters.run_append]
        exact hwindow

namespace Sample

theorem apiKey1_valid : "tdm_1" ≠ "" ∧ "tdm_1".toList.all idChar = true := by decide

def apiKey1 : ApiKey := ⟨"tdm_1", apiKey1_valid⟩

/-- The counter after one call. -/
def onceCharged : QuotaCounters :=
  QuotaCounters.initial.run [.incrby 0 apiKey1 5, .ttl 0, .expire 0]

theorem onceCharged_pending : onceCharged.NonePending apiKey1 := by
  intro i
  have hcall : onceCharged.call = Function.update (Function.update (Function.update
      (fun _ ↦ .idle) 0 (.charged apiKey1)) 0 (.unlimited apiKey1)) 0 .idle := rfl
  rw [hcall, Function.update_idem, Function.update_idem, Function.update_apply]
  split <;> exact fun h ↦ by cases h

end Sample

open Sample in
/-- A second call, a day after the first, opens a window of its own. -/
theorem quota_deadline_kept_twice :
    let later : List QuotaCommand := [.tick quotaResetSeconds, .incrby 1 apiKey1 7]
    onceCharged.deadline apiKey1 = some quotaResetSeconds ∧
      ((onceCharged.run later).used apiKey1 = none ∨ ∃ old new, later = old ++ new ∧
        quotaResetSeconds ≤ (onceCharged.run old).now ∧
        (onceCharged.run old).WindowSince apiKey1 new) ∧
      (onceCharged.run later).used apiKey1 = some 7 :=
  ⟨by decide, (quota_deadline_kept (d := quotaResetSeconds) (by decide) onceCharged_pending _).2
    (by decide), by decide⟩

end TandemAio
