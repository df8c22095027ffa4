import TandemAio.Hosting

/-!
# `app/utils/sweeper.py`: one sweeper at a time

The loops of any number of server instances around one lock in Redis.
-/

open Reasoning

namespace TandemAio

def sweepLockTtlSeconds : Time := 15 * second

/-- A server instance. -/
abbrev InstanceId := Nat

/-- The key `sweeper:lock`. The instance that has set it is not in the value `"1"`, and no command
reads it. -/
structure SweepLock where
  owner : InstanceId
  expireAt : Time
deriving DecidableEq

structure SweeperState where
  now : Time
  lock : Option SweepLock
  /-- When an instance that has the lock, and has not yet deleted it, has got it. -/
  sweeping : InstanceId → Option Time

inductive SweeperAction
  /-- `SET sweeper:lock 1 NX EX 15`, by an instance that is not sweeping. -/
  | setLock (i : InstanceId)
  /-- The `DEL` after a sweep, however it went. -/
  | deleteLock (i : InstanceId)
  /-- The instance dies in its sweep, or its `DEL` does not reach Redis. -/
  | die (i : InstanceId)
  | tick (now : Time)
deriving DecidableEq

namespace SweeperState

def initial : SweeperState := ⟨0, none, fun _ ↦ none⟩

/-- The lock, unless it has expired. -/
def liveLock (s : SweeperState) : Option SweepLock := s.lock.filter fun lock ↦ s.now < lock.expireAt

def setLock (s : SweeperState) (i : InstanceId) : SweeperState :=
  match s.sweeping i, s.liveLock with
  | none, none =>
    { s with
      lock := some ⟨i, s.now + sweepLockTtlSeconds⟩
      sweeping := Function.update s.sweeping i (some s.now) }
  | _, _ => s

def deleteLock (s : SweeperState) (i : InstanceId) : SweeperState :=
  match s.sweeping i with
  | none => s
  | some _ => { s with lock := none, sweeping := Function.update s.sweeping i none }

def step (s : SweeperState) : SweeperAction → SweeperState
  | .setLock i => s.setLock i
  | .deleteLock i => s.deleteLock i
  | .die i => { s with sweeping := Function.update s.sweeping i none }
  | .tick now => if s.now ≤ now then { s with now := now } else s

/-- At most one instance is between getting the lock and deleting it. -/
def Alone (s : SweeperState) : Prop :=
  ∀ i j, s.sweeping i ≠ none → s.sweeping j ≠ none → i = j

/-- The step deletes no lock that another instance has set. -/
def DeletesOwn (s : SweeperState) : SweeperAction → Prop
  | .deleteLock i => s.sweeping i ≠ none → ∀ lock, s.liveLock = some lock → lock.owner = i
  | _ => True

/-- A property of every step of a run. -/
def Throughout (P : SweeperState → SweeperAction → Prop) (s : SweeperState) :
    List SweeperAction → Prop
  | [] => True
  | a :: rest => P s a ∧ (s.step a).Throughout P rest

/-- What the lock is for. -/
def OneSweeper (s : SweeperState) (a : SweeperAction) : Prop := (s.step a).Alone ∧ s.DeletesOwn a

/-- No instance tries for the lock while another still sweeps whose lock has expired. -/
def InTime (s : SweeperState) : SweeperAction → Prop
  | .setLock i => s.sweeping i = none → ∀ j since, s.sweeping j = some since →
      s.now < since + sweepLockTtlSeconds
  | _ => True

/-- An instance that sweeps has set the lock, and nobody has touched it since. -/
def Owned (s : SweeperState) : Prop :=
  ∀ j since, s.sweeping j = some since → s.lock = some ⟨j, since + sweepLockTtlSeconds⟩

variable {s : SweeperState} {a : SweeperAction} {i : InstanceId}

theorem Owned.alone (h : s.Owned) : s.Alone := by
  intro i j hi hj
  obtain ⟨t, ht⟩ := Option.ne_none_iff_exists'.mp hi
  obtain ⟨u, hu⟩ := Option.ne_none_iff_exists'.mp hj
  have hsame := (h i t ht).symm.trans (h j u hu)
  exact congrArg SweepLock.owner (Option.some.inj hsame)

theorem Owned.deletesOwn (h : s.Owned) (a : SweeperAction) : s.DeletesOwn a := by
  cases a with
  | deleteLock i =>
    intro hi lock hlock
    obtain ⟨t, ht⟩ := Option.ne_none_iff_exists'.mp hi
    unfold liveLock at hlock
    rw [h i t ht] at hlock
    obtain ⟨hsome, -⟩ := Option.filter_eq_some_iff.mp hlock
    cases hsome
    rfl
  | setLock | die | tick => trivial

/-- An instance that gets the lock, once nobody sweeps. -/
theorem setLock_of_free (hi : s.sweeping i = none) (hfree : s.liveLock = none) :
    s.setLock i =
      { s with
        lock := some ⟨i, s.now + sweepLockTtlSeconds⟩
        sweeping := Function.update s.sweeping i (some s.now) } := by
  unfold setLock
  rw [hi, hfree]

theorem setLock_of_not_free (h : s.sweeping i ≠ none ∨ s.liveLock ≠ none) : s.setLock i = s := by
  unfold setLock
  split
  · rename_i hi hfree
    rcases h with h | h
    · exact absurd hi h
    · exact absurd hfree h
  · rfl

theorem Owned.step (h : s.Owned) (hok : s.InTime a) : (s.step a).Owned := by
  cases a with
  | setLock i =>
    by_cases hget : s.sweeping i = none ∧ s.liveLock = none
    · obtain ⟨hi, hfree⟩ := hget
      -- whoever swept would have a lock that is not over
      have hnobody : ∀ j, s.sweeping j = none := by
        intro j
        by_contra hj
        obtain ⟨t, ht⟩ := Option.ne_none_iff_exists'.mp hj
        have hlt := hok hi j t ht
        unfold liveLock at hfree
        rw [h j t ht] at hfree
        simp [Option.filter, hlt] at hfree
      intro j since hj
      change (s.setLock i).sweeping j = _ at hj
      change (s.setLock i).lock = _
      rw [setLock_of_free hi hfree] at hj ⊢
      dsimp only at hj
      by_cases hij : j = i
      · subst hij
        simp only [Function.update_self, Option.some.injEq] at hj
        rw [← hj]
      · rw [Function.update_of_ne hij, hnobody j] at hj
        cases hj
    · have hsame : s.setLock i = s := by
        apply setLock_of_not_free
        tauto
      change (s.setLock i).Owned
      rw [hsame]
      exact h
  | deleteLock i =>
    change (s.deleteLock i).Owned
    unfold deleteLock
    split
    · exact h
    · rename_i t ht
      intro j since hj
      dsimp only at hj
      by_cases hij : j = i
      · rw [hij, Function.update_self] at hj
        cases hj
      · rw [Function.update_of_ne hij] at hj
        exact absurd (h.alone j i (by simp [hj]) (by simp [ht])) hij
  | die i =>
    intro j since hj
    change Function.update s.sweeping i none j = some since at hj
    by_cases hij : j = i
    · rw [hij, Function.update_self] at hj
      cases hj
    · rw [Function.update_of_ne hij] at hj
      exact h j since hj
  | tick now =>
    unfold SweeperState.step
    dsimp only
    split
    · exact h
    · exact h

/-- An instance that tries too late for another's sweep gets the lock beside it. -/
theorem Owned.two_sweepers (h : s.Owned) (hlate : ¬s.InTime a) : ¬(s.step a).Alone := by
  cases a with
  | setLock i =>
    unfold InTime at hlate
    push Not at hlate
    obtain ⟨hi, j, since, hj, hle⟩ := hlate
    have hfree : s.liveLock = none := by
      unfold liveLock
      rw [h j since hj]
      simp [Option.filter, not_lt.mpr hle]
    have hij : i ≠ j := by
      rintro rfl
      rw [hi] at hj
      cases hj
    intro halone
    change (s.setLock i).Alone at halone
    rw [setLock_of_free hi hfree] at halone
    refine hij (halone i j ?_ ?_)
    · simp
    · simp [Function.update_of_ne hij.symm, hj]
  | deleteLock | die | tick => exact absurd trivial hlate

theorem Owned.oneSweeper_iff (h : s.Owned) : s.OneSweeper a ↔ s.InTime a := by
  constructor
  · rintro ⟨halone, -⟩
    by_contra hlate
    exact h.two_sweepers hlate halone
  · intro hok
    exact ⟨(h.step hok).alone, h.deletesOwn a⟩

theorem Owned.throughout_iff (h : s.Owned) (actions : List SweeperAction) :
    s.Throughout OneSweeper actions ↔ s.Throughout InTime actions := by
  induction actions generalizing s with
  | nil => exact Iff.rfl
  | cons a rest ih =>
    unfold Throughout
    rw [h.oneSweeper_iff]
    constructor
    · rintro ⟨hok, hrest⟩
      exact ⟨hok, (ih (h.step hok)).mp hrest⟩
    · rintro ⟨hok, hrest⟩
      exact ⟨hok, (ih (h.step hok)).mpr hrest⟩

end SweeperState

/-- In a run there is one sweeper at a time, and no lock of another is deleted, exactly when no
instance tries for the lock while a sweep has outlived its own. -/
theorem one_sweeper_iff (actions : List SweeperAction) :
    SweeperState.initial.Throughout SweeperState.OneSweeper actions ↔
      SweeperState.initial.Throughout SweeperState.InTime actions := by
  apply SweeperState.Owned.throughout_iff
  intro j since hj
  cases hj

/-- After fifteen seconds of a sweep its lock is over. A second instance gets the lock, and the
first deletes it. -/
theorem two_sweepers :
    let late := ((SweeperState.initial.step (.setLock 0)).step (.tick sweepLockTtlSeconds)).step
      (.setLock 1)
    late.sweeping 0 ≠ none ∧ late.sweeping 1 ≠ none ∧ late.liveLock.map SweepLock.owner = some 1 ∧
      (late.step (.deleteLock 0)).liveLock = none ∧
      ¬SweeperState.initial.Throughout SweeperState.OneSweeper
        [.setLock 0, .tick sweepLockTtlSeconds, .setLock 1, .deleteLock 0] := by
  refine ⟨by decide, by decide, by decide, by decide, fun h ↦ ?_⟩
  have halone := h.2.2.1.1
  exact absurd (halone 0 1 (by decide) (by decide)) (by decide)

end TandemAio
