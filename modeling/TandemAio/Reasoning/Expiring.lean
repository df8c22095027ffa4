import Mathlib.Data.List.Basic
import Mathlib.Tactic.Common

/-!
# Keys that expire

A key of a store with an optional time at which it vanishes, and the commands on keys that hold a
list or a counter.
-/

namespace Reasoning

variable {α : Type}

/-- A key: what it holds, and when it vanishes. -/
structure Expiring (α : Type) where
  value : α
  expireAt : Option Int

namespace Expiring

/-- What is left of a key at a time. -/
def live (empty : α) (now : Int) (k : Expiring α) : Expiring α :=
  match k.expireAt with
  | none => k
  | some t => if t ≤ now then ⟨empty, none⟩ else k

theorem live_eq_or (empty : α) (now : Int) (k : Expiring α) :
    (k.live empty now = k ∧ ∀ t, k.expireAt = some t → now < t) ∨
      (k.live empty now = ⟨empty, none⟩ ∧ ∃ t, k.expireAt = some t ∧ t ≤ now) := by
  unfold live
  cases hk : k.expireAt with
  | none => exact Or.inl ⟨rfl, fun t ht ↦ by cases ht⟩
  | some t =>
    dsimp only
    split
    · rename_i hle
      exact Or.inr ⟨rfl, t, rfl, hle⟩
    · rename_i hlt
      refine Or.inl ⟨rfl, fun t' ht' ↦ ?_⟩
      cases ht'
      omega

/-! ## Lists -/

/-- `RPUSH` -/
def push (now : Int) (a : α) (k : Expiring (List α)) : Expiring (List α) :=
  ⟨(k.live [] now).value ++ [a], (k.live [] now).expireAt⟩

/-- `LPOP`, as far as the list goes. A key whose list is empty does not exist. -/
def pop (now : Int) (k : Expiring (List α)) : Expiring (List α) :=
  match (k.live [] now).value with
  | [] | [_] => ⟨[], none⟩
  | _ :: b :: rest => ⟨b :: rest, (k.live [] now).expireAt⟩

/-- `EXPIRE` -/
def expire (now ttl : Int) (k : Expiring (List α)) : Expiring (List α) :=
  match (k.live [] now).value with
  | [] => ⟨[], none⟩
  | a :: rest => ⟨a :: rest, some (now + ttl)⟩

variable {now ttl : Int} {a : α} {k : Expiring (List α)}

theorem live_sublist : (k.live [] now).value.Sublist k.value := by
  rcases live_eq_or [] now k with ⟨h, -⟩ | ⟨h, -⟩
  · rw [h]
  · rw [h]
    exact List.nil_sublist _

theorem push_value : (k.push now a).value = (k.live [] now).value ++ [a] := rfl

theorem push_expireAt : (k.push now a).expireAt = (k.live [] now).expireAt := rfl

theorem pop_value : (k.pop now).value = (k.live [] now).value.tail := by
  unfold pop
  split
  · rename_i h
    rw [h]
    rfl
  · rename_i h
    rw [h]
    rfl
  · rename_i h
    rw [h]
    rfl

theorem expire_value : (k.expire now ttl).value = (k.live [] now).value := by
  unfold expire
  split
  · rename_i h
    rw [h]
  · rename_i h
    rw [h]

theorem pop_expireAt (h : (k.pop now).value = []) : (k.pop now).expireAt = none := by
  unfold pop at h ⊢
  split at h
  · rfl
  · rfl
  · cases h

theorem expire_expireAt_nil (h : (k.expire now ttl).value = []) :
    (k.expire now ttl).expireAt = none := by
  unfold expire at h ⊢
  split at h
  · rfl
  · cases h

theorem expire_expireAt {t : Int} (h : (k.expire now ttl).expireAt = some t) : t = now + ttl := by
  unfold expire at h
  split at h
  · cases h
  · exact (Option.some.inj h).symm

/-! ## Counters

A counter that is absent is `none`. -/

/-- The key, unless it has expired. -/
def present (now : Int) (c : Option (Expiring α)) : Option (Expiring α) :=
  c.filter fun key ↦ key.expireAt.all (now < ·)

theorem present_eq_some {key : Expiring α} {c : Option (Expiring α)} :
    present now c = some key ↔ c = some key ∧ ∀ t, key.expireAt = some t → now < t := by
  unfold present
  rw [Option.filter_eq_some_iff, Option.all_eq_true]
  simp only [decide_eq_true_eq]

/-- Time only makes a key vanish. -/
theorem present_later {later : Int} (h : now ≤ later) (c : Option (Expiring α)) :
    present later c = present now c ∨
      present later c = none ∧
        ∀ key, present now c = some key → ∃ t, key.expireAt = some t ∧ t ≤ later := by
  cases hlater : present later c with
  | some key =>
    obtain ⟨hc, hfuture⟩ := present_eq_some.mp hlater
    left
    refine (present_eq_some.mpr ⟨hc, fun t ht ↦ ?_⟩).symm
    have hlt := hfuture t ht
    omega
  | none =>
    refine .inr ⟨rfl, fun key hkey ↦ ?_⟩
    obtain ⟨hc, -⟩ := present_eq_some.mp hkey
    by_contra hnone
    have hpresent : present later c = some key := by
      refine present_eq_some.mpr ⟨hc, fun t ht ↦ ?_⟩
      by_contra hle
      exact hnone ⟨t, ht, by omega⟩
    rw [hpresent] at hlater
    cases hlater

variable {c : Option (Expiring Int)} {amount : Int}

/-- `INCRBY` -/
def incrby (now amount : Int) (c : Option (Expiring Int)) : Option (Expiring Int) :=
  some ⟨((present now c).map value).getD 0 + amount, (present now c).bind expireAt⟩

/-- `TTL` is negative: there is no key, or it does not expire. -/
def unlimited (now : Int) (c : Option (Expiring Int)) : Bool :=
  ((present now c).bind expireAt).isNone

/-- `EXPIRE` -/
def limit (now ttl : Int) (c : Option (Expiring Int)) : Option (Expiring Int) :=
  (present now c).map fun key ↦ ⟨key.value, some (now + ttl)⟩

theorem present_incrby : present now (incrby now amount c) = incrby now amount c := by
  refine present_eq_some.mpr ⟨rfl, fun t ht ↦ ?_⟩
  obtain ⟨key, hkey, ht⟩ := Option.bind_eq_some_iff.mp ht
  exact (present_eq_some.mp hkey).2 t ht

theorem present_limit (h : 0 < ttl) : present now (limit now ttl c) = limit now ttl c := by
  cases hlimit : limit now ttl c with
  | none => rfl
  | some key =>
    obtain ⟨key', -, rfl⟩ := Option.map_eq_some_iff.mp hlimit
    refine present_eq_some.mpr ⟨rfl, fun t ht ↦ ?_⟩
    obtain rfl := Option.some.inj ht
    omega

end Expiring

end Reasoning
