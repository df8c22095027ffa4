import Mathlib.Data.List.Basic
import Mathlib.Tactic.Common

/-!
# Programs over a shared store

A `Prog` is what a client of a shared store runs: atomic commands, each of which answers and
changes the store in one step, ordinary control flow over the answers, and unbounded loops.  The
same program is read in three ways: run alone from start to end (`Runs`, `wp`), stopped after any
command (`Visits`), or interleaved with others (`TandemAio.Reasoning.Interleave`).
-/

namespace Reasoning

/-- One atomic command on a store `σ`: its answer and the store it leaves.  `seen` lists the keys
whose contents the answer shows or the command writes. -/
structure Command (σ κ ρ : Type) where
  run : σ → ρ × σ
  seen : ρ → List κ

inductive Prog (σ κ : Type) : Type → Type 1
  | ret {α : Type} (a : α) : Prog σ κ α
  | cmd {ρ α : Type} (c : Command σ κ ρ) (k : ρ → Prog σ κ α) : Prog σ κ α
  /-- Run `body` until it answers `some b`, then go on with `k b`. -/
  | loop {β α : Type} (body : Prog σ κ (Option β)) (k : β → Prog σ κ α) : Prog σ κ α

namespace Prog

variable {σ κ α β γ ρ ι : Type}

def bind : Prog σ κ α → (α → Prog σ κ β) → Prog σ κ β
  | .ret a, f => f a
  | .cmd c k, f => .cmd c fun r ↦ (k r).bind f
  | .loop body k, f => .loop body fun b ↦ (k b).bind f

instance : Monad (Prog σ κ) where
  pure := .ret
  bind := Prog.bind

/-- One turn of a loop, and the loop again if it has not ended. -/
def unroll (body : Prog σ κ (Option β)) (k : β → Prog σ κ α) : Prog σ κ α :=
  body.bind fun
    | some b => k b
    | none => .loop body k

def whileTrue (body : Prog σ κ (Option β)) : Prog σ κ β := .loop body .ret

/-- Run `f` for every element of a list, in order. -/
def forEach : List ι → (ι → Prog σ κ Unit) → Prog σ κ Unit
  | [], _ => .ret ()
  | i :: is, f => (f i).bind fun _ ↦ forEach is f

/-- What `f` answers along a list, in order, without the `none`s. -/
def collect : List ι → (ι → Prog σ κ (Option β)) → Prog σ κ (List β)
  | [], _ => .ret []
  | i :: is, f => (f i).bind fun o ↦ (collect is f).bind fun rest ↦ .ret (o.toList ++ rest)

/-- The first `some` that `f` answers along a list. -/
def firstSome : List ι → (ι → Prog σ κ (Option β)) → Prog σ κ (Option β)
  | [], _ => .ret none
  | i :: is, f => (f i).bind fun
      | some b => .ret (some b)
      | none => firstSome is f

theorem bind_assoc (p : Prog σ κ α) (f : α → Prog σ κ β) (g : β → Prog σ κ γ) :
    (p.bind f).bind g = p.bind fun a ↦ (f a).bind g := by
  induction p with
  | ret a => rfl
  | cmd c k ih => simp only [bind, ih]
  | loop body k _ ih => simp only [bind, ih]

theorem unroll_bind (body : Prog σ κ (Option β)) (k : β → Prog σ κ α) (f : α → Prog σ κ γ) :
    (unroll body k).bind f = unroll body fun b ↦ (k b).bind f := by
  unfold unroll
  rw [bind_assoc]
  congr 1
  funext o
  cases o <;> rfl

/-! ## Running alone -/

/-- `Runs p s a s'`: run alone from `s`, `p` ends, answers `a` and leaves `s'`. -/
inductive Runs : Prog σ κ α → σ → α → σ → Prop
  | ret (a : α) (s : σ) : Runs (.ret a) s a s
  | cmd {ρ : Type} {c : Command σ κ ρ} {k : ρ → Prog σ κ α} {s a s'} :
      Runs (k (c.run s).1) (c.run s).2 a s' → Runs (.cmd c k) s a s'
  | loop {β : Type} {body : Prog σ κ (Option β)} {k : β → Prog σ κ α} {s a s'} :
      Runs (unroll body k) s a s' → Runs (.loop body k) s a s'

/-- An interpreter for `Runs`: at most `n` commands and loop turns. -/
def exec : Nat → Prog σ κ α → σ → Option (α × σ)
  | 0, _, _ => none
  | _ + 1, .ret a, s => some (a, s)
  | n + 1, .cmd c k, s => exec n (k (c.run s).1) (c.run s).2
  | n + 1, .loop body k, s => exec n (unroll body k) s

theorem runs_of_exec {n : Nat} {p : Prog σ κ α} {s : σ} {r : α × σ} (h : exec n p s = some r) :
    Runs p s r.1 r.2 := by
  induction n generalizing p s with
  | zero => cases h
  | succ n ih =>
    cases p with
    | ret a =>
      simp only [exec, Option.some.injEq] at h
      subst h
      exact .ret a s
    | cmd c k => exact .cmd (ih h)
    | loop body k => exact .loop (ih h)

theorem Runs.deterministic {p : Prog σ κ α} {s : σ} {a b : α} {s₁ s₂ : σ}
    (h₁ : Runs p s a s₁) (h₂ : Runs p s b s₂) : a = b ∧ s₁ = s₂ := by
  induction h₁ with
  | ret => cases h₂; exact ⟨rfl, rfl⟩
  | cmd _ ih => cases h₂ with | cmd h => exact ih h
  | loop _ ih => cases h₂ with | loop h => exact ih h

theorem Runs.bind {p : Prog σ κ α} {f : α → Prog σ κ β} {s s₁ s₂ : σ} {a : α} {b : β}
    (hp : Runs p s a s₁) (hf : Runs (f a) s₁ b s₂) : Runs (p.bind f) s b s₂ := by
  induction hp with
  | ret => exact hf
  | cmd _ ih => exact .cmd (ih hf)
  | loop _ ih =>
    apply Runs.loop
    rw [← unroll_bind]
    exact ih hf

theorem Runs.of_bind {p : Prog σ κ α} {f : α → Prog σ κ β} {s s₂ : σ} {b : β}
    (h : Runs (p.bind f) s b s₂) : ∃ a s₁, Runs p s a s₁ ∧ Runs (f a) s₁ b s₂ := by
  generalize hq : p.bind f = q at h
  induction h generalizing p with
  | ret b s =>
    cases p with
    | ret a => exact ⟨a, s, .ret a s, by rw [show f a = .ret b from hq]; exact .ret b s⟩
    | cmd c k => cases hq
    | loop body k => cases hq
  | @cmd _ c k s b s₂ h ih =>
    cases p with
    | ret a => exact ⟨a, s, .ret a s, by rw [show f a = .cmd c k from hq]; exact .cmd h⟩
    | cmd c' k' =>
      cases hq
      obtain ⟨a, s₁, hp, hf⟩ := ih rfl
      exact ⟨a, s₁, .cmd hp, hf⟩
    | loop body k => cases hq
  | @loop _ body k s b s₂ h ih =>
    cases p with
    | ret a => exact ⟨a, s, .ret a s, by rw [show f a = .loop body k from hq]; exact .loop h⟩
    | cmd c' k' => cases hq
    | loop body' k' =>
      cases hq
      obtain ⟨a, s₁, hp, hf⟩ := ih (unroll_bind _ k' f)
      exact ⟨a, s₁, .loop hp, hf⟩

/-! ## Weakest preconditions

`wp p Q s` is total correctness: run alone from `s`, `p` ends, and `Q` holds of its answer and
the store it leaves. -/

def wp (p : Prog σ κ α) (Q : α → σ → Prop) (s : σ) : Prop :=
  ∃ a s', Runs p s a s' ∧ Q a s'

theorem wp.elim {p : Prog σ κ α} {Q : α → σ → Prop} {s s' : σ} {a : α}
    (h : wp p Q s) (hr : Runs p s a s') : Q a s' := by
  obtain ⟨b, s₁, hb, hQ⟩ := h
  obtain ⟨rfl, rfl⟩ := hr.deterministic hb
  exact hQ

theorem wp.mono {p : Prog σ κ α} {Q Q' : α → σ → Prop} {s : σ} (h : wp p Q s)
    (hQ : ∀ a s', Q a s' → Q' a s') : wp p Q' s := by
  obtain ⟨a, s', hr, h'⟩ := h
  exact ⟨a, s', hr, hQ a s' h'⟩

theorem wp.and {p : Prog σ κ α} {Q Q' : α → σ → Prop} {s : σ} (h : wp p Q s) (h' : wp p Q' s) :
    wp p (fun a s' ↦ Q a s' ∧ Q' a s') s := by
  obtain ⟨a, s', hr, hQ⟩ := h
  exact ⟨a, s', hr, hQ, h'.elim hr⟩

/-- A program that always ends the same way satisfies what holds there. -/
theorem wp_iff_of_eq {p : Prog σ κ α} {s s₁ : σ} {x : α} (h : wp p (fun a s' ↦ a = x ∧ s' = s₁) s)
    (Q : α → σ → Prop) : wp p Q s ↔ Q x s₁ := by
  obtain ⟨a, s', hr, rfl, rfl⟩ := h
  exact ⟨fun h ↦ h.elim hr, fun h ↦ ⟨_, _, hr, h⟩⟩

@[simp] theorem wp_ret (a : α) (Q : α → σ → Prop) (s : σ) :
    wp (κ := κ) (.ret a) Q s ↔ Q a s := by
  refine ⟨fun h ↦ h.elim (.ret a s), fun h ↦ ⟨a, s, .ret a s, h⟩⟩

@[simp] theorem wp_pure (a : α) (Q : α → σ → Prop) (s : σ) :
    wp (pure a : Prog σ κ α) Q s ↔ Q a s := wp_ret a Q s

@[simp] theorem wp_cmd (c : Command σ κ ρ) (k : ρ → Prog σ κ α) (Q : α → σ → Prop) (s : σ) :
    wp (.cmd c k) Q s ↔ wp (k (c.run s).1) Q (c.run s).2 := by
  constructor
  · rintro ⟨a, s', hr, hQ⟩
    cases hr with | cmd hr => exact ⟨a, s', hr, hQ⟩
  · rintro ⟨a, s', hr, hQ⟩
    exact ⟨a, s', .cmd hr, hQ⟩

@[simp] theorem wp_bind' (p : Prog σ κ α) (f : α → Prog σ κ β) (Q : β → σ → Prop) (s : σ) :
    wp (p.bind f) Q s ↔ wp p (fun a s' ↦ wp (f a) Q s') s := by
  constructor
  · rintro ⟨b, s₂, hr, hQ⟩
    obtain ⟨a, s₁, hp, hf⟩ := hr.of_bind
    exact ⟨a, s₁, hp, b, s₂, hf, hQ⟩
  · rintro ⟨a, s₁, hp, b, s₂, hf, hQ⟩
    exact ⟨b, s₂, hp.bind hf, hQ⟩

@[simp] theorem wp_bind (p : Prog σ κ α) (f : α → Prog σ κ β) (Q : β → σ → Prop) (s : σ) :
    wp (p >>= f) Q s ↔ wp p (fun a s' ↦ wp (f a) Q s') s := wp_bind' p f Q s

theorem wp_loop (body : Prog σ κ (Option β)) (k : β → Prog σ κ α) (Q : α → σ → Prop) (s : σ) :
    wp (.loop body k) Q s ↔ wp (unroll body k) Q s := by
  constructor
  · rintro ⟨a, s', hr, hQ⟩
    cases hr with | loop hr => exact ⟨a, s', hr, hQ⟩
  · rintro ⟨a, s', hr, hQ⟩
    exact ⟨a, s', .loop hr, hQ⟩

/-- A postcondition of an optional answer: `Q` of the value, or `R` when there is none. -/
def optionPost (Q : β → σ → Prop) (R : σ → Prop) : Option β → σ → Prop
  | some b => Q b
  | none => R

/-- A loop with invariant `I` and variant `μ`. -/
theorem wp_whileTrue {body : Prog σ κ (Option β)} {Q : β → σ → Prop} (I : σ → Prop) (μ : σ → Nat)
    (hbody : ∀ s, I s → wp body (optionPost Q fun s' ↦ I s' ∧ μ s' < μ s) s)
    {s : σ} (hs : I s) : wp (whileTrue body) Q s := by
  induction hn : μ s using Nat.strongRecOn generalizing s with
  | ind n ih =>
    rw [whileTrue, wp_loop, unroll, wp_bind']
    refine (hbody s hs).mono fun o s' h ↦ ?_
    cases o with
    | some b => exact (wp_ret b Q s').mpr h
    | none => exact ih (μ s') (by rw [← hn]; exact h.2) h.1 rfl

/-- A loop over a list: `I` holds of what is left of the list before every turn. -/
theorem wp_forEach {f : ι → Prog σ κ Unit} (I : List ι → σ → Prop)
    (hf : ∀ i is s, I (i :: is) s → wp (f i) (fun _ s' ↦ I is s') s)
    {is : List ι} {s : σ} (hs : I is s) : wp (forEach is f) (fun _ s' ↦ I [] s') s := by
  induction is generalizing s with
  | nil => exact (wp_ret () _ s).mpr hs
  | cons i is ih =>
    rw [forEach, wp_bind']
    exact (hf i is s hs).mono fun _ s' h ↦ ih h

theorem wp_firstSome {f : ι → Prog σ κ (Option β)} {Q : β → σ → Prop} (I : σ → Prop)
    {is : List ι} (hf : ∀ i ∈ is, ∀ s, I s → wp (f i) (optionPost Q I) s)
    {s : σ} (hs : I s) : wp (firstSome is f) (optionPost Q I) s := by
  induction is generalizing s with
  | nil => exact (wp_ret none _ s).mpr hs
  | cons i is ih =>
    rw [firstSome, wp_bind']
    refine (hf i List.mem_cons_self s hs).mono fun o s' h ↦ ?_
    cases o with
    | some b => exact (wp_ret _ _ s').mpr h
    | none => exact ih (fun i hi ↦ hf i (List.mem_cons_of_mem _ hi)) h

/-- `collect` with a body that only reads. -/
theorem wp_collect {f : ι → Prog σ κ (Option β)} {g : ι → Option β} {s : σ}
    (hf : ∀ i, wp (f i) (fun o s' ↦ o = g i ∧ s' = s) s) (is : List ι) :
    wp (collect is f) (fun out s' ↦ out = is.filterMap g ∧ s' = s) s := by
  induction is with
  | nil => exact (wp_ret [] _ s).mpr ⟨rfl, rfl⟩
  | cons i is ih =>
    rw [collect, wp_bind']
    refine (hf i).mono ?_
    rintro _ _ ⟨rfl, rfl⟩
    rw [wp_bind']
    refine ih.mono ?_
    rintro _ _ ⟨rfl, rfl⟩
    rw [wp_ret, List.filterMap_cons]
    cases g i <;> exact ⟨rfl, rfl⟩

/-! ## Stopping anywhere

`Visits p s s'`: `s'` is the store after some number of the commands `p` runs from `s`, that is,
the store a crash of the client leaves. -/

inductive Visits : Prog σ κ α → σ → σ → Prop
  | here (p : Prog σ κ α) (s : σ) : Visits p s s
  | cmd {ρ : Type} {c : Command σ κ ρ} {k : ρ → Prog σ κ α} {s s'} :
      Visits (k (c.run s).1) (c.run s).2 s' → Visits (.cmd c k) s s'
  | loop {β : Type} {body : Prog σ κ (Option β)} {k : β → Prog σ κ α} {s s'} :
      Visits (unroll body k) s s' → Visits (.loop body k) s s'

theorem Runs.visits {p : Prog σ κ α} {s s' : σ} {a : α} (h : Runs p s a s') : Visits p s s' := by
  induction h with
  | ret a s => exact .here _ s
  | cmd _ ih => exact .cmd ih
  | loop _ ih => exact .loop ih

/-- An interpreter for `Visits`: the store after `n` commands and loop turns. -/
def execVisit : Nat → Prog σ κ α → σ → σ
  | 0, _, s => s
  | _ + 1, .ret _, s => s
  | n + 1, .cmd c k, s => execVisit n (k (c.run s).1) (c.run s).2
  | n + 1, .loop body k, s => execVisit n (unroll body k) s

theorem visits_execVisit (n : Nat) (p : Prog σ κ α) (s : σ) : Visits p s (execVisit n p s) := by
  induction n generalizing p s with
  | zero => exact .here p s
  | succ n ih =>
    cases p with
    | ret a => exact .here _ s
    | cmd c k => exact .cmd (ih _ _)
    | loop body k => exact .loop (ih _ _)

/-- `Reads s m p q`: from `s`, `p` starts with `m` commands that change nothing, and goes on with
`q`. -/
inductive Reads (s : σ) : Nat → Prog σ κ α → Prog σ κ α → Prop
  | refl (p : Prog σ κ α) : Reads s 0 p p
  | cmd {ρ : Type} {c : Command σ κ ρ} {k : ρ → Prog σ κ α} {m q} : (c.run s).2 = s →
      Reads s m (k (c.run s).1) q → Reads s (m + 1) (.cmd c k) q

theorem Reads.bind {s : σ} {m : Nat} {p q : Prog σ κ α} (h : Reads s m p q)
    (f : α → Prog σ κ β) : Reads s m (p.bind f) (q.bind f) := by
  induction h with
  | refl p => exact .refl _
  | cmd hs _ ih => exact .cmd hs ih

theorem Reads.trans {s : σ} {m n : Nat} {p q r : Prog σ κ α} (h : Reads s m p q)
    (h' : Reads s n q r) : Reads s (n + m) p r := by
  induction h with
  | refl p => exact h'
  | cmd hs _ ih => exact .cmd hs (ih h')

theorem Reads.execVisit_of_le {s : σ} {m n : Nat} {p q : Prog σ κ α} (h : Reads s m p q)
    (hn : n ≤ m) : execVisit n p s = s := by
  induction h generalizing n with
  | refl p =>
    obtain rfl := Nat.le_zero.mp hn
    rfl
  | cmd hs _ ih =>
    cases n with
    | zero => rfl
    | succ n =>
      rw [execVisit, hs]
      exact ih (Nat.le_of_succ_le_succ hn)

theorem Reads.execVisit_add {s : σ} {m : Nat} {p q : Prog σ κ α} (h : Reads s m p q) (n : Nat) :
    execVisit (n + m) p s = execVisit n q s := by
  induction h with
  | refl p => rfl
  | cmd hs _ ih =>
    rw [← Nat.add_assoc, execVisit, hs]
    exact ih

theorem Reads.wp_iff {s : σ} {m : Nat} {p q : Prog σ κ α} (h : Reads s m p q)
    (Q : α → σ → Prop) : wp p Q s ↔ wp q Q s := by
  induction h with
  | refl p => rfl
  | cmd hs _ ih => rw [wp_cmd, hs, ih]

theorem Visits.of_bind {p : Prog σ κ α} {f : α → Prog σ κ β} {s s' : σ}
    (h : Visits (p.bind f) s s') :
    Visits p s s' ∨ ∃ a s₁, Runs p s a s₁ ∧ Visits (f a) s₁ s' := by
  generalize hq : p.bind f = q at h
  induction h generalizing p with
  | here q s => exact .inl (.here p s)
  | @cmd _ c k s s' h ih =>
    cases p with
    | ret a => exact .inr ⟨a, s, .ret a s, by rw [show f a = .cmd c k from hq]; exact .cmd h⟩
    | cmd c' k' =>
      cases hq
      rcases ih rfl with hv | ⟨a, s₁, hr, hv⟩
      · exact .inl (.cmd hv)
      · exact .inr ⟨a, s₁, .cmd hr, hv⟩
    | loop body k => cases hq
  | @loop _ body k s s' h ih =>
    cases p with
    | ret a => exact .inr ⟨a, s, .ret a s, by rw [show f a = .loop body k from hq]; exact .loop h⟩
    | cmd c' k' => cases hq
    | loop body' k' =>
      cases hq
      rcases ih (unroll_bind _ k' f) with hv | ⟨a, s₁, hr, hv⟩
      · exact .inl (.loop hv)
      · exact .inr ⟨a, s₁, .loop hr, hv⟩

/-- `Q` holds of every store a crash of `p` can leave. -/
def always (p : Prog σ κ α) (Q : σ → Prop) (s : σ) : Prop := ∀ s', Visits p s s' → Q s'

theorem always.start {p : Prog σ κ α} {Q : σ → Prop} {s : σ} (h : always p Q s) : Q s :=
  h s (.here p s)

theorem always.mono {p : Prog σ κ α} {Q Q' : σ → Prop} {s : σ} (h : always p Q s)
    (hQ : ∀ s', Q s' → Q' s') : always p Q' s := fun s' hv ↦ hQ s' (h s' hv)

@[simp] theorem always_ret (a : α) (Q : σ → Prop) (s : σ) :
    always (κ := κ) (.ret a) Q s ↔ Q s := by
  refine ⟨always.start, fun h s' hv ↦ ?_⟩
  cases hv
  exact h

@[simp] theorem always_pure (a : α) (Q : σ → Prop) (s : σ) :
    always (pure a : Prog σ κ α) Q s ↔ Q s := always_ret a Q s

@[simp] theorem always_cmd (c : Command σ κ ρ) (k : ρ → Prog σ κ α) (Q : σ → Prop) (s : σ) :
    always (.cmd c k) Q s ↔ Q s ∧ always (k (c.run s).1) Q (c.run s).2 := by
  constructor
  · exact fun h ↦ ⟨h.start, fun s' hv ↦ h s' (.cmd hv)⟩
  · rintro ⟨hs, hk⟩ s' hv
    cases hv with
    | here => exact hs
    | cmd hv => exact hk s' hv

/-- The first part of a program up to its end, and the second from there. -/
theorem always_bind {p : Prog σ κ α} {f : α → Prog σ κ β} {Q : σ → Prop} {s : σ}
    (hp : always p Q s) (hf : wp p (fun a s' ↦ always (f a) Q s') s) : always (p >>= f) Q s := by
  intro s' hv
  rcases hv.of_bind with hv | ⟨a, s₁, hr, hv⟩
  · exact hp s' hv
  · exact hf.elim hr s' hv

/-- A loop with invariant `I`, from the rest `r` of a turn on. -/
theorem Visits.loop_inv {body : Prog σ κ (Option β)} {I Q : σ → Prop}
    (hbody : ∀ s, I s → always body Q s ∧ wp body (optionPost (fun _ s' ↦ Q s') I) s)
    {q : Prog σ κ β} {s s' : σ} (hv : Visits q s s') :
    ∀ r : Prog σ κ (Option β), q = (r.bind fun o ↦ match o with
      | some b => .ret b
      | none => .loop body .ret) → always r Q s →
      (∀ o s₁, Runs r s o s₁ → optionPost (fun _ s' ↦ Q s') I o s₁) → Q s' := by
  induction hv with
  | here q s => exact fun r _ hr _ ↦ hr.start
  | @cmd _ c k s s' _ ih =>
    intro r hq hr hruns
    cases r with
    | ret o => cases o <;> cases hq
    | cmd c' k' =>
      cases hq
      exact ih (k' _) rfl (((always_cmd _ _ _ _).mp hr).2) fun o s₁ h ↦ hruns o s₁ (.cmd h)
    | loop body' k' => cases hq
  | @loop _ body' k s s' _ ih =>
    intro r hq hr hruns
    cases r with
    | ret o =>
      cases o with
      | some b => cases hq
      | none =>
        -- a new turn begins where the invariant holds
        cases hq
        have hs : I s := hruns none s (.ret none s)
        exact ih body rfl (hbody s hs).1 fun o s₁ h ↦ (hbody s hs).2.elim h
    | cmd c' k' => cases hq
    | loop body'' k'' =>
      cases hq
      refine ih (unroll body' k'') ?_ (fun s₁ hv ↦ hr s₁ (.loop hv)) fun o s₁ h ↦
        hruns o s₁ (.loop h)
      exact (unroll_bind body' k'' _).symm

theorem always_whileTrue {body : Prog σ κ (Option β)} {Q : σ → Prop} (I : σ → Prop)
    (hbody : ∀ s, I s → always body Q s ∧ wp body (optionPost (fun _ s' ↦ Q s') I) s)
    {s : σ} (hs : I s) : always (whileTrue body) Q s := by
  intro s' hv
  refine hv.loop_inv hbody (.ret none) rfl ?_ ?_
  · exact (always_ret none Q s).mpr (hbody s hs).1.start
  · intro o s₁ h
    cases h
    exact hs

theorem always_forEach {f : ι → Prog σ κ Unit} {Q : σ → Prop} (I : List ι → σ → Prop)
    (hf : ∀ i is s, I (i :: is) s → always (f i) Q s ∧ wp (f i) (fun _ s' ↦ I is s') s)
    (hend : ∀ s, I [] s → Q s) {is : List ι} {s : σ} (hs : I is s) :
    always (forEach is f) Q s := by
  induction is generalizing s with
  | nil => exact (always_ret () Q s).mpr (hend s hs)
  | cons i is ih => exact always_bind (hf i is s hs).1 ((hf i is s hs).2.mono fun _ s' h ↦ ih h)

theorem always_firstSome {f : ι → Prog σ κ (Option β)} {Q : σ → Prop} (I : σ → Prop)
    {is : List ι}
    (hf : ∀ i ∈ is, ∀ s, I s → always (f i) Q s ∧ wp (f i) (optionPost (fun _ s' ↦ Q s') I) s)
    (hend : ∀ s, I s → Q s) {s : σ} (hs : I s) : always (firstSome is f) Q s := by
  induction is generalizing s with
  | nil => exact (always_ret none Q s).mpr (hend s hs)
  | cons i is ih =>
    obtain ⟨hfirst, hpost⟩ := hf i List.mem_cons_self s hs
    refine always_bind hfirst (hpost.mono fun o s' h ↦ ?_)
    cases o with
    | some b => exact (always_ret (some b) Q s').mpr h
    | none => exact ih (fun i hi ↦ hf i (List.mem_cons_of_mem _ hi)) h

/-- `collect` with a body that changes nothing. -/
theorem always_collect {f : ι → Prog σ κ (Option β)} {s : σ}
    (hf : ∀ i, always (f i) (· = s) s ∧ wp (f i) (fun _ s' ↦ s' = s) s) (is : List ι) :
    always (collect is f) (· = s) s ∧ wp (collect is f) (fun _ s' ↦ s' = s) s := by
  induction is with
  | nil => exact ⟨(always_ret [] _ s).mpr rfl, (wp_ret [] _ s).mpr rfl⟩
  | cons i is ih =>
    have hrest : ∀ o : Option β, always ((collect is f).bind fun rest ↦
        (.ret (o.toList ++ rest) : Prog σ κ (List β))) (· = s) s := by
      intro o
      refine always_bind ih.1 (ih.2.mono fun rest s' h ↦ ?_)
      exact (always_ret _ _ s').mpr h
    constructor
    · refine always_bind (hf i).1 ((hf i).2.mono fun o s' h ↦ ?_)
      rw [h]
      exact hrest o
    · rw [collect, wp_bind']
      refine (hf i).2.mono fun o s' h ↦ ?_
      rw [h, wp_bind']
      exact ih.2.mono fun rest s' h ↦ (wp_ret _ _ s').mpr h

end Prog

end Reasoning
