import TandemAio.Reasoning.Prog

/-!
# Interleaved programs

A pool of programs shares one store; the scheduler picks any of them for the next command.  Each
thread carries what it believes of the keys it has looked at: that they are as it last saw them, if
nobody else has changed them between its looks.  A step is *up to date* when the thread acts on a
key only as it believes the key to be.  `Safe` is the thread-local proof obligation, and
`PoolInv.step` turns it into an invariant of every pool whose steps are up to date.
-/

namespace Reasoning

open Prog

variable {σ κ ν α β : Type}

/-- Every command of the program, whatever is answered. -/
def Prog.Each (P : {ρ : Type} → Command σ κ ρ → Prop) : {α : Type} → Prog σ κ α → Prop
  | _, .ret _ => True
  | _, .cmd c k => P c ∧ ∀ r, (k r).Each P
  | _, .loop body k => body.Each P ∧ ∀ b, (k b).Each P

namespace Prog

variable {P : {ρ : Type} → Command σ κ ρ → Prop}

theorem each_bind {p : Prog σ κ α} {f : α → Prog σ κ β} (hp : p.Each P) (hf : ∀ a, (f a).Each P) :
    (p.bind f).Each P := by
  induction p with
  | ret a => exact hf a
  | cmd c k ih => exact ⟨hp.1, fun r ↦ ih r (hp.2 r) hf⟩
  | loop body k _ ihk => exact ⟨hp.1, fun b ↦ ihk b (hp.2 b) hf⟩

theorem each_collect {ι : Type} {f : ι → Prog σ κ (Option β)} (hf : ∀ i, (f i).Each P)
    (is : List ι) : (collect is f).Each P := by
  induction is with
  | nil => trivial
  | cons i is ih => exact each_bind (hf i) fun _ ↦ each_bind ih fun _ ↦ trivial

end Prog

/-! ## Beliefs -/

/-- What can be seen of a key, and which changes of it are made on the strength of what was seen
before.  Any other change, as taking the key from where it was, is a first look. -/
structure Sight (σ κ ν : Type) where
  view : κ → σ → ν
  acts : ν → ν → Prop

/-- The views of each key that a thread takes to be possible. -/
abbrev Belief (κ ν : Type) := κ → ν → Prop

namespace Sight

variable (L : Sight σ κ ν)

/-- The key has changed, and nothing had to be known of it. -/
def Takes (x : κ) (s s' : σ) : Prop :=
  L.view x s' ≠ L.view x s ∧ ¬L.acts (L.view x s) (L.view x s')

/-- What a thread believes after a step of its own, in which it looked at the keys `ks`.  Of a key
that has changed since it last looked it believes nothing any more. -/
def after (b : Belief κ ν) (ks : List κ) (s s' : σ) : Belief κ ν := fun x w ↦
  L.Takes x s s' ∧ w = L.view x s' ∨
    ¬L.Takes x s s' ∧ b x (L.view x s) ∧
      (x ∈ ks ∨ L.view x s' ≠ L.view x s → w = L.view x s') ∧
      (x ∉ ks ∧ L.view x s' = L.view x s → b x w)

/-- A thread that acts on a key sees it as it believes it to be. -/
def UpToDate (b : Belief κ ν) (s s' : σ) : Prop :=
  ∀ x, L.acts (L.view x s) (L.view x s') → b x (L.view x s)

/-- The belief takes the store to be possible as it is. -/
def Knows (b : Belief κ ν) (s : σ) : Prop := ∀ x, b x (L.view x s)

variable {L} {b : Belief κ ν} {ks : List κ} {s s' : σ}

theorem Knows.upToDate (h : L.Knows b s) (s' : σ) : L.UpToDate b s s' := fun x _ ↦ h x

theorem Knows.after (h : L.Knows b s) (ks : List κ) (s' : σ) : L.Knows (L.after b ks s s') s' := by
  intro x
  by_cases htakes : L.Takes x s s'
  · exact Or.inl ⟨htakes, rfl⟩
  · exact Or.inr ⟨htakes, h x, fun _ ↦ rfl, fun ⟨_, hsame⟩ ↦ hsame.symm ▸ h x⟩

/-- Where a key is seen as it was, a step narrows what is believed of it. -/
theorem after_le {x : κ} {w : ν} (hsame : L.view x s' = L.view x s) (h : L.after b ks s s' x w) :
    b x w := by
  rcases h with ⟨htakes, _⟩ | ⟨_, hbefore, hseen, hunseen⟩
  · exact absurd hsame htakes.1
  · by_cases hx : x ∈ ks
    · rw [hseen (Or.inl hx), hsame]
      exact hbefore
    · exact hunseen ⟨hx, hsame⟩

/-- A key that was looked at is believed to be as it is now, and to have been as it was. -/
theorem after_seen {x : κ} {w : ν} (hseen : x ∈ ks ∨ L.view x s' ≠ L.view x s)
    (htakes : ¬L.Takes x s s') (h : L.after b ks s s' x w) :
    b x (L.view x s) ∧ w = L.view x s' := by
  rcases h with ⟨h, _⟩ | ⟨_, hbefore, hnow, _⟩
  · exact absurd h htakes
  · exact ⟨hbefore, hnow hseen⟩

theorem after_takes {x : κ} {w : ν} (htakes : L.Takes x s s') (h : L.after b ks s s' x w) :
    w = L.view x s' := by
  rcases h with ⟨_, hw⟩ | ⟨h, _⟩
  · exact hw
  · exact absurd htakes h

end Sight

/-! ## Pools -/

structure Thread (σ κ ν α : Type) : Type 1 where
  code : Prog σ κ α
  belief : Belief κ ν

/-- The next command or loop turn of a thread. -/
def Thread.next (L : Sight σ κ ν) (t : Thread σ κ ν α) (s : σ) : Thread σ κ ν α × σ :=
  match t.code with
  | .ret _ => (t, s)
  | .cmd c k =>
    (⟨k (c.run s).1, L.after t.belief (c.seen (c.run s).1) s (c.run s).2⟩, (c.run s).2)
  | .loop body k => (⟨unroll body k, t.belief⟩, s)

structure Pool (σ κ ν α : Type) : Type 1 where
  store : σ
  threads : List (Thread σ κ ν α)

variable (L : Sight σ κ ν)

def Pool.schedule (p : Pool σ κ ν α) (i : Nat) (t : Thread σ κ ν α) : Pool σ κ ν α :=
  ⟨(t.next L p.store).2, p.threads.set i (t.next L p.store).1⟩

/-- The pool after a thread has been run for each number in the list. -/
def Pool.runs : List Nat → Pool σ κ ν α → Pool σ κ ν α
  | [], p => p
  | i :: rest, p =>
    match p.threads[i]? with
    | some t => runs rest (p.schedule L i t)
    | none => runs rest p

/-- One step of a pool, where `spawn` says which threads may join; the label is the thread that
ran, if one did. -/
inductive PoolStep (spawn : σ → Thread σ κ ν α → Prop) :
    Pool σ κ ν α → Option (Nat × Thread σ κ ν α) → Pool σ κ ν α → Prop
  | spawn {p t} : spawn p.store t → PoolStep spawn p none ⟨p.store, p.threads ++ [t]⟩
  | run {p i t} : p.threads[i]? = some t → PoolStep spawn p (some (i, t)) (p.schedule L i t)

/-- The runs of a pool whose threads' steps all meet `ok`. -/
inductive PoolRun (spawn : σ → Thread σ κ ν α → Prop) (ok : Thread σ κ ν α → σ → σ → Prop) :
    Pool σ κ ν α → Pool σ κ ν α → Prop
  | refl (p) : PoolRun spawn ok p p
  | step {p q r who} : PoolRun spawn ok p q → PoolStep L spawn q who r →
      (∀ t ∈ who.map Prod.snd, ok t q.store r.store) → PoolRun spawn ok p r

/-- The runs in which no thread acts on a key that another one has changed since the thread first
looked at it. -/
abbrev UpToDateRun (spawn : σ → Thread σ κ ν α → Prop) : Pool σ κ ν α → Pool σ κ ν α → Prop :=
  PoolRun L spawn fun t s s' ↦ L.UpToDate t.belief s s'

variable {L}

theorem PoolRun.trans {spawn : σ → Thread σ κ ν α → Prop} {ok} {p q r : Pool σ κ ν α}
    (h₁ : PoolRun L spawn ok p q) (h₂ : PoolRun L spawn ok q r) : PoolRun L spawn ok p r := by
  induction h₂ with
  | refl => exact h₁
  | step _ hs hok ih => exact ih.step hs hok

/-! ## The thread-local obligation -/

/-- What a group of programs is held to: an invariant of the store, and what every step
guarantees the others. -/
structure Contract (L : Sight σ κ ν) where
  inv : σ → Prop
  guar : σ → σ → Prop
  guar_refl : ∀ s, guar s s
  guar_trans : ∀ {s s₁ s₂}, guar s s₁ → guar s₁ s₂ → guar s s₂

namespace Contract

variable (C : Contract L)

/-- From a store `s` and with the belief `b`, every step of the program keeps the invariant and the
guarantee, whatever the others do in between, as long as the steps are up to date; and `Q` holds at
the end. -/
def Safe : {α : Type} → Prog σ κ α → (α → Belief κ ν → σ → Prop) → Belief κ ν → σ → Prop
  | _, .ret a, Q, b, s => Q a b s
  | _, .cmd c k, Q, b, s => ∀ s', C.guar s s' → C.inv s' → L.UpToDate b s' (c.run s').2 →
      C.inv (c.run s').2 ∧ C.guar s' (c.run s').2 ∧
        Safe (k (c.run s').1) Q (L.after b (c.seen (c.run s').1) s' (c.run s').2) (c.run s').2
  | _, .loop body k, Q, b, s => ∃ J : Belief κ ν → σ → Prop, J b s ∧ ∀ b' s', J b' s' →
      Safe body (fun o b'' s'' ↦ match o with
        | some r => Safe (k r) Q b'' s''
        | none => J b'' s'') b' s'

variable {C}

theorem Safe.mono {p : Prog σ κ α} {Q Q' : α → Belief κ ν → σ → Prop} {b : Belief κ ν} {s : σ}
    (h : C.Safe p Q b s) (hQ : ∀ a b s, Q a b s → Q' a b s) : C.Safe p Q' b s := by
  induction p generalizing b s with
  | ret a => exact hQ a b s h
  | cmd c k ih =>
    intro s' hguar hinv hdate
    obtain ⟨h₁, h₂, h₃⟩ := h s' hguar hinv hdate
    exact ⟨h₁, h₂, ih _ h₃ hQ⟩
  | loop body k ihb ihk =>
    obtain ⟨J, hJ, hbody⟩ := h
    refine ⟨J, hJ, fun b' s' h' ↦ ihb (hbody b' s' h') ?_⟩
    intro o b'' s'' ho
    cases o with
    | some r => exact ihk r ho hQ
    | none => exact ho

theorem safe_bind {p : Prog σ κ α} {f : α → Prog σ κ β} {Q : β → Belief κ ν → σ → Prop}
    {b : Belief κ ν} {s : σ} :
    C.Safe (p.bind f) Q b s ↔ C.Safe p (fun a b' s' ↦ C.Safe (f a) Q b' s') b s := by
  induction p generalizing b s with
  | ret a => exact Iff.rfl
  | cmd c k ih => simp only [Prog.bind, Safe, ih]
  | loop body k _ ihk =>
    simp only [Prog.bind, Safe]
    have hk : ∀ r, C.Safe ((k r).bind f) Q =
        C.Safe (k r) fun a b' s' ↦ C.Safe (f a) Q b' s' := by
      intro r
      funext b' s'
      exact propext (ihk r)
    simp only [hk]

theorem safe_monadBind {p : Prog σ κ α} {f : α → Prog σ κ β} {Q : β → Belief κ ν → σ → Prop}
    {b : Belief κ ν} {s : σ} :
    C.Safe (p >>= f) Q b s ↔ C.Safe p (fun a b' s' ↦ C.Safe (f a) Q b' s') b s := safe_bind

theorem Safe.unroll {body : Prog σ κ (Option β)} {k : β → Prog σ κ α}
    {Q : α → Belief κ ν → σ → Prop} {b : Belief κ ν} {s : σ} (h : C.Safe (.loop body k) Q b s) :
    C.Safe (unroll body k) Q b s := by
  obtain ⟨J, hJ, hbody⟩ := h
  refine safe_bind.mpr ((hbody b s hJ).mono fun o b' s' ho ↦ ?_)
  cases o with
  | some r => exact ho
  | none => exact ⟨J, ho, hbody⟩

/-- A loop over a list whose body is safe from anywhere. -/
theorem safe_forEach {ι : Type} {f : ι → Prog σ κ Unit}
    (hf : ∀ i b s, C.Safe (f i) (fun _ _ _ ↦ True) b s) (is : List ι) (b : Belief κ ν) (s : σ) :
    C.Safe (forEach is f) (fun _ _ _ ↦ True) b s := by
  induction is generalizing b s with
  | nil => exact trivial
  | cons i is ih => exact safe_bind.mpr ((hf i b s).mono fun _ b' s' _ ↦ ih b' s')

/-- A loop whose body is safe from anywhere and ends with `Q`. -/
theorem safe_whileTrue {body : Prog σ κ (Option α)} {Q : α → Belief κ ν → σ → Prop}
    (h : ∀ b s, C.Safe body (fun o b' s' ↦ ∀ a ∈ o, Q a b' s') b s) (b : Belief κ ν) (s : σ) :
    C.Safe (whileTrue body) Q b s := by
  refine ⟨fun _ _ ↦ True, trivial, fun b' s' _ ↦ (h b' s').mono fun o b'' s'' ho ↦ ?_⟩
  cases o with
  | some a => exact ho a rfl
  | none => trivial

theorem safe_firstSome {ι : Type} {f : ι → Prog σ κ (Option α)}
    {Q : α → Belief κ ν → σ → Prop}
    (h : ∀ i b s, C.Safe (f i) (fun o b' s' ↦ ∀ a ∈ o, Q a b' s') b s) (is : List ι)
    (b : Belief κ ν) (s : σ) :
    C.Safe (firstSome is f) (fun o b' s' ↦ ∀ a ∈ o, Q a b' s') b s := by
  induction is generalizing b s with
  | nil => exact fun a ha ↦ nomatch ha
  | cons i is ih =>
    refine safe_bind.mpr ((h i b s).mono fun o b' s' ho ↦ ?_)
    cases o with
    | some a => exact ho
    | none => exact ih b' s'

/-- A safe program that runs alone keeps the invariant, where no step is ever out of date. -/
theorem Safe.runs (hdate : ∀ b s s', L.UpToDate b s s') {p : Prog σ κ α}
    {Q : α → Belief κ ν → σ → Prop} {b : Belief κ ν} {s s' : σ} {a : α} (h : C.Safe p Q b s)
    (hs : C.inv s) (hr : Runs p s a s') : C.inv s' ∧ ∃ b', Q a b' s' := by
  induction hr generalizing b with
  | ret a s => exact ⟨hs, b, h⟩
  | cmd _ ih =>
    obtain ⟨hinv, _, hrest⟩ := h _ (C.guar_refl _) hs (hdate _ _ _)
    exact ih hrest hinv
  | loop _ ih => exact ih h.unroll hs

/-! ### Programs that touch nothing others look at -/

/-- A command after which all keys are seen as before. -/
def Quiet (C : Contract L) {ρ : Type} (c : Command σ κ ρ) : Prop :=
  ∀ s, C.inv s → C.inv (c.run s).2 ∧ C.guar s (c.run s).2 ∧
    ∀ x, L.view x (c.run s).2 = L.view x s

theorem safe_quiet {ρ : Type} {c : Command σ κ ρ} {k : ρ → Prog σ κ α}
    {Q : α → Belief κ ν → σ → Prop} {b : Belief κ ν} {s : σ} (hc : C.Quiet c)
    (h : ∀ s', C.guar s s' → C.inv s' →
      C.Safe (k (c.run s').1) Q (L.after b (c.seen (c.run s').1) s' (c.run s').2) (c.run s').2) :
    C.Safe (.cmd c k) Q b s := by
  intro s' hguar hinv _
  obtain ⟨hinv', hguar', _⟩ := hc s' hinv
  exact ⟨hinv', hguar', h s' hguar hinv⟩

/-- A program of quiet commands only narrows what is believed. -/
theorem safe_of_each {p : Prog σ κ α} {Q : α → Belief κ ν → σ → Prop} {b : Belief κ ν} {s : σ}
    (hp : p.Each fun c ↦ C.Quiet c)
    (h : ∀ a b' s', (∀ x w, b' x w → b x w) → C.guar s s' → Q a b' s') : C.Safe p Q b s := by
  induction p generalizing b s with
  | ret a => exact h a b s (fun _ _ hb ↦ hb) (C.guar_refl s)
  | cmd c k ih =>
    apply safe_quiet hp.1
    intro s' hguar hinv
    obtain ⟨_, hguar', hview⟩ := hp.1 s' hinv
    apply ih _ (hp.2 _)
    intro a b' s'' hle hguar''
    apply h a b' s'' _ (C.guar_trans hguar (C.guar_trans hguar' hguar''))
    exact fun x w hw ↦ Sight.after_le (hview x) (hle x w hw)
  | loop body k ihb ihk =>
    refine ⟨fun b' s' ↦ (∀ x w, b' x w → b x w) ∧ C.guar s s',
      ⟨fun _ _ hb ↦ hb, C.guar_refl s⟩, fun b' s' ⟨hle, hguar⟩ ↦ ihb hp.1 ?_⟩
    intro o b'' s'' hle' hguar'
    have hle'' : ∀ x w, b'' x w → b x w := fun x w hw ↦ hle x w (hle' x w hw)
    have hguar'' : C.guar s s'' := C.guar_trans hguar hguar'
    cases o with
    | some r =>
      apply ihk r (hp.2 r)
      intro a b₃ s₃ hle₃ hguar₃
      exact h a b₃ s₃ (fun x w hw ↦ hle'' x w (hle₃ x w hw)) (C.guar_trans hguar'' hguar₃)
    | none => exact ⟨hle'', hguar''⟩

/-! ### Pools -/

/-- A thread is safe from some earlier store, since which the others have kept the guarantee. -/
def SafeThread (C : Contract L) (t : Thread σ κ ν α) (s : σ) : Prop :=
  ∃ s₀, C.guar s₀ s ∧ C.Safe t.code (fun _ _ _ ↦ True) t.belief s₀

theorem SafeThread.next {t : Thread σ κ ν α} {s : σ} (h : C.SafeThread t s) (hinv : C.inv s)
    (hdate : L.UpToDate t.belief s (t.next L s).2) :
    C.inv (t.next L s).2 ∧ C.guar s (t.next L s).2 ∧
      C.SafeThread (t.next L s).1 (t.next L s).2 := by
  obtain ⟨code, belief⟩ := t
  obtain ⟨s₀, hguar, hsafe⟩ := h
  cases code with
  | ret a => exact ⟨hinv, C.guar_refl s, s₀, hguar, hsafe⟩
  | cmd c k =>
    obtain ⟨hinv', hguar', hrest⟩ := hsafe s hguar hinv hdate
    exact ⟨hinv', hguar', (c.run s).2, C.guar_refl _, hrest⟩
  | loop body k => exact ⟨hinv, C.guar_refl s, s₀, hguar, Safe.unroll hsafe⟩

/-- The invariant of a pool: every thread is safe. -/
structure PoolInv (C : Contract L) (p : Pool σ κ ν α) : Prop where
  inv : C.inv p.store
  threads : ∀ t ∈ p.threads, C.SafeThread t p.store

/-- Every thread that may join is safe. -/
def Admits (C : Contract L) (spawn : σ → Thread σ κ ν α → Prop) : Prop :=
  ∀ s t, spawn s t → C.inv s → C.Safe t.code (fun _ _ _ ↦ True) t.belief s

theorem PoolInv.step {spawn : σ → Thread σ κ ν α → Prop} (ha : C.Admits spawn)
    {p q : Pool σ κ ν α} {who} (h : C.PoolInv p) (hs : PoolStep L spawn p who q)
    (hdate : ∀ t ∈ who.map Prod.snd, L.UpToDate t.belief p.store q.store) :
    C.PoolInv q ∧ C.guar p.store q.store := by
  cases hs with
  | @spawn t hspawn =>
    refine ⟨⟨h.inv, fun u hu ↦ ?_⟩, C.guar_refl _⟩
    rcases List.mem_append.mp hu with hu | hu
    · exact h.threads u hu
    · rw [List.mem_singleton.mp hu]
      exact ⟨p.store, C.guar_refl _, ha p.store t hspawn h.inv⟩
  | @run i t ht =>
    obtain ⟨hinv, hguar, hnext⟩ :=
      (h.threads t (List.mem_of_getElem? ht)).next h.inv (hdate t rfl)
    refine ⟨⟨hinv, fun u hu ↦ ?_⟩, hguar⟩
    rcases List.mem_or_eq_of_mem_set hu with hu | rfl
    · obtain ⟨s₀, hguar₀, hsafe⟩ := h.threads u hu
      exact ⟨s₀, C.guar_trans hguar₀ hguar, hsafe⟩
    · exact hnext

/-- In an up-to-date run the invariant holds in every pool reached, and every store keeps the
guarantee to those before it. -/
theorem PoolInv.run {spawn : σ → Thread σ κ ν α → Prop} (ha : C.Admits spawn)
    {p q : Pool σ κ ν α} (h : C.PoolInv p) (hr : UpToDateRun L spawn p q) :
    C.PoolInv q ∧ C.guar p.store q.store := by
  induction hr with
  | refl => exact ⟨h, C.guar_refl _⟩
  | step _ hs hdate ih =>
    obtain ⟨hinv, hguar⟩ := ih
    obtain ⟨hinv', hguar'⟩ := hinv.step ha hs hdate
    exact ⟨hinv', C.guar_trans hguar hguar'⟩

end Contract

/-! ## Schedules -/

/-- Any schedule is a run. -/
theorem poolRun_runs (spawn : σ → Thread σ κ ν α → Prop) (p : Pool σ κ ν α)
    (schedule : List Nat) : PoolRun L spawn (fun _ _ _ ↦ True) p (p.runs L schedule) := by
  induction schedule generalizing p with
  | nil => exact .refl p
  | cons i rest ih =>
    unfold Pool.runs
    split
    · rename_i t ht
      exact ((PoolRun.refl p).step (.run ht) fun _ _ ↦ trivial).trans (ih _)
    · exact ih p

theorem Thread.knows_next {t : Thread σ κ ν α} {s : σ} (h : L.Knows t.belief s) :
    L.Knows (t.next L s).1.belief (t.next L s).2 := by
  obtain ⟨code, belief⟩ := t
  cases code with
  | ret a => exact h
  | cmd c k => exact h.after _ _
  | loop body k => exact h

/-- A thread that runs alone is up to date. -/
theorem upToDateRun_alone (spawn : σ → Thread σ κ ν α → Prop) {p : Pool σ κ ν α} {i : Nat}
    {t : Thread σ κ ν α} (ht : p.threads[i]? = some t) (hknows : L.Knows t.belief p.store)
    (n : Nat) : UpToDateRun L spawn p (p.runs L (List.replicate n i)) := by
  induction n generalizing p t with
  | zero => exact .refl p
  | succ n ih =>
    have hstep : p.runs L (List.replicate (n + 1) i) =
        (p.schedule L i t).runs L (List.replicate n i) := by
      rw [List.replicate_succ, Pool.runs, ht]
    have hi : i < p.threads.length := (List.getElem?_eq_some_iff.mp ht).1
    have hnext : (p.schedule L i t).threads[i]? = some (t.next L p.store).1 :=
      List.getElem?_set_self hi
    rw [hstep]
    refine PoolRun.trans ((PoolRun.refl p).step (.run ht) ?_)
      (ih hnext (Thread.knows_next hknows))
    intro u hu
    cases hu
    exact hknows.upToDate _

end Reasoning
