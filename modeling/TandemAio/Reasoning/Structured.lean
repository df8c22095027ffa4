import Mathlib.Data.List.Basic
import Mathlib.Data.Option.Basic

/-!
# Structured programs

Pieces of programs with loops, jumps and returns, in two languages, and when one piece does what
the other does as long as a monitor of the first one's events finds nothing wrong.
-/

namespace Reasoning

/-- How control leaves a piece. -/
inductive Outcome (ρ : Type) where
  | next
  | brk
  | cont
  | ret (value : ρ)
deriving DecidableEq

structure Ran (ρ σ ε : Type) where
  outcome : Outcome ρ
  state : σ
  events : List ε

/-- A piece of a program; `none` when it is stuck or runs out of fuel. -/
abbrev Piece (ρ σ ε : Type) := σ → Option (Ran ρ σ ε)

namespace Piece

variable {ρ σ ε α β : Type}

def jump (o : Outcome ρ) : Piece ρ σ ε := fun s ↦ some ⟨o, s, []⟩

def skip : Piece ρ σ ε := jump .next

def saying (events : List ε) (p : Piece ρ σ ε) : Piece ρ σ ε := fun s ↦
  (p s).map fun r ↦ { r with events := events ++ r.events }

/-- What is done after a piece, by how control left it. -/
def follow (p : Piece ρ σ ε) (k : Outcome ρ → Piece ρ σ ε) : Piece ρ σ ε := fun s ↦
  match p s with
  | some r => saying r.events (k r.outcome) r.state
  | none => none

def andThen (p q : Piece ρ σ ε) : Piece ρ σ ε :=
  follow p fun
    | .next => q
    | o => jump o

def seq (f : α → Piece ρ σ ε) : List α → Piece ρ σ ε
  | [] => skip
  | a :: rest => andThen (f a) (seq f rest)

/-- One turn of a loop, and the turns after it. -/
def turn (body rest : Piece ρ σ ε) : Piece ρ σ ε :=
  follow body fun
    | .next => rest
    | .cont => rest
    | .brk => skip
    | .ret v => jump (.ret v)

def forEach (body : α → Piece ρ σ ε) (done : Piece ρ σ ε) : List α → Piece ρ σ ε
  | [] => done
  | a :: rest => turn (body a) (forEach body done rest)

/-- An expression, and what is done with its value. -/
def eval (f : σ → Option (β × List ε)) (k : β → Piece ρ σ ε) : Piece ρ σ ε := fun s ↦
  match f s with
  | some (b, events) => saying events (k b) s
  | none => none

theorem saying_none (events : List ε) {p : Piece ρ σ ε} {s : σ} (h : p s = none) :
    saying events p s = none := by
  unfold saying
  rw [h]
  rfl

theorem saying_some (events : List ε) {p : Piece ρ σ ε} {s : σ} {r : Ran ρ σ ε}
    (h : p s = some r) : saying events p s = some { r with events := events ++ r.events } := by
  unfold saying
  rw [h]
  rfl

/-- The monitor lets the first events pass, and then those of the piece. -/
theorem saying_watched {μ : Type} {watch : μ → ε → Option μ} {events : List ε}
    {p : Piece ρ σ ε} {s : σ} {r : Ran ρ σ ε} {m m'' : μ} (hp : saying events p s = some r)
    (hwatch : r.events.foldlM watch m = some m'') :
    ∃ m' after, events.foldlM watch m = some m' ∧ p s = some after ∧
      after.events.foldlM watch m' = some m'' ∧
      r = { after with events := events ++ after.events } := by
  obtain ⟨after, hafter, rfl⟩ := Option.map_eq_some_iff.mp hp
  rw [List.foldlM_append] at hwatch
  obtain ⟨m', hevents, hwatch⟩ := Option.bind_eq_some_iff.mp hwatch
  exact ⟨m', after, hevents, hafter, hwatch, rfl⟩

theorem follow_none {p : Piece ρ σ ε} (k : Outcome ρ → Piece ρ σ ε) {s : σ} (h : p s = none) :
    follow p k s = none := by
  unfold follow
  rw [h]

theorem follow_some {p : Piece ρ σ ε} (k : Outcome ρ → Piece ρ σ ε) {s : σ} {r : Ran ρ σ ε}
    (h : p s = some r) : follow p k s = saying r.events (k r.outcome) r.state := by
  unfold follow
  rw [h]

theorem saying_nil (p : Piece ρ σ ε) : saying [] p = p := by
  funext s
  unfold saying
  cases p s <;> rfl

theorem saying_saying (first second : List ε) (p : Piece ρ σ ε) :
    saying first (saying second p) = saying (first ++ second) p := by
  funext s
  unfold saying
  rw [Option.map_map]
  congr 1
  funext r
  show Ran.mk _ _ _ = Ran.mk _ _ _
  rw [List.append_assoc]

theorem jump_follow (o : Outcome ρ) (k : Outcome ρ → Piece ρ σ ε) : follow (jump o) k = k o := by
  show saying [] (k o) = k o
  exact saying_nil _

theorem follow_jump (p : Piece ρ σ ε) : follow p jump = p := by
  funext s
  rcases hp : p s with _ | r
  · exact follow_none _ hp
  · rw [follow_some _ hp]
    show some (Ran.mk r.outcome r.state (r.events ++ [])) = some r
    rw [List.append_nil]

theorem saying_follow (events : List ε) (p : Piece ρ σ ε) (k : Outcome ρ → Piece ρ σ ε) :
    follow (saying events p) k = saying events (follow p k) := by
  funext s
  rcases hp : p s with _ | r
  · rw [follow_none _ (saying_none events hp), saying_none events (follow_none _ hp)]
  · have hsay : saying events (follow p k) s =
        saying events (saying r.events (k r.outcome)) r.state := by
      show (follow p k s).map _ = (saying r.events (k r.outcome) r.state).map _
      rw [follow_some _ hp]
    rw [follow_some _ (saying_some events hp), hsay, saying_saying]

theorem follow_follow (p : Piece ρ σ ε) (k k' : Outcome ρ → Piece ρ σ ε) :
    follow (follow p k) k' = follow p fun o ↦ follow (k o) k' := by
  funext s
  rcases hp : p s with _ | r
  · rw [follow_none _ (follow_none _ hp), follow_none _ hp]
  · have hboth : follow (follow p k) k' s =
        follow (saying r.events (k r.outcome)) k' r.state := by
      show (match follow p k s with | some r => _ | none => _) =
        (match saying r.events (k r.outcome) r.state with | some r => _ | none => _)
      rw [follow_some _ hp]
    rw [hboth, saying_follow, follow_some _ hp]

theorem andThen_skip (p : Piece ρ σ ε) : andThen p skip = p := by
  have hjump : (fun o : Outcome ρ ↦ match o with
      | .next => skip
      | o => jump o) = (jump : Outcome ρ → Piece ρ σ ε) := by
    funext o
    cases o <;> rfl
  unfold andThen
  rw [hjump, follow_jump]

theorem skip_andThen (p : Piece ρ σ ε) : andThen skip p = p :=
  jump_follow _ _

theorem andThen_assoc (p q r : Piece ρ σ ε) :
    andThen (andThen p q) r = andThen p (andThen q r) := by
  unfold andThen
  rw [follow_follow]
  congr 1
  funext o
  cases o <;> rfl

theorem seq_append (f : α → Piece ρ σ ε) (first second : List α) :
    seq f (first ++ second) = andThen (seq f first) (seq f second) := by
  induction first with
  | nil => exact (skip_andThen _).symm
  | cons a rest ih =>
    show andThen (f a) (seq f (rest ++ second)) = andThen (andThen (f a) (seq f rest)) _
    rw [ih, andThen_assoc]

theorem seq_singleton (f : α → Piece ρ σ ε) (a : α) : seq f [a] = f a :=
  andThen_skip _

end Piece

/-- The outcomes of two pieces, with the values they return. -/
inductive Outcome.Matches {ρ ρ' : Type} (V : ρ → ρ' → Prop) : Outcome ρ → Outcome ρ' → Prop where
  | next : Outcome.Matches V .next .next
  | brk : Outcome.Matches V .brk .brk
  | cont : Outcome.Matches V .cont .cont
  | ret {v : ρ} {w : ρ'} : V v w → Outcome.Matches V (.ret v) (.ret w)

/-! ## Simulation -/

section Simulation

variable {ρ ρ' σ τ ε ε' μ : Type}

/-- A monitor of the first language's events, and what relates the states and the values of
both. -/
structure Coupling (ρ ρ' σ τ ε μ : Type) where
  watch : μ → ε → Option μ
  related : σ → μ → τ → Prop
  values : ρ → ρ' → Prop

variable (R : Coupling ρ ρ' σ τ ε μ)

/-- From related states the second piece does what the first one does, if the monitor lets the
events of the first one pass. -/
def Simulated (p : Piece ρ σ ε) (q : Piece ρ' τ ε') : Prop :=
  ∀ ⦃s m t r m'⦄, R.related s m t → p s = some r → r.events.foldlM R.watch m = some m' →
    ∃ r', q t = some r' ∧ r.outcome.Matches R.values r'.outcome ∧ R.related r.state m' r'.state

/-- The second language finds a related value for what the first one evaluates. -/
def Evaluated {α β : Type} (A : α → β → Prop) (f : σ → Option (α × List ε))
    (g : τ → Option (β × List ε')) : Prop :=
  ∀ ⦃s m t a events m'⦄, R.related s m t → f s = some (a, events) →
    events.foldlM R.watch m = some m' →
      R.related s m' t ∧ ∃ b events', g t = some (b, events') ∧ A a b

variable {R}

namespace Simulated

theorem jump {o : Outcome ρ} {o' : Outcome ρ'} (h : o.Matches R.values o') :
    Simulated R (Piece.jump o) (Piece.jump o' : Piece ρ' τ ε') := by
  intro s m t r m' hrel hp hwatch
  unfold Piece.jump at hp
  cases hp
  cases hwatch
  exact ⟨⟨o', t, []⟩, rfl, h, hrel⟩

theorem skip : Simulated R Piece.skip (Piece.skip : Piece ρ' τ ε') :=
  jump .next

theorem follow {p : Piece ρ σ ε} {q : Piece ρ' τ ε'} {k : Outcome ρ → Piece ρ σ ε}
    {k' : Outcome ρ' → Piece ρ' τ ε'} (h : Simulated R p q)
    (hk : ∀ o o', o.Matches R.values o' → Simulated R (k o) (k' o')) :
    Simulated R (p.follow k) (q.follow k') := by
  intro s m t r m'' hrel hp hwatch
  rcases hfirst : p s with _ | first
  · rw [Piece.follow_none _ hfirst] at hp
    cases hp
  · rw [Piece.follow_some _ hfirst] at hp
    obtain ⟨m', after, hevents, hafter, hwatch', rfl⟩ := Piece.saying_watched hp hwatch
    obtain ⟨first', hq, hmatch, hrel'⟩ := h hrel hfirst hevents
    obtain ⟨after', hq', hmatch', hrel''⟩ := hk _ _ hmatch hrel' hafter hwatch'
    rw [Piece.follow_some _ hq]
    exact ⟨_, Piece.saying_some first'.events hq', hmatch', hrel''⟩

theorem andThen {p p' : Piece ρ σ ε} {q q' : Piece ρ' τ ε'} (h : Simulated R p q)
    (h' : Simulated R p' q') : Simulated R (p.andThen p') (q.andThen q') := by
  apply h.follow
  intro o o' hmatch
  cases hmatch with
  | next => exact h'
  | brk => exact jump .brk
  | cont => exact jump .cont
  | ret hv => exact jump (.ret hv)

theorem turn {body rest : Piece ρ σ ε} {body' rest' : Piece ρ' τ ε'} (h : Simulated R body body')
    (h' : Simulated R rest rest') : Simulated R (body.turn rest) (body'.turn rest') := by
  apply h.follow
  intro o o' hmatch
  cases hmatch with
  | next => exact h'
  | brk => exact skip
  | cont => exact h'
  | ret hv => exact jump (.ret hv)

/-- Statements of which each stands for several of the second language. -/
theorem seq {α β : Type} {f : α → Piece ρ σ ε} {g : β → Piece ρ' τ ε'} {visit : α → List β}
    {l : List α} (h : ∀ a ∈ l, Simulated R (f a) (Piece.seq g (visit a))) :
    Simulated R (Piece.seq f l) (Piece.seq g (l.flatMap visit)) := by
  induction l with
  | nil => exact skip
  | cons a rest ih =>
    rw [List.flatMap_cons, Piece.seq_append]
    exact andThen (h a List.mem_cons_self) (ih fun b hb ↦ h b (List.mem_cons_of_mem _ hb))

theorem forEach {α : Type} {body : α → Piece ρ σ ε} {body' : α → Piece ρ' τ ε'}
    {done : Piece ρ σ ε} {done' : Piece ρ' τ ε'} {l : List α}
    (h : ∀ a ∈ l, Simulated R (body a) (body' a)) (hdone : Simulated R done done') :
    Simulated R (Piece.forEach body done l) (Piece.forEach body' done' l) := by
  induction l with
  | nil => exact hdone
  | cons a rest ih =>
    exact turn (h a List.mem_cons_self) (ih fun b hb ↦ h b (List.mem_cons_of_mem _ hb))

theorem eval {α β : Type} {A : α → β → Prop} {f : σ → Option (α × List ε)}
    {g : τ → Option (β × List ε')} {k : α → Piece ρ σ ε} {k' : β → Piece ρ' τ ε'}
    (h : Evaluated R A f g) (hk : ∀ a b, A a b → Simulated R (k a) (k' b)) :
    Simulated R (Piece.eval f k) (Piece.eval g k') := by
  intro s m t r m'' hrel hp hwatch
  unfold Piece.eval at hp
  split at hp
  · rename_i a events hf
    obtain ⟨m', after, hevents, hafter, hwatch', rfl⟩ := Piece.saying_watched hp hwatch
    obtain ⟨hrel', b, events', hg, hvalue⟩ := h hrel hf hevents
    obtain ⟨after', hq', hmatch, hrel''⟩ := hk a b hvalue hrel' hafter hwatch'
    refine ⟨{ after' with events := events' ++ after'.events }, ?_, hmatch, hrel''⟩
    unfold Piece.eval
    rw [hg]
    exact Piece.saying_some events' hq'
  · cases hp

end Simulated

end Simulation

end Reasoning
