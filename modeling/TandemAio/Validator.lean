import TandemAio.PythonSyntax

/-!
# `validator.py` of the SDK

The check that a task writes to no module global: one pass over the function with a stack of the
names bound so far, and what that pass finds.
-/

namespace TandemAio

/-- `_FreeVariableVisitor`, with the innermost scope first.  The free reads it also collects are
not used. -/
structure Visitor where
  scopes : List (List String)
  freeWrites : List (String × Nat)

namespace Visitor

/-- `_bound_in_any_scope` -/
def bound (v : Visitor) (name : String) : Prop := ∃ scope ∈ v.scopes, name ∈ scope

instance (v : Visitor) (name : String) : Decidable (v.bound name) :=
  inferInstanceAs (Decidable (∃ scope ∈ v.scopes, name ∈ scope))

/-- `_bind` -/
def bind (v : Visitor) (name : String) : Visitor :=
  match v.scopes with
  | [] => v
  | top :: rest => { v with scopes := (name :: top) :: rest }

def push (v : Visitor) : Visitor := { v with scopes := [] :: v.scopes }

def pop (v : Visitor) : Visitor := { v with scopes := v.scopes.tail }

/-- `visit_Name` for a name that is stored to. -/
def store (builtins : List String) (v : Visitor) (id : String) : Visitor :=
  if id ∈ builtins then v else if v.bound id then v else v.bind id

end Visitor

/-- `_bind_target`. -/
def bindTarget (target : Target) (v : Visitor) : Visitor := target.names.foldl Visitor.bind v

section Visit

variable (builtins : List String)

mutual

def visitExpr : Expr → Visitor → Visitor
  | .name _, v => v
  | .other operands, v => visitExprs operands v
  | .namedExpr target value, v => visitExpr value (v.store builtins target)
  -- the starred parameters are not bound, the defaults are not visited
  | .lambda args _ body, v => (visitExpr body (args.names.foldl Visitor.bind v.push)).pop
  | .comp generators elements, v => (visitExprs elements (visitGenerators generators v.push)).pop

def visitExprs : List Expr → Visitor → Visitor
  | [], v => v
  | expr :: rest, v => visitExprs rest (visitExpr expr v)

/-- The visit of a target that is not bound as a plain name. -/
def visitTarget : Target → Visitor → Visitor
  | .name id, v => v.store builtins id
  | .sequence elts, v => visitTargets elts v
  | .starred value, v => visitTarget value v
  | .place operands, v => visitExprs operands v

def visitTargets : List Target → Visitor → Visitor
  | [], v => v
  | target :: rest, v => visitTargets rest (visitTarget target v)

def visitGenerators : List Generator → Visitor → Visitor
  | [], v => v
  | ⟨target, iter, ifs⟩ :: rest, v =>
    visitGenerators rest (visitExprs ifs (bindTarget target (visitExpr iter v)))

end

/-- The targets of `visit_Assign`. -/
def visitAssigned : List Target → Visitor → Visitor
  | [], v => v
  | .name id :: rest, v => visitAssigned rest (bindTarget (.name id) v)
  | target :: rest, v => visitAssigned rest (visitTarget builtins target (bindTarget target v))

/-- The items of `visit_With`. -/
def visitItems : List (Expr × Option Target) → Visitor → Visitor
  | [], v => v
  | (context, none) :: rest, v => visitItems rest (visitExpr builtins context v)
  | (context, some target) :: rest, v =>
    visitItems rest (bindTarget target (visitExpr builtins context v))

/-- An expression that may be missing. -/
def visitOption : Option Expr → Visitor → Visitor
  | none, v => v
  | some expr, v => visitExpr builtins expr v

/-- The write of `visit_AugAssign`. -/
def Visitor.augment (v : Visitor) (id : String) (line : Nat) : Visitor :=
  (if v.bound id then v else { v with freeWrites := v.freeWrites ++ [(id, line)] }).bind id

mutual

def visitStmt : Stmt → Visitor → Visitor
  | .exprs values, v => visitExprs builtins values v
  | .assign targets value, v => visitAssigned builtins targets (visitExpr builtins value v)
  | .annAssign target value, v => bindTarget target (visitOption builtins value v)
  | .augAssign line target value, v =>
    let v := visitExpr builtins value v
    match target with
    | .name id => v.augment id line
    | target => visitTarget builtins target v
  -- what an attribute or a subscription as a loop variable is made of is not visited
  | .forLoop target iter body orelse, v =>
    visitBlock orelse (visitBlock body (bindTarget target (visitExpr builtins iter v)))
  | .whileLoop test body orelse, v =>
    visitBlock orelse (visitBlock body (visitExpr builtins test v))
  | .ifElse test body orelse, v =>
    visitBlock orelse (visitBlock body (visitExpr builtins test v))
  | .withBlock items body, v => visitBlock body (visitItems builtins items v)
  | .tryBlock body handlers orelse finalbody, v =>
    visitBlock finalbody (visitBlock orelse (visitHandlers handlers (visitBlock body v)))
  | .functionDef fn, v => visitFunctionDef fn v
  | .imports _, v => v
  | .globals _, v => v
  | .nonlocals _, v => v

def visitBlock : List Stmt → Visitor → Visitor
  | [], v => v
  | stmt :: rest, v => visitBlock rest (visitStmt stmt v)

/-- The name of a handler is no node, so it is not bound. -/
def visitHandlers : List Handler → Visitor → Visitor
  | [], v => v
  | ⟨type, _, body⟩ :: rest, v =>
    visitHandlers rest (visitBlock body (visitOption builtins type v))

/-- Neither the name of the function is bound, nor are its decorators and defaults visited. -/
def visitFunctionDef : FunctionDef → Visitor → Visitor
  | ⟨_, args, _, body⟩, v => (visitBlock body (args.all.foldl Visitor.bind v.push)).pop

end

/-- `validate_independence`, for the definition of the function: the message of the
`TandemValidationError` it raises. -/
def validateIndependence (immutableNames : List String) (label : String) (fn : FunctionDef) :
    Except String Unit :=
  match (visitFunctionDef builtins fn ⟨[[]], []⟩).freeWrites with
  | [] => .ok ()
  | (name, line) :: _ =>
    if name ∈ immutableNames then
      .error ("In '" ++ label ++ "' (line " ++ toString line ++ "): immutable variable '" ++ name ++
        "' cannot be modified inside a tandem task.")
    else
      .error ("In '" ++ label ++ "' (line " ++ toString line ++ "): global variable '" ++ name ++
        "' cannot be modified inside a tandem task -- each node runs its own frozen copy, so the " ++
        "change wouldn't be shared. Use a parameter and return the result instead.")

end Visit

/-! ## The names bound so far -/

section Binds

variable (builtins : List String)

mutual

/-- The names that the visit of an expression adds to the scope around it. -/
def Expr.binds : Expr → List String
  | .name _ => []
  | .other operands => Expr.allBinds operands
  | .namedExpr target value => (if target ∈ builtins then [] else [target]) ++ value.binds
  | .lambda _ _ _ => []
  | .comp _ _ => []

def Expr.allBinds : List Expr → List String
  | [] => []
  | expr :: rest => expr.binds ++ Expr.allBinds rest

end

mutual

def Target.binds : Target → List String
  | .name id => if id ∈ builtins then [] else [id]
  | .sequence elts => Target.allBinds elts
  | .starred value => value.binds
  | .place operands => Expr.allBinds builtins operands

def Target.allBinds : List Target → List String
  | [] => []
  | target :: rest => target.binds ++ Target.allBinds rest

end

def assignedBinds : List Target → List String
  | [] => []
  | .name id :: rest => id :: assignedBinds rest
  | target :: rest => target.names ++ target.binds builtins ++ assignedBinds rest

def itemsBinds : List (Expr × Option Target) → List String
  | [] => []
  | (context, target) :: rest =>
    context.binds builtins ++ (target.map Target.names).getD [] ++ itemsBinds rest

def optionBinds (expr : Option Expr) : List String := (expr.map (Expr.binds builtins)).getD []

mutual

/-- The names that the visit of a statement adds to its scope. -/
def Stmt.binds : Stmt → List String
  | .exprs values => Expr.allBinds builtins values
  | .assign targets value => value.binds builtins ++ assignedBinds builtins targets
  | .annAssign target value => optionBinds builtins value ++ target.names
  | .augAssign _ (.name id) value => value.binds builtins ++ [id]
  | .augAssign _ target value => value.binds builtins ++ target.binds builtins
  | .forLoop target iter body orelse =>
    iter.binds builtins ++ target.names ++ blockBinds body ++ blockBinds orelse
  | .whileLoop test body orelse => test.binds builtins ++ blockBinds body ++ blockBinds orelse
  | .ifElse test body orelse => test.binds builtins ++ blockBinds body ++ blockBinds orelse
  | .withBlock items body => itemsBinds builtins items ++ blockBinds body
  | .tryBlock body handlers orelse finalbody =>
    blockBinds body ++ handlersBinds handlers ++ blockBinds orelse ++ blockBinds finalbody
  | .functionDef _ => []
  | .imports _ => []
  | .globals _ => []
  | .nonlocals _ => []

def blockBinds : List Stmt → List String
  | [] => []
  | stmt :: rest => stmt.binds ++ blockBinds rest

def handlersBinds : List Handler → List String
  | [] => []
  | ⟨type, _, body⟩ :: rest => optionBinds builtins type ++ blockBinds body ++ handlersBinds rest

end

/-- An augmented assignment to a name, and the names that are bound before it. -/
structure Augmented where
  name : String
  line : Nat
  before : List String

mutual

/-- The augmented assignments to names in a statement, after the names `before`. -/
def Stmt.augments (before : List String) : Stmt → List Augmented
  | .augAssign line (.name id) value => [⟨id, line, before ++ value.binds builtins⟩]
  | .forLoop target iter body orelse =>
    blockAugments (before ++ (iter.binds builtins ++ target.names)) body ++
      blockAugments (before ++ (iter.binds builtins ++ target.names ++ blockBinds builtins body))
        orelse
  | .whileLoop test body orelse =>
    blockAugments (before ++ test.binds builtins) body ++
      blockAugments (before ++ (test.binds builtins ++ blockBinds builtins body)) orelse
  | .ifElse test body orelse =>
    blockAugments (before ++ test.binds builtins) body ++
      blockAugments (before ++ (test.binds builtins ++ blockBinds builtins body)) orelse
  | .withBlock items body => blockAugments (before ++ itemsBinds builtins items) body
  | .tryBlock body handlers orelse finalbody =>
    blockAugments before body ++ handlersAugments (before ++ blockBinds builtins body) handlers ++
      blockAugments (before ++ (blockBinds builtins body ++ handlersBinds builtins handlers))
        orelse ++
      blockAugments (before ++ (blockBinds builtins body ++ handlersBinds builtins handlers ++
        blockBinds builtins orelse)) finalbody
  | .functionDef fn => fn.augments before
  | _ => []

def blockAugments (before : List String) : List Stmt → List Augmented
  | [] => []
  | stmt :: rest => stmt.augments before ++ blockAugments (before ++ stmt.binds builtins) rest

def handlersAugments (before : List String) : List Handler → List Augmented
  | [] => []
  | ⟨type, _, body⟩ :: rest =>
    blockAugments (before ++ optionBinds builtins type) body ++
      handlersAugments (before ++ (optionBinds builtins type ++ blockBinds builtins body)) rest

def FunctionDef.augments (before : List String) : FunctionDef → List Augmented
  | ⟨_, args, _, body⟩ => blockAugments (before ++ args.all) body

end

end Binds

/-! ## What a visit does -/

/-- A visit adds `names` to the innermost scope and reports `writes`. -/
structure Visited (v v' : Visitor) (names : List String) (writes : List (String × Nat)) : Prop where
  outer : v'.scopes.tail = v.scopes.tail
  inside : v'.scopes ≠ []
  bound : ∀ x, v'.bound x ↔ v.bound x ∨ x ∈ names
  reported : v'.freeWrites = v.freeWrites ++ writes

/-- The names that are bound in some scope of the stack. -/
def Knows (v : Visitor) (before : List String) : Prop := ∀ x, v.bound x ↔ x ∈ before

namespace Visited

variable {v v' v'' : Visitor} {names names' before : List String}
  {writes writes' : List (String × Nat)}

theorem refl (h : v.scopes ≠ []) : Visited v v [] [] where
  outer := rfl
  inside := h
  bound x := by simp
  reported := by simp

theorem trans (h : Visited v v' names writes) (h' : Visited v' v'' names' writes') :
    Visited v v'' (names ++ names') (writes ++ writes') where
  outer := h'.outer.trans h.outer
  inside := h'.inside
  bound x := by rw [h'.bound, h.bound, List.mem_append, or_assoc]
  reported := by rw [h'.reported, h.reported, List.append_assoc]

theorem knows (h : Visited v v' names writes) (hv : Knows v before) :
    Knows v' (before ++ names) := by
  intro x
  rw [h.bound, hv x, List.mem_append]

theorem bind (h : v.scopes ≠ []) (x : String) : Visited v (v.bind x) [x] [] := by
  obtain ⟨scopes, freeWrites⟩ := v
  cases scopes with
  | nil => exact absurd rfl h
  | cons top rest =>
    refine ⟨rfl, List.cons_ne_nil _ _, fun y ↦ ?_, (List.append_nil _).symm⟩
    show (∃ scope ∈ (x :: top) :: rest, y ∈ scope) ↔
      (∃ scope ∈ top :: rest, y ∈ scope) ∨ y ∈ [x]
    rw [List.exists_mem_cons_iff, List.exists_mem_cons_iff, List.mem_cons, List.mem_singleton,
      or_assoc, or_comm]

theorem bindAll (h : v.scopes ≠ []) : Visited v (names.foldl Visitor.bind v) names [] := by
  induction names generalizing v with
  | nil => exact refl h
  | cons x names ih =>
    have hx := bind h x
    exact hx.trans (ih hx.inside)

theorem bindTarget (h : v.scopes ≠ []) (target : Target) :
    Visited v (bindTarget target v) target.names [] :=
  bindAll h

theorem store (builtins : List String) (h : v.scopes ≠ []) (id : String) :
    Visited v (v.store builtins id) (if id ∈ builtins then [] else [id]) [] := by
  unfold Visitor.store
  by_cases hbuiltin : id ∈ builtins
  · rw [if_pos hbuiltin, if_pos hbuiltin]
    exact refl h
  · rw [if_neg hbuiltin, if_neg hbuiltin]
    by_cases hbound : v.bound id
    · rw [if_pos hbound]
      refine ⟨rfl, h, fun x ↦ ?_, (List.append_nil _).symm⟩
      constructor
      · exact .inl
      · rintro (hx | hx)
        · exact hx
        · rw [List.mem_singleton.mp hx]
          exact hbound
    · rw [if_neg hbound]
      exact bind h id

theorem augment (h : v.scopes ≠ []) (id : String) (line : Nat) :
    Visited v (v.augment id line) [id] (if v.bound id then [] else [(id, line)]) := by
  unfold Visitor.augment
  by_cases hbound : v.bound id
  · rw [if_pos hbound, if_pos hbound]
    exact bind h id
  · rw [if_neg hbound, if_neg hbound]
    have hwrite : Visited v { v with freeWrites := v.freeWrites ++ [(id, line)] } []
        [(id, line)] := ⟨rfl, h, fun x ↦ by simp [Visitor.bound], rfl⟩
    have hall := hwrite.trans (bind hwrite.inside id)
    rw [List.nil_append, List.append_nil] at hall
    exact hall

theorem knows_push (hv : Knows v before) : Knows v.push before := by
  intro x
  rw [← hv x]
  simp [Visitor.push, Visitor.bound]

/-- What is bound in a scope of its own is gone after it. -/
theorem inScope (h : v.scopes ≠ []) (hv : Visited v.push v' names writes) :
    Visited v v'.pop [] writes := by
  have hscopes : v'.pop.scopes = v.scopes := hv.outer
  refine ⟨by rw [hscopes], by rw [hscopes]; exact h, fun x ↦ ?_, hv.reported⟩
  unfold Visitor.bound
  rw [hscopes]
  simp

theorem push_ne (v : Visitor) : v.push.scopes ≠ [] := List.cons_ne_nil _ _

end Visited

section Spec

variable (builtins : List String)

mutual

theorem visitExpr_spec : ∀ (expr : Expr) (v : Visitor), v.scopes ≠ [] →
    Visited v (visitExpr builtins expr v) (expr.binds builtins) []
  | .name _, v, h => by
    unfold visitExpr Expr.binds
    exact .refl h
  | .other operands, v, h => by
    unfold visitExpr Expr.binds
    exact visitExprs_spec operands v h
  | .namedExpr target value, v, h => by
    unfold visitExpr Expr.binds
    have htarget := Visited.store builtins h target
    exact htarget.trans (visitExpr_spec value _ htarget.inside)
  | .lambda args _ body, v, h => by
    unfold visitExpr Expr.binds
    have hargs : Visited v.push _ args.names [] := .bindAll (Visited.push_ne v)
    exact .inScope h (hargs.trans (visitExpr_spec body _ hargs.inside))
  | .comp generators elements, v, h => by
    unfold visitExpr Expr.binds
    obtain ⟨names, hgenerators⟩ := visitGenerators_spec generators v.push (Visited.push_ne v)
    exact .inScope h (hgenerators.trans (visitExprs_spec elements _ hgenerators.inside))

theorem visitExprs_spec : ∀ (exprs : List Expr) (v : Visitor), v.scopes ≠ [] →
    Visited v (visitExprs builtins exprs v) (Expr.allBinds builtins exprs) []
  | [], v, h => by
    unfold visitExprs Expr.allBinds
    exact .refl h
  | expr :: rest, v, h => by
    unfold visitExprs Expr.allBinds
    have hexpr := visitExpr_spec expr v h
    exact hexpr.trans (visitExprs_spec rest _ hexpr.inside)

theorem visitTarget_spec : ∀ (target : Target) (v : Visitor), v.scopes ≠ [] →
    Visited v (visitTarget builtins target v) (target.binds builtins) []
  | .name id, v, h => by
    unfold visitTarget Target.binds
    exact .store builtins h id
  | .sequence elts, v, h => by
    unfold visitTarget Target.binds
    exact visitTargets_spec elts v h
  | .starred value, v, h => by
    unfold visitTarget Target.binds
    exact visitTarget_spec value v h
  | .place operands, v, h => by
    unfold visitTarget Target.binds
    exact visitExprs_spec operands v h

theorem visitTargets_spec : ∀ (targets : List Target) (v : Visitor), v.scopes ≠ [] →
    Visited v (visitTargets builtins targets v) (Target.allBinds builtins targets) []
  | [], v, h => by
    unfold visitTargets Target.allBinds
    exact .refl h
  | target :: rest, v, h => by
    unfold visitTargets Target.allBinds
    have htarget := visitTarget_spec target v h
    exact htarget.trans (visitTargets_spec rest _ htarget.inside)

/-- The names of the clauses only matter inside the comprehension. -/
theorem visitGenerators_spec : ∀ (generators : List Generator) (v : Visitor), v.scopes ≠ [] →
    ∃ names, Visited v (visitGenerators builtins generators v) names []
  | [], v, h => by
    unfold visitGenerators
    exact ⟨[], .refl h⟩
  | ⟨target, iter, ifs⟩ :: rest, v, h => by
    unfold visitGenerators
    have hiter := visitExpr_spec iter v h
    have htarget := hiter.trans (.bindTarget hiter.inside target)
    have hifs := htarget.trans (visitExprs_spec ifs _ htarget.inside)
    obtain ⟨names, hrest⟩ := visitGenerators_spec rest _ hifs.inside
    exact ⟨_, hifs.trans hrest⟩

end

theorem visitAssigned_spec (targets : List Target) (v : Visitor) (h : v.scopes ≠ []) :
    Visited v (visitAssigned builtins targets v) (assignedBinds builtins targets) [] := by
  induction targets generalizing v with
  | nil =>
    unfold visitAssigned assignedBinds
    exact .refl h
  | cons target rest ih =>
    have hbind := Visited.bindTarget h target
    cases target with
    | name id =>
      unfold visitAssigned assignedBinds
      exact hbind.trans (ih _ hbind.inside)
    | sequence elts =>
      unfold visitAssigned assignedBinds
      have htarget := hbind.trans (visitTarget_spec builtins (.sequence elts) _ hbind.inside)
      exact htarget.trans (ih _ htarget.inside)
    | starred value =>
      unfold visitAssigned assignedBinds
      have htarget := hbind.trans (visitTarget_spec builtins (.starred value) _ hbind.inside)
      exact htarget.trans (ih _ htarget.inside)
    | place operands =>
      unfold visitAssigned assignedBinds
      have htarget := hbind.trans (visitTarget_spec builtins (.place operands) _ hbind.inside)
      exact htarget.trans (ih _ htarget.inside)

theorem visitItems_spec (items : List (Expr × Option Target)) (v : Visitor) (h : v.scopes ≠ []) :
    Visited v (visitItems builtins items v) (itemsBinds builtins items) [] := by
  induction items generalizing v with
  | nil =>
    unfold visitItems itemsBinds
    exact .refl h
  | cons item rest ih =>
    obtain ⟨context, target⟩ := item
    have hcontext := visitExpr_spec builtins context v h
    cases target with
    | none =>
      unfold visitItems itemsBinds
      have hrest := hcontext.trans (ih _ hcontext.inside)
      simpa using hrest
    | some target =>
      unfold visitItems itemsBinds
      have htarget := hcontext.trans (.bindTarget hcontext.inside target)
      exact htarget.trans (ih _ htarget.inside)

theorem visitOption_spec (expr : Option Expr) (v : Visitor) (h : v.scopes ≠ []) :
    Visited v (visitOption builtins expr v) (optionBinds builtins expr) [] := by
  cases expr with
  | none => exact .refl h
  | some expr => exact visitExpr_spec builtins expr v h

/-- The augmented assignments whose name is not bound before them. -/
def unbound (augments : List Augmented) : List (String × Nat) :=
  (augments.filter fun a ↦ a.name ∉ a.before).map fun a ↦ (a.name, a.line)

theorem unbound_append (a b : List Augmented) : unbound (a ++ b) = unbound a ++ unbound b := by
  unfold unbound
  rw [List.filter_append, List.map_append]

/-- A branch that is followed by another one, both of them in the same scope. -/
theorem visit_branches {v v₁ : Visitor} {before names : List String} {body orelse : List Stmt}
    (hhead : Visited v v₁ names [])
    (hbody : Visited v₁ (visitBlock builtins body v₁) (blockBinds builtins body)
      (unbound (blockAugments builtins (before ++ names) body)))
    (horelse : Visited (visitBlock builtins body v₁)
      (visitBlock builtins orelse (visitBlock builtins body v₁)) (blockBinds builtins orelse)
      (unbound (blockAugments builtins (before ++ (names ++ blockBinds builtins body)) orelse))) :
    Visited v (visitBlock builtins orelse (visitBlock builtins body v₁))
      (names ++ blockBinds builtins body ++ blockBinds builtins orelse)
      (unbound (blockAugments builtins (before ++ names) body ++
        blockAugments builtins (before ++ (names ++ blockBinds builtins body)) orelse)) := by
  have hall := (hhead.trans hbody).trans horelse
  rw [List.nil_append, ← unbound_append] at hall
  exact hall

mutual

theorem visitStmt_spec : ∀ (stmt : Stmt) (v : Visitor) (before : List String), v.scopes ≠ [] →
    Knows v before → Visited v (visitStmt builtins stmt v) (stmt.binds builtins)
      (unbound (stmt.augments builtins before))
  | .exprs values, v, before, h, hv => by
    unfold visitStmt Stmt.binds Stmt.augments
    exact visitExprs_spec builtins values v h
  | .assign targets value, v, before, h, hv => by
    unfold visitStmt Stmt.binds Stmt.augments
    have hvalue := visitExpr_spec builtins value v h
    exact hvalue.trans (visitAssigned_spec builtins targets _ hvalue.inside)
  | .annAssign target value, v, before, h, hv => by
    unfold visitStmt Stmt.binds Stmt.augments
    have hvalue := visitOption_spec builtins value v h
    exact hvalue.trans (.bindTarget hvalue.inside target)
  | .augAssign line (.name id) value, v, before, h, hv => by
    unfold visitStmt Stmt.binds Stmt.augments
    have hvalue := visitExpr_spec builtins value v h
    have hall := hvalue.trans (.augment hvalue.inside id line)
    have hwrites : (if (visitExpr builtins value v).bound id then [] else [(id, line)]) =
        unbound [⟨id, line, before ++ value.binds builtins⟩] := by
      have hknown := hvalue.knows hv id
      by_cases hbound : (visitExpr builtins value v).bound id
      · rw [if_pos hbound]
        simp [unbound, hknown.mp hbound]
      · rw [if_neg hbound]
        have hnot : id ∉ before ++ value.binds builtins := fun hm ↦ hbound (hknown.mpr hm)
        simp [unbound, hnot]
    rw [hwrites] at hall
    exact hall
  | .augAssign _ (.sequence elts) value, v, before, h, hv => by
    unfold visitStmt Stmt.binds Stmt.augments
    have hvalue := visitExpr_spec builtins value v h
    exact hvalue.trans (visitTarget_spec builtins (.sequence elts) _ hvalue.inside)
  | .augAssign _ (.starred value') value, v, before, h, hv => by
    unfold visitStmt Stmt.binds Stmt.augments
    have hvalue := visitExpr_spec builtins value v h
    exact hvalue.trans (visitTarget_spec builtins (.starred value') _ hvalue.inside)
  | .augAssign _ (.place operands) value, v, before, h, hv => by
    unfold visitStmt Stmt.binds Stmt.augments
    have hvalue := visitExpr_spec builtins value v h
    exact hvalue.trans (visitTarget_spec builtins (.place operands) _ hvalue.inside)
  | .forLoop target iter body orelse, v, before, h, hv => by
    unfold visitStmt Stmt.binds Stmt.augments
    have hiter := visitExpr_spec builtins iter v h
    have hhead := hiter.trans (.bindTarget hiter.inside target)
    have hbody := visitBlock_spec body _ _ hhead.inside (hhead.knows hv)
    have horelse := visitBlock_spec orelse _ _ hbody.inside ((hhead.trans hbody).knows hv)
    exact visit_branches builtins hhead hbody horelse
  | .whileLoop test body orelse, v, before, h, hv => by
    unfold visitStmt Stmt.binds Stmt.augments
    have hhead := visitExpr_spec builtins test v h
    have hbody := visitBlock_spec body _ _ hhead.inside (hhead.knows hv)
    have horelse := visitBlock_spec orelse _ _ hbody.inside ((hhead.trans hbody).knows hv)
    exact visit_branches builtins hhead hbody horelse
  | .ifElse test body orelse, v, before, h, hv => by
    unfold visitStmt Stmt.binds Stmt.augments
    have hhead := visitExpr_spec builtins test v h
    have hbody := visitBlock_spec body _ _ hhead.inside (hhead.knows hv)
    have horelse := visitBlock_spec orelse _ _ hbody.inside ((hhead.trans hbody).knows hv)
    exact visit_branches builtins hhead hbody horelse
  | .withBlock items body, v, before, h, hv => by
    unfold visitStmt Stmt.binds Stmt.augments
    have hitems := visitItems_spec builtins items v h
    exact hitems.trans (visitBlock_spec body _ _ hitems.inside (hitems.knows hv))
  | .tryBlock body handlers orelse finalbody, v, before, h, hv => by
    unfold visitStmt Stmt.binds Stmt.augments
    have hbody := visitBlock_spec body v before h hv
    have hhandlers := hbody.trans
      (visitHandlers_spec handlers _ _ hbody.inside (hbody.knows hv))
    have horelse := hhandlers.trans
      (visitBlock_spec orelse _ _ hhandlers.inside (hhandlers.knows hv))
    have hfinal := horelse.trans
      (visitBlock_spec finalbody _ _ horelse.inside (horelse.knows hv))
    simp only [unbound_append]
    exact hfinal
  | .functionDef fn, v, before, h, hv => by
    unfold visitStmt Stmt.binds Stmt.augments
    exact visitFunctionDef_spec fn v before h hv
  | .imports _, v, before, h, hv => by
    unfold visitStmt Stmt.binds Stmt.augments
    exact .refl h
  | .globals _, v, before, h, hv => by
    unfold visitStmt Stmt.binds Stmt.augments
    exact .refl h
  | .nonlocals _, v, before, h, hv => by
    unfold visitStmt Stmt.binds Stmt.augments
    exact .refl h

theorem visitBlock_spec : ∀ (block : List Stmt) (v : Visitor) (before : List String),
    v.scopes ≠ [] → Knows v before → Visited v (visitBlock builtins block v)
      (blockBinds builtins block) (unbound (blockAugments builtins before block))
  | [], v, before, h, hv => by
    unfold visitBlock blockBinds blockAugments
    exact .refl h
  | stmt :: rest, v, before, h, hv => by
    unfold visitBlock blockBinds blockAugments
    have hstmt := visitStmt_spec stmt v before h hv
    rw [unbound_append]
    exact hstmt.trans (visitBlock_spec rest _ _ hstmt.inside (hstmt.knows hv))

theorem visitHandlers_spec : ∀ (handlers : List Handler) (v : Visitor) (before : List String),
    v.scopes ≠ [] → Knows v before → Visited v (visitHandlers builtins handlers v)
      (handlersBinds builtins handlers) (unbound (handlersAugments builtins before handlers))
  | [], v, before, h, hv => by
    unfold visitHandlers handlersBinds handlersAugments
    exact .refl h
  | ⟨type, name, body⟩ :: rest, v, before, h, hv => by
    unfold visitHandlers handlersBinds handlersAugments
    have htype := visitOption_spec builtins type v h
    have hbody := htype.trans (visitBlock_spec body _ _ htype.inside (htype.knows hv))
    have hrest := hbody.trans (visitHandlers_spec rest _ _ hbody.inside (hbody.knows hv))
    rw [List.nil_append, ← unbound_append] at hrest
    exact hrest

theorem visitFunctionDef_spec : ∀ (fn : FunctionDef) (v : Visitor) (before : List String),
    v.scopes ≠ [] → Knows v before → Visited v (visitFunctionDef builtins fn v) []
      (unbound (fn.augments builtins before))
  | ⟨_, args, _, body⟩, v, before, h, hv => by
    unfold visitFunctionDef FunctionDef.augments
    have hargs : Visited v.push _ args.all [] := .bindAll (Visited.push_ne v)
    have hbody := visitBlock_spec body _ _ hargs.inside (hargs.knows (Visited.knows_push hv))
    exact .inScope h (hargs.trans hbody)

end

/-! ## The verdict -/

variable {builtins : List String} {immutableNames : List String} {label : String}
  {fn : FunctionDef}

/-- The pass reports the augmented assignments whose name it has not seen bound. -/
theorem freeWrites_eq (builtins : List String) (fn : FunctionDef) :
    (visitFunctionDef builtins fn ⟨[[]], []⟩).freeWrites = unbound (fn.augments builtins []) := by
  have hempty : Knows ⟨[[]], []⟩ [] := by
    intro x
    simp [Visitor.bound]
  have hvisit := visitFunctionDef_spec builtins fn ⟨[[]], []⟩ [] (List.cons_ne_nil _ _) hempty
  rw [hvisit.reported, List.nil_append]

theorem unbound_eq_nil {augments : List Augmented} :
    unbound augments = [] ↔ ∀ a ∈ augments, a.name ∈ a.before := by
  unfold unbound
  rw [List.map_eq_nil_iff, List.filter_eq_nil_iff]
  simp

/-- A function passes exactly when every augmented assignment to a name comes after a binding of
the name. -/
theorem validateIndependence_ok (builtins immutableNames : List String) (label : String)
    (fn : FunctionDef) :
    validateIndependence builtins immutableNames label fn = .ok () ↔
      ∀ a ∈ fn.augments builtins [], a.name ∈ a.before := by
  unfold validateIndependence
  rw [freeWrites_eq, ← unbound_eq_nil]
  cases hwrites : unbound (fn.augments builtins []) with
  | nil => simp
  | cons write rest =>
    obtain ⟨name, line⟩ := write
    dsimp only
    split <;> simp

theorem validateIndependence_error :
    (∃ message, validateIndependence builtins immutableNames label fn = .error message) ↔
      ∃ a ∈ fn.augments builtins [], a.name ∉ a.before := by
  have hok := validateIndependence_ok builtins immutableNames label fn
  constructor
  · rintro ⟨message, herror⟩
    by_contra hnone
    push Not at hnone
    rw [hok.mpr hnone] at herror
    cases herror
  · rintro ⟨a, ha, hnot⟩
    cases hresult : validateIndependence builtins immutableNames label fn with
    | error message => exact ⟨message, rfl⟩
    | ok => exact absurd (hok.mp hresult a ha) hnot

/-- A function that rebinds a global of its module is rejected exactly when it has an augmented
assignment to a name that is not bound before it. -/
theorem rebinding_rejected_iff (builtins immutableNames : List String) (label : String)
    (fn : FunctionDef) :
    (RebindsGlobal fn →
      ∃ message, validateIndependence builtins immutableNames label fn = .error message) ↔
    (RebindsGlobal fn → ∃ a ∈ fn.augments builtins [], a.name ∉ a.before) :=
  forall_congr' fun _ ↦ validateIndependence_error

/-- A function whose names are all local is accepted exactly when every augmented assignment to a
name comes after a binding of the name. -/
theorem local_accepted_iff (builtins immutableNames : List String) (label : String)
    (fn : FunctionDef) :
    (PurelyLocal fn → validateIndependence builtins immutableNames label fn = .ok ()) ↔
    (PurelyLocal fn → ∀ a ∈ fn.augments builtins [], a.name ∈ a.before) :=
  forall_congr' fun _ ↦ validateIndependence_ok _ _ _ _

end Spec

/-! ## Two functions that are judged wrongly -/

namespace Sample

/-- `def task(): global counter; counter = 1` -/
def globalTask : FunctionDef :=
  .mk "task" ⟨[], none, none⟩ []
    [.globals ["counter"], .assign [.name "counter"] (.other [])]

/-- `def task(xs):` with a loop that adds to `total` in one branch and sets it in the other. -/
def totalTask : FunctionDef :=
  .mk "task" ⟨["xs"], none, none⟩ []
    [.forLoop (.name "x") (.name "xs")
      [.ifElse (.name "x") [.augAssign 4 (.name "total") (.name "x")]
        [.assign [.name "total"] (.other [])]] []]

end Sample

open Sample in
theorem global_assignment_is_accepted :
    RebindsGlobal globalTask ∧ validateIndependence ["print"] [] "task" globalTask = .ok () := by
  decide +kernel

open Sample in
theorem local_total_is_rejected :
    PurelyLocal totalTask ∧ validateIndependence ["print"] [] "task" totalTask =
      .error ("In 'task' (line 4): global variable 'total' cannot be modified inside a tandem " ++
        "task -- each node runs its own frozen copy, so the change wouldn't be shared. Use a " ++
        "parameter and return the result instead.") := by
  decide +kernel

end TandemAio
