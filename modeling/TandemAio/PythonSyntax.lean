import Mathlib.Data.List.Basic

/-!
# Python functions

The syntax of a function definition as far as it binds names, and which names a function scope
binds by the rules of Python.
-/

namespace TandemAio

/-- The parameters of a function or a lambda: `posonlyargs`, `args` and `kwonlyargs`, and the two
starred ones. -/
structure Arguments where
  names : List String
  vararg : Option String
  kwarg : Option String

def Arguments.all (args : Arguments) : List String :=
  args.names ++ args.vararg.toList ++ args.kwarg.toList

mutual

inductive Expr
  /-- A name that is read. -/
  | name (id : String)
  /-- An expression of any other kind, by its operands in the order of its fields. -/
  | other (operands : List Expr)
  /-- `target := value` -/
  | namedExpr (target : String) (value : Expr)
  | lambda (args : Arguments) (defaults : List Expr) (body : Expr)
  /-- A comprehension or generator expression: the clauses, and the element or the key and the
  value. -/
  | comp (generators : List Generator) (elements : List Expr)

/-- What is assigned to. -/
inductive Target
  | name (id : String)
  /-- A tuple or a list. -/
  | sequence (elts : List Target)
  | starred (value : Target)
  /-- An attribute or a subscription, by its operands. -/
  | place (operands : List Expr)

inductive Generator
  | mk (target : Target) (iter : Expr) (ifs : List Expr)

end

mutual

inductive Stmt
  /-- A statement of expressions only. -/
  | exprs (values : List Expr)
  | assign (targets : List Target) (value : Expr)
  | annAssign (target : Target) (value : Option Expr)
  | augAssign (line : Nat) (target : Target) (value : Expr)
  | forLoop (target : Target) (iter : Expr) (body orelse : List Stmt)
  | whileLoop (test : Expr) (body orelse : List Stmt)
  | ifElse (test : Expr) (body orelse : List Stmt)
  | withBlock (items : List (Expr × Option Target)) (body : List Stmt)
  | tryBlock (body : List Stmt) (handlers : List Handler) (orelse finalbody : List Stmt)
  | functionDef (fn : FunctionDef)
  /-- The names that an `import` statement binds. -/
  | imports (names : List String)
  | globals (names : List String)
  | nonlocals (names : List String)

/-- An `except` clause. -/
inductive Handler
  | mk (type : Option Expr) (name : Option String) (body : List Stmt)

/-- `outer` are the decorators and the defaults, which belong to the scope around. -/
inductive FunctionDef
  | mk (name : String) (args : Arguments) (outer : List Expr) (body : List Stmt)

end

namespace FunctionDef

def name : FunctionDef → String
  | mk name _ _ _ => name

def args : FunctionDef → Arguments
  | mk _ args _ _ => args

def outer : FunctionDef → List Expr
  | mk _ _ outer _ => outer

def body : FunctionDef → List Stmt
  | mk _ _ _ body => body

end FunctionDef

/-! ## What a scope binds -/

mutual

/-- The names that the target binds. -/
def Target.names : Target → List String
  | .name id => [id]
  | .sequence elts => Target.allNames elts
  | .starred value => value.names
  | .place _ => []

def Target.allNames : List Target → List String
  | [] => []
  | target :: rest => target.names ++ Target.allNames rest

end

mutual

/-- The names that `:=` binds in the function scope around the expression.  A comprehension is no
scope for them, a lambda is. -/
def Expr.walrus : Expr → List String
  | .name _ => []
  | .other operands => Expr.allWalrus operands
  | .namedExpr target value => target :: value.walrus
  | .lambda _ defaults _ => Expr.allWalrus defaults
  | .comp generators elements => Generator.allWalrus generators ++ Expr.allWalrus elements

def Expr.allWalrus : List Expr → List String
  | [] => []
  | expr :: rest => expr.walrus ++ Expr.allWalrus rest

def Target.walrus : Target → List String
  | .name _ => []
  | .sequence elts => Target.allWalrus elts
  | .starred value => value.walrus
  | .place operands => Expr.allWalrus operands

def Target.allWalrus : List Target → List String
  | [] => []
  | target :: rest => target.walrus ++ Target.allWalrus rest

def Generator.allWalrus : List Generator → List String
  | [] => []
  | ⟨target, iter, ifs⟩ :: rest =>
    iter.walrus ++ target.walrus ++ Expr.allWalrus ifs ++ Generator.allWalrus rest

end

/-- The `type` and the `name` of an `except` clause. -/
def Handler.bound : Handler → List String
  | mk type name _ => (type.map Expr.walrus).getD [] ++ name.toList

/-- The names that a statement itself binds in its scope, other than by an augmented
assignment. -/
def Stmt.ownBound : Stmt → List String
  | .exprs values => Expr.allWalrus values
  | .assign targets value => value.walrus ++ Target.allNames targets ++ Target.allWalrus targets
  | .annAssign target value =>
    (value.map Expr.walrus).getD [] ++ target.names ++ target.walrus
  | .augAssign _ target value => value.walrus ++ target.walrus
  | .forLoop target iter _ _ => iter.walrus ++ target.names ++ target.walrus
  | .whileLoop test _ _ => test.walrus
  | .ifElse test _ _ => test.walrus
  | .withBlock items _ => items.flatMap fun (context, target) ↦
      context.walrus ++ (target.map fun t ↦ t.names ++ t.walrus).getD []
  | .tryBlock _ handlers _ _ => handlers.flatMap Handler.bound
  | .functionDef fn => fn.name :: Expr.allWalrus fn.outer
  | .imports names => names
  | .globals _ => []
  | .nonlocals _ => []

/-- The name that a statement itself augments. -/
def Stmt.ownAugmented : Stmt → List String
  | .augAssign _ (.name id) _ => [id]
  | _ => []

/-- The names that a statement itself declares `global`. -/
def Stmt.ownGlobals : Stmt → List String
  | .globals names => names
  | _ => []

mutual

/-- The statements of the same scope in and under a statement. -/
def Stmt.inScope : Stmt → List Stmt
  | .forLoop target iter body orelse =>
    .forLoop target iter body orelse :: (blockInScope body ++ blockInScope orelse)
  | .whileLoop test body orelse =>
    .whileLoop test body orelse :: (blockInScope body ++ blockInScope orelse)
  | .ifElse test body orelse =>
    .ifElse test body orelse :: (blockInScope body ++ blockInScope orelse)
  | .withBlock items body => .withBlock items body :: blockInScope body
  | .tryBlock body handlers orelse finalbody =>
    .tryBlock body handlers orelse finalbody ::
      (blockInScope body ++ handlersInScope handlers ++ blockInScope orelse ++
        blockInScope finalbody)
  | stmt => [stmt]

def blockInScope : List Stmt → List Stmt
  | [] => []
  | stmt :: rest => stmt.inScope ++ blockInScope rest

def handlersInScope : List Handler → List Stmt
  | [] => []
  | ⟨_, _, body⟩ :: rest => blockInScope body ++ handlersInScope rest

end

/-- The names that a function scope binds, other than by augmented assignments. -/
def FunctionDef.bound (fn : FunctionDef) : List String :=
  fn.args.all ++ (blockInScope fn.body).flatMap Stmt.ownBound

/-- The names that are targets of augmented assignments in the scope. -/
def FunctionDef.augmented (fn : FunctionDef) : List String :=
  (blockInScope fn.body).flatMap Stmt.ownAugmented

/-- The names that the scope declares `global`. -/
def FunctionDef.globals (fn : FunctionDef) : List String :=
  (blockInScope fn.body).flatMap Stmt.ownGlobals

/-- A function scope, with the names that the function scopes around it bind. -/
structure FunctionScope where
  enclosing : List String
  fn : FunctionDef

mutual

/-- The scope of a function and the scopes of the functions under it. -/
def FunctionDef.scopes (enclosing : List String) : FunctionDef → List FunctionScope
  | .mk name args outer body =>
    ⟨enclosing, .mk name args outer body⟩ ::
      blockScopes (enclosing ++ FunctionDef.bound (.mk name args outer body)) body

def Stmt.scopes (enclosing : List String) : Stmt → List FunctionScope
  | .functionDef fn => fn.scopes enclosing
  | .forLoop _ _ body orelse => blockScopes enclosing body ++ blockScopes enclosing orelse
  | .whileLoop _ body orelse => blockScopes enclosing body ++ blockScopes enclosing orelse
  | .ifElse _ body orelse => blockScopes enclosing body ++ blockScopes enclosing orelse
  | .withBlock _ body => blockScopes enclosing body
  | .tryBlock body handlers orelse finalbody =>
    blockScopes enclosing body ++ handlersScopes enclosing handlers ++
      blockScopes enclosing orelse ++ blockScopes enclosing finalbody
  | _ => []

def blockScopes (enclosing : List String) : List Stmt → List FunctionScope
  | [] => []
  | stmt :: rest => stmt.scopes enclosing ++ blockScopes enclosing rest

def handlersScopes (enclosing : List String) : List Handler → List FunctionScope
  | [] => []
  | ⟨_, _, body⟩ :: rest => blockScopes enclosing body ++ handlersScopes enclosing rest

end

/-- Some scope declares a name `global` and binds it. -/
def RebindsGlobal (fn : FunctionDef) : Prop :=
  ∃ scope ∈ fn.scopes [], ∃ x ∈ scope.fn.globals, x ∈ scope.fn.bound ++ scope.fn.augmented

/-- No scope declares a name `global`, and every name that is augmented is bound in its scope or
in a scope around it. -/
def PurelyLocal (fn : FunctionDef) : Prop :=
  ∀ scope ∈ fn.scopes [], scope.fn.globals = [] ∧
    ∀ x ∈ scope.fn.augmented, x ∈ scope.fn.bound ∨ x ∈ scope.enclosing

instance (fn : FunctionDef) : Decidable (RebindsGlobal fn) :=
  inferInstanceAs (Decidable (∃ scope ∈ fn.scopes [], ∃ x ∈ scope.fn.globals,
    x ∈ scope.fn.bound ++ scope.fn.augmented))

instance (fn : FunctionDef) : Decidable (PurelyLocal fn) :=
  inferInstanceAs (Decidable (∀ scope ∈ fn.scopes [], scope.fn.globals = [] ∧
    ∀ x ∈ scope.fn.augmented, x ∈ scope.fn.bound ∨ x ∈ scope.enclosing))

end TandemAio
