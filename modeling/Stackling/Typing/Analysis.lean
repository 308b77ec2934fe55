import Stackling.Typing.Problem
import Stackling.Typing.Returns
import Stackling.Typing.Scope
import Stackling.Typing.Table

/-
  File:     Stackling/Typing/Analysis.lean
  Subject:  The type analysis of a program.

  The analysis goes on after a problem, so that one run reports them all. Each expression is
  given a type and the type is filed under the number of the expression; what is wrong with
  an expression does not keep it from having a type.

  The context of an expression may expect a type. Only empty literals take it over, and an
  operator with unfit operands, so that one mistake is reported once.

  * `checkExpr`, `checkStmt`, `checkBlock` -- the analysis of the parts;
  * `typeCheck`                           -- the analysis of a program: first the signatures
    of all functions, then the statements at top level, the bodies in order, and `main`.
-/
namespace Stackling

/-! ## 1. State -/

/-- What the analysis has found so far. -/
structure Analysis where
  scopes : ScopeTable
  types : TypeTable
  /-- the latest first -/
  reports : List Diagnostic

namespace Analysis

/-- Before anything was looked at. -/
def initial : Analysis := ⟨.initial, .empty, []⟩

/-- All problems, in the order in which they were found. -/
def diagnostics (a : Analysis) : List Diagnostic := a.reports.reverse

end Analysis

/-- The function that an expression or a statement stands in. -/
structure Enclosing where
  returns : Ty
  /-- the level of the parameters, in a function literal -/
  floor? : Option Nat

/-- A step of the analysis. It fails only if the global scope is left. -/
abbrev Check := StateT Analysis (Except ScopeViolation)

namespace Check

def report (line : Nat) (problem : Problem) : Check Unit :=
  modify fun a => { a with reports := ⟨line, problem⟩ :: a.reports }

def reportAll (line : Nat) : List Problem → Check Unit
  | [] => pure ()
  | p :: rest => do
    report line p
    reportAll line rest

/-- Reports the problem if there is one. -/
def reportAny (line : Nat) : Option Problem → Check Unit
  | none => pure ()
  | some p => report line p

/-- Files the type of an expression. -/
def file (node : Node) (ty : Ty) : Check Ty := do
  modify fun a => { a with types := a.types.file node.id ty }
  return ty

def enter : Check Unit := modify fun a => { a with scopes := a.scopes.enter }

def leave : Check Unit := do
  let a ← get
  let scopes ← a.scopes.leave?
  set { a with scopes }

/-- Declares a name in the current scope, and says whether the scope lacked it. -/
def declare (name : String) (ty : Ty) (constant function : Bool) : Check Bool := do
  let a ← get
  match a.scopes.declare? name ty constant function with
  | some scopes =>
    set { a with scopes }
    return true
  | none => return false

end Check

open Check

/-! ## 2. Annotations and names -/

/-- The type of an annotation, whose problems are reported. -/
def resolve (line : Nat) (written : TypeExpr) : Check Ty := do
  reportAll line written.problems
  return written.toTy

/-- The type of a parameter. -/
def resolveParam (p : Param) : Check Ty := do
  if p.written.isVoid then report p.span.line (.voidParam p.name)
  resolve p.span.line p.written

/-- The types of some parameters. -/
def resolveParams : List Param → Check (List Ty)
  | [] => return []
  | p :: rest => do
    let ty ← resolveParam p
    return ty :: (← resolveParams rest)

/-- Declares parameters with their types. -/
def declareParams : List Param → List Ty → Check Unit
  | p :: params, ty :: types => do
    if !(← declare p.name ty false false) then report p.span.line (.repeatedParam p.name)
    declareParams params types
  | _, _ => pure ()

/-- Whether a function literal whose parameters are at level `floor` may not use a symbol:
    it belongs to a function around the literal. -/
def Symbol.hiddenBelow (s : Symbol) (floor : Nat) : Bool := 0 < s.level && s.level < floor

/-- The type of a name. -/
def checkName (within : Option Enclosing) (line : Nat) (name : String) : Check Ty := do
  match (← get).scopes.lookup? name with
  | none =>
    report line (.undeclared name)
    return .void
  | some symbol =>
    match within.bind Enclosing.floor? with
    | some floor => if symbol.hiddenBelow floor then report line (.captured name)
    | none => pure ()
    return symbol.ty

/-! ## 3. Operators -/

/-- The type of an operator on operands of given types, and what is wrong with them. -/
def BinaryOp.check (op : BinaryOp) (expected : Option Ty) (left right : Ty) :
    Ty × Option Problem :=
  let integers := left = .int ∧ right = .int
  match op with
  | .add =>
    if integers then (.int, none)
    else if left = .string ∧ right = .string then (.string, none)
    else (expected.getD .int, some (.addOperands left right))
  | .sub =>
    if integers then (.int, none) else (expected.getD .int, some (.subOperands left right))
  | .mul | .div =>
    if integers then (.int, none) else (expected.getD .int, some (.mulOperands left right))
  | .equal | .notEqual =>
    if left.isVoid || right.isVoid then (.bool, some (.voidComparison op))
    else if !left.compatible right then (.bool, some (.unlikeComparison op left right))
    else (.bool, none)
  | .less | .lessEqual | .greater | .greaterEqual =>
    if left.isVoid || right.isVoid then (.bool, some (.voidComparison op))
    else if !left.compatible right then (.bool, some (.unlikeComparison op left right))
    else if !left.isOrdered then (.bool, some (.unordered op left))
    else (.bool, none)

/-! ## 4. Calls -/

/-- The built-in that a callee names, if the name still stands for it. -/
def builtinCallee? (scopes : ScopeTable) : Expr → Option Builtin
  | .name _ name => do
    let b ← Builtin.ofName? name
    let symbol ← scopes.lookup? name
    if symbol.function && symbol.level == 0 && symbol.ty == b.signature then some b else none
  | _ => none

/-- What a direct call of a built-in expects of an argument that is not the first: `push`
    wants an element of the array before it. -/
def Builtin.expectedNext (b : Builtin) (first : Option Ty) : Option Ty :=
  match b, first with
  | .push, some (.array element) => some element
  | _, _ => none

/-- The type of a direct call of a built-in that has a problem. -/
def Builtin.fallback (b : Builtin) (first : Option Ty) : Ty :=
  match b, first with
  | .first, some (.array element) | .last, some (.array element) => element
  | .len, _ | .first, _ | .last, _ => .int
  | .rest, _ | .push, _ => .array .int

/-- The problems of arguments that are equally many as the parameters; places count from
    `place`. -/
def argProblems (place : Nat) : List Ty → List Ty → List Problem
  | param :: params, arg :: args =>
    (if param.compatible arg then [] else [.call (.argument place param.text arg)])
      ++ argProblems (place + 1) params args
  | _, _ => []

/-- The problems of the arguments of a call. -/
def callProblems (params args : List Ty) : List Problem :=
  if args.length = params.length then argProblems 1 params args
  else [.call (.arity params.length args.length)]

/-! ## 5. Expressions and statements -/

/-- The element type that a context expects of an array literal. -/
def expectedElement : Option Ty → Option Ty
  | some (.array element) => some element
  | _ => none

/-- The key type that a context expects of a hash literal. -/
def expectedKey : Option Ty → Option Ty
  | some (.hash key _) => some key
  | _ => none

/-- The value type that a context expects of a hash literal. -/
def expectedValue : Option Ty → Option Ty
  | some (.hash _ value) => some value
  | _ => none

mutual
/-- The type of an expression. -/
def checkExpr (within : Option Enclosing) (expected : Option Ty) : Expr → Check Ty
  | .int node _ => file node .int
  | .text node _ => file node .string
  | .char node _ => file node .char
  | .bool node _ => file node .bool
  | .name node name => do file node (← checkName within node.line name)
  | .binary node op left right => do
    let l ← checkExpr within none left
    let r ← checkExpr within none right
    let (ty, problem) := op.check expected l r
    reportAny node.line problem
    file node ty
  | .array node [] => file node (.array ((expectedElement expected).getD .int))
  | .array node (first :: rest) => do
    let element ← checkExpr within (expectedElement expected) first
    if element.isVoid && expectedElement expected != some .void then
      report node.line .voidItem
    checkItems within node.line element rest
    file node (.array element)
  | .hash node [] =>
    file node (.hash ((expectedKey expected).getD .int) ((expectedValue expected).getD .int))
  | .hash node ((firstKey, firstValue) :: rest) => do
    let key ← checkExpr within (expectedKey expected) firstKey
    let value ← checkExpr within (expectedValue expected) firstValue
    if !key.isHashKey then report node.line .badKey
    if value.isVoid && expectedValue expected != some .void then report node.line .voidEntry
    checkEntries within node.line key value rest
    file node (.hash key value)
  | .fn node params written body => do
    let returns ← resolve node.line written
    let types ← resolveParams params
    enter
    let floor := (← get).scopes.level
    declareParams params types
    checkBlock (some ⟨returns, some floor⟩) body
    leave
    if !returns.isVoid && !body.alwaysReturns then
      report node.line (.literalWithoutReturn returns)
    file node (.fn types returns)
  | .index node target key => do
    match ← checkExpr within none target with
    | .array element =>
      let found ← checkExpr within (some .int) key
      if found != .int then report node.line (.indexMismatch found)
      file node element
    | .hash expectedKey value =>
      let found ← checkExpr within (some expectedKey) key
      if !expectedKey.compatible found then report node.line (.keyMismatch expectedKey found)
      file node value
    | other =>
      discard (checkExpr within none key)
      report node.line (.notIndexable other)
      file node .void
  | .call node callee args => do
    match builtinCallee? (← get).scopes callee with
    | some b =>
      discard (checkExpr within none callee)
      let types ← checkBuiltinArgs within b none args
      match b.checkCall types with
      | .ok ty => file node ty
      | .error problem =>
        report node.line (.call problem)
        file node (b.fallback types.head?)
    | none =>
      match ← checkExpr within none callee with
      | .fn params returns =>
        let types ← checkArgs within params args
        reportAll node.line (callProblems params types)
        file node returns
      | other =>
        discard (checkArgs within [] args)
        report node.line (.notCallable other)
        file node .void

/-- The items of an array after the first one. -/
def checkItems (within : Option Enclosing) (line : Nat) (element : Ty) : List Expr → Check Unit
  | [] => pure ()
  | item :: rest => do
    let found ← checkExpr within (some element) item
    if !element.isVoid && !element.compatible found then
      report line (.itemMismatch element found)
    checkItems within line element rest

/-- The entries of a hash after the first one. -/
def checkEntries (within : Option Enclosing) (line : Nat) (key value : Ty) :
    List (Expr × Expr) → Check Unit
  | [] => pure ()
  | (k, v) :: rest => do
    let foundKey ← checkExpr within (some key) k
    let foundValue ← checkExpr within (some value) v
    if !key.compatible foundKey then report line (.keyMismatch key foundKey)
    if !value.isVoid && !value.compatible foundValue then
      report line (.entryMismatch value foundValue)
    checkEntries within line key value rest

/-- The types of the arguments of a call; each is expected to be of its parameter's type. -/
def checkArgs (within : Option Enclosing) (params : List Ty) : List Expr → Check (List Ty)
  | [] => return []
  | arg :: rest => do
    let ty ← checkExpr within params.head? arg
    return ty :: (← checkArgs within params.tail rest)

/-- The types of the arguments of a direct call of a built-in, after a first one if there
    was one. -/
def checkBuiltinArgs (within : Option Enclosing) (b : Builtin) (first : Option Ty) :
    List Expr → Check (List Ty)
  | [] => return []
  | arg :: rest => do
    let ty ← checkExpr within (b.expectedNext first) arg
    return ty :: (← checkBuiltinArgs within b (first <|> some ty) rest)

/-- A statement. -/
def checkStmt (within : Option Enclosing) : Stmt → Check Unit
  | .declare span constant name written value => do
    let declared ← resolve span.line written
    let found ← checkExpr within (some declared) value
    if declared.isVoid then report span.line (.voidDeclaration name)
    else if !declared.compatible found then
      report span.line (.declaredMismatch constant name declared found)
    if !(← declare name declared constant false) then
      report span.line (.repeatedName constant name)
  | .returns span none =>
    match within with
    | none => report span.line .returnOutside
    | some f => if !f.returns.isVoid then report span.line (.returnWithoutValue f.returns)
                else pure ()
  | .returns span (some value) =>
    match within with
    | none => report span.line .returnOutside
    | some f => do
      let found ← checkExpr within (some f.returns) value
      if !f.returns.compatible found then report span.line (.returnMismatch f.returns found)
  | .expr value => discard (checkExpr within none value)
  | .branch span condition yes none => do
    let found ← checkExpr within (some .bool) condition
    if found != .bool then report span.line (.conditionMismatch found)
    enter
    checkBlock within yes
    leave
  | .branch span condition yes (some no) => do
    let found ← checkExpr within (some .bool) condition
    if found != .bool then report span.line (.conditionMismatch found)
    enter
    checkBlock within yes
    leave
    enter
    checkBlock within no
    leave
  | .print span value => do
    let found ← checkExpr within none value
    if found.isVoid then report span.line .voidPrint
  | .block body => checkBlock within body

/-- A block, in the current scope. -/
def checkBlock (within : Option Enclosing) : Block → Check Unit
  | .mk body _ => checkStmts within body

/-- Statements, in the current scope. -/
def checkStmts (within : Option Enclosing) : List Stmt → Check Unit
  | [] => pure ()
  | s :: rest => do
    checkStmt within s
    checkStmts within rest
end

/-! ## 6. Programs -/

/-- The types of the parameters of a function, and the type of its result. -/
structure Signature where
  params : List Ty
  returns : Ty
  deriving DecidableEq

def Signature.ty (s : Signature) : Ty := .fn s.params s.returns

/-- Declares a function by its signature. -/
def declareFunction (f : FunctionDecl) : Check Signature := do
  let returns ← resolve f.span.line f.returns
  let params ← resolveParams f.params
  if !(← declare f.name (.fn params returns) false true) then
    report f.span.line (.repeatedFunction f.name)
  return ⟨params, returns⟩

/-- Declares all functions. -/
def declareFunctions : List FunctionDecl → Check (List Signature)
  | [] => return []
  | f :: rest => do
    let signature ← declareFunction f
    return signature :: (← declareFunctions rest)

/-- The body of a function. -/
def checkFunction (f : FunctionDecl) (signature : Signature) : Check Unit := do
  enter
  declareParams f.params signature.params
  checkBlock (some ⟨signature.returns, none⟩) f.body
  leave
  if !signature.returns.isVoid && !f.body.alwaysReturns then
    report f.span.line (.functionWithoutReturn f.name signature.returns)

/-- The bodies of all functions. -/
def checkFunctions : List FunctionDecl → List Signature → Check Unit
  | f :: functions, signature :: signatures => do
    checkFunction f signature
    checkFunctions functions signatures
  | _, _ => pure ()

/-- A whole program. -/
def checkProgram (p : Program) : Check Unit := do
  let signatures ← declareFunctions p.functions
  checkStmts none p.globals
  checkFunctions p.functions signatures
  enter
  checkBlock (some ⟨.void, none⟩) p.main
  leave

/-- The analysis of a program. -/
def typeCheck (p : Program) : Except ScopeViolation Analysis := do
  let (_, analysis) ← (checkProgram p).run .initial
  return analysis

end Stackling
