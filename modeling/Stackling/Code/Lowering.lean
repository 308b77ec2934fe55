import Stackling.Code.Generator

/-
  File:     Stackling/Code/Lowering.lean
  Subject:  The code of expressions, statements and programs.

  The code of an expression leaves one value on the operand stack, or none if the type is
  `void`; the code of a statement leaves the stack as it was. Both are checked as the code is
  written. What is done where a value of one type stands in the place of another is a parameter,
  `conv`, which `generate` takes to be `convert`.

  * `lowerExpr`, `lowerStmt`, `lowerBlock` -- the code of the parts;
  * `generateWith`, `generate`            -- the code of a program: a unit for each function, one
    that stores the global cells, one for `main`, one for each function literal, and last the
    unit that calls the initializer and `main`.
-/
namespace Stackling

open Generate

/-! ## 1. Operators and names -/

/-- The comparison an operator makes. -/
def BinaryOp.comparison? : BinaryOp → Option Comparison
  | .equal => some .equal
  | .notEqual => some .notEqual
  | .less => some .less
  | .lessEqual => some .lessEqual
  | .greater => some .greater
  | .greaterEqual => some .greaterEqual
  | .add | .sub | .mul | .div => none

/-- How operands of a type are compared. -/
def Comparison.operandKind? (c : Comparison) : Ty → Option OperandKind
  | .int | .bool => some .int
  | .char => some .char
  | .string => some .str
  | .array _ | .hash _ _ | .fn _ _ => if c.isOrdering then none else some .structural
  | .void => none

/-- The instruction for an operator whose left operand has the type. -/
def BinaryOp.op? (o : BinaryOp) (operand : Ty) : Option Op :=
  match o.comparison? with
  | some c => (c.operandKind? operand).map (.compare c)
  | none =>
    match o, operand with
    | .add, .int => some .addInt
    | .add, .string => some .concat
    | .sub, .int => some .subInt
    | .mul, .int => some .mulInt
    | .div, .int => some .divInt
    | _, _ => none

/-- The instruction that puts the value of a name on the stack. -/
def Resolved.load : Resolved → Op
  | .slot (.arg n) => .loadArg n
  | .slot (.loc n) => .loadLocal n
  | .global n => .loadGlobal n
  | .function id => .pushUnit id
  | .builtin b => .pushBuiltin b

/-- Puts the value of a name on the stack. -/
def lowerName (name : String) : Generate Unit := do
  match (← get).resolve? name with
  | some r => emit r.load
  | none => throw (.unresolvedVariable name)

/-- What a call goes to. -/
inductive CallTarget
  | function (name : String) (unit : UnitId)
  | builtin (name : String) (b : Builtin)
  | value

/-- What a call of `callee` goes to: a function or a built-in that the callee names, or else
    the value of the callee. -/
def Generator.callTarget (g : Generator) : Expr → CallTarget
  | .name _ name =>
    match g.resolve? name with
    | some (.function unit) => .function name unit
    | some (.builtin b) => .builtin name b
    | _ => .value
  | _ => .value

/-- Writes the code of an expression by `body`, which is given the type of the expression, and
    checks what is left on the stack. -/
def producing (node : Node) (body : Ty → Generate Unit) : Generate Ty := do
  let ty ← typeOf node
  let before ← depth
  body ty
  requireDepth (before + if ty.isVoid then 0 else 1)
  return ty

/-- Writes the code of a statement by `body`, and checks that the stack is as before. -/
def preserving (body : Generate Unit) : Generate Unit := do
  let before ← depth
  body
  requireDepth before

/-- Opens a unit's scope for its parameters. -/
def bindParams (params : List Param) : Generate Unit :=
  onUnit fun b => ((), (params.zipIdx).foldl (fun b (p, i) => b.declareArg p.name i) b.enterScope)

/-! ## 2. Expressions and statements -/

mutual
/-- The code of an expression, and its type. -/
def lowerExpr (conv : Conversion) : Expr → Generate Ty
  | .int node value => producing node fun _ => emit (.pushInt value)
  | .text node value => producing node fun _ => emit (.pushText value)
  | .char node value => producing node fun _ => emit (.pushChar value)
  | .bool node value => producing node fun _ => emit (.pushInt (if value then 1 else 0))
  | .name node name => producing node fun _ => lowerName name
  | .binary node op left right => producing node fun _ => do
    let operand ← lowerExpr conv left
    discard (lowerExpr conv right)
    match op.op? operand with
    | some o => emit o
    | none => throw (.unsupportedOperator op.sign operand)
  | .array node items => producing node fun ty =>
    match ty with
    | .array element => do
      emit (.newArray items.length)
      lowerItems conv element 0 items
    | _ => throw (.unsupportedConversion ty (.array .void))
  | .hash node entries => producing node fun ty =>
    match ty with
    | .hash key value => do
      emit .newHash
      lowerEntries conv key value entries
    | _ => throw (.unsupportedConversion ty (.hash .void .void))
  | .fn node params returns body => producing node fun _ => do
    let (id, g) := (← get).reserve
    let count := g.literals + 1
    set { g with literals := count }
    let name := "<lambda#" ++ toString count ++ ">"
    unit (.new id name params.length returns.toTy) do
      bindParams params
      lowerBlock conv body
    emit (.pushUnit id)
  | .index node target key => producing node fun _ => do
    let targetTy ← lowerExpr conv target
    let keyTy ← lowerExpr conv key
    match targetTy with
    | .array _ => do
      conv keyTy .int
      emit .indexArray
    | .hash expected _ => do
      conv keyTy expected
      emit .indexHash
    | _ => throw (.invalidIndexTarget targetTy)
  | .call node callee args => producing node fun ty => do
    let g ← get
    match g.callTarget callee with
    | .function name id =>
      match g.functionOf? id with
      | none => throw (.unresolvedVariable name)
      | some f =>
        if f.params.length ≠ args.length then
          throw (.arityMismatch name f.params.length args.length)
        lowerArgs conv f.params args
        emit (.call id args.length !ty.isVoid)
    | .builtin name b =>
      if b.arity ≠ args.length then throw (.arityMismatch name b.arity args.length)
      lowerAll conv args
      emit (.callBuiltin b)
    | .value =>
      match ← lowerExpr conv callee with
      | .fn params returns =>
        if params.length ≠ args.length then
          throw (.arityMismatch (Ty.fn params returns).text params.length args.length)
        lowerArgs conv params args
        emit (.callIndirect args.length !ty.isVoid)
      | calleeTy => throw (.invalidCallee calleeTy)

/-- The code that stores items in an array, the first of them at `index`. -/
def lowerItems (conv : Conversion) (element : Ty) (index : Nat) : List Expr → Generate Unit
  | [] => pure ()
  | item :: rest => do
    conv (← lowerExpr conv item) element
    emit (.setElement index)
    lowerItems conv element (index + 1) rest

/-- The code that adds entries to a hash. -/
def lowerEntries (conv : Conversion) (key value : Ty) : List (Expr × Expr) → Generate Unit
  | [] => pure ()
  | (k, v) :: rest => do
    conv (← lowerExpr conv k) key
    conv (← lowerExpr conv v) value
    emit .insertEntry
    lowerEntries conv key value rest

/-- The code of arguments, each turned into the type of its parameter. -/
def lowerArgs (conv : Conversion) : List Ty → List Expr → Generate Unit
  | param :: params, arg :: rest => do
    conv (← lowerExpr conv arg) param
    lowerArgs conv params rest
  | _, _ => pure ()

/-- The code of arguments that keep their types. -/
def lowerAll (conv : Conversion) : List Expr → Generate Unit
  | [] => pure ()
  | arg :: rest => do
    discard (lowerExpr conv arg)
    lowerAll conv rest

/-- The code of a statement. -/
def lowerStmt (conv : Conversion) : Stmt → Generate Unit
  | .declare _ _ name written value => preserving do
    conv (← lowerExpr conv value) written.toTy
    let g ← get
    if g.current.declaresGlobals then
      let (cell, g) := g.declareGlobal name
      set g
      emit (.storeGlobal cell)
    else
      let slot ← onUnit fun b => b.declareLocal name
      emit (.storeLocal slot)
  | .returns _ none => preserving (emit .retVoid)
  | .returns _ (some value) => preserving do
    let ty ← lowerExpr conv value
    -- the call of a `void` function leaves nothing to return
    if ty.isVoid then emit .retVoid
    else
      conv ty (← get).current.returns
      emit .ret
  | .expr value => preserving do
    let ty ← lowerExpr conv value
    if !ty.isVoid then emit .pop
  | .branch _ condition yes none => preserving do
    conv (← lowerExpr conv condition) .bool
    let after ← onUnit UnitBuilder.makeLabel
    emit .not
    emit (.jumpIf after)
    onUnit fun b => ((), b.enterScope)
    lowerBlock conv yes
    onUnit fun b => ((), b.exitScope.placeLabel after)
  | .branch _ condition yes (some no) => preserving do
    conv (← lowerExpr conv condition) .bool
    let otherwise ← onUnit UnitBuilder.makeLabel
    emit .not
    emit (.jumpIf otherwise)
    onUnit fun b => ((), b.enterScope)
    lowerBlock conv yes
    let after ← onUnit fun b => b.exitScope.makeLabel
    emit (.jump after)
    onUnit fun b => ((), (b.placeLabel otherwise).enterScope)
    lowerBlock conv no
    onUnit fun b => ((), b.exitScope.placeLabel after)
  | .print _ value => preserving do
    emit (.print (← lowerExpr conv value))
  | .block body => preserving (lowerBlock conv body)

/-- The code of a block, in the current scope. -/
def lowerBlock (conv : Conversion) : Block → Generate Unit
  | .mk body _ => lowerStmts conv body

/-- The code of statements, in the current scope. -/
def lowerStmts (conv : Conversion) : List Stmt → Generate Unit
  | [] => pure ()
  | s :: rest => do
    lowerStmt conv s
    lowerStmts conv rest
end

/-- A name leaves the value that it stands for. -/
theorem lowerExpr_name (conv : Conversion) (node : Node) (name : String) :
    lowerExpr conv (.name node name) = producing node fun _ => lowerName name := by
  rw [lowerExpr]

/-- A block that is a statement opens no scope. -/
theorem lowerStmt_block (conv : Conversion) (body : List Stmt) (span : Span) :
    lowerStmt conv (.block (.mk body span)) = preserving (lowerStmts conv body) := by
  rw [lowerStmt, lowerBlock]

/-! ## 3. Programs -/

/-- Reserves the number of a new unit. -/
def reserve : Generate UnitId := modifyGet Generator.reserve

/-- Writes the unit of a callable with the parameters and the body. -/
def lowerCallable (conv : Conversion) (builder : UnitBuilder) (params : List Param)
    (body : Block) : Generate Unit :=
  unit builder do
    bindParams params
    lowerBlock conv body

/-- Reserves a unit for every function and binds the names. -/
def reserveFunctions : List FunctionDecl → Generate Unit
  | [] => pure ()
  | f :: rest => do
    let id ← reserve
    modify fun g =>
      g.declareFunction ⟨f.name, id, f.params.map (·.written.toTy), f.returns.toTy⟩
    reserveFunctions rest

/-- The units of functions, the first of them with the number `id`. -/
def lowerFunctions (conv : Conversion) (id : UnitId) : List FunctionDecl → Generate Unit
  | [] => pure ()
  | f :: rest => do
    lowerCallable conv (.new id f.name f.params.length f.returns.toTy) f.params f.body
    lowerFunctions conv (id + 1) rest

/-- The finished units, if none is only reserved; the first of them has the number `id`. -/
def finishedUnits (id : UnitId) : List (Option CodeUnit) → Except CodeFault (List CodeUnit)
  | [] => .ok []
  | none :: _ => .error (.unfinishedUnit id)
  | some u :: rest => (finishedUnits (id + 1) rest).map (u :: ·)

/-- The code of a program. The global cells have their numbers before the code of a function
    refers to them. -/
def lowerProgram (conv : Conversion) (p : Program) : Generate Bytecode := do
  reserveFunctions p.functions
  let globals ← reserve
  let main ← reserve
  unit (.newInitializer globals) (lowerStmts conv p.globals)
  lowerFunctions conv 0 p.functions
  lowerCallable conv (.new main "main" 0 .void) [] p.main
  let entry ← reserve
  unit (.new entry "<entry>" 0 .void) do
    emit (.call globals 0 false)
    emit (.call main 0 false)
  let g ← get
  let units ← finishedUnits 0 g.units.toList
  return ⟨units.toArray, g.globalNames, entry⟩

/-- The code of a program with the given types of expressions, and conversions by `conv`. -/
def generateWith (conv : Conversion) (p : Program) (types : TypeTable) :
    Except CodeFault Bytecode := do
  let (code, _) ← (lowerProgram conv p).run (.new types)
  return code

/-- The code of a program with the given types of expressions. -/
def generate (p : Program) (types : TypeTable) : Except CodeFault Bytecode :=
  generateWith convert p types

end Stackling
