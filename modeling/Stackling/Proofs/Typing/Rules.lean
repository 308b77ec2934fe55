import Stackling.Typing.Analysis

/-
  File:     Stackling/Proofs/Typing/Rules.lean
  Subject:  The typing rules.

  The rules say which programs are well typed, and nothing about the others: there is no type
  for an expression that breaks a rule, so a derivation never goes on after a mistake. An
  expression is typed in a context, under the type that the place it stands in expects, which
  only empty literals take over. A derivation lists its rows, the number and the type of
  each expression in it, an expression after its parts.

  * `Ty.Proper`    -- types without a bad hash key and without `void` inside;
  * `Context`      -- the names in scope: locals of the callable in question, locals of the
    callables around it, which are out of reach, and what is global;
  * `ExprTyped`, `StmtTyped`, … -- the rules for expressions and statements;
  * `ProgramTyped` -- the rule for programs.
-/
namespace Stackling

/-! ## 1. Types -/

/-- A type whose hashes, at any depth, have keys that are integers or strings, and in which
    `void` is no element, no value of a hash and no parameter. -/
inductive Ty.Proper : Ty → Prop
  | int : Proper .int
  | string : Proper .string
  | bool : Proper .bool
  | char : Proper .char
  | void : Proper .void
  | array {element : Ty} (he : Proper element) (hv : element ≠ .void) : Proper (.array element)
  | hash {key value : Ty} (hk : key = .int ∨ key = .string) (hw : Proper value)
      (hv : value ≠ .void) : Proper (.hash key value)
  | fn {params : List Ty} {returns : Ty} (hp : ∀ p ∈ params, Proper p)
      (hv : ∀ p ∈ params, p ≠ Ty.void) (hr : Proper returns) : Proper (.fn params returns)

theorem Ty.isVoid_eq_false {ty : Ty} (h : ty ≠ .void) : ty.isVoid = false := by
  simpa [← Ty.isVoid_iff] using h

/-! ## 2. Contexts -/

/-- What a global name stands for. -/
inductive Entity
  | builtin (b : Builtin)
  | function (params : List Ty) (returns : Ty)
  | value (ty : Ty)

/-- The type of what a name stands for, as a value. -/
def Entity.ty : Entity → Ty
  | builtin b => b.signature
  | function params returns => .fn params returns
  | value ty => ty

/-- Local names with their types, the latest first. -/
abbrev Locals := List (String × Ty)

/-- The names in scope at a place of the program. -/
structure Context where
  /-- the open scopes of the callable the place belongs to, the innermost first -/
  scopes : List Locals
  /-- the open scopes of the callables around that one -/
  outer : List Locals
  globals : List (String × Entity)

namespace Context

/-- What a name stands for by its innermost declaration; nothing if that is a local of a
    callable further out. -/
def find? (Γ : Context) (name : String) : Option Entity :=
  match Γ.scopes.findSome? (List.lookup name) with
  | some ty => some (.value ty)
  | none =>
    match Γ.outer.findSome? (List.lookup name) with
    | some _ => none
    | none => Γ.globals.lookup name

/-- The context inside a branch. -/
def branch (Γ : Context) : Context := { Γ with scopes := [] :: Γ.scopes }

/-- The context of a function literal with the given parameters. -/
def literal (Γ : Context) (params : Locals) : Context :=
  ⟨[params], Γ.scopes ++ Γ.outer, Γ.globals⟩

/-- A new name: a global one outside all scopes, else a local one of the innermost scope. The
    scope it is declared in must lack it. -/
inductive Declares (name : String) (ty : Ty) : Context → Context → Prop
  | global {outer : List Locals} {globals : List (String × Entity)}
      (fresh : globals.lookup name = none) :
      Declares name ty ⟨[], outer, globals⟩ ⟨[], outer, (name, .value ty) :: globals⟩
  | local {scope : Locals} {rest outer : List Locals} {globals : List (String × Entity)}
      (fresh : scope.lookup name = none) :
      Declares name ty ⟨scope :: rest, outer, globals⟩
        ⟨((name, ty) :: scope) :: rest, outer, globals⟩

end Context

/-! ## 3. Parameters, operators and built-ins -/

/-- The types of some parameters. -/
def paramTypes (params : List Param) : List Ty := params.map (·.written.toTy)

/-- The scope of a callable with the given parameters. -/
def paramScope (params : List Param) : Locals :=
  (params.map fun p => (p.name, p.written.toTy)).reverse

/-- Parameters with proper types other than `void` and with different names. -/
structure ParamsTyped (params : List Param) : Prop where
  proper : ∀ p ∈ params, p.written.toTy.Proper
  value : ∀ p ∈ params, p.written.toTy ≠ .void
  distinct : (params.map (·.name)).Nodup

/-- The type of an operator on operands of the given types. -/
inductive BinaryOp.Typed : BinaryOp → Ty → Ty → Ty → Prop
  | addInt : Typed .add .int .int .int
  | addText : Typed .add .string .string .string
  | sub : Typed .sub .int .int .int
  | mul : Typed .mul .int .int .int
  | div : Typed .div .int .int .int
  | equality {op : BinaryOp} {ty : Ty} (ho : op = .equal ∨ op = .notEqual) (hv : ty ≠ .void) :
      Typed op ty ty .bool
  | order {op : BinaryOp} {ty : Ty}
      (ho : op = .less ∨ op = .lessEqual ∨ op = .greater ∨ op = .greaterEqual)
      (hv : ty.isOrdered = true) : Typed op ty ty .bool

/-- The type of a direct call of a built-in on arguments of the given types. -/
inductive Builtin.Typed : Builtin → List Ty → Ty → Prop
  | lenArray {element : Ty} : Typed .len [.array element] .int
  | lenText : Typed .len [.string] .int
  | first {element : Ty} : Typed .first [.array element] element
  | last {element : Ty} : Typed .last [.array element] element
  | rest {element : Ty} : Typed .rest [.array element] (.array element)
  | push {element : Ty} : Typed .push [.array element, element] (.array element)

/-! ## 4. Expressions and statements -/

/-- The numbers of expressions with their types. -/
abbrev Rows := List (Nat × Ty)

mutual
/-- An expression of a type, where `wanted` is the type its place expects. -/
inductive ExprTyped : Context → Option Ty → Expr → Ty → Rows → Prop
  | int {Γ wanted node value} :
      ExprTyped Γ wanted (.int node value) .int [(node.id, .int)]
  | text {Γ wanted node value} :
      ExprTyped Γ wanted (.text node value) .string [(node.id, .string)]
  | char {Γ wanted node value} :
      ExprTyped Γ wanted (.char node value) .char [(node.id, .char)]
  | bool {Γ wanted node value} :
      ExprTyped Γ wanted (.bool node value) .bool [(node.id, .bool)]
  | name {Γ wanted node name entity} (found : Γ.find? name = some entity) :
      ExprTyped Γ wanted (.name node name) entity.ty [(node.id, entity.ty)]
  | binary {Γ wanted node op left right l r ty rows₁ rows₂}
      (hl : ExprTyped Γ none left l rows₁) (hr : ExprTyped Γ none right r rows₂)
      (ho : op.Typed l r ty) :
      ExprTyped Γ wanted (.binary node op left right) ty (rows₁ ++ rows₂ ++ [(node.id, ty)])
  | emptyArray {Γ wanted node ty} (hty : ty = .array ((expectedElement wanted).getD .int)) :
      ExprTyped Γ wanted (.array node []) ty [(node.id, ty)]
  | array {Γ wanted node first rest element rows₁ rows₂}
      (hf : ExprTyped Γ (expectedElement wanted) first element rows₁) (hv : element ≠ .void)
      (hr : ItemsTyped Γ element rest rows₂) :
      ExprTyped Γ wanted (.array node (first :: rest)) (.array element)
        (rows₁ ++ rows₂ ++ [(node.id, .array element)])
  | emptyHash {Γ wanted node ty}
      (hty : ty = .hash ((expectedKey wanted).getD .int) ((expectedValue wanted).getD .int)) :
      ExprTyped Γ wanted (.hash node []) ty [(node.id, ty)]
  | hash {Γ wanted node firstKey firstValue rest key value rows₁ rows₂ rows₃}
      (hk : ExprTyped Γ (expectedKey wanted) firstKey key rows₁)
      (hw : ExprTyped Γ (expectedValue wanted) firstValue value rows₂)
      (hkey : key = .int ∨ key = .string) (hv : value ≠ .void)
      (hr : EntriesTyped Γ key value rest rows₃) :
      ExprTyped Γ wanted (.hash node ((firstKey, firstValue) :: rest)) (.hash key value)
        (rows₁ ++ rows₂ ++ rows₃ ++ [(node.id, .hash key value)])
  | fn {Γ Γ' wanted node params returns body span rows} (hr : returns.toTy.Proper)
      (hp : ParamsTyped params)
      (hb : StmtsTyped (Γ.literal (paramScope params)) (some returns.toTy) body Γ' rows)
      (he : returns.toTy = .void ∨ anyAlwaysReturns body = true) :
      ExprTyped Γ wanted (.fn node params returns (.mk body span))
        (.fn (paramTypes params) returns.toTy)
        (rows ++ [(node.id, .fn (paramTypes params) returns.toTy)])
  | indexArray {Γ wanted node target key element rows₁ rows₂}
      (ht : ExprTyped Γ none target (.array element) rows₁)
      (hk : ExprTyped Γ (some .int) key .int rows₂) :
      ExprTyped Γ wanted (.index node target key) element
        (rows₁ ++ rows₂ ++ [(node.id, element)])
  | indexHash {Γ wanted node target key keyTy value rows₁ rows₂}
      (ht : ExprTyped Γ none target (.hash keyTy value) rows₁)
      (hk : ExprTyped Γ (some keyTy) key keyTy rows₂) :
      ExprTyped Γ wanted (.index node target key) value (rows₁ ++ rows₂ ++ [(node.id, value)])
  | callBuiltin {Γ wanted node inner name b args types ty rows}
      (found : Γ.find? name = some (.builtin b))
      (ha : BuiltinArgsTyped Γ b none args types rows) (hb : b.Typed types ty) :
      ExprTyped Γ wanted (.call node (.name inner name) args) ty
        ([(inner.id, b.signature)] ++ rows ++ [(node.id, ty)])
  | call {Γ wanted node callee args params ty rows₁ rows₂}
      (hn : ∀ inner name b, callee = .name inner name → Γ.find? name ≠ some (.builtin b))
      (hc : ExprTyped Γ none callee (.fn params ty) rows₁)
      (ha : ArgsTyped Γ params args rows₂) :
      ExprTyped Γ wanted (.call node callee args) ty (rows₁ ++ rows₂ ++ [(node.id, ty)])

/-- Items of an array after the first one. -/
inductive ItemsTyped : Context → Ty → List Expr → Rows → Prop
  | nil {Γ element} : ItemsTyped Γ element [] []
  | cons {Γ element item rest rows₁ rows₂} (hi : ExprTyped Γ (some element) item element rows₁)
      (hr : ItemsTyped Γ element rest rows₂) :
      ItemsTyped Γ element (item :: rest) (rows₁ ++ rows₂)

/-- Entries of a hash after the first one. -/
inductive EntriesTyped : Context → Ty → Ty → List (Expr × Expr) → Rows → Prop
  | nil {Γ key value} : EntriesTyped Γ key value [] []
  | cons {Γ key value k v rest rows₁ rows₂ rows₃} (hk : ExprTyped Γ (some key) k key rows₁)
      (hv : ExprTyped Γ (some value) v value rows₂)
      (hr : EntriesTyped Γ key value rest rows₃) :
      EntriesTyped Γ key value ((k, v) :: rest) (rows₁ ++ rows₂ ++ rows₃)

/-- Arguments for the given parameters, one for each. -/
inductive ArgsTyped : Context → List Ty → List Expr → Rows → Prop
  | nil {Γ} : ArgsTyped Γ [] [] []
  | cons {Γ param params arg rest rows₁ rows₂} (ha : ExprTyped Γ (some param) arg param rows₁)
      (hr : ArgsTyped Γ params rest rows₂) :
      ArgsTyped Γ (param :: params) (arg :: rest) (rows₁ ++ rows₂)

/-- Arguments of a direct call of a built-in, after a first one if there was one. -/
inductive BuiltinArgsTyped : Context → Builtin → Option Ty → List Expr → List Ty → Rows → Prop
  | nil {Γ b first} : BuiltinArgsTyped Γ b first [] [] []
  | cons {Γ b first arg rest ty types rows₁ rows₂}
      (ha : ExprTyped Γ (b.expectedNext first) arg ty rows₁)
      (hr : BuiltinArgsTyped Γ b (first <|> some ty) rest types rows₂) :
      BuiltinArgsTyped Γ b first (arg :: rest) (ty :: types) (rows₁ ++ rows₂)

/-- A statement of a callable with the given result, or of no callable, and the names in scope
    after it. -/
inductive StmtTyped : Context → Option Ty → Stmt → Context → Rows → Prop
  | declare {Γ Γ' returns span constant name written value rows}
      (hw : written.toTy.Proper) (hv : written.toTy ≠ .void)
      (he : ExprTyped Γ (some written.toTy) value written.toTy rows)
      (hd : Γ.Declares name written.toTy Γ') :
      StmtTyped Γ returns (.declare span constant name written value) Γ' rows
  | returnsNothing {Γ span} : StmtTyped Γ (some .void) (.returns span none) Γ []
  | returns {Γ ty span value rows} (he : ExprTyped Γ (some ty) value ty rows) :
      StmtTyped Γ (some ty) (.returns span (some value)) Γ rows
  | expr {Γ returns value ty rows} (he : ExprTyped Γ none value ty rows) :
      StmtTyped Γ returns (.expr value) Γ rows
  | branch {Γ Γ₁ returns span condition yes spanYes rows₀ rows₁}
      (hc : ExprTyped Γ (some .bool) condition .bool rows₀)
      (hy : StmtsTyped Γ.branch returns yes Γ₁ rows₁) :
      StmtTyped Γ returns (.branch span condition (.mk yes spanYes) none) Γ (rows₀ ++ rows₁)
  | branchElse {Γ Γ₁ Γ₂ returns span condition yes spanYes no spanNo rows₀ rows₁ rows₂}
      (hc : ExprTyped Γ (some .bool) condition .bool rows₀)
      (hy : StmtsTyped Γ.branch returns yes Γ₁ rows₁)
      (hn : StmtsTyped Γ.branch returns no Γ₂ rows₂) :
      StmtTyped Γ returns (.branch span condition (.mk yes spanYes) (some (.mk no spanNo))) Γ
        (rows₀ ++ rows₁ ++ rows₂)
  | print {Γ returns span value ty rows} (he : ExprTyped Γ none value ty rows)
      (hv : ty ≠ .void) : StmtTyped Γ returns (.print span value) Γ rows
  | block {Γ Γ' returns body span rows} (hb : StmtsTyped Γ returns body Γ' rows) :
      StmtTyped Γ returns (.block (.mk body span)) Γ' rows

/-- Statements one after the other. -/
inductive StmtsTyped : Context → Option Ty → List Stmt → Context → Rows → Prop
  | nil {Γ returns} : StmtsTyped Γ returns [] Γ []
  | cons {Γ Γ₁ Γ₂ returns s rest rows₁ rows₂} (hs : StmtTyped Γ returns s Γ₁ rows₁)
      (hr : StmtsTyped Γ₁ returns rest Γ₂ rows₂) :
      StmtsTyped Γ returns (s :: rest) Γ₂ (rows₁ ++ rows₂)
end

/-! ## 5. Programs -/

/-- The name of a function with what it stands for. -/
def FunctionDecl.entry (f : FunctionDecl) : String × Entity :=
  (f.name, .function (paramTypes f.params) f.returns.toTy)

/-- The names of the built-ins with what they stand for, the latest first. -/
def builtinEntries : List (String × Entity) :=
  (Builtin.all.map fun b => (b.name, Entity.builtin b)).reverse

/-- The global names before the statements at top level: functions and built-ins. -/
def Program.entries (p : Program) : List (String × Entity) :=
  (p.functions.map FunctionDecl.entry).reverse ++ builtinEntries

/-- A function whose body is well typed, given the global names. -/
inductive FunctionTyped (globals : List (String × Entity)) : FunctionDecl → Rows → Prop
  | mk {f : FunctionDecl} {Γ : Context} {rows : Rows} (hp : ParamsTyped f.params)
      (hb : StmtsTyped ⟨[paramScope f.params], [], globals⟩ (some f.returns.toTy) f.body.body Γ
        rows)
      (he : f.returns.toTy = .void ∨ f.body.alwaysReturns = true) :
      FunctionTyped globals f rows

/-- Functions whose bodies are well typed. -/
inductive FunctionsTyped (globals : List (String × Entity)) : List FunctionDecl → Rows → Prop
  | nil : FunctionsTyped globals [] []
  | cons {f : FunctionDecl} {rest : List FunctionDecl} {rows₁ rows₂ : Rows}
      (hf : FunctionTyped globals f rows₁) (hr : FunctionsTyped globals rest rows₂) :
      FunctionsTyped globals (f :: rest) (rows₁ ++ rows₂)

/-- A well typed program. The statements at top level are typed first, in the scope of the
    functions and built-ins; bodies see all global names. -/
inductive ProgramTyped : Program → Rows → Prop
  | mk {p : Program} {Γ Γ' : Context} {rows₁ rows₂ rows₃ : Rows}
      (hr : ∀ f ∈ p.functions, f.returns.toTy.Proper)
      (hd : (p.entries.map (·.1)).Nodup)
      (hg : StmtsTyped ⟨[], [], p.entries⟩ none p.globals Γ rows₁)
      (hf : FunctionsTyped Γ.globals p.functions rows₂)
      (hm : StmtsTyped ⟨[[]], [], Γ.globals⟩ (some .void) p.main.body Γ' rows₃) :
      ProgramTyped p (rows₁ ++ rows₂ ++ rows₃)

end Stackling
