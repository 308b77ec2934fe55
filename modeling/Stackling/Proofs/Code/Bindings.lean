import Stackling.Code.Lowering
import Stackling.Proofs.Typing.Quiet
import Stackling.Proofs.Typing.Rules
import Stackling.Proofs.Typing.ScopeStack

/-
  File:     Stackling/Proofs/Code/Bindings.lean
  Subject:  The analysis and the generator take every name for the same declaration.

  Both passes go over a program in the same order. The relations follow them side by side: they
  relate the states of both before a part of the program to those after it, and hold the
  bindings that are in force there, each a symbol of the analysis with its declaration. At every
  name the analysis has to find the symbol and the generator the place of the same binding.

  What lies between two parts is a step of each pass; where a pass has nothing to do there, the
  step is `pure ()`.

  * `Declaration`, `Binding`, `Bindings` -- what names are bound to;
  * `NameAlike`                 -- both passes find the same binding of a name;
  * `CallAlike`                 -- both passes take a call alike;
  * `ExprAlike`, `StmtAlike`, … -- so they do at every name and at every call of a part;
  * `ProgramAlike`              -- of a program.
-/
namespace Stackling

open Check Generate

/-! ## 1. Bindings -/

/-- What declares a name. -/
inductive Declaration
  | builtin (b : Builtin)
  /-- the function at a place among those of the program, which is the number of its unit -/
  | function (place : Nat)
  /-- the parameter at an index -/
  | param (index : Nat)
  /-- the declaration whose value has a number, with the cell that is made for it -/
  | cell (value n : Nat)
  /-- the declaration whose value has a number, with the slot that is made for it -/
  | slot (value n : Nat)

/-- What a name of the declaration has to refer to in code. -/
def Declaration.resolved : Declaration → Resolved
  | builtin b => .builtin b
  | function place => .function place
  | param index => .slot (.arg index)
  | cell _ n => .global n
  | slot _ n => .slot (.loc n)

/-- A symbol of the analysis with its declaration. -/
structure Binding where
  symbol : Symbol
  source : Declaration

def Binding.isOf (name : String) (b : Binding) : Bool := b.symbol.name == name

/-- The bindings in force at a place of the program, in each scope the latest first. -/
structure Bindings where
  /-- the open scopes of the callable the place belongs to, the innermost first -/
  scopes : List (List Binding)
  /-- the open scopes of the callables around that one -/
  outer : List (List Binding)
  globals : List Binding

namespace Bindings

/-- The symbols that the analysis holds, scope by scope. -/
def symbols (B : Bindings) : List (List Symbol) :=
  (B.scopes ++ B.outer ++ [B.globals]).map fun scope => scope.map Binding.symbol

/-- The innermost binding of a name among those of the callable and the global ones. -/
def find? (B : Bindings) (name : String) : Option Binding :=
  (B.scopes ++ [B.globals]).findSome? (List.find? (Binding.isOf name))

/-- The level of the current scope. -/
def level (B : Bindings) : Nat := (B.scopes ++ B.outer).length

/-- More bindings in the current scope. -/
def add (B : Bindings) (more : List Binding) : Bindings :=
  match B.scopes with
  | [] => { B with globals := more ++ B.globals }
  | scope :: rest => { B with scopes := (more ++ scope) :: rest }

/-- The bindings inside a branch. -/
def branch (B : Bindings) : Bindings := { B with scopes := [] :: B.scopes }

/-- The bindings at the start of a callable inside the current scope. -/
def callable (B : Bindings) (params : List Param) : Bindings where
  scopes := [(params.zipIdx.map fun x =>
    ⟨⟨x.1.name, x.1.written.toTy, false, false, B.level + 1⟩, .param x.2⟩).reverse]
  outer := B.scopes ++ B.outer
  globals := B.globals

end Bindings

/-- The bindings of functions, the first of them at a place. -/
def functionBindings (place : Nat) : List FunctionDecl → List Binding
  | [] => []
  | f :: rest =>
    ⟨⟨f.name, .fn (paramTypes f.params) f.returns.toTy, false, true, 0⟩, .function place⟩ ::
      functionBindings (place + 1) rest

/-- The bindings before the statements at top level: functions and built-ins. -/
def Program.bindings (p : Program) : Bindings where
  scopes := []
  outer := []
  globals := (functionBindings 0 p.functions).reverse ++
    (Builtin.all.map fun b => ⟨⟨b.name, b.signature, false, true, 0⟩, .builtin b⟩).reverse

/-! ## 2. Both passes -/

/-- The states of both passes. -/
structure Passes where
  analysis : Analysis
  generator : Generator

/-- Both passes make a step. The analysis reports nothing. -/
structure Both {α β : Type} (m : Check α) (n : Generate β) (s : Passes) (x : α) (y : β)
    (s' : Passes) : Prop where
  analysed : Quiet m s.analysis x s'.analysis
  generated : n s.generator = .ok (y, s'.generator)

/-- Both passes go over an expression. -/
abbrev ExprBoth (within : Option Enclosing) (wanted : Option Ty) (e : Expr) (s : Passes)
    (x y : Ty) (s' : Passes) : Prop :=
  Both (checkExpr within wanted e) (lowerExpr convert e) s x y s'

/-- Both passes go over a statement. -/
abbrev StmtBoth (within : Option Enclosing) (st : Stmt) (s s' : Passes) : Prop :=
  Both (checkStmt within st) (lowerStmt convert st) s () () s'

/-- The end of the code of a declaration, which makes the place and stores the value there. -/
def lowerDeclared (name : String) (value : Nat) : Generate Declaration := do
  let g ← get
  if g.current.declaresGlobals then
    let (cell, g) := g.declareGlobal name
    set g
    emit (.storeGlobal cell)
    return .cell value cell
  else
    let slot ← onUnit fun b => b.declareLocal name
    emit (.storeLocal slot)
    return .slot value slot

/-- The code between the condition of a branch and its first arm, in whose scope it ends. The
    label stands for the code behind the arm. -/
def lowerTest (condition : Ty) : Generate Label := do
  convert condition .bool
  let after ← onUnit UnitBuilder.makeLabel
  emit .not
  emit (.jumpIf after)
  onUnit fun b => ((), b.enterScope)
  return after

/-- The code between the arms of a branch. -/
def lowerBetween (otherwise : Label) : Generate Label := do
  let after ← onUnit fun b => b.exitScope.makeLabel
  emit (.jump after)
  onUnit fun b => ((), (b.placeLabel otherwise).enterScope)
  return after

/-- The end of the code of a branch. -/
def lowerBehind (after : Label) : Generate Unit :=
  onUnit fun b => ((), b.exitScope.placeLabel after)

/-- The generator when a unit is finished, back in the unit around it. -/
def Generator.finished (g around : Generator) (v : CodeUnit) : Generator :=
  { g with current := around.current, units := g.units.setIfInBounds v.id (some v) }

/-! ## 3. Names and calls -/

/-- **Both passes take a name for the same declaration.** The analysis holds the symbols of the
    bindings and no others, and the name has a binding whose symbol the analysis finds and whose
    place the generator finds. -/
structure NameAlike (B : Bindings) (name : String) (s : Passes) : Prop where
  shows : s.analysis.scopes.Shows B.symbols
  found : ∃ b, B.find? name = some b ∧ s.analysis.scopes.lookup? name = some b.symbol ∧
    s.generator.resolve? name = some b.source.resolved

/-- **Both passes take a call alike.** It becomes an instruction for a built-in exactly if the
    analysis takes it for a direct call of that built-in, and a direct call of a unit exactly if
    the callee names the function of the unit. -/
structure CallAlike (B : Bindings) (callee : Expr) (scopes : ScopeTable) (op : Op) : Prop where
  builtin : ∀ b, op = .callBuiltin b ↔ builtinCallee? scopes callee = some b
  function : ∀ place, (∃ arity returns, op = .call place arity returns) ↔
    ∃ node name b, callee = .name node name ∧ B.find? name = some b ∧ b.source = .function place

/-! ## 4. Expressions and statements -/

/-- Whether an expression has no parts and is no name. -/
def Expr.isConstant : Expr → Bool
  | .int .. | .text .. | .char .. | .bool .. | .array _ [] | .hash _ [] => true
  | _ => false

/-- The type that is expected of a key of something of a type. -/
def Ty.keyOf : Ty → Option Ty
  | .array _ => some .int
  | .hash key _ => some key
  | _ => none

mutual
/-- Both passes go over an expression, where they take every name and every call alike. -/
inductive ExprAlike :
    Option Enclosing → Bindings → Option Ty → Expr → Passes → Ty → Ty → Passes → Prop
  | constant {within B wanted e s x y s'} (hc : e.isConstant = true)
      (whole : ExprBoth within wanted e s x y s') : ExprAlike within B wanted e s x y s'
  | name {within B wanted node name s x y s'} (hn : NameAlike B name s)
      (whole : ExprBoth within wanted (.name node name) s x y s') :
      ExprAlike within B wanted (.name node name) s x y s'
  | binary {within B wanted node op left right o s s₁ s₂ s' l l' r r' x y}
      (hl : ExprAlike within B none left s l l' s₁)
      (hr : ExprAlike within B none right s₁ r r' s₂)
      (last : Both (file node x) (emit o) s₂ x () s')
      (whole : ExprBoth within wanted (.binary node op left right) s x y s') :
      ExprAlike within B wanted (.binary node op left right) s x y s'
  | array {within B wanted node first rest element s s₀ s₁ s₂ s₃ s' t t' x}
      (start : Both (pure ()) (emit (.newArray (first :: rest).length)) s () () s₀)
      (hf : ExprAlike within B (expectedElement wanted) first s₀ t t' s₁)
      (store : Both (pure ()) (do convert t' element; emit (.setElement 0)) s₁ () () s₂)
      (hr : ItemsAlike within B t element 1 rest s₂ s₃)
      (last : Both (file node x) (pure ()) s₃ x () s')
      (whole : ExprBoth within wanted (.array node (first :: rest)) s x (.array element) s') :
      ExprAlike within B wanted (.array node (first :: rest)) s x (.array element) s'
  | hash {within B wanted node k v rest key value s s₀ s₁ s₂ s₃ s₄ s₅ s' t t' w w' x}
      (start : Both (pure ()) (emit .newHash) s () () s₀)
      (hk : ExprAlike within B (expectedKey wanted) k s₀ t t' s₁)
      (turn : Both (pure ()) (convert t' key) s₁ () () s₂)
      (hv : ExprAlike within B (expectedValue wanted) v s₂ w w' s₃)
      (store : Both (pure ()) (do convert w' value; emit .insertEntry) s₃ () () s₄)
      (hr : EntriesAlike within B t w key value rest s₄ s₅)
      (last : Both (file node x) (pure ()) s₅ x () s')
      (whole : ExprBoth within wanted (.hash node ((k, v) :: rest)) s x (.hash key value) s') :
      ExprAlike within B wanted (.hash node ((k, v) :: rest)) s x (.hash key value) s'
  | fn {within B wanted node params returns body span s s₁ s' x y}
      (hc : CallableAlike ⟨returns.toTy, some (B.level + 1)⟩ B
        (.new s.generator.units.size ("<lambda#" ++ toString (s.generator.literals + 1) ++ ">")
          params.length returns.toTy) params body
        ⟨s.analysis, { s.generator.reserve.2 with literals := s.generator.literals + 1 }⟩ s₁)
      (last : Both (file node x) (emit (.pushUnit s.generator.units.size)) s₁ x () s')
      (whole : ExprBoth within wanted (.fn node params returns (.mk body span)) s x y s') :
      ExprAlike within B wanted (.fn node params returns (.mk body span)) s x y s'
  | index {within B wanted node target key o s s₁ s₂ s' t t' k k' ty x y}
      (ht : ExprAlike within B none target s t t' s₁)
      (hk : ExprAlike within B t.keyOf key s₁ k k' s₂)
      (last : Both (file node x) (do convert k' ty; emit o) s₂ x () s')
      (whole : ExprBoth within wanted (.index node target key) s x y s') :
      ExprAlike within B wanted (.index node target key) s x y s'
  | callBuiltin {within B wanted node inner name args b s s₁ s₂ s' t x y}
      (hn : NameAlike B name s)
      (hb : builtinCallee? s.analysis.scopes (.name inner name) = some b)
      (hc : Both (checkExpr within none (.name inner name)) (pure ()) s t () s₁)
      (ha : BuiltinArgsAlike within B b none args s₁ s₂)
      (last : Both (file node x) (emit (.callBuiltin b)) s₂ x () s')
      (alike : CallAlike B (.name inner name) s.analysis.scopes (.callBuiltin b))
      (whole : ExprBoth within wanted (.call node (.name inner name) args) s x y s') :
      ExprAlike within B wanted (.call node (.name inner name) args) s x y s'
  | callFunction {within B wanted node inner name args unit f params result returns s s₁ s₂ s' x y}
      (hn : NameAlike B name s) (hf : s.generator.functionOf? unit = some f)
      (hc : Both (checkExpr within none (.name inner name)) (pure ()) s (.fn params result) () s₁)
      (ha : ArgsAlike within B params f.params args s₁ s₂)
      (last : Both (file node x) (emit (.call unit args.length returns)) s₂ x () s')
      (alike : CallAlike B (.name inner name) s.analysis.scopes (.call unit args.length returns))
      (whole : ExprBoth within wanted (.call node (.name inner name) args) s x y s') :
      ExprAlike within B wanted (.call node (.name inner name) args) s x y s'
  | callValue {within B wanted node callee args params result params' result' returns s s₁ s₂ s' x
      y}
      (hc : ExprAlike within B none callee s (.fn params result) (.fn params' result') s₁)
      (ha : ArgsAlike within B params params' args s₁ s₂)
      (last : Both (file node x) (emit (.callIndirect args.length returns)) s₂ x () s')
      (alike : CallAlike B callee s.analysis.scopes (.callIndirect args.length returns))
      (whole : ExprBoth within wanted (.call node callee args) s x y s') :
      ExprAlike within B wanted (.call node callee args) s x y s'

/-- Items of an array after the first one. -/
inductive ItemsAlike :
    Option Enclosing → Bindings → Ty → Ty → Nat → List Expr → Passes → Passes → Prop
  | nil {within B ty element index s} : ItemsAlike within B ty element index [] s s
  | cons {within B ty element index item rest s s₁ s₂ s₃ x y}
      (hi : ExprAlike within B (some ty) item s x y s₁)
      (store : Both (pure ()) (do convert y element; emit (.setElement index)) s₁ () () s₂)
      (hr : ItemsAlike within B ty element (index + 1) rest s₂ s₃) :
      ItemsAlike within B ty element index (item :: rest) s s₃

/-- Entries of a hash after the first one. -/
inductive EntriesAlike :
    Option Enclosing → Bindings → Ty → Ty → Ty → Ty → List (Expr × Expr) → Passes → Passes → Prop
  | nil {within B t w key value s} : EntriesAlike within B t w key value [] s s
  | cons {within B t w key value k v rest s s₁ s₂ s₃ s₄ s₅ x x' y y'}
      (hk : ExprAlike within B (some t) k s x x' s₁)
      (turn : Both (pure ()) (convert x' key) s₁ () () s₂)
      (hv : ExprAlike within B (some w) v s₂ y y' s₃)
      (store : Both (pure ()) (do convert y' value; emit .insertEntry) s₃ () () s₄)
      (hr : EntriesAlike within B t w key value rest s₄ s₅) :
      EntriesAlike within B t w key value ((k, v) :: rest) s s₅

/-- Arguments, with the parameters that the analysis and the generator compare them with. -/
inductive ArgsAlike :
    Option Enclosing → Bindings → List Ty → List Ty → List Expr → Passes → Passes → Prop
  | nil {within B params params' s} : ArgsAlike within B params params' [] s s
  | cons {within B params param params' arg rest s s₁ s₂ s₃ x y}
      (ha : ExprAlike within B params.head? arg s x y s₁)
      (turn : Both (pure ()) (convert y param) s₁ () () s₂)
      (hr : ArgsAlike within B params.tail params' rest s₂ s₃) :
      ArgsAlike within B params (param :: params') (arg :: rest) s s₃

/-- Arguments of a direct call of a built-in, after a first one if there was one. -/
inductive BuiltinArgsAlike :
    Option Enclosing → Bindings → Builtin → Option Ty → List Expr → Passes → Passes → Prop
  | nil {within B b first s} : BuiltinArgsAlike within B b first [] s s
  | cons {within B b first arg rest s s₁ s₂ x y}
      (ha : ExprAlike within B (b.expectedNext first) arg s x y s₁)
      (hr : BuiltinArgsAlike within B b (first <|> some x) rest s₁ s₂) :
      BuiltinArgsAlike within B b first (arg :: rest) s s₂

/-- A callable inside the current scope. The analysis opens a scope for its parameters, the
    generator begins the unit, and both leave what they have begun. -/
inductive CallableAlike :
    Enclosing → Bindings → UnitBuilder → List Param → List Stmt → Passes → Passes → Prop
  | mk {within B builder params body s s₁ s₂ a more v}
      (start : Both (do enter; declareParams params (paramTypes params)) (bindParams params)
        ⟨s.analysis, { s.generator with current := builder }⟩ () () s₁)
      (hb : StmtsAlike (some within) (B.callable params) body s₁ more s₂)
      (analysed : Quiet leave s₂.analysis () a)
      (finished : s₂.generator.current.finish = .ok v) :
      CallableAlike within B builder params body s ⟨a, s₂.generator.finished s.generator v⟩

/-- Both passes go over a statement, and the bindings that it adds to the current scope. -/
inductive StmtAlike :
    Option Enclosing → Bindings → Stmt → Passes → List Binding → Passes → Prop
  | declare {within B span constant name written value source s s₁ s₂ s' x y}
      (hv : ExprAlike within B (some written.toTy) value s x y s₁)
      (turn : Both (pure ()) (convert y written.toTy) s₁ () () s₂)
      (last : Both (declare name written.toTy constant false) (lowerDeclared name value.id) s₂
        true source s')
      (whole : StmtBoth within (.declare span constant name written value) s s') :
      StmtAlike within B (.declare span constant name written value) s
        [⟨⟨name, written.toTy, constant, false, B.level⟩, source⟩] s'
  | returnsNothing {within B span s s'} (whole : StmtBoth within (.returns span none) s s') :
      StmtAlike within B (.returns span none) s [] s'
  | returns {f B span value s s₁ s' x y}
      (hv : ExprAlike (some f) B (some f.returns) value s x y s₁)
      (last : Both (pure ()) (if y.isVoid then emit .retVoid else do
        convert y (← get).current.returns
        emit .ret) s₁ () () s')
      (whole : StmtBoth (some f) (.returns span (some value)) s s') :
      StmtAlike (some f) B (.returns span (some value)) s [] s'
  | expr {within B value s s₁ s' x y} (hv : ExprAlike within B none value s x y s₁)
      (last : Both (pure ()) (if !y.isVoid then emit .pop else pure ()) s₁ () () s')
      (whole : StmtBoth within (.expr value) s s') : StmtAlike within B (.expr value) s [] s'
  | branch {within B span condition yes spanYes more after s s₁ s₂ s₃ s' x y}
      (hc : ExprAlike within B (some .bool) condition s x y s₁)
      (test : Both enter (lowerTest y) s₁ () after s₂)
      (hy : StmtsAlike within B.branch yes s₂ more s₃)
      (last : Both leave (lowerBehind after) s₃ () () s')
      (whole : StmtBoth within (.branch span condition (.mk yes spanYes) none) s s') :
      StmtAlike within B (.branch span condition (.mk yes spanYes) none) s [] s'
  | branchElse {within B span condition yes spanYes no spanNo more more' otherwise after
      s s₁ s₂ s₃ s₄ s₅ s' x y}
      (hc : ExprAlike within B (some .bool) condition s x y s₁)
      (test : Both enter (lowerTest y) s₁ () otherwise s₂)
      (hy : StmtsAlike within B.branch yes s₂ more s₃)
      (between : Both (do leave; enter) (lowerBetween otherwise) s₃ () after s₄)
      (hn : StmtsAlike within B.branch no s₄ more' s₅)
      (last : Both leave (lowerBehind after) s₅ () () s')
      (whole : StmtBoth within (.branch span condition (.mk yes spanYes) (some (.mk no spanNo)))
        s s') :
      StmtAlike within B (.branch span condition (.mk yes spanYes) (some (.mk no spanNo))) s [] s'
  | print {within B span value s s₁ s' x y} (hv : ExprAlike within B none value s x y s₁)
      (last : Both (pure ()) (emit (.print y)) s₁ () () s')
      (whole : StmtBoth within (.print span value) s s') :
      StmtAlike within B (.print span value) s [] s'
  | block {within B body span s more s'} (hb : StmtsAlike within B body s more s')
      (whole : StmtBoth within (.block (.mk body span)) s s') :
      StmtAlike within B (.block (.mk body span)) s more s'

/-- Statements, each with the bindings that the statements before it have added. -/
inductive StmtsAlike :
    Option Enclosing → Bindings → List Stmt → Passes → List Binding → Passes → Prop
  | nil {within B s} : StmtsAlike within B [] s [] s
  | cons {within B st rest s more s₁ more' s₂} (hs : StmtAlike within B st s more s₁)
      (hr : StmtsAlike within (B.add more) rest s₁ more' s₂) :
      StmtsAlike within B (st :: rest) s (more' ++ more) s₂
end

/-! ## 5. Programs -/

/-- Functions, the first of them at a place. -/
inductive FunctionsAlike (B : Bindings) : Nat → List FunctionDecl → Passes → Passes → Prop
  | nil {place s} : FunctionsAlike B place [] s s
  | cons {place f rest s s₁ s₂}
      (hf : CallableAlike ⟨f.returns.toTy, none⟩ B
        (.new place f.name f.params.length f.returns.toTy) f.params f.body.body s s₁)
      (hr : FunctionsAlike B (place + 1) rest s₁ s₂) : FunctionsAlike B place (f :: rest) s s₂

/-- **Both passes go over a program,** where they take every name and every call alike. First the
    functions get their names, then come the statements at top level, the functions in order and
    `main`. The generator adds the unit that a run starts with. -/
inductive ProgramAlike (p : Program) (types : TypeTable) (code : Bytecode) : Prop
  | mk {signatures globals main s₁ more s₂ v s₃ s₄ g}
      (start : Both (declareFunctions p.functions) (do
          reserveFunctions p.functions
          let globals ← reserve
          let main ← reserve
          return (globals, main))
        ⟨.initial, .new types⟩ signatures (globals, main) s₁)
      (hg : StmtsAlike none p.bindings p.globals
        ⟨s₁.analysis, { s₁.generator with current := .newInitializer globals }⟩ more s₂)
      (finished : s₂.generator.current.finish = .ok v)
      (hf : FunctionsAlike (p.bindings.add more) 0 p.functions
        ⟨s₂.analysis, s₂.generator.finished s₁.generator v⟩ s₃)
      (hm : CallableAlike ⟨.void, none⟩ (p.bindings.add more) (.new main "main" 0 .void) []
        p.main.body s₃ s₄)
      (analysed : Quiet (checkProgram p) .initial () s₄.analysis)
      (filed : s₄.analysis.types = types)
      (last : (do
          let entry ← reserve
          unit (.new entry "<entry>" 0 .void) do
            emit (.call globals 0 false)
            emit (.call main 0 false)
          let g ← get
          let units ← finishedUnits 0 g.units.toList
          return ⟨units.toArray, g.globalNames, entry⟩ : Generate Bytecode) s₄.generator =
        .ok (code, g))
      (generated : generate p types = .ok code)

end Stackling
