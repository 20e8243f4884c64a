import WakeSol.Gen.Provenance

/- Calling an emitted builder method. Parameters and assigned names are local to the
   method; every other name is looked up in the module. -/
set_option autoImplicit false

namespace WakeSol.Gen

open TextLib RadixLib DictLib Codec WireLib Interface

inductive Engine where
  | encodeIxLayout
  | buildMetas
  | slot
  | asMeta
  | instruction
deriving DecidableEq

structure BuiltInstruction where
  programId : Address
  accounts : List AccountMeta
  data : Bytes
deriving DecidableEq

inductive Obj where
  | value (given : Value)
  | accountMeta (given : AccountMeta)
  | cls
  | metas (items : List AccountMeta)
  | sequence (items : List MetaLike)
  | layout (nodes : List Node)
  | slot (account : Obj) (isSigner isWritable isOptional : Bool)
  | engine (function : Engine)
  | instruction (built : BuiltInstruction)

def metaLikeObj : MetaLike → Obj
  | .accountMeta given => .accountMeta given
  | .value given => .value given

def objPubkey : Obj → Except Raised Address
  | .value given => pubkeyOf given
  | _ => .error .typeError

def objValue : Obj → Except Raised Value
  | .value given => .ok given
  | _ => .error .typeError

def accountMetaFrom (obj : Obj) (isSigner isWritable : Bool) : Except Raised AccountMeta :=
  (fun key => ⟨key, isSigner, isWritable⟩) <$> objPubkey obj

def asMetaFrom : Obj → Except Raised AccountMeta
  | .accountMeta given => .ok given
  | obj => accountMetaFrom obj false false

def slotMetaFrom (programId : Obj) : Obj → Except Raised AccountMeta
  | .slot (.value .none) _ _ isOptional => if isOptional then accountMetaFrom programId false false else .error .valueError
  | .slot (.accountMeta given) _ _ _ => .ok given
  | .slot account isSigner isWritable _ => accountMetaFrom account isSigner isWritable
  | _ => .error .typeError

-- A parameter is never callable, and never a layout.
def callObj (env : Env) : Obj → List Obj → Except Raised Obj
  | .engine .encodeIxLayout, .value (.bytes discriminator) :: .layout nodes :: values => do
      let given ← values.mapM objValue
      let raw ← encodeIxLayout env discriminator nodes given
      return .value (.bytes raw)
  | .engine .buildMetas, programId :: slots => .metas <$> slots.mapM (slotMetaFrom programId)
  | .engine .slot, [account, .value (.bool isSigner), .value (.bool isWritable), .value (.bool isOptional)] =>
    .ok (.slot account isSigner isWritable isOptional)
  | .engine .asMeta, [obj] => .accountMeta <$> asMetaFrom obj
  | .engine .instruction, [programId, .metas accounts, .value (.bytes data)] =>
    (fun key => .instruction ⟨key, accounts, data⟩) <$> objPubkey programId
  | _, _ => .error .typeError

def objMeta : Obj → Except Raised AccountMeta
  | .accountMeta given => .ok given
  | _ => .error .typeError

abbrev Locals := List (Name × Obj)

def Stmt.target : Stmt → Option Name
  | .assign target _ => some target
  | .extend target _ => some target
  | .ret _ => none

-- A name that is assigned anywhere in the body is local everywhere in it.
structure Context where
  env : Env
  spell : Name → Name
  globals : Name → Option Obj
  assigned : List Name

def resolve (context : Context) (locals : Locals) (name : Name) : Except Raised Obj :=
  match locals.lookup name with
  | some obj => .ok obj
  | none =>
    if name ∈ context.assigned then .error .nameError
    else (context.globals name).elim (.error .nameError) .ok

def lookupName (context : Context) (locals : Locals) (name : Name) : Except Raised Obj := resolve context locals (context.spell name)

mutual

def evalExpr (context : Context) (locals : Locals) : Expr → Except Raised Obj
  | .name n => lookupName context locals n
  | .bytes raw => .ok (.value (.bytes raw))
  | .bool b => .ok (.value (.bool b))
  | .unit => .ok (.layout [])
  | .call fn args => do
      let callee ← lookupName context locals fn
      let objs ← evalExprs context locals args
      callObj context.env callee objs
  | .forEach fn item iter => do
      match ← lookupName context locals iter with
      | .sequence items => .metas <$> items.mapM fun element => do
          -- The loop variable belongs to the comprehension alone.
          let callee ← lookupName context ((context.spell item, metaLikeObj element) :: locals) fn
          objMeta (← callObj context.env callee [metaLikeObj element])
      | _ => .error .typeError

def evalExprs (context : Context) (locals : Locals) : List Expr → Except Raised (List Obj)
  | [] => .ok []
  | expr :: rest => do
      let obj ← evalExpr context locals expr
      let objs ← evalExprs context locals rest
      return obj :: objs

end

def runBody (context : Context) : List Stmt → Locals → Except Raised Obj
  | [], _ => .ok (.value .none)
  | .assign target value :: rest, locals => do
      let obj ← evalExpr context locals value
      runBody context rest ((context.spell target, obj) :: locals)
  | .extend target value :: rest, locals => do
      match ← lookupName context locals target, ← evalExpr context locals value with
      | .metas front, .metas back => runBody context rest ((context.spell target, .metas (front ++ back)) :: locals)
      | _, _ => .error .typeError
  | .ret value :: _, locals => evalExpr context locals value

def debugName : Name := ['_', '_', 'd', 'e', 'b', 'u', 'g', '_', '_']

def paramNames (method : Method) : List Name := clsName :: (method.positional.map Prod.fst ++ method.keywordOnly)

-- A method with a parameter twice, or one called __debug__, does not compile, and
-- neither does its module.
def callMethod (python : Python) (owner : Name) (env : Env) (globals : Name → Option Obj) (method : Method) (values : List Value)
    (accounts remaining : List MetaLike) : Except Raised Obj :=
  let names := (paramNames method).map (python.spelled owner)
  if ¬ names.Nodup ∨ debugName ∈ names then .error .syntaxError
  else if values.length ≠ method.positional.length ∨ accounts.length + 1 ≠ method.keywordOnly.length then .error .typeError
  else
    let given := values.map Obj.value ++ (accounts.map metaLikeObj ++ [.sequence remaining])
    runBody ⟨env, python.spelled owner, globals, method.body.filterMap Stmt.target⟩ method.body (names.zip (.cls :: given))

def engineOf : List (Name × Obj) :=
  [(encodeIxLayoutName, .engine .encodeIxLayout), (buildMetasName, .engine .buildMetas), (slotName, .engine .slot),
   (asMetaName, .engine .asMeta), (instructionClassName, .engine .instruction)]

def builderGlobals (python : Python) (owner : Name) (programId : Address) (ix : Instruction) (nodes : List Node) : Name → Option Obj :=
  fun name => (engineOf ++ [(programIdName, Obj.value (.pubkey programId)), (python.spelled owner (layoutName ix), .layout nodes)]).lookup name

end WakeSol.Gen
