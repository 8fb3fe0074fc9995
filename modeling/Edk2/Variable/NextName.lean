import Edk2.Auth.Store

/-!
# The names of the variables

`FindVariable` and `GetNextVariableName` of the variable driver on three stores of records. A record
may be added, in deleted transition, or neither; what a search may see at runtime depends on its
attributes. A position is the number of a record in its store.
-/

namespace Edk2.VariableService

open Auth (Key Name Guid Attributes strSize)

/-- `VAR_ADDED` and `VAR_IN_DELETED_TRANSITION & VAR_ADDED`. -/
abbrev varAdded : UInt8 := 0x3f
abbrev varInDeletedAdded : UInt8 := 0xfe &&& 0x3f

/-- A variable in a store. Its name is not empty. -/
structure Copy where
  key : Key
  attributes : Attributes
  state : UInt8
  data : List UInt8
  name_ne_nil : key.name ≠ []
deriving DecidableEq

/-- `VARIABLE_STORE_TYPE`. -/
inductive StoreType
  | volatile
  | hob
  | nv
deriving DecidableEq, Repr

/-- The stores of the driver. There may be no HOB; the non-volatile store is its copy in memory. -/
structure Global where
  atRuntime : Bool
  volatileVariables : List Copy
  hobVariables : Option (List Copy)
  nvVariables : List Copy
deriving DecidableEq

/-- `VariableStoreHeader[Type]`. -/
def Global.store (g : Global) : StoreType → Option (List Copy)
  | .volatile => some g.volatileVariables
  | .hob => g.hobVariables
  | .nv => some g.nvVariables

/-! ### FindVariable -/

def Copy.isAdded (v : Copy) : Bool := v.state = varAdded

def Copy.isInDeleted (v : Copy) : Bool := v.state = varInDeletedAdded

/-- The checks of `FindVariableEx` on a variable, the state aside. An empty name fits all of them.
-/
def Copy.fits (atRuntime ignoreRtCheck : Bool) (key : Key) (v : Copy) : Bool :=
  (ignoreRtCheck || !atRuntime || v.attributes.runtimeAccess) &&
    (key.name = [] || v.key = key)

/-- `VARIABLE_POINTER_TRACK`, less the limits of the store. -/
structure Track where
  currPtr : ℕ
  inDeletedTransitionPtr : Option ℕ
deriving DecidableEq, Repr

/-- The loop of `FindVariableEx`. -/
def findLoop (fits : Copy → Bool) : List Copy → ℕ → Option ℕ → Option Track
  | [], _, inDeletedVariable => inDeletedVariable.map fun i => ⟨i, none⟩
  | v :: rest, i, inDeletedVariable =>
    if (v.isAdded || v.isInDeleted) && fits v then
      if v.isInDeleted then findLoop fits rest (i + 1) (some i)
      else some ⟨i, inDeletedVariable⟩
    else findLoop fits rest (i + 1) inDeletedVariable

def findVariableEx (atRuntime ignoreRtCheck : Bool) (key : Key) (vars : List Copy) :
    Option Track :=
  findLoop (Copy.fits atRuntime ignoreRtCheck key) vars 0 none

/-- `FindVariable` over the given stores. -/
def findIn (g : Global) (ignoreRtCheck : Bool) (key : Key) :
    List StoreType → Option (StoreType × Track)
  | [] => none
  | type :: types =>
    match g.store type with
    | none => findIn g ignoreRtCheck key types
    | some vars =>
      match findVariableEx g.atRuntime ignoreRtCheck key vars with
      | some track => some (type, track)
      | none => findIn g ignoreRtCheck key types

def findVariable (g : Global) (ignoreRtCheck : Bool) (key : Key) : Option (StoreType × Track) :=
  findIn g ignoreRtCheck key [.volatile, .hob, .nv]

/-- `GetVariable` with a buffer that is large enough. -/
def getVariable (g : Global) (key : Key) : Option (Attributes × List UInt8) :=
  if key.name = [] then none
  else do
    let (type, track) ← findVariable g false key
    let vars ← g.store type
    let v ← vars[track.currPtr]?
    return (v.attributes, v.data)

/-! ### GetNextVariableName -/

/-- `VariableServiceGetNextVariableInternal`, the checks on a variable before it is returned. -/
def isReturned (g : Global) (type : StoreType) (vars : List Copy) (v : Copy) : Bool :=
  (v.isAdded || v.isInDeleted) && (!g.atRuntime || v.attributes.runtimeAccess) &&
    -- an added one of the same name is returned instead
    !(v.isInDeleted && (match findVariableEx g.atRuntime false v.key vars with
      | some track => (vars[track.currPtr]?).any Copy.isAdded
      | none => false)) &&
    -- the HOB overrides the non-volatile store
    !(type = .nv && (match g.hobVariables with
      | some hob => (findVariableEx g.atRuntime false v.key hob).isSome
      | none => false))

/-- The next storages. -/
def StoreType.next : StoreType → List StoreType
  | .volatile => [.hob, .nv]
  | .hob => [.nv]
  | .nv => []

/-- The first variable of the given storages that is returned. -/
def nextIn (g : Global) : List StoreType → Option Copy
  | [] => none
  | type :: types =>
    match g.store type with
    | none => nextIn g types
    | some vars =>
      match vars.find? (isReturned g type vars) with
      | some v => some v
      | none => nextIn g types

/-- The first variable from a position of a storage on that is returned. -/
def nextFrom (g : Global) (type : StoreType) (currPtr : ℕ) : Option Copy :=
  match g.store type with
  | none => none
  | some vars =>
    match (vars.drop currPtr).find? (isReturned g type vars) with
    | some v => some v
    | none => nextIn g type.next

/-- `VariableServiceGetNextVariableInternal`. -/
def getNextVariableInternal (g : Global) (key : Key) : Except EfiStatus Copy :=
  match findVariable g false key with
  | none => .error (if key.name ≠ [] then .invalidParameter else .notFound)
  | some (type, track) =>
    match nextFrom g type (if key.name ≠ [] then track.currPtr + 1 else track.currPtr) with
    | some v => .ok v
    | none => .error .notFound

/-- `GetNextVariableName` with a buffer of the given size that holds the name: the status, and the
name and GUID afterwards. -/
def getNextVariableName (g : Global) (variableNameSize : ℕ) (key : Key) : EfiStatus × Key :=
  let maxLen := variableNameSize / 2
  if maxLen = 0 ∨ maxLen ≤ key.name.length then (.invalidParameter, key)
  else
    match getNextVariableInternal g key with
    | .error status => (status, key)
    | .ok v =>
      if strSize v.key.name ≤ variableNameSize then (.success, v.key) else (.bufferTooSmall, key)

/-- Calls of `GetNextVariableName`, each with what the one before has returned, until one fails. The
names and the status of the last call, if it was reached. -/
def nextNames (g : Global) (variableNameSize : ℕ) : ℕ → Key → List Key × Option EfiStatus
  | 0, _ => ([], none)
  | fuel + 1, key =>
    match getNextVariableName g variableNameSize key with
    | (.success, next) =>
      let (names, status) := nextNames g variableNameSize fuel next
      (next :: names, status)
    | (status, _) => ([], some status)

end Edk2.VariableService
