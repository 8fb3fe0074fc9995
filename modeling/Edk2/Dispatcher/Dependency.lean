import Edk2.Base

/-!
# The dependency evaluator of the DXE dispatcher

`Core/Dxe/Dispatcher/Dependency.c`. A dependency expression is a string of opcodes in postfix order
that the evaluator patches while it runs: a `PUSH` of a protocol that is installed becomes
`EFI_DEP_REPLACE_TRUE`. The Boolean stack is one global block of memory for all evaluations; it
grows by a fixed increment whenever it is full.
-/

namespace Edk2.Dispatcher

def efiDepBefore : UInt8 := 0x00
def efiDepAfter : UInt8 := 0x01
def efiDepPush : UInt8 := 0x02
def efiDepAnd : UInt8 := 0x03
def efiDepOr : UInt8 := 0x04
def efiDepNot : UInt8 := 0x05
def efiDepTrue : UInt8 := 0x06
def efiDepFalse : UInt8 := 0x07
def efiDepEnd : UInt8 := 0x08
def efiDepSor : UInt8 := 0x09
def efiDepReplaceTrue : UInt8 := 0xff

/-- `sizeof (EFI_GUID)`. -/
abbrev sizeOfGuid : ℕ := 16

abbrev depexStackSizeIncrement : ℕ := 0x1000

/-- The bytes of an `EFI_GUID`. -/
abbrev Guid := List UInt8

/-- What `AllocatePool` answers to a request of a size: nothing, or a block with whatever content
it had before. -/
abbrev AllocatePool := ℕ → Option (ℕ → Bool)

/-- The bytes from `mDepexEvaluationStack` to `mDepexEvaluationStackEnd`, none of them before the
first allocation, and the position of `mDepexEvaluationStackPointer` among them. -/
structure DepexStack where
  memory : List Bool
  pointer : ℕ
deriving DecidableEq, Repr

/-- `GrowDepexStack`; `none` is `EFI_OUT_OF_RESOURCES`. -/
def growDepexStack (allocatePool : AllocatePool) (stack : DepexStack) : Option DepexStack :=
  (allocatePool (depexStackSizeIncrement + stack.memory.length)).map fun newStack =>
    { stack with
      memory := stack.memory ++
        (List.range depexStackSizeIncrement).map fun i => newStack (stack.memory.length + i) }

/-- Write the item and move the pointer. -/
def DepexStack.store (stack : DepexStack) (value : Bool) : DepexStack where
  memory := stack.memory.set stack.pointer value
  pointer := stack.pointer + 1

/-- `PushBool`; `none` is an error. -/
def pushBool (allocatePool : AllocatePool) (value : Bool) (stack : DepexStack) :
    Option DepexStack :=
  if stack.pointer = stack.memory.length then
    (growDepexStack allocatePool stack).map fun grown => grown.store value
  else some (stack.store value)

/-- `PopBool`; `none` is `EFI_ACCESS_DENIED`. -/
def popBool (stack : DepexStack) : Option (Bool × DepexStack) :=
  if stack.pointer = 0 then none
  else
    some (stack.memory.getD (stack.pointer - 1) false, { stack with pointer := stack.pointer - 1 })

/-- What an evaluation finds around it. -/
structure Environment where
  allocatePool : AllocatePool
  /-- `CoreLocateProtocol` finds an interface of the protocol. -/
  coreLocateProtocol : Guid → Bool
  coreAllEfiServicesAvailable : EfiStatus

/-- What an evaluation changes: the stack and the bytes of the expression. -/
structure Evaluation where
  stack : DepexStack
  depex : List UInt8
deriving DecidableEq, Repr

/-- How the processing of one opcode ends. -/
inductive Outcome
  | done (result : Bool) (e : Evaluation)
  | next (e : Evaluation) (iterator : ℕ)
deriving DecidableEq, Repr

/-- Push a value and go on; the result is `FALSE` on an error. -/
def thenPush (env : Environment) (value : Bool) (e : Evaluation) (iterator : ℕ) : Outcome :=
  match pushBool env.allocatePool value e.stack with
  | none => .done false e
  | some stack => .next { e with stack := stack } iterator

/-- `EFI_DEP_AND` and `EFI_DEP_OR`. -/
def binary (env : Environment) (operation : Bool → Bool → Bool) (e : Evaluation)
    (iterator : ℕ) : Outcome :=
  match popBool e.stack with
  | none => .done false e
  | some (operator, stack) =>
    match popBool stack with
    | none => .done false { e with stack := stack }
    | some (operator2, stack) =>
      thenPush env (operation operator operator2) { e with stack := stack } iterator

/-- `EFI_DEP_NOT`. -/
def unary (env : Environment) (e : Evaluation) (iterator : ℕ) : Outcome :=
  match popBool e.stack with
  | none => .done false e
  | some (operator, stack) => thenPush env (!operator) { e with stack := stack } iterator

/-- `EFI_DEP_PUSH`: the opcode of a protocol that is installed is replaced. -/
def pushGuid (env : Environment) (e : Evaluation) (iterator : ℕ) : Outcome :=
  let driverGuid := (e.depex.drop (iterator + 1)).take sizeOfGuid
  if env.coreLocateProtocol driverGuid then
    thenPush env true { e with depex := e.depex.set iterator efiDepReplaceTrue }
      (iterator + 1 + sizeOfGuid)
  else thenPush env false e (iterator + 1 + sizeOfGuid)

/-- The `switch` on one opcode. A GUID that is cut off by the end of the expression is read from
memory behind it. -/
def execute (env : Environment) (e : Evaluation) (iterator : ℕ) (opcode : UInt8) :
    Except Halt Outcome :=
  if opcode = efiDepBefore ∨ opcode = efiDepAfter then .error .assert
  else if opcode = efiDepSor then
    .ok (if iterator ≠ 0 then .done false e else .next e (iterator + 1))
  else if opcode = efiDepPush then
    if iterator + 1 + sizeOfGuid ≤ e.depex.length then .ok (pushGuid env e iterator)
    else .error .fault
  else if opcode = efiDepAnd then .ok (binary env (· && ·) e (iterator + 1))
  else if opcode = efiDepOr then .ok (binary env (· || ·) e (iterator + 1))
  else if opcode = efiDepNot then .ok (unary env e (iterator + 1))
  else if opcode = efiDepTrue then .ok (thenPush env true e (iterator + 1))
  else if opcode = efiDepFalse then .ok (thenPush env false e (iterator + 1))
  else if opcode = efiDepEnd then
    match popBool e.stack with
    | none => .ok (.done false e)
    | some (operator, stack) => .ok (.done operator { e with stack := stack })
  else if opcode = efiDepReplaceTrue then
    if iterator + 1 + sizeOfGuid ≤ e.depex.length then
      .ok (thenPush env true e (iterator + 1 + sizeOfGuid))
    else .error .fault
  else .ok (.done false e)

/-- `while (TRUE)`. Every opcode moves the iterator, so one iteration more than there are bytes
is enough. -/
def evaluateLoop (env : Environment) : ℕ → Evaluation → ℕ → Except Halt (Bool × Evaluation)
  | 0, _, _ => .error .loop
  | fuel + 1, e, iterator =>
    match e.depex[iterator]? with
    | none => .ok (false, e)
    | some opcode =>
      match execute env e iterator opcode with
      | .error halt => .error halt
      | .ok (.done result e) => .ok (result, e)
      | .ok (.next e iterator) => evaluateLoop env fuel e iterator

/-- The fields of `EFI_CORE_DRIVER_ENTRY` that the evaluator uses; `DepexSize` is the length of the
expression. -/
structure DriverEntry where
  depex : Option (List UInt8)
  before : Bool
  after : Bool
deriving DecidableEq, Repr

def coreIsSchedulable (env : Environment) (stack : DepexStack) (driverEntry : DriverEntry) :
    Except Halt (Bool × DepexStack × DriverEntry) :=
  if driverEntry.after ∨ driverEntry.before then .ok (false, stack, driverEntry)
  else
    match driverEntry.depex with
    | none => .ok (¬ env.coreAllEfiServicesAvailable.isError, stack, driverEntry)
    | some depex =>
      (evaluateLoop env (depex.length + 1) ⟨{ stack with pointer := 0 }, depex⟩ 0).map
        fun (result, e) => (result, e.stack, { driverEntry with depex := some e.depex })

/-! ### Runs of the dispatcher -/

/-- The global stack, the drivers and the protocols installed. -/
structure DispatcherState where
  stack : DepexStack
  drivers : ℕ → DriverEntry
  protocols : List Guid

/-- A protocol is installed, or a driver is evaluated. -/
inductive DispatcherStep
  | install (protocol : Guid)
  | evaluate (driver : ℕ) (allocatePool : AllocatePool) (available : EfiStatus)

def DispatcherState.environment (s : DispatcherState) (allocatePool : AllocatePool)
    (available : EfiStatus) : Environment where
  allocatePool := allocatePool
  coreLocateProtocol := fun guid => guid ∈ s.protocols
  coreAllEfiServicesAvailable := available

/-- The answer of the evaluator, if it was called, and the state it leaves. -/
def DispatcherStep.run (s : DispatcherState) :
    DispatcherStep → Except Halt (Option Bool × DispatcherState)
  | .install protocol => .ok (none, { s with protocols := protocol :: s.protocols })
  | .evaluate driver allocatePool available =>
    (coreIsSchedulable (s.environment allocatePool available) s.stack (s.drivers driver)).map
      fun (result, stack, driverEntry) =>
        (some result,
          { s with stack := stack, drivers := Function.update s.drivers driver driverEntry })

/-- The states of the runs that start with these drivers, before any evaluation. -/
inductive Reachable (drivers : ℕ → DriverEntry) : DispatcherState → Prop
  | init (protocols : List Guid) : Reachable drivers ⟨⟨[], 0⟩, drivers, protocols⟩
  | step {s s' : DispatcherState} {step : DispatcherStep} {answer : Option Bool} :
      Reachable drivers s → step.run s = .ok (answer, s') → Reachable drivers s'

/-! ### The meaning of an expression -/

/-- The dependency expressions without `BEFORE`, `AFTER` and `SOR`. -/
inductive Expression
  | push (guid : Guid)
  | and (a b : Expression)
  | or (a b : Expression)
  | not (a : Expression)
  | true
  | false
deriving DecidableEq, Repr

namespace Expression

/-- The GUIDs are GUIDs. -/
def Valid : Expression → Prop
  | push guid => guid.length = sizeOfGuid
  | and a b | or a b => a.Valid ∧ b.Valid
  | not a => a.Valid
  | true | false => True

/-- The value of the expression if `installed` says which protocols are installed. -/
def value (installed : Guid → Bool) : Expression → Bool
  | push guid => installed guid
  | and a b => a.value installed && b.value installed
  | or a b => a.value installed || b.value installed
  | not a => !a.value installed
  | true => Bool.true
  | false => Bool.false

/-- The postfix form. -/
def encode : Expression → List UInt8
  | push guid => efiDepPush :: guid
  | and a b => a.encode ++ b.encode ++ [efiDepAnd]
  | or a b => a.encode ++ b.encode ++ [efiDepOr]
  | not a => a.encode ++ [efiDepNot]
  | true => [efiDepTrue]
  | false => [efiDepFalse]

end Expression

/-- The driver has a well-formed dependency expression. -/
structure HasDepex (driverEntry : DriverEntry) (e : Expression) : Prop where
  depex : driverEntry.depex = some (e.encode ++ [efiDepEnd])
  valid : e.Valid
  before : driverEntry.before = false
  after : driverEntry.after = false

end Edk2.Dispatcher
