import Edk2.Dispatcher.Dependency

/-!
# Evaluations of dependency expressions

The bytes of an expression that has been evaluated before are its postfix form with some `PUSH`
opcodes replaced, all of them of protocols that are installed. An evaluation of such bytes leaves
such bytes, and unless the stack cannot grow it pushes the value of each subexpression.
-/

namespace Edk2.Dispatcher

variable {installed installed' : Guid → Bool} {env : Environment} {stack stack' : DepexStack}
  {e : Evaluation} {x : Expression} {bytes pre post : List UInt8} {v w : Bool} {rest : List Bool}
  {i n : ℕ}

namespace DepexStack

/-- The items on the stack, the top first. -/
def items (stack : DepexStack) : List Bool := (stack.memory.take stack.pointer).reverse

/-- The pointer does not point behind the end. -/
def Valid (stack : DepexStack) : Prop := stack.pointer ≤ stack.memory.length

lemma store_valid (h : stack.pointer < stack.memory.length) : (stack.store v).Valid := by
  simp only [Valid, store, List.length_set]
  exact h

lemma items_store (h : stack.pointer < stack.memory.length) :
    (stack.store v).items = v :: stack.items := by
  unfold items store
  rw [List.take_add_one, List.getElem?_set_self h, List.take_set_of_le le_rfl]
  simp

end DepexStack

open DepexStack

lemma pushBool_spec (allocatePool : AllocatePool) (h : stack.Valid) (v : Bool) :
    (pushBool allocatePool v stack = none ∧ ∃ size, allocatePool size = none) ∨
    ∃ stack', pushBool allocatePool v stack = some stack' ∧ stack'.Valid ∧
      stack'.items = v :: stack.items := by
  by_cases hfull : stack.pointer = stack.memory.length
  · cases hpool : allocatePool (depexStackSizeIncrement + stack.memory.length) with
    | none =>
      grind [pushBool, growDepexStack]
    | some content =>
      right
      let grown : DepexStack :=
        { stack with
          memory := stack.memory ++
            (List.range depexStackSizeIncrement).map fun i => content (stack.memory.length + i) }
      have hlt : grown.pointer < grown.memory.length := by
        simp [grown, hfull]
      have hite : grown.items = stack.items := by
        simp [grown, items, hfull]
      refine ⟨grown.store v, ?_, store_valid hlt, ?_⟩
      · simp [pushBool, growDepexStack, hfull, hpool, grown]
      · rw [items_store hlt, hite]
  · right
    have hlt : stack.pointer < stack.memory.length := lt_of_le_of_ne h hfull
    exact ⟨stack.store v, by rw [pushBool, if_neg hfull], store_valid hlt, items_store hlt⟩

lemma popBool_spec (h : stack.Valid) (hite : stack.items = v :: rest) :
    ∃ stack', popBool stack = some (v, stack') ∧ stack'.Valid ∧ stack'.items = rest := by
  have hlen := congrArg List.length hite
  simp only [items, List.length_reverse, List.length_take, List.length_cons] at hlen
  grind [items, List.take_add_one, List.getElem?_eq_getElem, List.cons.injEq, popBool,
    Nat.add_sub_cancel, Valid]

/-- The bytes are the postfix form of the expression, with the opcode replaced at some of the
protocols that are installed. -/
inductive Codes (installed : Guid → Bool) : Expression → List UInt8 → Prop
  | push {guid : Guid} : guid.length = sizeOfGuid →
      Codes installed (.push guid) (efiDepPush :: guid)
  | replaced {guid : Guid} : guid.length = sizeOfGuid → installed guid = Bool.true →
      Codes installed (.push guid) (efiDepReplaceTrue :: guid)
  | and {a b : Expression} {l m : List UInt8} : Codes installed a l → Codes installed b m →
      Codes installed (.and a b) (l ++ m ++ [efiDepAnd])
  | or {a b : Expression} {l m : List UInt8} : Codes installed a l → Codes installed b m →
      Codes installed (.or a b) (l ++ m ++ [efiDepOr])
  | not {a : Expression} {l : List UInt8} : Codes installed a l →
      Codes installed (.not a) (l ++ [efiDepNot])
  | true : Codes installed .true [efiDepTrue]
  | false : Codes installed .false [efiDepFalse]

lemma Expression.Valid.codes (h : x.Valid) : Codes installed x x.encode := by
  induction x with
  | push guid => exact .push h
  | and a b iha ihb => exact .and (iha h.1) (ihb h.2)
  | or a b iha ihb => exact .or (iha h.1) (ihb h.2)
  | not a iha => exact .not (iha h)
  | true => exact .true
  | false => exact .false

lemma Codes.mono (h : Codes installed x bytes)
    (hmono : ∀ guid, installed guid = Bool.true → installed' guid = Bool.true) :
    Codes installed' x bytes := by
  induction h with
  | push hlen => exact .push hlen
  | replaced hlen hin => exact .replaced hlen (hmono _ hin)
  | and _ _ iha ihb => exact .and iha ihb
  | or _ _ iha ihb => exact .or iha ihb
  | not _ iha => exact .not iha
  | true => exact .true
  | false => exact .false

/-- The number of opcodes. -/
def Expression.size : Expression → ℕ
  | push _ | true | false => 1
  | and a b | or a b => a.size + b.size + 1
  | not a => a.size + 1

lemma Codes.size_le (h : Codes installed x bytes) : x.size ≤ bytes.length := by
  induction h with
  | push | replaced | true | false => simp [Expression.size]
  | and _ _ iha ihb | or _ _ iha ihb =>
    simp only [Expression.size, List.length_append, List.length_singleton]
    omega
  | not _ iha =>
    simp only [Expression.size, List.length_append, List.length_singleton]
    omega

lemma evaluateLoop_next {opcode : UInt8} {e' : Evaluation} {j : ℕ} (fuel : ℕ)
    (hop : e.depex[i]? = some opcode) (hex : execute env e i opcode = .ok (.next e' j)) :
    evaluateLoop env (fuel + 1) e i = evaluateLoop env fuel e' j := by
  simp only [evaluateLoop, hop, hex]

lemma evaluateLoop_done {opcode : UInt8} {e' : Evaluation} {result : Bool} (fuel : ℕ)
    (hop : e.depex[i]? = some opcode) (hex : execute env e i opcode = .ok (.done result e')) :
    evaluateLoop env (fuel + 1) e i = .ok (result, e') := by
  simp only [evaluateLoop, hop, hex]

lemma execute_end_none (h : popBool e.stack = none) :
    execute env e i efiDepEnd = .ok (.done false e) := by
  simp +decide [execute, h]

lemma execute_end_some {stack : DepexStack} (h : popBool e.stack = some (v, stack)) :
    execute env e i efiDepEnd = .ok (.done v { e with stack := stack }) := by
  simp +decide [execute, h]

/-- What `n` opcodes from `i` to `j` do: they leave `items` on the stack, or the pool is exhausted
and the evaluation ends with `FALSE`. The bytes become `depex`. -/
def Pushes (env : Environment) (e : Evaluation) (n i j : ℕ) (items : List Bool)
    (depex : List UInt8) : Prop :=
  (∃ e', (∀ fuel, evaluateLoop env (fuel + n) e i = evaluateLoop env fuel e' j) ∧
    e'.stack.Valid ∧ e'.stack.items = items ∧ e'.depex = depex) ∨
  ∃ e', (∀ fuel, evaluateLoop env (fuel + n) e i = .ok (false, e')) ∧
    (∃ size, env.allocatePool size = none) ∧ e'.depex = depex

lemma pushes_of_execute {opcode : UInt8} {j : ℕ} (e₁ : Evaluation) (hval : e₁.stack.Valid)
    (hop : e.depex[i]? = some opcode)
    (hex : execute env e i opcode = .ok (thenPush env v e₁ j)) :
    Pushes env e 1 i j (v :: e₁.stack.items) e₁.depex := by
  rcases pushBool_spec env.allocatePool hval v with
    ⟨hnone, hpool⟩ | ⟨stack', hsome, hval', hite'⟩
  · have hexec : execute env e i opcode = .ok (.done false e₁) := by
      rw [hex, thenPush, hnone]
    exact .inr ⟨e₁, fun fuel => evaluateLoop_done fuel hop hexec, hpool, rfl⟩
  · have hexec : execute env e i opcode = .ok (.next { e₁ with stack := stack' } j) := by
      rw [hex, thenPush, hsome]
    exact .inl ⟨_, fun fuel => evaluateLoop_next fuel hop hexec, hval', hite', rfl⟩

lemma pushes_binary {operation : Bool → Bool → Bool} {opcode : UInt8} (hval : e.stack.Valid)
    (hite : e.stack.items = w :: v :: rest) (hop : e.depex[i]? = some opcode)
    (hex : execute env e i opcode = .ok (binary env operation e (i + 1))) :
    Pushes env e 1 i (i + 1) (operation w v :: rest) e.depex := by
  obtain ⟨stack₁, hpop₁, hval₁, hite₁⟩ := popBool_spec hval hite
  obtain ⟨stack₂, hpop₂, hval₂, hite₂⟩ := popBool_spec hval₁ hite₁
  rw [← hite₂]
  apply pushes_of_execute { e with stack := stack₂ } hval₂ hop
  rw [hex, binary, hpop₁]
  simp only [hpop₂]

lemma pushes_unary (env : Environment) (hval : e.stack.Valid) (hite : e.stack.items = v :: rest)
    (hop : e.depex[i]? = some efiDepNot) :
    Pushes env e 1 i (i + 1) ((!v) :: rest) e.depex := by
  obtain ⟨stack₁, hpop₁, hval₁, hite₁⟩ := popBool_spec hval hite
  rw [← hite₁]
  apply pushes_of_execute { e with stack := stack₁ } hval₁ hop
  change Except.ok (unary env e (i + 1)) = _
  rw [unary, hpop₁]

lemma pushes_guid {guid : Guid} (hval : e.stack.Valid) (hlen : guid.length = sizeOfGuid)
    (hdep : e.depex = pre ++ efiDepPush :: guid ++ post) :
    ∃ bytes, Codes env.coreLocateProtocol (.push guid) bytes ∧ bytes.length = sizeOfGuid + 1 ∧
      Pushes env e 1 pre.length (pre.length + (sizeOfGuid + 1))
        (env.coreLocateProtocol guid :: e.stack.items) (pre ++ bytes ++ post) := by
  have hop : e.depex[pre.length]? = some efiDepPush := by simp [hdep]
  have hguid : (e.depex.drop (pre.length + 1)).take sizeOfGuid = guid := by
    have hspl : e.depex = (pre ++ [efiDepPush]) ++ (guid ++ post) := by simp [hdep]
    grind
  have hfits : pre.length + 1 + sizeOfGuid ≤ e.depex.length := by
    simp only [hdep, List.length_append, List.length_cons, hlen]
    omega
  have hex : execute env e pre.length efiDepPush = .ok (pushGuid env e pre.length) := by
    change (if pre.length + 1 + sizeOfGuid ≤ e.depex.length then _ else _) = _
    rw [if_pos hfits]
  simp only [pushGuid, hguid] at hex
  by_cases hin : env.coreLocateProtocol guid = true
  · rw [if_pos hin] at hex
    rw [hin]
    refine ⟨efiDepReplaceTrue :: guid, .replaced hlen hin, by simp [hlen], ?_⟩
    have hset : e.depex.set pre.length efiDepReplaceTrue =
        pre ++ efiDepReplaceTrue :: guid ++ post := by
      rw [hdep, List.append_assoc, List.set_append_right _ _ le_rfl]
      simp
    rw [← hset]
    exact pushes_of_execute { e with depex := e.depex.set pre.length efiDepReplaceTrue } hval hop
      hex
  · rw [if_neg hin] at hex
    rw [Bool.eq_false_iff.mpr hin]
    refine ⟨efiDepPush :: guid, .push hlen, by simp [hlen], ?_⟩
    rw [← hdep]
    exact pushes_of_execute e hval hop hex

/-- A program that leaves `items` is followed by one that starts from them; if the first one ends
the evaluation, so do both. -/
lemma Pushes.cases {j : ℕ} {items : List Bool} {depex : List UInt8}
    (h : Pushes env e n i j items depex) (m : ℕ) :
    (∃ e', (∀ fuel, evaluateLoop env (fuel + (n + m)) e i = evaluateLoop env (fuel + m) e' j) ∧
      e'.stack.Valid ∧ e'.stack.items = items ∧ e'.depex = depex) ∨
    ∀ k items', Pushes env e (n + m) i k items' depex := by
  rcases h with ⟨e', hrun, hval, hite, hdep⟩ | ⟨e', hrun, hpool, hdep⟩
  · grind
  · refine .inr fun k items' => .inr ⟨e', fun fuel => ?_, hpool, hdep⟩
    rw [← hrun (fuel + m)]
    congr 1
    omega

lemma Pushes.prepend {e' : Evaluation} {j k m : ℕ} {items : List Bool} {depex : List UInt8}
    (hrun : ∀ fuel, evaluateLoop env (fuel + (n + m)) e i = evaluateLoop env (fuel + m) e' j)
    (h : Pushes env e' m j k items depex) : Pushes env e (n + m) i k items depex := by
  rcases h with ⟨e'', hrun', hval, hite, hdep⟩ | ⟨e'', hrun', hpool, hdep⟩
  · exact .inl ⟨e'', fun fuel => by rw [hrun, hrun'], hval, hite, hdep⟩
  · exact .inr ⟨e'', fun fuel => by rw [hrun, hrun'], hpool, hdep⟩

/-- The evaluation of the bytes of an expression pushes its value and leaves bytes of it. -/
def Evaluates (env : Environment) (x : Expression) (bytes : List UInt8) : Prop :=
  ∀ (e : Evaluation) (pre post : List UInt8), e.depex = pre ++ bytes ++ post → e.stack.Valid →
    ∃ bytes', Codes env.coreLocateProtocol x bytes' ∧ bytes'.length = bytes.length ∧
      Pushes env e x.size pre.length (pre.length + bytes.length)
        (x.value env.coreLocateProtocol :: e.stack.items) (pre ++ bytes' ++ post)

lemma evaluates_binary {a b y : Expression} {l m : List UInt8} {opcode : UInt8}
    (operation : Bool → Bool → Bool) (ha : Evaluates env a l) (hb : Evaluates env b m)
    (hsize : y.size = a.size + (b.size + 1))
    (hcod : ∀ {l m}, Codes env.coreLocateProtocol a l → Codes env.coreLocateProtocol b m →
      Codes env.coreLocateProtocol y (l ++ m ++ [opcode]))
    (hm : Codes env.coreLocateProtocol b m)
    (hex : ∀ e i, execute env e i opcode = .ok (binary env operation e (i + 1)))
    (hvalu : y.value env.coreLocateProtocol =
      operation (b.value env.coreLocateProtocol) (a.value env.coreLocateProtocol)) :
    Evaluates env y (l ++ m ++ [opcode]) := by
  intro e pre post hdep hval
  obtain ⟨l', hl', hlen, hpush⟩ := ha e pre (m ++ [opcode] ++ post)
    (by rw [hdep]; simp only [List.append_assoc]) hval
  rw [hsize]
  rcases hpush.cases (b.size + 1) with ⟨e₁, hrun₁, hval₁, hite₁, hdep₁⟩ | hstop
  swap
  · grind
  obtain ⟨m', hm', hlen', hpus'⟩ := hb e₁ (pre ++ l') ([opcode] ++ post)
    (by rw [hdep₁]; simp only [List.append_assoc]) hval₁
  rw [List.length_append, hlen] at hpus'
  refine ⟨l' ++ m' ++ [opcode], hcod hl' hm', by simp [hlen, hlen'], Pushes.prepend hrun₁ ?_⟩
  rcases hpus'.cases 1 with ⟨e₂, hrun₂, hval₂, hite₂, hdep₂⟩ | hstop
  swap
  · grind
  apply Pushes.prepend hrun₂
  have hop : e₂.depex[pre.length + l.length + m.length]? = some opcode := by
    rw [hdep₂, ← hlen, ← hlen', ← List.length_append, ← List.length_append]
    simp
  have hbin := pushes_binary hval₂ (hite₂.trans (by rw [hite₁])) hop (hex e₂ _)
  grind

lemma evaluates_not {a : Expression} {l : List UInt8} (ha : Evaluates env a l) :
    Evaluates env (.not a) (l ++ [efiDepNot]) := by
  intro e pre post hdep hval
  obtain ⟨l', hl', hlen, hpush⟩ := ha e pre ([efiDepNot] ++ post)
    (by rw [hdep]; simp only [List.append_assoc]) hval
  refine ⟨l' ++ [efiDepNot], .not hl', by simp [hlen], ?_⟩
  rcases hpush.cases 1 with ⟨e₁, hrun₁, hval₁, hite₁, hdep₁⟩ | hstop
  swap
  · grind [List.append_assoc, Expression.size]
  apply Pushes.prepend hrun₁
  have hop : e₁.depex[pre.length + l.length]? = some efiDepNot := by
    rw [hdep₁, ← hlen, ← List.length_append]
    simp
  have hun := pushes_unary env hval₁ hite₁ hop
  grind [List.append_assoc, List.length_append, List.length_singleton, Nat.add_assoc,
    Expression.value]

lemma Codes.evaluates (h : Codes env.coreLocateProtocol x bytes) : Evaluates env x bytes := by
  induction h with
  | push hlen =>
    intro e pre post hdep hval
    obtain ⟨bytes', hcod, hlen', hpush⟩ := pushes_guid hval hlen hdep
    refine ⟨bytes', hcod, ?_, ?_⟩
    · rw [hlen', List.length_cons, hlen]
    grind [List.length_cons, Expression.size, Expression.value]
  | @replaced guid hlen hin =>
    intro e pre post hdep hval
    have hop : e.depex[pre.length]? = some efiDepReplaceTrue := by simp [hdep]
    have hfits : pre.length + 1 + sizeOfGuid ≤ e.depex.length := by
      simp only [hdep, List.length_append, List.length_cons, hlen]
      omega
    have hex : execute env e pre.length efiDepReplaceTrue =
        .ok (thenPush env Bool.true e (pre.length + 1 + sizeOfGuid)) := by
      change (if pre.length + 1 + sizeOfGuid ≤ e.depex.length then _ else _) = _
      rw [if_pos hfits]
    refine ⟨efiDepReplaceTrue :: guid, .replaced hlen hin, rfl, ?_⟩
    rw [← hdep, Expression.value, hin, List.length_cons, hlen]
    exact pushes_of_execute e hval hop hex
  | and ha hb iha ihb =>
    refine evaluates_binary (· && ·) iha ihb (by simp [Expression.size, Nat.add_assoc])
      Codes.and hb (fun _ _ => rfl) ?_
    simp only [Expression.value, Bool.and_comm]
  | or ha hb iha ihb =>
    refine evaluates_binary (· || ·) iha ihb (by simp [Expression.size, Nat.add_assoc])
      Codes.or hb (fun _ _ => rfl) ?_
    simp only [Expression.value, Bool.or_comm]
  | not _ iha => exact evaluates_not iha
  | true =>
    intro e pre post hdep hval
    have hop : e.depex[pre.length]? = some efiDepTrue := by simp [hdep]
    refine ⟨[efiDepTrue], .true, rfl, ?_⟩
    rw [← hdep]
    exact pushes_of_execute e hval hop rfl
  | false =>
    intro e pre post hdep hval
    have hop : e.depex[pre.length]? = some efiDepFalse := by simp [hdep]
    refine ⟨[efiDepFalse], .false, rfl, ?_⟩
    rw [← hdep]
    exact pushes_of_execute e hval hop rfl

/-- The expression of a driver is still there, with replaced opcodes of installed protocols. -/
structure Patched (s : DispatcherState) (driver : ℕ) (x : Expression) : Prop where
  depex : ∃ bytes, (s.drivers driver).depex = some (bytes ++ [efiDepEnd]) ∧
    Codes (fun guid => guid ∈ s.protocols) x bytes
  before : (s.drivers driver).before = false
  after : (s.drivers driver).after = false

variable {drivers : ℕ → DriverEntry} {s s' : DispatcherState} {driver : ℕ} {available : EfiStatus}

lemma coreIsSchedulable_evaluates (env : Environment) (stack : DepexStack)
    {driverEntry : DriverEntry} (hdep : driverEntry.depex = some (bytes ++ [efiDepEnd]))
    (hbef : driverEntry.before = false) (haft : driverEntry.after = false) :
    coreIsSchedulable env stack driverEntry = (evaluateLoop env (bytes.length + 1 + 1)
      ⟨{ stack with pointer := 0 }, bytes ++ [efiDepEnd]⟩ 0).map
        fun (result, e) => (result, e.stack, { driverEntry with depex := some e.depex }) := by
  rw [coreIsSchedulable, if_neg (by simp [hbef, haft]), hdep]
  simp only [List.length_append, List.length_singleton]

lemma coreIsSchedulable_spec (env : Environment) (stack : DepexStack) {driverEntry : DriverEntry}
    (hcod : Codes env.coreLocateProtocol x bytes)
    (hdep : driverEntry.depex = some (bytes ++ [efiDepEnd]))
    (hbef : driverEntry.before = false) (haft : driverEntry.after = false) :
    ∃ answer stack' bytes', Codes env.coreLocateProtocol x bytes' ∧
      coreIsSchedulable env stack driverEntry =
        .ok (answer, stack', { driverEntry with depex := some (bytes' ++ [efiDepEnd]) }) ∧
      (answer = x.value env.coreLocateProtocol ∨
        (answer = false ∧ ∃ size, env.allocatePool size = none)) := by
  let start : Evaluation := ⟨{ stack with pointer := 0 }, bytes ++ [efiDepEnd]⟩
  obtain ⟨bytes', hcod', hlen, hpush⟩ :=
    hcod.evaluates start [] [efiDepEnd] (by simp [start]) (Nat.zero_le _)
  have hsch := coreIsSchedulable_evaluates env stack hdep hbef haft
  obtain ⟨k, hk⟩ : ∃ k, bytes.length + 1 + 1 = k + 1 + x.size :=
    ⟨bytes.length + 1 - x.size, by have := hcod.size_le; omega⟩
  rw [hk] at hsch
  rcases hpush with ⟨e', hrun, hval, hite, hdep'⟩ | ⟨e', hrun, hpool, hdep'⟩
  · -- the value is on top of the stack when the evaluation comes to END
    have hop : e'.depex[bytes.length]? = some efiDepEnd := by
      rw [hdep', ← hlen]
      simp
    obtain ⟨stack', hpop, -, -⟩ := popBool_spec hval hite
    refine ⟨_, stack', bytes', hcod', ?_, .inl rfl⟩
    simp only [List.length_nil, Nat.zero_add] at hrun
    rw [hsch, hrun, evaluateLoop_done k hop (execute_end_some hpop)]
    simp [Except.map, hdep']
  · refine ⟨false, e'.stack, bytes', hcod', ?_, .inr ⟨rfl, hpool⟩⟩
    simp only [List.length_nil] at hrun
    rw [hsch, hrun]
    simp [Except.map, hdep']

lemma Patched.evaluate (h : Patched s driver x) (allocatePool : AllocatePool)
    (available : EfiStatus) :
    ∃ answer s', (DispatcherStep.evaluate driver allocatePool available).run s =
        .ok (some answer, s') ∧ Patched s' driver x ∧
      (answer = x.value (fun guid => guid ∈ s.protocols) ∨
        (answer = false ∧ ∃ size, allocatePool size = none)) := by
  obtain ⟨bytes, hdep, hcod⟩ := h.depex
  obtain ⟨answer, stack', bytes', hcod', hrun, hans⟩ :=
    coreIsSchedulable_spec (s.environment allocatePool available) s.stack hcod hdep h.before h.after
  refine ⟨answer, _, by rw [DispatcherStep.run, hrun]; rfl, ⟨?_, ?_, ?_⟩, hans⟩
  · exact ⟨bytes', by simp, hcod'⟩
  · simpa using h.before
  · simpa using h.after

lemma Patched.step {step : DispatcherStep} {answer : Option Bool} (h : Patched s driver x)
    (hrun : step.run s = .ok (answer, s')) : Patched s' driver x := by
  cases step with
  | install protocol =>
    cases hrun
    obtain ⟨bytes, hdep, hcod⟩ := h.depex
    refine ⟨⟨bytes, hdep, hcod.mono fun guid hin => ?_⟩, h.before, h.after⟩
    grind
  | evaluate other allocatePool available =>
    by_cases hoth : other = driver
    · subst hoth
      obtain ⟨answer', s'', hrun', hpat, -⟩ := h.evaluate allocatePool available
      rw [hrun] at hrun'
      cases hrun'
      exact hpat
    · -- another driver's expression is another buffer
      simp only [DispatcherStep.run] at hrun
      cases hsch : coreIsSchedulable (s.environment allocatePool available) s.stack
        (s.drivers other) with
      | error halt =>
        rw [hsch] at hrun
        cases hrun
      | ok result =>
        rw [hsch] at hrun
        cases hrun
        have hsame : ∀ entry, Function.update s.drivers other entry driver = s.drivers driver :=
          fun entry => Function.update_of_ne (Ne.symm hoth) _ _
        exact ⟨by simpa only [hsame] using h.depex, by simpa only [hsame] using h.before,
          by simpa only [hsame] using h.after⟩

lemma Reachable.patched (h : Reachable drivers s) (hx : HasDepex (drivers driver) x) :
    Patched s driver x := by
  induction h with
  | init protocols => exact ⟨⟨x.encode, hx.depex, hx.valid.codes⟩, hx.before, hx.after⟩
  | step _ hrun ih => exact ih.step hrun

/-- A driver that depends on nothing. -/
def unconditional : DriverEntry :=
  { depex := some ((Expression.true).encode ++ [efiDepEnd]), before := false, after := false }

end Edk2.Dispatcher
