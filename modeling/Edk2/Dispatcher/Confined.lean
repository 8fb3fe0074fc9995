import Mathlib.Logic.Relation
import Edk2.Dispatcher.Schedulable

/-!
# Evaluations of arbitrary bytes

The bytes of a dependency section need not be an expression. What an opcode does to the position and
to the number of values on the stack depends on the bytes alone, as long as the stack can grow. So
the bytes say whether an evaluation comes to a GUID that is cut off by their end.
-/

namespace Edk2.Dispatcher

open Relation (ReflTransGen)
open DepexStack

variable {env : Environment} {stack stack' : DepexStack} {e e' : Evaluation}
  {depex rest : List UInt8} {opcode : UInt8} {first v : Bool} {i depth depth' operand : ℕ}

/-- The entry of a driver after `CorePreProcessDepex`. -/
def loadedEntry (depex : List UInt8) : DriverEntry where
  depex := some depex
  before := depex.head? = some efiDepBefore
  after := depex.head? = some efiDepAfter

/-- The evaluation goes on with another opcode. -/
def GoesOn (env : Environment) (p q : Evaluation × ℕ) : Prop :=
  ∃ opcode, p.1.depex[p.2]? = some opcode ∧ execute env p.1 p.2 opcode = .ok (.next q.1 q.2)

/-- The evaluation returns. At each opcode the stack pointer points into the stack or to its end, so
that a push, which grows a full stack before, writes into the stack and a pop reads from it. -/
structure Confined (env : Environment) (stack : DepexStack) (depex : List UInt8) : Prop where
  returns : ∃ r, coreIsSchedulable env stack (loadedEntry depex) = .ok r
  inside : ∀ e i, ReflTransGen (GoesOn env) (⟨{ stack with pointer := 0 }, depex⟩, 0) (e, i) →
    e.stack.Valid ∧ e.depex.length = depex.length

/-! ### What an opcode does -/

/-- The evaluation ends, fails, or goes on behind the operand. -/
inductive Effect
  | ends
  | fails
  | continues (operand depth : ℕ)
deriving DecidableEq, Repr

/-- The effect of an opcode, before which there are `depth` values on the stack and behind which
there are `available` bytes. -/
def effect (first : Bool) (depth available : ℕ) (opcode : UInt8) : Effect :=
  if opcode = efiDepBefore ∨ opcode = efiDepAfter then .fails
  else if opcode = efiDepSor then if first then .continues 0 depth else .ends
  else if opcode = efiDepPush ∨ opcode = efiDepReplaceTrue then
    if sizeOfGuid ≤ available then .continues sizeOfGuid (depth + 1) else .fails
  else if opcode = efiDepAnd ∨ opcode = efiDepOr then
    if 2 ≤ depth then .continues 0 (depth - 1) else .ends
  else if opcode = efiDepNot then if 1 ≤ depth then .continues 0 depth else .ends
  else if opcode = efiDepTrue ∨ opcode = efiDepFalse then .continues 0 (depth + 1)
  else .ends

/-- No GUID is cut off by the end of the bytes, and neither `BEFORE` nor `AFTER` is reached. -/
def complete (first : Bool) (depth : ℕ) : List UInt8 → Bool
  | [] => true
  | opcode :: rest =>
    match effect first depth rest.length opcode with
    | .ends => true
    | .fails => false
    | .continues operand depth' => complete false depth' (rest.drop operand)
termination_by bytes => bytes.length
decreasing_by simp only [List.length_drop, List.length_cons]; omega

/-- How one opcode is executed. -/
def Executes (env : Environment) (e : Evaluation) (i : ℕ) (opcode : UInt8) : Effect → Prop
  | .ends => ∃ result e', execute env e i opcode = .ok (.done result e')
  | .fails => ∃ halt, execute env e i opcode = .error halt
  | .continues operand depth =>
    (∃ e', execute env e i opcode = .ok (.done false e') ∧ ∃ size, env.allocatePool size = none) ∨
    ∃ e', execute env e i opcode = .ok (.next e' (i + 1 + operand)) ∧ e'.stack.Valid ∧
      e'.stack.pointer = depth ∧ e'.depex.drop (i + 1 + operand) = e.depex.drop (i + 1 + operand) ∧
      e'.depex.length = e.depex.length

lemma pushBool_pointer (h : pushBool env.allocatePool v stack = some stack') :
    stack'.pointer = stack.pointer + 1 := by
  unfold pushBool at h
  split_ifs at h with hfull
  · obtain ⟨grown, hgro, rfl⟩ := Option.map_eq_some_iff.mp h
    obtain ⟨content, -, rfl⟩ := Option.map_eq_some_iff.mp hgro
    rfl
  · cases h
    rfl

lemma executes_thenPush (e₁ : Evaluation) (hval : e₁.stack.Valid)
    (hdep : e₁.stack.pointer = depth)
    (hrest : e₁.depex.drop (i + 1 + operand) = e.depex.drop (i + 1 + operand))
    (hlen : e₁.depex.length = e.depex.length)
    (hex : execute env e i opcode = .ok (thenPush env v e₁ (i + 1 + operand))) :
    Executes env e i opcode (.continues operand (depth + 1)) := by
  rcases pushBool_spec env.allocatePool hval v with ⟨hnone, hpool⟩ | ⟨stack', hsome, hval', -⟩
  · exact .inl ⟨e₁, by rw [hex, thenPush, hnone], hpool⟩
  · refine .inr ⟨{ e₁ with stack := stack' }, by rw [hex, thenPush, hsome], hval', ?_, hrest, hlen⟩
    rw [← hdep]
    exact pushBool_pointer hsome

lemma popBool_eq (hval : stack.Valid) (hpos : 0 < stack.pointer) :
    ∃ v, popBool stack = some (v, { stack with pointer := stack.pointer - 1 }) ∧
      DepexStack.Valid { stack with pointer := stack.pointer - 1 } := by
  refine ⟨_, by rw [popBool, if_neg (Nat.ne_of_gt hpos)], ?_⟩
  grind [Valid, Nat.le_trans]

lemma executes_binary {operation : Bool → Bool → Bool} (hval : e.stack.Valid)
    (hex : execute env e i opcode = .ok (binary env operation e (i + 1))) :
    Executes env e i opcode
      (if 2 ≤ e.stack.pointer then .continues 0 (e.stack.pointer - 1) else .ends) := by
  by_cases hzero : e.stack.pointer = 0
  · rw [if_neg (by omega)]
    refine ⟨false, e, ?_⟩
    rw [hex, binary, popBool, if_pos hzero]
  · obtain ⟨w, hpop₁, hval₁⟩ := popBool_eq hval (Nat.pos_of_ne_zero hzero)
    by_cases hone : e.stack.pointer - 1 = 0
    · rw [if_neg (by omega)]
      refine ⟨false, { e with stack := { e.stack with pointer := e.stack.pointer - 1 } }, ?_⟩
      have hpop₂ : popBool { e.stack with pointer := e.stack.pointer - 1 } = none := if_pos hone
      rw [hex, binary, hpop₁]
      simp only [hpop₂]
    · obtain ⟨v, hpop₂, hval₂⟩ := popBool_eq hval₁ (Nat.pos_of_ne_zero hone)
      rw [if_pos (by omega), show e.stack.pointer - 1 = e.stack.pointer - 1 - 1 + 1 by omega]
      refine executes_thenPush (v := operation w v)
        { e with stack := { e.stack with pointer := e.stack.pointer - 1 - 1 } } hval₂ rfl rfl rfl
        ?_
      rw [hex, binary, hpop₁]
      simp only [hpop₂]

lemma executes_unary (hval : e.stack.Valid) :
    Executes env e i efiDepNot
      (if 1 ≤ e.stack.pointer then .continues 0 e.stack.pointer else .ends) := by
  have hex : execute env e i efiDepNot = .ok (unary env e (i + 1)) := rfl
  by_cases hzero : e.stack.pointer = 0
  · rw [if_neg (by omega)]
    refine ⟨false, e, ?_⟩
    rw [hex, unary, popBool, if_pos hzero]
  · obtain ⟨w, hpop, hval'⟩ := popBool_eq hval (Nat.pos_of_ne_zero hzero)
    rw [if_pos (by omega)]
    have hback : e.stack.pointer = e.stack.pointer - 1 + 1 := by omega
    have hpush : Executes env e i efiDepNot (.continues 0 (e.stack.pointer - 1 + 1)) := by
      refine executes_thenPush (v := !w)
        { e with stack := { e.stack with pointer := e.stack.pointer - 1 } } hval' rfl rfl rfl ?_
      rw [hex, unary, hpop]
    rwa [← hback] at hpush

lemma executes_push (hval : e.stack.Valid) (hi : i < e.depex.length) :
    Executes env e i efiDepPush
      (if sizeOfGuid ≤ e.depex.length - (i + 1) then .continues sizeOfGuid (e.stack.pointer + 1)
        else .fails) := by
  have hexe : execute env e i efiDepPush =
      if i + 1 + sizeOfGuid ≤ e.depex.length then .ok (pushGuid env e i) else .error .fault := rfl
  by_cases hfits : i + 1 + sizeOfGuid ≤ e.depex.length
  · rw [if_pos hfits] at hexe
    rw [if_pos (by omega)]
    unfold pushGuid at hexe
    by_cases hin : env.coreLocateProtocol ((e.depex.drop (i + 1)).take sizeOfGuid) = true
    · rw [if_pos hin] at hexe
      refine executes_thenPush (v := true)
        { e with depex := e.depex.set i efiDepReplaceTrue } hval rfl ?_ (by simp) hexe
      exact List.drop_set_of_lt (by omega)
    grind [executes_thenPush]
  · rw [if_neg hfits] at hexe
    rw [if_neg (by omega)]
    exact ⟨_, hexe⟩

lemma executes_replaceTrue (hval : e.stack.Valid) (hi : i < e.depex.length) :
    Executes env e i efiDepReplaceTrue
      (if sizeOfGuid ≤ e.depex.length - (i + 1) then .continues sizeOfGuid (e.stack.pointer + 1)
        else .fails) := by
  have hexe : execute env e i efiDepReplaceTrue =
      if i + 1 + sizeOfGuid ≤ e.depex.length then
        .ok (thenPush env true e (i + 1 + sizeOfGuid)) else .error .fault := rfl
  by_cases hfits : i + 1 + sizeOfGuid ≤ e.depex.length
  · grind [executes_thenPush]
  · rw [if_neg hfits] at hexe
    rw [if_neg (by omega)]
    exact ⟨_, hexe⟩

lemma executes_effect (env : Environment) (hval : e.stack.Valid) (hi : i < e.depex.length)
    (opcode : UInt8) :
    Executes env e i opcode
      (effect (decide (i = 0)) e.stack.pointer (e.depex.length - (i + 1)) opcode) := by
  unfold effect
  by_cases hbef : opcode = efiDepBefore ∨ opcode = efiDepAfter
  · rw [if_pos hbef]
    exact ⟨.assert, by rw [execute, if_pos hbef]⟩
  rw [if_neg hbef]
  by_cases hsor : opcode = efiDepSor
  · rw [if_pos hsor]
    have hexe : execute env e i opcode =
        .ok (if i ≠ 0 then .done false e else .next e (i + 1)) := by
      rw [execute, if_neg hbef, if_pos hsor]
    by_cases hzero : i = 0
    · rw [if_pos (by simpa using hzero)]
      rw [if_neg (by simpa using hzero)] at hexe
      exact .inr ⟨e, hexe, hval, rfl, rfl, rfl⟩
    · rw [if_neg (by simpa using hzero)]
      rw [if_pos hzero] at hexe
      exact ⟨false, e, hexe⟩
  rw [if_neg hsor]
  by_cases hpush : opcode = efiDepPush ∨ opcode = efiDepReplaceTrue
  · grind [executes_push, executes_replaceTrue]
  rw [if_neg hpush]
  by_cases hand : opcode = efiDepAnd ∨ opcode = efiDepOr
  · rw [if_pos hand]
    rcases hand with rfl | rfl
    · exact executes_binary hval rfl
    · exact executes_binary hval rfl
  rw [if_neg hand]
  by_cases hnot : opcode = efiDepNot
  · rw [if_pos hnot, hnot]
    exact executes_unary hval
  rw [if_neg hnot]
  by_cases htrue : opcode = efiDepTrue ∨ opcode = efiDepFalse
  · rw [if_pos htrue]
    rcases htrue with rfl | rfl
    · exact executes_thenPush e hval rfl rfl rfl rfl
    · exact executes_thenPush e hval rfl rfl rfl rfl
  rw [if_neg htrue]
  by_cases hend : opcode = efiDepEnd
  · rw [hend]
    cases hpop : popBool e.stack with
    | none => exact ⟨false, e, execute_end_none hpop⟩
    | some popped => exact ⟨popped.1, { e with stack := popped.2 }, execute_end_some hpop⟩
  · push Not at hbef hpush hand htrue
    refine ⟨false, e, ?_⟩
    simp only [execute, hbef, hsor, hpush, hand, hnot, htrue, hend, or_self, if_false]

variable {fuel : ℕ}

/-- What the evaluation comes to behind the bytes that were processed. -/
structure At (e : Evaluation) (i : ℕ) (first : Bool) (depth : ℕ) (rest : List UInt8) : Prop where
  valid : e.stack.Valid
  depth_eq : e.stack.pointer = depth
  first_eq : first = decide (i = 0)
  rest_eq : e.depex.drop i = rest

namespace At

lemma getElem?_eq (h : At e i first depth (opcode :: rest)) : e.depex[i]? = some opcode := by
  have hhead := congrArg List.head? h.rest_eq
  rwa [List.head?_drop] at hhead

lemma lt_length (h : At e i first depth (opcode :: rest)) : i < e.depex.length :=
  (List.getElem?_eq_some_iff.mp h.getElem?_eq).1

lemma drop_eq (h : At e i first depth (opcode :: rest)) : e.depex.drop (i + 1) = rest := by
  have htail := congrArg List.tail h.rest_eq
  rwa [List.tail_drop] at htail

lemma length_eq (h : At e i first depth (opcode :: rest)) :
    e.depex.length - (i + 1) = rest.length := by
  have hlen := congrArg List.length h.drop_eq
  rwa [List.length_drop] at hlen

lemma executes (env : Environment) (h : At e i first depth (opcode :: rest)) :
    Executes env e i opcode (effect first depth rest.length opcode) := by
  have hex := executes_effect env h.valid h.lt_length opcode
  rwa [← h.first_eq, h.depth_eq, h.length_eq] at hex

lemma next (h : At e i first depth (opcode :: rest)) (hval : e'.stack.Valid)
    (hdep : e'.stack.pointer = depth')
    (hdrop : e'.depex.drop (i + 1 + operand) = e.depex.drop (i + 1 + operand)) :
    At e' (i + 1 + operand) false depth' (rest.drop operand) := by
  refine ⟨hval, hdep, ?_, ?_⟩
  · symm
    simp
  · rw [hdrop, ← List.drop_drop, h.drop_eq]

end At

lemma evaluateLoop_of_complete (env : Environment) (hat : At e i first depth rest)
    (hcom : complete first depth rest = true) (hfuel : rest.length < fuel) :
    ∃ r, evaluateLoop env fuel e i = .ok r := by
  induction fuel generalizing e i first depth rest with
  | zero => omega
  | succ fuel ih =>
    cases rest with
    | nil =>
      have hend : e.depex[i]? = none := by
        rw [List.getElem?_eq_none]
        simpa using hat.rest_eq
      exact ⟨(false, e), by simp only [evaluateLoop, hend]⟩
    | cons opcode rest =>
      have hex := hat.executes env
      rw [complete] at hcom
      cases heff : effect first depth rest.length opcode with
      | ends =>
        rw [heff] at hex
        obtain ⟨result, e', hdone⟩ := hex
        exact ⟨_, evaluateLoop_done fuel hat.getElem?_eq hdone⟩
      | fails =>
        rw [heff] at hcom
        cases hcom
      | continues operand depth' =>
        rw [heff] at hex hcom
        rcases hex with ⟨e', hdone, -⟩ | ⟨e', hnext, hval, hdep, hdrop, -⟩
        · exact ⟨_, evaluateLoop_done fuel hat.getElem?_eq hdone⟩
        · rw [evaluateLoop_next fuel hat.getElem?_eq hnext]
          refine ih (hat.next hval hdep hdrop) hcom ?_
          grind

lemma complete_of_evaluateLoop (hpool : ∀ size, env.allocatePool size ≠ none)
    (hat : At e i first depth rest) {r : Bool × Evaluation}
    (hrun : evaluateLoop env fuel e i = .ok r) : complete first depth rest = true := by
  induction fuel generalizing e i first depth rest with
  | zero => cases hrun
  | succ fuel ih =>
    cases rest with
    | nil => rw [complete]
    | cons opcode rest =>
      have hex := hat.executes env
      rw [complete]
      cases heff : effect first depth rest.length opcode with
      | ends => rfl
      | fails =>
        rw [heff] at hex
        obtain ⟨halt, herr⟩ := hex
        simp only [evaluateLoop, hat.getElem?_eq, herr] at hrun
        cases hrun
      | continues operand depth' =>
        rw [heff] at hex
        rcases hex with ⟨e', -, size, hnone⟩ | ⟨e', hnext, hval, hdep, hdrop, -⟩
        · exact absurd hnone (hpool size)
        · rw [evaluateLoop_next fuel hat.getElem?_eq hnext] at hrun
          exact ih (hat.next hval hdep hdrop) hrun

lemma inside_of_goesOn {p q : Evaluation × ℕ} (hval : p.1.stack.Valid) (h : GoesOn env p q) :
    q.1.stack.Valid ∧ q.1.depex.length = p.1.depex.length := by
  obtain ⟨opcode, hop, hnext⟩ := h
  have hex := executes_effect env hval (List.getElem?_eq_some_iff.mp hop).1 opcode
  cases heff : effect (decide (p.2 = 0)) p.1.stack.pointer (p.1.depex.length - (p.2 + 1)) opcode
    with
  | ends =>
    rw [heff] at hex
    obtain ⟨result, e', hdone⟩ := hex
    rw [hnext] at hdone
    cases hdone
  | fails =>
    rw [heff] at hex
    obtain ⟨halt, herr⟩ := hex
    rw [hnext] at herr
    cases herr
  | continues operand depth' =>
    rw [heff] at hex
    rcases hex with ⟨e', hdone, -⟩ | ⟨e', hnex', hval', -, -, hlen⟩
    · rw [hnext] at hdone
      cases hdone
    grind

lemma inside_of_reaches {p q : Evaluation × ℕ} (hval : p.1.stack.Valid)
    (h : ReflTransGen (GoesOn env) p q) :
    q.1.stack.Valid ∧ q.1.depex.length = p.1.depex.length := by
  induction h with
  | refl => exact ⟨hval, rfl⟩
  | tail _ hstep ih =>
    obtain ⟨hval', hlen⟩ := inside_of_goesOn ih.1 hstep
    exact ⟨hval', hlen.trans ih.2⟩

lemma at_start (stack : DepexStack) (depex : List UInt8) :
    At ⟨{ stack with pointer := 0 }, depex⟩ 0 true 0 depex :=
  ⟨Nat.zero_le _, rfl, rfl, rfl⟩

/-- A pool that is never exhausted, and no protocol. -/
def emptySystem : Environment where
  allocatePool _ := some fun _ => false
  coreLocateProtocol _ := false
  coreAllEfiServicesAvailable := .success

/-- Bytes are evaluated within their bounds whatever the system is, if and only if they begin with
`BEFORE` or `AFTER` or are complete. -/
theorem confined_iff (depex : List UInt8) :
    (∀ env stack, Confined env stack depex) ↔
      depex.head? = some efiDepBefore ∨ depex.head? = some efiDepAfter ∨
        complete true 0 depex = true := by
  constructor
  · intro h
    obtain ⟨r, hr⟩ := (h emptySystem ⟨[], 0⟩).returns
    by_cases hafter : depex.head? = some efiDepAfter
    · exact .inr (.inl hafter)
    by_cases hbefore : depex.head? = some efiDepBefore
    · exact .inl hbefore
    refine .inr (.inr ?_)
    rw [coreIsSchedulable, if_neg (by simp [loadedEntry, hafter, hbefore])] at hr
    cases hrun : evaluateLoop emptySystem (depex.length + 1) ⟨⟨[], 0⟩, depex⟩ 0 with
    | error halt =>
      simp only [loadedEntry, hrun] at hr
      cases hr
    | ok result =>
      exact complete_of_evaluateLoop (fun _ => Option.some_ne_none _) (at_start ⟨[], 0⟩ depex) hrun
  · intro h env stack
    refine ⟨?_, fun e i hreach => inside_of_reaches (at_start stack depex).valid hreach⟩
    by_cases hflag : depex.head? = some efiDepAfter ∨ depex.head? = some efiDepBefore
    · exact ⟨_, by rw [coreIsSchedulable, if_pos (by simpa [loadedEntry] using hflag)]⟩
    rw [coreIsSchedulable, if_neg (by simpa [loadedEntry] using hflag)]
    have hcomplete : complete true 0 depex = true := by
      grind
    obtain ⟨r, hr⟩ := evaluateLoop_of_complete env (at_start stack depex) hcomplete
      (Nat.lt_succ_self depex.length)
    exact ⟨_, by simp only [loadedEntry, hr]; rfl⟩

/-- A `PUSH` without its GUID. -/
theorem not_confined_push : ¬ ∀ env stack, Confined env stack [efiDepPush] := by
  intro h
  obtain ⟨r, hr⟩ := (h emptySystem ⟨[], 0⟩).returns
  have hfault : coreIsSchedulable emptySystem ⟨[], 0⟩ (loadedEntry [efiDepPush]) =
      .error .fault := by decide
  rw [hfault] at hr
  cases hr

end Edk2.Dispatcher
