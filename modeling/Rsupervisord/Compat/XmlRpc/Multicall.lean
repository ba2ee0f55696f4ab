import Rsupervisord.Compat.XmlRpc.Wire

/-!
# Several calls in one request

`system.multicall` answers a list of calls. Each entry is answered at its place, by the result of
its call or by a fault of its own; the entries that are no call are answered without one.

The methods of the supervisor run on a state of any type.

## Main definitions

* `XmlRpc.handleMulticall`: the method.
* `XmlRpc.dispatchCall`: the dispatch of a call to its method.

## Main results

* `XmlRpc.handleMulticall_spec`: each entry is answered for itself.
* `XmlRpc.dispatchCall_succ`: calls are nested at most twice.
-/

namespace Rsupervisord

namespace XmlRpc

variable {σ : Type}

/-- Run a method on its parameters. -/
abbrev Dispatch (σ : Type) := String → List Value → StateM σ (Except Fault Value)

/-- `Value::as_str`. -/
def Value.asStr : Value → Option String
  | .string s => some s
  | _ => none

/-- `Value::as_array`. -/
def Value.asArray : Value → Option (List Value)
  | .array items => some items
  | _ => none

/-- `Value::as_struct`. -/
def Value.asStruct : Value → Option (List (String × Value))
  | .struct members => some members
  | _ => none

/-- A fault among the results. -/
def faultStruct (f : Fault) : Value :=
  .struct [("faultCode", .int f.code), ("faultString", .string f.message)]

/-- The loop of `handle_multicall`, for one entry. -/
def pushResult (dispatch : Dispatch σ) (results : List Value) (call : Value) :
    StateM σ (List Value) :=
  match call.asStruct with
  | none => return results ++
      [faultStruct ⟨(Fault.incorrectParams "").code, "Call specification must be a struct"⟩]
  | some callStruct =>
      match (callStruct.lookup "methodName").bind Value.asStr with
      | none => return results ++
          [faultStruct ⟨(Fault.incorrectParams "").code, "Missing methodName in multicall item"⟩]
      | some methodName =>
          if methodName = "system.multicall" then
            return results ++
              [faultStruct ⟨FaultCode.incorrectParameters.code, "Recursive multicall not allowed"⟩]
          else do
            let callParams := ((callStruct.lookup "params").bind Value.asArray).getD []
            match ← dispatch methodName callParams with
            | .ok v => return results ++ [.array [v]]
            | .error f => return results ++ [faultStruct f]

/-- `handle_multicall`. -/
def handleMulticall (dispatch : Dispatch σ) (params : List Value) :
    StateM σ (Except Fault Value) :=
  match params with
  | [] => return .error (.incorrectParams "system.multicall requires 1 parameter: list of calls")
  | first :: _ =>
      match first.asArray with
      | none => return .error (.incorrectParams "system.multicall parameter must be an array")
      | some calls => do
          let results ← calls.foldlM (pushResult dispatch) []
          return .ok (.array results)

/-- The methods other than `system.multicall`. -/
structure RpcMethods (σ : Type) where
  listMethods : Value
  methodHelp : String → Except Fault Value
  methodSignature : String → Except Fault Value
  handleSupervisorMethod : Dispatch σ

/-- The body of `dispatch_call`, with its nested calls made by `dispatch`. -/
def dispatchMethod (methods : RpcMethods σ) (dispatch : Dispatch σ) : Dispatch σ :=
  fun method params =>
    if (Text.stripPrefix "system." method).isSome then
      if method = "system.listMethods" then pure (.ok methods.listMethods)
      else if method = "system.methodHelp" then
        match params.head?.bind Value.asStr with
        | none => pure (.error (.incorrectParams "system.methodHelp requires method name string"))
        | some name => pure (methods.methodHelp name)
      else if method = "system.methodSignature" then
        match params.head?.bind Value.asStr with
        | none =>
            pure (.error (.incorrectParams "system.methodSignature requires method name string"))
        | some name => pure (methods.methodSignature name)
      else if method = "system.multicall" then handleMulticall dispatch params
      else pure (.error (.unknownMethod method))
    else if (Text.stripPrefix "supervisor." method).isSome then
      methods.handleSupervisorMethod method params
    else pure (.error (.unknownMethod method))

/-- `dispatch_call`, for at most `fuel` nested calls. -/
def dispatchCall (methods : RpcMethods σ) (stuck : Dispatch σ) : ℕ → Dispatch σ
  | 0 => stuck
  | fuel + 1 => dispatchMethod methods (dispatchCall methods stuck fuel)

/-! ## One entry -/

/-- The call that an entry stands for, or the fault that it is answered with. -/
def request (call : Value) : Except Fault (String × List Value) :=
  match call.asStruct with
  | none => .error ⟨2, "Call specification must be a struct"⟩
  | some callStruct =>
      match (callStruct.lookup "methodName").bind Value.asStr with
      | none => .error ⟨2, "Missing methodName in multicall item"⟩
      | some methodName =>
          if methodName = "system.multicall" then .error ⟨2, "Recursive multicall not allowed"⟩
          else .ok (methodName, ((callStruct.lookup "params").bind Value.asArray).getD [])

/-- What a result is wrapped in. -/
def entryResult : Except Fault Value → Value
  | .ok v => .array [v]
  | .error f => faultStruct f

/-- The answer to one entry. -/
def answer (dispatch : Dispatch σ) (call : Value) : StateM σ Value :=
  match request call with
  | .error f => return faultStruct f
  | .ok (method, params) => do return entryResult (← dispatch method params)

variable {dispatch dispatch' : Dispatch σ} {call : Value} {calls params : List Value} {s : σ}

/-- An entry adds its answer to the results. -/
theorem pushResult_eq (results : List Value) (call : Value) :
    pushResult dispatch results call = do return results ++ [← answer dispatch call] := by
  rw [pushResult, answer, request]
  cases call.asStruct with
  | none => rfl
  | some callStruct =>
    dsimp only
    cases (callStruct.lookup "methodName").bind Value.asStr with
    | none => rfl
    | some methodName =>
      dsimp only
      split_ifs
      · rfl
      · simp only [bind_assoc, pure_bind]
        congr 1
        funext result
        cases result <;> rfl

/-- The entries are answered one after the other. -/
theorem handleMulticall_array : handleMulticall dispatch (.array calls :: params) = do
    return .ok (.array (← calls.mapM (answer dispatch))) := by
  have hloop : ∀ (calls : List Value) (results : List Value),
      calls.foldlM (pushResult dispatch) results = do
        return results ++ (← calls.mapM (answer dispatch)) := by
    intro calls
    induction calls with
    | nil => intro results; simp
    | cons call calls ih =>
      intro results
      rw [List.foldlM_cons, pushResult_eq, List.mapM_cons]
      simp only [bind_assoc, pure_bind, ih, List.append_assoc, List.singleton_append]
  have harray : handleMulticall dispatch (.array calls :: params) = do
      let results ← calls.foldlM (pushResult dispatch) []
      return .ok (.array results) := rfl
  rw [harray, hloop]
  simp only [bind_assoc, pure_bind, List.nil_append]

/-! ## All entries -/

/-- The state that the entries leave. -/
def after (dispatch : Dispatch σ) (calls : List Value) (s : σ) : σ :=
  ((calls.mapM (answer dispatch)).run s).2

/-- The answers to the entries. -/
def answers (dispatch : Dispatch σ) (calls : List Value) (s : σ) : List Value :=
  ((calls.mapM (answer dispatch)).run s).1

theorem run_handleMulticall : (handleMulticall dispatch (.array calls :: params)).run s =
    (.ok (.array (answers dispatch calls s)), after dispatch calls s) := by
  rw [handleMulticall_array]
  rfl

theorem after_cons : after dispatch (call :: calls) s =
    after dispatch calls ((answer dispatch call).run s).2 := by
  rw [after, List.mapM_cons]
  rfl

theorem answers_cons : answers dispatch (call :: calls) s =
    ((answer dispatch call).run s).1 :: answers dispatch calls
    ((answer dispatch call).run s).2 := by
  rw [answers, List.mapM_cons]
  rfl

theorem after_append (before behind : List Value) :
    after dispatch (before ++ behind) s = after dispatch behind (after dispatch before s) := by
  induction before generalizing s with
  | nil => rfl
  | cons call before ih => rw [List.cons_append, after_cons, ih, after_cons]

theorem answers_append (before behind : List Value) : answers dispatch (before ++ behind) s =
    answers dispatch before s ++ answers dispatch behind (after dispatch before s) := by
  induction before generalizing s with
  | nil => rfl
  | cons call before ih =>
    rw [List.cons_append, answers_cons, ih, answers_cons, after_cons]
    rfl

theorem length_answers : (answers dispatch calls s).length = calls.length := by
  induction calls generalizing s with
  | nil => rfl
  | cons call calls ih => rw [answers_cons, List.length_cons, ih, List.length_cons]

/-- The answer to an entry is made from the state that the entries before it leave. -/
theorem getElem?_answers {i : ℕ} (hcall : calls[i]? = some call) :
    (answers dispatch calls s)[i]? =
        some ((answer dispatch call).run (after dispatch (calls.take i) s)).1 ∧
      after dispatch (calls.take (i + 1)) s =
        ((answer dispatch call).run (after dispatch (calls.take i) s)).2 := by
  induction calls generalizing i s with
  | nil => cases hcall
  | cons head calls ih =>
    cases i with
    | zero =>
      obtain rfl := Option.some.inj hcall
      rw [answers_cons]
      exact ⟨rfl, rfl⟩
    | succ i =>
      rw [List.getElem?_cons_succ] at hcall
      rw [answers_cons, List.getElem?_cons_succ, List.take_succ_cons, List.take_succ_cons,
        after_cons, after_cons]
      exact ih hcall

/-- Write down the calls that are dispatched. -/
def logged (dispatch : Dispatch σ) : Dispatch (σ × List (String × List Value)) :=
  fun method params st =>
    let (result, s) := (dispatch method params).run st.1
    (result, (s, st.2 ++ [(method, params)]))

/-- An entry that stands for no call is answered by its fault and leaves the state alone. -/
theorem run_answer_of_error {f : Fault} (h : request call = .error f) :
    (answer dispatch call).run s = (faultStruct f, s) := by
  rw [answer, h]
  rfl

/-- An entry that stands for a call is answered by the result of the call. -/
theorem run_answer_of_ok {method : String} {ps : List Value} (h : request call = .ok (method, ps)) :
    (answer dispatch call).run s =
      (entryResult ((dispatch method ps).run s).1, ((dispatch method ps).run s).2) := by
  rw [answer, h]
  rfl

/-- The dispatched calls are those of the entries that stand for one. -/
theorem run_logged (log : List (String × List Value)) :
    answers (logged dispatch) calls (s, log) = answers dispatch calls s ∧
      after (logged dispatch) calls (s, log) = (after dispatch calls s,
        log ++ calls.filterMap fun call => (request call).toOption) := by
  induction calls generalizing s log with
  | nil => exact ⟨rfl, by rw [List.filterMap_nil, List.append_nil]; rfl⟩
  | cons call calls ih =>
    rw [answers_cons, answers_cons, after_cons, after_cons, List.filterMap_cons]
    cases hrequest : request call with
    | error f =>
      rw [run_answer_of_error hrequest, run_answer_of_error hrequest]
      exact ⟨congrArg _ (ih log).1, (ih log).2⟩
    | ok named =>
      obtain ⟨method, ps⟩ := named
      rw [run_answer_of_ok hrequest, run_answer_of_ok hrequest]
      obtain ⟨hanswers, hafter⟩ :=
        @ih ((dispatch method ps).run s).2 (log ++ [(method, ps)])
      refine ⟨congrArg _ hanswers, hafter.trans ?_⟩
      rw [List.append_assoc]
      rfl

/-- Each entry is answered at its place: the entries that stand for no call by their own faults, and
the others by the results of their calls, which are made once each, in order and with the parameters
of the entry. An entry that leaves the state alone, as one that is refused does, changes no other
answer. -/
theorem handleMulticall_spec (dispatch : Dispatch σ) (calls params : List Value) (s : σ) :
    ∃ (results : List Value) (states : ℕ → σ),
      (handleMulticall dispatch (.array calls :: params)).run s =
        (.ok (.array results), states calls.length) ∧
      results.length = calls.length ∧ states 0 = s ∧
      (∀ i call, calls[i]? = some call →
        (∀ f, request call = .error f →
          results[i]? = some (faultStruct f) ∧ states (i + 1) = states i) ∧
        ∀ method ps, request call = .ok (method, ps) →
          results[i]? = some (entryResult ((dispatch method ps).run (states i)).1) ∧
            states (i + 1) = ((dispatch method ps).run (states i)).2) ∧
      (handleMulticall (logged dispatch) (.array calls :: params)).run (s, []) =
        (.ok (.array results), states calls.length,
          calls.filterMap fun call => (request call).toOption) ∧
      ∀ before call behind, calls = before ++ call :: behind →
        (∀ method ps, request call = .ok (method, ps) →
          ((dispatch method ps).run (states before.length)).2 = states before.length) →
        (handleMulticall dispatch (.array (before ++ behind) :: params)).run s =
          (.ok (.array (results.eraseIdx before.length)), states calls.length) := by
  refine ⟨answers dispatch calls s, fun i => after dispatch (calls.take i) s, ?_, length_answers,
    rfl, ?_, ?_, ?_⟩
  · dsimp only
    rw [run_handleMulticall, List.take_length]
  · intro i call hcall
    obtain ⟨hanswer, hstate⟩ := @getElem?_answers _ dispatch _ calls s i hcall
    refine ⟨fun f hrequest => ?_, fun method ps hrequest => ?_⟩
    · rw [run_answer_of_error hrequest] at hanswer hstate
      exact ⟨hanswer, hstate⟩
    · rw [run_answer_of_ok hrequest] at hanswer hstate
      exact ⟨hanswer, hstate⟩
  · obtain ⟨hanswers, hafter⟩ := @run_logged _ dispatch calls s []
    dsimp only
    rw [run_handleMulticall, hanswers, hafter, List.take_length, List.nil_append]
  · rintro before call behind rfl hsame
    dsimp only at hsame ⊢
    rw [List.take_left] at hsame
    have hstate : ((answer dispatch call).run (after dispatch before s)).2 =
        after dispatch before s := by
      cases hrequest : request call with
      | error f => rw [run_answer_of_error hrequest]
      | ok named =>
        rw [run_answer_of_ok hrequest]
        exact hsame named.1 named.2 hrequest
    rw [run_handleMulticall, List.take_length, answers_append, answers_append, after_append,
      after_append, answers_cons, after_cons, hstate, ← @length_answers _ dispatch _ s,
      List.eraseIdx_append_of_length_le (Nat.le_refl _), Nat.sub_self]
    rfl

/-! ## Nested calls -/

theorem ne_of_request {method : String} {ps : List Value} (h : request call = .ok (method, ps)) :
    method ≠ "system.multicall" := by
  rw [request] at h
  cases hstruct : call.asStruct with
  | none =>
    rw [hstruct] at h
    cases h
  | some callStruct =>
    rw [hstruct] at h
    dsimp only at h
    cases hname : (callStruct.lookup "methodName").bind Value.asStr with
    | none =>
      rw [hname] at h
      cases h
    | some methodName =>
      rw [hname] at h
      dsimp only at h
      split_ifs at h with hmulticall
      obtain ⟨rfl, -⟩ := Prod.mk.inj (Except.ok.inj h)
      exact hmulticall

/-- Calls of `system.multicall` are not dispatched. -/
theorem handleMulticall_congr
    (h : ∀ method ps, method ≠ "system.multicall" → dispatch method ps = dispatch' method ps) :
    handleMulticall dispatch params = handleMulticall dispatch' params := by
  have hanswer : ∀ call, answer dispatch call = answer dispatch' call := by
    intro call
    cases hrequest : request call with
    | error f => rw [answer, answer, hrequest]
    | ok named =>
      obtain ⟨method, ps⟩ := named
      rw [answer, answer, hrequest]
      dsimp only
      rw [h method ps (ne_of_request hrequest)]
  cases params with
  | nil => rfl
  | cons first params =>
    cases first with
    | array calls => rw [handleMulticall_array, handleMulticall_array, funext hanswer]
    | _ => rfl

/-- The nested calls are those of other methods. -/
theorem dispatchMethod_congr (methods : RpcMethods σ)
    (h : ∀ method ps, method ≠ "system.multicall" → dispatch method ps = dispatch' method ps) :
    dispatchMethod methods dispatch = dispatchMethod methods dispatch' := by
  ext method ps : 2
  unfold dispatchMethod
  rw [handleMulticall_congr h]

/-- Two nested calls suffice, and a third is never made. -/
theorem dispatchCall_succ (methods : RpcMethods σ) (stuck stuck' : Dispatch σ) (n m : ℕ) :
    dispatchCall methods stuck (n + 2) = dispatchCall methods stuck' (m + 2) := by
  apply dispatchMethod_congr
  intro method ps hne
  simp only [dispatchCall, dispatchMethod, if_neg hne]

/-- An entry for an unknown method is answered by a fault, and the entry behind it is called. -/
example : ((handleMulticall
    (dispatchMethod ⟨.array [], .ok ∘ .string, .ok ∘ .string,
      fun _ _ => do let n ← get; set (n + 1); return .ok (.boolean true)⟩ fun _ _ =>
      pure (.ok .nil))
    [.array [.nil, .struct [("methodName", .string "web.start")],
      .struct [("methodName", .string "supervisor.startProcess"),
        ("params", .array [.string "web"])]]]).run 0).2 = 1 := by decide +kernel

end XmlRpc

end Rsupervisord
