import QuicproAsync.Pipeline

/-!
# Whole pipelines

Two results about every run of a pipeline. A step marked `condition_true_only` is skipped
exactly after a condition that was not met, and a skipped step leaves no trace: the flag
that the code threads through the steps is a function of the last call that was made. And
the returned array is the calls made, filed by tool name between `isSuccess` and
`finalMessage`, so that it keeps every response unless two of them compete for a key.
-/

namespace QuicproAsync.Pipeline

open Php Fallible OrderedMap

variable {registry : Registry} {executeMcpCall : McpCall} {state next : State}
  {step definition result : HashTable} {executed : List Execution}

/-! ### The state after a run -/

/-- The entry that a call leaves in the context. -/
def Execution.entry (execution : Execution) : Key × Zval :=
  (.str (cstr execution.tool), execution.response)

/-- The last call was one of the conditional tool, and its condition was not met. -/
def Denied (executed : List Execution) : Prop :=
  ∃ last, executed.getLast? = some last ∧ cstr last.tool = ascii "ConditionalLogic" ∧
    conditionMet last.response = false

/-- What the state holds is determined by the calls that were made. -/
structure Consistent (state : State) : Prop where
  context : state.executionContext = assignAll (state.executed.map Execution.entry) []
  flag : state.lastConditionResult = false ↔ Denied state.executed

theorem consistent_initial : Consistent .initial := by
  refine ⟨rfl, iff_of_false Bool.noConfusion ?_⟩
  rintro ⟨last, hlast, -⟩
  cases hlast

theorem denied_snoc (executed : List Execution) (execution : Execution) :
    Denied (executed ++ [execution]) ↔
      conditionAfter execution.tool execution.response = false := by
  unfold Denied conditionAfter
  rw [List.getLast?_concat]
  constructor
  · rintro ⟨last, hlast, htool, hunmet⟩
    cases hlast
    rw [if_pos htool]
    exact hunmet
  · intro hafter
    split at hafter
    · exact ⟨execution, rfl, ‹_›, hafter⟩
    · cases hafter

theorem Consistent.record (hstate : Consistent state) (toolName : Bytes) (response : Zval) :
    Consistent (state.record toolName response) := by
  refine ⟨?_, (denied_snoc state.executed ⟨toolName, response⟩).symm⟩
  show assign _ response state.executionContext = _
  rw [hstate.context]
  simp [State.record, assignAll, Execution.entry]

theorem Consistent.executeStepC (hstate : Consistent state)
    (hstep : Pipeline.executeStepC registry executeMcpCall state step = .ok next) :
    Consistent next := by
  rcases executeStepC_ok hstep with ⟨-, -, rfl⟩ | ⟨toolName, response, hexecutes⟩
  · exact hstate
  · rw [hexecutes.recorded]
    exact hstate.record toolName response

theorem Consistent.pipelineStep (hstate : Consistent state) {stepDef : Zval}
    (hstep : pipelineStep registry executeMcpCall state stepDef = .ok next) :
    Consistent next := by
  unfold Pipeline.pipelineStep at hstep
  split at hstep
  · exact hstate.executeStepC hstep
  · cases hstep

theorem consistent_run (hrun : executeSteps registry executeMcpCall definition = .ok state) :
    Consistent state := by
  have hends : Ends (fun _ => True) Consistent
      (executeSteps registry executeMcpCall definition) := by
    refine Ends.foldlM (fun _ => Consistent) ?_ definition consistent_initial
    intro _ entry before hbefore
    cases hstep : Pipeline.pipelineStep registry executeMcpCall before entry.2 with
    | error e => exact trivial
    | ok after => exact hbefore.pipelineStep hstep
  exact hends.ok hrun

/-! ### The returned array -/

theorem lookup_finalResult {context : HashTable} (hnodup : (keys context).Nodup)
    (key : Key) :
    (finalResult context).lookup key =
      if key = messageKey then some finalMessage
      else (context.lookup key).or (if key = successKey then some (.bool true) else none) := by
  unfold finalResult
  rw [lookup_assign, lookup_assignAll_of_nodup hnodup,
    lookup_assign]
  rfl

theorem Consistent.nodup (hstate : Consistent state) :
    (keys state.executionContext).Nodup := by
  rw [hstate.context]
  exact nodup_keys_assignAll _ List.nodup_nil

/-- What is found under a key is the response of a call filed there. -/
theorem Consistent.executed_of_lookup (hstate : Consistent state) {key : Key} {value : Zval}
    (hlookup : state.executionContext.lookup key = some value) :
    ∃ execution ∈ state.executed, execution.entry = (key, value) := by
  rw [hstate.context, lookup_assignAll, List.lookup_nil, Option.or_none] at hlookup
  have hmem := mem_of_lookup_eq_some hlookup
  exact List.mem_map.mp (List.mem_reverse.mp hmem)

theorem Consistent.lookup_isSome (hstate : Consistent state) {execution : Execution}
    (hexecuted : execution ∈ state.executed) :
    ∃ value, state.executionContext.lookup execution.entry.1 = some value := by
  refine Option.ne_none_iff_exists'.mp ?_
  rw [hstate.context, lookup_assignAll, List.lookup_nil, Option.or_none, ne_eq,
    lookup_eq_none_iff_not_mem_keys, not_not]
  refine List.mem_map_of_mem (List.mem_reverse.mpr ?_)
  exact List.mem_map_of_mem hexecuted

/-- The array says that the pipeline succeeded and holds the response of every call. -/
def KeepsSteps (executed : List Execution) (result : HashTable) : Prop :=
  result.lookup successKey = some (.bool true) ∧
    ∀ execution ∈ executed, result.lookup (.str (cstr execution.tool)) = some execution.response

/-- No two calls compete for one key, and none for the keys of the result itself. -/
structure Compatible (executed : List Execution) : Prop where
  apart : ∀ one ∈ executed, ∀ other ∈ executed, cstr one.tool = cstr other.tool →
    one.response = other.response
  success : ∀ execution ∈ executed, cstr execution.tool = ascii "isSuccess" →
    execution.response = .bool true
  message : ∀ execution ∈ executed, cstr execution.tool = ascii "finalMessage" →
    execution.response = finalMessage

theorem successKey_ne_messageKey : successKey ≠ messageKey := by decide

theorem compatible_of_keepsSteps (hstate : Consistent state)
    (hkeeps : KeepsSteps state.executed (finalResult state.executionContext)) :
    Compatible state.executed := by
  obtain ⟨hsuccess, hheld⟩ := hkeeps
  refine ⟨?_, ?_, ?_⟩
  · intro one hone other hother hsame
    have hfirst := hheld one hone
    rw [hsame, hheld other hother] at hfirst
    exact (Option.some.inj hfirst).symm
  · intro execution hexecution hname
    have hfound := hheld execution hexecution
    rw [hname] at hfound
    exact Option.some.inj (hfound.symm.trans hsuccess)
  · intro execution hexecution hname
    have hfound := hheld execution hexecution
    rw [hname, lookup_finalResult hstate.nodup] at hfound
    exact (Option.some.inj hfound).symm

theorem keepsSteps_of_compatible (hstate : Consistent state)
    (hcompatible : Compatible state.executed) :
    KeepsSteps state.executed (finalResult state.executionContext) := by
  refine ⟨?_, ?_⟩
  · rw [lookup_finalResult hstate.nodup, if_neg successKey_ne_messageKey, if_pos rfl]
    cases hlookup : state.executionContext.lookup successKey with
    | none => rfl
    | some value =>
      obtain ⟨execution, hexecuted, hentry⟩ := hstate.executed_of_lookup hlookup
      obtain ⟨hkey, rfl⟩ := Prod.mk.inj hentry
      exact congrArg some (hcompatible.success execution hexecuted (Key.str.inj hkey))
  · intro execution hexecuted
    rw [lookup_finalResult hstate.nodup]
    split
    · rename_i hkey
      exact congrArg some (hcompatible.message execution hexecuted (Key.str.inj hkey)).symm
    · obtain ⟨value, hlookup⟩ := hstate.lookup_isSome hexecuted
      obtain ⟨other, hother, hentry⟩ := hstate.executed_of_lookup hlookup
      obtain ⟨hkey, rfl⟩ := Prod.mk.inj hentry
      have hsame := hcompatible.apart other hother execution hexecuted (Key.str.inj hkey)
      change state.executionContext.lookup (.str (cstr execution.tool)) = _ at hlookup
      rw [hlookup, hsame]
      rfl

theorem executePipelineC_ok
    (hok : executePipelineC registry executeMcpCall definition = .ok result) :
    ∃ state, executeSteps registry executeMcpCall definition = .ok state ∧
      result = finalResult state.executionContext := by
  obtain ⟨state, hrun, hresult⟩ := bind_eq_ok.mp hok
  cases hresult
  exact ⟨state, hrun, rfl⟩

/-- When a pipeline succeeds, its result keeps the response of every executed step if and only
    if no two executed steps of one tool had different responses, and none of a tool that is
    called like a field of the result had a response other than that field. -/
theorem results_kept_iff_compatible (registry : Registry) (executeMcpCall : McpCall)
    (definition result : HashTable)
    (hok : executePipelineC registry executeMcpCall definition = .ok result) :
    ∃ state, executeSteps registry executeMcpCall definition = .ok state ∧
      (KeepsSteps state.executed result ↔ Compatible state.executed) := by
  obtain ⟨state, hrun, rfl⟩ := executePipelineC_ok hok
  have hstate := consistent_run hrun
  exact ⟨state, hrun, compatible_of_keepsSteps hstate, keepsSteps_of_compatible hstate⟩

/-! ### Samples -/

def sampleHandler : ToolHandler where
  mcpTarget := ⟨ascii "localhost", 4433, ascii "Agent", ascii "Run", .undef⟩
  inputProtoSchema := ascii "Request"
  outputProtoSchema := ascii "Response"
  ragConfig := none

def sampleRegistry : Registry :=
  [(ascii "Summarize", sampleHandler), (ascii "Translate", sampleHandler),
    (ascii "ConditionalLogic", sampleHandler)]

/-- Each call answers with the number of calls before it. -/
def countingCall : McpCall := fun executed _ _ _ _ => some (.long executed.length)

/-- A definition that names these tools, one a step. -/
def toolSteps (tools : List String) : HashTable :=
  listTable (tools.map fun tool => .array [(.str (ascii "tool"), .string (ascii tool))])

theorem results_kept_distinct :
    ∃ state result,
      executeSteps sampleRegistry countingCall (toolSteps ["Summarize", "Translate"]) =
          .ok state ∧
        executePipelineC sampleRegistry countingCall (toolSteps ["Summarize", "Translate"]) =
          .ok result ∧ KeepsSteps state.executed result := by
  obtain ⟨result, hok⟩ : ∃ result, executePipelineC sampleRegistry countingCall
      (toolSteps ["Summarize", "Translate"]) = .ok result := ⟨_, rfl⟩
  obtain ⟨state, hrun, hiff⟩ := results_kept_iff_compatible sampleRegistry countingCall
    (toolSteps ["Summarize", "Translate"]) result hok
  refine ⟨state, result, hrun, hok, hiff.mpr ?_⟩
  have hexecuted : state.executed =
      [⟨ascii "Summarize", .long 0⟩, ⟨ascii "Translate", .long 1⟩] := by
    cases hrun
    rfl
  have hapart : cstr (ascii "Summarize") ≠ cstr (ascii "Translate") := by decide +kernel
  have hsuccess : cstr (ascii "Summarize") ≠ ascii "isSuccess" ∧
      cstr (ascii "Translate") ≠ ascii "isSuccess" := by decide +kernel
  have hmessage : cstr (ascii "Summarize") ≠ ascii "finalMessage" ∧
      cstr (ascii "Translate") ≠ ascii "finalMessage" := by decide +kernel
  rw [hexecuted]
  refine ⟨?_, ?_, ?_⟩
  · simp [hapart, hapart.symm]
  · simp [hsuccess]
  · simp [hmessage]

/-- The second call of a tool replaces the response of the first. -/
theorem first_response_lost :
    ∃ state result,
      executeSteps sampleRegistry countingCall (toolSteps ["Summarize", "Summarize"]) =
          .ok state ∧
        executePipelineC sampleRegistry countingCall (toolSteps ["Summarize", "Summarize"]) =
          .ok result ∧
        ⟨ascii "Summarize", .long 0⟩ ∈ state.executed ∧
        result.lookup (.str (ascii "Summarize")) = some (.long 1) ∧
        ¬ KeepsSteps state.executed result := by
  refine ⟨_, _, rfl, rfl, List.mem_cons_self, rfl, ?_⟩
  rintro ⟨-, hheld⟩
  have hfirst := hheld ⟨ascii "Summarize", .long 0⟩ List.mem_cons_self
  have hlast : (finalResult [(.str (ascii "Summarize"), .long 1)]).lookup
      (.str (cstr (ascii "Summarize"))) = some (.long 1) := rfl
  cases hlast.symm.trans hfirst

/-! ### Skipped steps -/

/-- The name of the tool has no NUL, and the parameters are an array. -/
structure PlainStep (step : HashTable) : Prop where
  tool : ∀ toolName, find step "tool" = some (.string toolName) → NulFree toolName
  params : ∀ value, find step "params" = some value → ∃ entries, value = .array entries

/-- The loop over steps that are all arrays. -/
def runSteps (registry : Registry) (executeMcpCall : McpCall) (steps : List HashTable) :
    Except PipelineError State :=
  steps.foldlM (executeStepC registry executeMcpCall) .initial

variable {steps : List HashTable}

theorem executeSteps_arrays (harrays : definition.map Prod.snd = steps.map Zval.array) :
    executeSteps registry executeMcpCall definition =
      runSteps registry executeMcpCall steps := by
  calc executeSteps registry executeMcpCall definition
      = (definition.map Prod.snd).foldlM (pipelineStep registry executeMcpCall) .initial := by
        rw [List.foldlM_map]
        rfl
    _ = (steps.map Zval.array).foldlM (pipelineStep registry executeMcpCall) .initial := by
        rw [harrays]
    _ = runSteps registry executeMcpCall steps := by
        rw [List.foldlM_map]
        rfl

/-- A step that fails ends the pipeline. -/
theorem executePipelineC_error {earlier later : List HashTable} {e : PipelineError}
    (harrays : definition.map Prod.snd = (earlier ++ step :: later).map Zval.array)
    (hreached : runSteps registry executeMcpCall earlier = .ok state)
    (hfails : executeStepC registry executeMcpCall state step = .error e) :
    executePipelineC registry executeMcpCall definition = .error e := by
  have hrun : runSteps registry executeMcpCall (earlier ++ step :: later) = .error e := by
    unfold runSteps at hreached ⊢
    rw [List.foldlM_append, hreached]
    show (List.foldlM (executeStepC registry executeMcpCall) state (step :: later)) = _
    rw [List.foldlM_cons, hfails]
    rfl
  unfold executePipelineC
  rw [executeSteps_arrays harrays, hrun]
  rfl

theorem consistent_runSteps (hrun : runSteps registry executeMcpCall steps = .ok state) :
    Consistent state := by
  have hlist : (listTable (steps.map Zval.array)).map Prod.snd = steps.map Zval.array :=
    listTable_values _
  exact consistent_run ((executeSteps_arrays hlist).trans hrun)

/-- Every call of the run is one of a plain step. -/
theorem nulFree_run (hplain : ∀ step ∈ steps, PlainStep step)
    (hrun : runSteps registry executeMcpCall steps = .ok state) :
    ∀ execution ∈ state.executed, NulFree execution.tool := by
  have hends : Ends (fun _ => True) (fun state : State => (∀ step ∈ steps, PlainStep step) →
      ∀ execution ∈ state.executed, NulFree execution.tool)
      (runSteps registry executeMcpCall steps) := by
    refine Ends.foldlM (fun before (state : State) => (∀ step ∈ before, PlainStep step) →
      ∀ execution ∈ state.executed, NulFree execution.tool) ?_ steps (fun _ => nofun)
    intro before step state hbefore
    cases hstep : executeStepC registry executeMcpCall state step with
    | error e => exact trivial
    | ok next =>
      intro hall
      obtain ⟨hearlier, hthis⟩ := List.forall_mem_append.mp hall
      rcases executeStepC_ok hstep with ⟨-, -, rfl⟩ | ⟨toolName, response, hexecutes⟩
      · exact hbefore hearlier
      · rw [hexecutes.recorded]
        refine List.forall_mem_append.mpr ⟨hbefore hearlier, ?_⟩
        intro execution hexecution
        rw [List.mem_singleton.mp hexecution]
        exact (hthis step (List.mem_singleton.mpr rfl)).tool toolName hexecutes.named
  exact hends.ok hrun hplain

/-- The step is skipped: it succeeds and changes nothing, and no call is made. -/
def Skipped (registry : Registry) (executeMcpCall : McpCall) (state : State)
    (step : HashTable) : Prop :=
  executeStepC registry executeMcpCall state step = .ok state

theorem skipped_iff :
    Skipped registry executeMcpCall state step ↔
      conditionTrueOnly step = true ∧ state.lastConditionResult = false := by
  constructor
  · intro hskipped
    rcases executeStepC_ok hskipped with ⟨hmarked, hflag, -⟩ | ⟨toolName, response, hexecutes⟩
    · exact ⟨hmarked, hflag⟩
    · -- A call would have made the list of calls longer.
      have hlonger := congrArg (fun state => state.executed.length) hexecutes.recorded
      simp [State.record] at hlonger
  · rintro ⟨hmarked, hflag⟩
    unfold Skipped executeStepC
    rw [hmarked, hflag]
    rfl

/-- Parameters that are an array can be read. -/
theorem ragContext_ok (handler : ToolHandler) {params : Option Zval}
    (hparams : ∀ value, params = some value → ∃ entries, value = .array entries) :
    ∃ context, ragContext handler params = .ok context := by
  have hread : ∃ rag, useRag handler params = .ok rag := by
    unfold useRag
    split
    · exact ⟨_, rfl⟩
    · exact ⟨_, rfl⟩
    · exact ⟨_, rfl⟩
    · rename_i value hother _
      obtain ⟨entries, rfl⟩ := hparams value rfl
      exact absurd rfl (hother entries)
  obtain ⟨rag, hrag⟩ := hread
  unfold ragContext
  rw [hrag]
  cases rag with
  | false => exact ⟨_, rfl⟩
  | true => exact ⟨_, rfl⟩

theorem callTool_not_confused {handler : ToolHandler} {context : Zval}
    (hcontext : ragContext handler (find step "params") = .ok context) (toolName : Bytes) :
    callTool executeMcpCall state step toolName handler ≠ .error .confusion := by
  rw [callTool, hcontext]
  intro hconfused
  cases hcall : executeMcpCall state.executed handler.mcpTarget (.array [])
      handler.inputProtoSchema handler.outputProtoSchema with
  | none =>
    rw [hcall] at hconfused
    cases hconfused
  | some response =>
    rw [hcall] at hconfused
    cases hconfused

theorem PlainStep.not_confused (hplain : PlainStep step) :
    executeStepC registry executeMcpCall state step ≠ .error .confusion := by
  rw [executeStepC]
  intro hconfused
  split at hconfused
  · cases hconfused
  · split at hconfused
    · split at hconfused
      · next handler _ =>
          obtain ⟨context, hcontext⟩ := ragContext_ok handler hplain.params
          exact callTool_not_confused hcontext _ hconfused
      · cases hconfused
    · cases hconfused

/-- In every run over plain steps, a step that is reached is skipped if and only if it is
    marked `condition_true_only` and the last call made was one of the conditional tool whose
    response is not an array with a true `condition_met`. Any other step is executed, or it
    fails and the pipeline ends there. -/
theorem skipped_iff_last_condition_not_met (registry : Registry) (executeMcpCall : McpCall)
    (definition : HashTable) (earlier later : List HashTable) (step : HashTable)
    (harrays : definition.map Prod.snd = (earlier ++ step :: later).map Zval.array)
    (hplain : ∀ other ∈ earlier ++ step :: later, PlainStep other) (state : State)
    (hreached : runSteps registry executeMcpCall earlier = .ok state) :
    (Skipped registry executeMcpCall state step ↔
      conditionTrueOnly step = true ∧ ∃ last, state.executed.getLast? = some last ∧
        last.tool = ascii "ConditionalLogic" ∧ conditionMet last.response = false) ∧
    (¬ Skipped registry executeMcpCall state step →
      (∃ next toolName response, executeStepC registry executeMcpCall state step = .ok next ∧
        Executes registry executeMcpCall state step next toolName response) ∨
      ∃ e, e ≠ .confusion ∧ executeStepC registry executeMcpCall state step = .error e ∧
        executePipelineC registry executeMcpCall definition = .error e) := by
  obtain ⟨hearlier, hrest⟩ := List.forall_mem_append.mp hplain
  constructor
  · rw [skipped_iff, (consistent_runSteps hreached).flag]
    refine and_congr_right fun _ => exists_congr fun last => and_congr_right fun hlast => ?_
    have hfree := nulFree_run hearlier hreached last (List.mem_of_getLast? hlast)
    rw [cstr_of_nulFree hfree]
  · intro hskipped
    cases hstep : executeStepC registry executeMcpCall state step with
    | ok next =>
      rcases executeStepC_ok hstep with ⟨-, -, rfl⟩ | ⟨toolName, response, hexecutes⟩
      · exact absurd hstep hskipped
      · exact Or.inl ⟨next, toolName, response, rfl, hexecutes⟩
    | error e =>
      refine Or.inr ⟨e, ?_, rfl, executePipelineC_error harrays hreached hstep⟩
      rintro rfl
      exact (hrest step List.mem_cons_self).not_confused hstep

/-- The condition of the sample, and a step that depends on it. -/
def conditionStep : HashTable := [(.str (ascii "tool"), .string (ascii "ConditionalLogic"))]

def dependentStep : HashTable :=
  [(.str (ascii "condition_true_only"), .bool true),
    (.str (ascii "tool"), .string (ascii "Summarize"))]

theorem plainStep_of_tool {toolName : Bytes} (htool : find step "tool" = some (.string toolName))
    (hfree : NulFree toolName) (hparams : find step "params" = none) : PlainStep step := by
  refine ⟨?_, ?_⟩
  · intro other hother
    rw [htool] at hother
    cases hother
    exact hfree
  · intro value hvalue
    rw [hparams] at hvalue
    cases hvalue

/-- The answer to the condition is a number, so the step that depends on it is skipped. -/
theorem skipped_after_unmet_condition :
    ∃ state, runSteps sampleRegistry countingCall [conditionStep] = .ok state ∧
      Skipped sampleRegistry countingCall state dependentStep := by
  obtain ⟨state, hreached, hlast⟩ : ∃ state,
      runSteps sampleRegistry countingCall [conditionStep] = .ok state ∧
        state.executed.getLast? = some ⟨ascii "ConditionalLogic", .long 0⟩ := ⟨_, rfl, rfl⟩
  refine ⟨state, hreached, ?_⟩
  have hplain : ∀ other ∈ [conditionStep] ++ dependentStep :: [], PlainStep other := by
    intro other hother
    rcases List.mem_cons.mp hother with rfl | hrest
    · exact plainStep_of_tool rfl (by decide +kernel) rfl
    · rw [List.mem_singleton.mp hrest]
      exact plainStep_of_tool rfl (by decide +kernel) rfl
  exact (skipped_iff_last_condition_not_met sampleRegistry countingCall
    (listTable [.array conditionStep, .array dependentStep]) [conditionStep] [] dependentStep rfl
    hplain state hreached).1.mpr ⟨rfl, _, hlast, rfl, rfl⟩

end QuicproAsync.Pipeline
