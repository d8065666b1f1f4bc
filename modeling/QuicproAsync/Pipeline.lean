import QuicproAsync.Fallible
import QuicproAsync.PhpValue

/-!
# The pipeline orchestrator

`execute_pipeline_c` and `execute_step_c` of `pipeline_orchestrator.c`: the steps of a
pipeline are executed in order, each by a call to the agent that is registered for its
tool, and the responses are collected under the names of the tools. A step marked
`condition_true_only` is skipped after a condition that was not met.

`execute_mcp_call` is a placeholder in the repository; here it is a parameter that may
answer or fail, depending on everything called before. The input and output mappings that
the source leaves as TODO are not there: the request is always the empty array. The
initial data, the execution options and the logging are not read by these functions.

A state carries the calls made so far. The code does not keep them; they are what the
results about whole runs speak of.
-/

namespace QuicproAsync.Pipeline

open Php

/-! ### Data -/

/-- `quicpro_mcp_target_config_t`. -/
structure McpTarget where
  host : Bytes
  port : BitVec 64
  serviceName : Bytes
  methodName : Bytes
  mcpClientOptions : Zval

/-- The field of `quicpro_rag_config_t` that a step reads. -/
structure RagConfig where
  enabledParamKey : Bytes

/-- The fields of `quicpro_tool_handler_config_t` that a step reads. -/
structure ToolHandler where
  mcpTarget : McpTarget
  inputProtoSchema : Bytes
  outputProtoSchema : Bytes
  ragConfig : Option RagConfig

/-- The handlers by the names they are registered under. -/
abbrev Registry := List (Bytes × ToolHandler)

/-- A call that was made, and what it returned. -/
structure Execution where
  tool : Bytes
  response : Zval

inductive PipelineError where
  /-- An exception with this message was thrown. -/
  | exception (message : Bytes)
  /-- `execute_mcp_call` failed. -/
  | mcpCall
  /-- A value that is not an array was read as one. -/
  | confusion

/-- `execute_mcp_call`, given the calls before it: target, request and the two schemas. -/
abbrev McpCall := List Execution → McpTarget → Zval → Bytes → Bytes → Option Zval

structure State where
  executionContext : HashTable
  lastConditionResult : Bool
  executed : List Execution

def State.initial : State := ⟨[], true, []⟩

/-! ### The code -/

def quicproToolHandlerGet (registry : Registry) (toolName : Bytes) : Option ToolHandler :=
  registry.lookup (cstr toolName)

/-- `zend_hash_str_find`. -/
def find (table : HashTable) (key : String) : Option Zval := table.lookup (.str (ascii key))

/-- The step is to be executed only if the last condition was met. -/
def conditionTrueOnly (step : HashTable) : Bool :=
  match find step "condition_true_only" with
  | some value => zendIsTrue value
  | none => false

/-- Whether the step asks for retrieval. The parameters are read as an array unchecked. -/
def useRag (handler : ToolHandler) (params : Option Zval) : Except PipelineError Bool :=
  match handler.ragConfig, params with
  | none, _ => .ok false
  | some _, none => .ok false
  | some rag, some (.array entries) =>
    .ok ((entries.lookup (.str (cstr rag.enabledParamKey))).any zendIsTrue)
  | some _, some _ => .error .confusion

/-- The placeholder gives the same text for every step and never fails. -/
def executeRagSubCall : Except PipelineError Zval :=
  .ok (.string (ascii "/* Retrieved RAG context would be here */"))

/-- `rag_context`, null if the step does not ask for it. -/
def ragContext (handler : ToolHandler) (params : Option Zval) : Except PipelineError Zval :=
  (useRag handler params).bind fun rag => if rag then executeRagSubCall else .ok .null

/-- The response of the conditional tool is an array with a true `condition_met`. -/
def conditionMet : Zval → Bool
  | .array entries => (find entries "condition_met").any zendIsTrue
  | _ => false

/-- `last_condition_result` after a tool has answered. -/
def conditionAfter (toolName : Bytes) (response : Zval) : Bool :=
  if cstr toolName = ascii "ConditionalLogic" then conditionMet response else true

def missingTool : PipelineError :=
  .exception (ascii "Pipeline step is missing a valid 'tool' name string.")

def noHandler (toolName : Bytes) : PipelineError :=
  .exception (ascii "No handler registered for tool '" ++ cstr toolName ++ ascii "'.")

def invalidStep : PipelineError :=
  .exception (ascii "Pipeline definition invalid: each step must be an array.")

/-- The response is filed under the name of the tool, up to its first NUL. -/
def State.record (state : State) (toolName : Bytes) (response : Zval) : State where
  executionContext := OrderedMap.assign (.str (cstr toolName)) response state.executionContext
  lastConditionResult := conditionAfter toolName response
  executed := state.executed ++ [⟨toolName, response⟩]

section Run

variable (registry : Registry) (executeMcpCall : McpCall)

/-- The part of `execute_step_c` after the tool has been found. -/
def callTool (state : State) (step : HashTable) (toolName : Bytes) (handler : ToolHandler) :
    Except PipelineError State := do
  let _context ← ragContext handler (find step "params")
  match executeMcpCall state.executed handler.mcpTarget (.array []) handler.inputProtoSchema
      handler.outputProtoSchema with
  | none => .error .mcpCall
  | some response => .ok (state.record toolName response)

def executeStepC (state : State) (step : HashTable) : Except PipelineError State :=
  if conditionTrueOnly step && !state.lastConditionResult then .ok state
  else
    match find step "tool" with
    | some (.string toolName) =>
      match quicproToolHandlerGet registry toolName with
      | some handler => callTool executeMcpCall state step toolName handler
      | none => .error (noHandler toolName)
    | _ => .error missingTool

/-- The body of the loop over the definition. -/
def pipelineStep (state : State) (stepDef : Zval) : Except PipelineError State :=
  match stepDef with
  | .array step => executeStepC registry executeMcpCall state step
  | _ => .error invalidStep

def executeSteps (definition : HashTable) : Except PipelineError State :=
  definition.foldlM (fun state entry => pipelineStep registry executeMcpCall state entry.2)
    .initial

def successKey : Key := .str (ascii "isSuccess")

def messageKey : Key := .str (ascii "finalMessage")

def finalMessage : Zval := .string (ascii "Pipeline completed successfully.")

/-- The array that is returned: `isSuccess`, all entries of the context, `finalMessage`. -/
def finalResult (context : HashTable) : HashTable :=
  let returned := OrderedMap.assign successKey (.bool true) []
  let returned := OrderedMap.assignAll context returned
  OrderedMap.assign messageKey finalMessage returned

def executePipelineC (definition : HashTable) : Except PipelineError HashTable := do
  let state ← executeSteps registry executeMcpCall definition
  return finalResult state.executionContext

end Run

/-! ### What a step can do -/

variable {registry : Registry} {executeMcpCall : McpCall} {state next : State} {step : HashTable}

/-- The step is executed: its tool is called and answers. -/
structure Executes (registry : Registry) (executeMcpCall : McpCall) (state : State)
    (step : HashTable) (next : State) (toolName : Bytes) (response : Zval) : Prop where
  named : find step "tool" = some (.string toolName)
  answered : ∃ handler, quicproToolHandlerGet registry toolName = some handler ∧
    executeMcpCall state.executed handler.mcpTarget (.array []) handler.inputProtoSchema
      handler.outputProtoSchema = some response
  recorded : next = state.record toolName response

theorem callTool_ok {toolName : Bytes} {handler : ToolHandler}
    (hcall : callTool executeMcpCall state step toolName handler = .ok next) :
    ∃ response, executeMcpCall state.executed handler.mcpTarget (.array [])
        handler.inputProtoSchema handler.outputProtoSchema = some response ∧
      next = state.record toolName response := by
  obtain ⟨context, -, hanswer⟩ := Fallible.bind_eq_ok.mp hcall
  split at hanswer
  · cases hanswer
  · rename_i response hresponse
    cases hanswer
    exact ⟨response, hresponse, rfl⟩

/-- A step that succeeds is skipped or executed. -/
theorem executeStepC_ok (hstep : executeStepC registry executeMcpCall state step = .ok next) :
    (conditionTrueOnly step = true ∧ state.lastConditionResult = false ∧ next = state) ∨
      ∃ toolName response,
        Executes registry executeMcpCall state step next toolName response := by
  unfold executeStepC at hstep
  split at hstep
  · rename_i hskip
    obtain ⟨hmarked, hflag⟩ := Bool.and_eq_true_iff.mp hskip
    cases hstep
    exact Or.inl ⟨hmarked, Bool.not_eq_eq_eq_not.mp hflag, rfl⟩
  · split at hstep
    · rename_i toolName htool
      split at hstep
      · rename_i handler hhandler
        obtain ⟨response, hresponse, hnext⟩ := callTool_ok hstep
        exact Or.inr ⟨toolName, response, htool, ⟨handler, hhandler, hresponse⟩, hnext⟩
      · cases hstep
    · cases hstep

end QuicproAsync.Pipeline
