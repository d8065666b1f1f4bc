import QuicproAsync.Machine
import QuicproAsync.Pipeline

/-!
# The tool handler registry

`tool_handler_registry.c` keeps the tools that a pipeline can call. A tool is registered under its
name with a configuration array, which is read into C structs: the agent to be called, the schemas
of its request and its response, two maps, and optionally another agent for retrieval.

A field of a struct that holds a string is none if its pointer is null. The structs start out as
zeros and are filled in field by field; the first required field that is missing or of another type
ends the registration. The maps are copies of arrays.
-/

namespace QuicproAsync.ToolHandlers

open Php Pipeline

/-! ### The structs -/

/-- `quicpro_mcp_target_config_t`. -/
structure McpTargetConfig where
  host : Option Bytes
  port : BitVec 64
  serviceName : Option Bytes
  methodName : Option Bytes
  mcpClientOptions : Zval

/-- `topics_from_previous_step`. -/
structure PreviousStep where
  sourceToolNameOrId : Option Bytes
  sourceFieldName : Option Bytes

/-- `quicpro_rag_config_t`. -/
structure RagConfig where
  enabledByDefault : Bool
  enabledParamKey : Option Bytes
  ragAgentTarget : McpTargetConfig
  requestProtoSchema : Option Bytes
  responseProtoSchema : Option Bytes
  contextOutputFieldInRagResponse : Option Bytes
  targetContextFieldInLlmRequest : Option Bytes
  topicsFromParamKey : Option Bytes
  topicsFromPreviousStep : PreviousStep
  ragParamMap : Option HashTable

/-- `quicpro_tool_handler_config_t`. -/
structure ToolHandlerConfig where
  toolName : Option Bytes
  mcpTarget : McpTargetConfig
  inputProtoSchema : Option Bytes
  outputProtoSchema : Option Bytes
  paramMap : Option HashTable
  outputMap : Option HashTable
  ragConfig : Option RagConfig

/-! ### Reading an array -/

/-- The string under a key, none if there is no entry or one of another type. -/
def stringAt (table : HashTable) (key : String) : Option Bytes :=
  match find table key with
  | some (.string text) => some text
  | _ => none

def longAt (table : HashTable) (key : String) : Option (BitVec 64) :=
  match find table key with
  | some (.long n) => some n
  | _ => none

def arrayAt (table : HashTable) (key : String) : Option HashTable :=
  match find table key with
  | some (.array entries) => some entries
  | _ => none

/-- The exception for an entry that has to be there. -/
def required (found : Option α) (message : Bytes) : Except Bytes α :=
  match found with
  | some value => .ok value
  | none => .error message

/-- The message about a field of an agent. -/
def invalidTarget (context : Bytes) (missing : String) : Bytes :=
  ascii "Invalid 'mcp_target' for '" ++ context ++ ascii "': missing " ++ ascii missing ++ ascii "."

def parseMcpTargetConfigFromPhp (table : HashTable) (context : Bytes) :
    Except Bytes McpTargetConfig := do
  let host ← required (stringAt table "host") (invalidTarget context "'host' string")
  let port ← required (longAt table "port") (invalidTarget context "'port' integer")
  let serviceName ← required (stringAt table "service_name")
    (invalidTarget context "'service_name' string")
  let methodName ← required (stringAt table "method_name")
    (invalidTarget context "'method_name' string")
  pure {
    host := some host
    port := port
    serviceName := some serviceName
    methodName := some methodName
    mcpClientOptions := (arrayAt table "mcp_options").elim .undef .array }

/-- `PARSE_RAG_STRING_FIELD`. -/
def parseRagStringField (table : HashTable) (key : String) (toolName : Bytes) :
    Except Bytes Bytes :=
  required (stringAt table key) (ascii "Invalid 'rag_config' for tool '" ++ toolName ++
    ascii "': missing or invalid string for '" ++ ascii key ++ ascii "'.")

/-- The step that the topics come from: both names, or none of them. -/
def previousStepOf (table : HashTable) : PreviousStep :=
  match arrayAt table "topics_from_previous_step_output" with
  | none => ⟨none, none⟩
  | some step =>
    match stringAt step "tool_name", stringAt step "field_name" with
    | some tool, some field => ⟨some tool, some field⟩
    | _, _ => ⟨none, none⟩

/-- `enabled_by_default` is never set. -/
def parseRagConfigFromPhp (table : HashTable) (toolName : Bytes) : Except Bytes RagConfig := do
  let agent ← required (arrayAt table "mcp_target") (ascii "Invalid 'rag_config' for tool '" ++
    toolName ++ ascii "': missing 'mcp_target' array for RAG agent.")
  let target ← parseMcpTargetConfigFromPhp agent (ascii "RAG agent")
  let enabled ← parseRagStringField table "enabled_param_key" toolName
  let request ← parseRagStringField table "request_proto_schema" toolName
  let response ← parseRagStringField table "response_proto_schema" toolName
  let context ← parseRagStringField table "context_output_field_in_rag_response" toolName
  let field ← parseRagStringField table "target_context_field_in_llm_request" toolName
  pure {
    enabledByDefault := false
    enabledParamKey := some enabled
    ragAgentTarget := target
    requestProtoSchema := some request
    responseProtoSchema := some response
    contextOutputFieldInRagResponse := some context
    targetContextFieldInLlmRequest := some field
    topicsFromParamKey := stringAt table "topics_from_param_key"
    topicsFromPreviousStep := previousStepOf table
    ragParamMap := arrayAt table "rag_param_map" }

/-- The message about a field of a tool. -/
def missingField (toolName : Bytes) (missing : String) : Bytes :=
  ascii "Tool handler for '" ++ toolName ++ ascii "' is missing required " ++ ascii missing ++
    ascii "."

/-- The retrieval agent, if there is an array for it. -/
def parseOptionalRagConfig (config : HashTable) (toolName : Bytes) :
    Except Bytes (Option RagConfig) :=
  match arrayAt config "rag_config" with
  | none => .ok none
  | some table => (parseRagConfigFromPhp table toolName).map some

/-- On an error all that was read is freed. -/
def createToolHandlerFromPhp (toolName : Bytes) (config : HashTable) :
    Except Bytes ToolHandlerConfig := do
  let agent ← required (arrayAt config "mcp_target") (missingField toolName "'mcp_target' array")
  let target ← parseMcpTargetConfigFromPhp agent toolName
  let input ← required (stringAt config "input_proto_schema")
    (missingField toolName "'input_proto_schema' string")
  let output ← required (stringAt config "output_proto_schema")
    (missingField toolName "'output_proto_schema' string")
  let ragConfig ← parseOptionalRagConfig config toolName
  pure {
    toolName := some toolName
    mcpTarget := target
    inputProtoSchema := some input
    outputProtoSchema := some output
    paramMap := arrayAt config "param_map"
    outputMap := arrayAt config "output_map"
    ragConfig := ragConfig }

/-! ### The registry -/

structure ToolRegistry where
  isInitialized : Bool
  handlers : List (Bytes × ToolHandlerConfig)

def quicproToolHandlerRegistryInit (registry : ToolRegistry) : ToolRegistry :=
  if registry.isInitialized then registry else ⟨true, []⟩

/-- The registry after the call, and the message if it returns `FAILURE`. -/
def quicproToolHandlerRegisterFromPhp (registry : ToolRegistry) (toolName : CString)
    (config : HashTable) : ToolRegistry × Option Bytes :=
  if !registry.isInitialized then
    (registry, some (ascii "Tool handler registry not initialized."))
  else if (registry.handlers.lookup toolName.val).isSome then
    (registry, some (ascii "Tool handler for '" ++ toolName.val ++
      ascii "' is already registered."))
  else
    match createToolHandlerFromPhp toolName.val config with
    | .error message => (registry, some message)
    | .ok handler =>
      ({ registry with handlers := registry.handlers ++ [(toolName.val, handler)] }, none)

/-- A sequence of registrations. -/
def step (registry : ToolRegistry) (call : CString × HashTable) : Option ToolRegistry :=
  some (quicproToolHandlerRegisterFromPhp registry call.1 call.2).1

/-! ### Handlers that are as given -/

/-- The field is set, to the string under the key. -/
def IsGiven (table : HashTable) (key : String) (field : Option Bytes) : Prop :=
  ∃ text, stringAt table key = some text ∧ field = some text

structure TargetGiven (table : HashTable) (target : McpTargetConfig) : Prop where
  host : IsGiven table "host" target.host
  port : longAt table "port" = some target.port
  serviceName : IsGiven table "service_name" target.serviceName
  methodName : IsGiven table "method_name" target.methodName

structure RagGiven (table : HashTable) (rag : RagConfig) : Prop where
  target : ∃ agent, arrayAt table "mcp_target" = some agent ∧ TargetGiven agent rag.ragAgentTarget
  enabledParamKey : IsGiven table "enabled_param_key" rag.enabledParamKey
  requestProtoSchema : IsGiven table "request_proto_schema" rag.requestProtoSchema
  responseProtoSchema : IsGiven table "response_proto_schema" rag.responseProtoSchema
  contextOutputField :
    IsGiven table "context_output_field_in_rag_response" rag.contextOutputFieldInRagResponse
  targetContextField :
    IsGiven table "target_context_field_in_llm_request" rag.targetContextFieldInLlmRequest

/-- The handler is what the configuration says, with nothing missing that is required. -/
structure HandlerGiven (config : HashTable) (handler : ToolHandlerConfig) : Prop where
  target : ∃ agent, arrayAt config "mcp_target" = some agent ∧ TargetGiven agent handler.mcpTarget
  inputProtoSchema : IsGiven config "input_proto_schema" handler.inputProtoSchema
  outputProtoSchema : IsGiven config "output_proto_schema" handler.outputProtoSchema
  rag : ∀ rag, handler.ragConfig = some rag →
    ∃ table, arrayAt config "rag_config" = some table ∧ RagGiven table rag

/-! ### The parsers -/

theorem required_eq_ok {found : Option α} {message : Bytes} {value : α} :
    required found message = .ok value ↔ found = some value := by
  cases found with
  | none => exact iff_of_false nofun nofun
  | some other => simp [required]

theorem targetGiven_of_parse {table : HashTable} {context : Bytes} {target : McpTargetConfig}
    (hparse : parseMcpTargetConfigFromPhp table context = .ok target) :
    TargetGiven table target := by
  simp only [parseMcpTargetConfigFromPhp, Fallible.bind_eq_ok, required_eq_ok] at hparse
  obtain ⟨host, hhost, port, hport, service, hservice, method, hmethod, hparse⟩ := hparse
  cases hparse
  exact ⟨⟨host, hhost, rfl⟩, hport, ⟨service, hservice, rfl⟩, ⟨method, hmethod, rfl⟩⟩

theorem ragGiven_of_parse {table : HashTable} {toolName : Bytes} {rag : RagConfig}
    (hparse : parseRagConfigFromPhp table toolName = .ok rag) : RagGiven table rag := by
  simp only [parseRagConfigFromPhp, parseRagStringField, Fallible.bind_eq_ok, required_eq_ok]
    at hparse
  obtain ⟨agent, hagent, target, htarget, enabled, henabled, request, hrequest, response,
    hresponse, context, hcontext, field, hfield, hparse⟩ := hparse
  cases hparse
  exact ⟨⟨agent, hagent, targetGiven_of_parse htarget⟩, ⟨enabled, henabled, rfl⟩,
    ⟨request, hrequest, rfl⟩, ⟨response, hresponse, rfl⟩, ⟨context, hcontext, rfl⟩,
    ⟨field, hfield, rfl⟩⟩

variable {handler : ToolHandlerConfig}

theorem handlerGiven_of_create {toolName : Bytes} {config : HashTable}
    (hcreate : createToolHandlerFromPhp toolName config = .ok handler) :
    HandlerGiven config handler := by
  simp only [createToolHandlerFromPhp, Fallible.bind_eq_ok, required_eq_ok] at hcreate
  obtain ⟨agent, hagent, target, htarget, input, hinput, output, houtput, ragConfig, hrag,
    hcreate⟩ := hcreate
  cases hcreate
  refine ⟨⟨agent, hagent, targetGiven_of_parse htarget⟩, ⟨input, hinput, rfl⟩,
    ⟨output, houtput, rfl⟩, ?_⟩
  intro rag hsome
  unfold parseOptionalRagConfig at hrag
  split at hrag
  · cases hrag
    exact nomatch hsome
  · next table htable =>
      cases hparsed : parseRagConfigFromPhp table toolName with
      | error message =>
        rw [hparsed] at hrag
        exact nomatch hrag
      | ok parsed =>
        rw [hparsed] at hrag
        cases hrag
        cases hsome
        exact ⟨table, htable, ragGiven_of_parse hparsed⟩

/-! ### Registrations -/

/-- A registration fails and changes nothing, or adds a handler under a new name. -/
theorem register_cases (registry : ToolRegistry) (toolName : CString) (config : HashTable) :
    (∃ message, quicproToolHandlerRegisterFromPhp registry toolName config =
        (registry, some message)) ∨
      ∃ handler, registry.handlers.lookup toolName.val = none ∧ HandlerGiven config handler ∧
        quicproToolHandlerRegisterFromPhp registry toolName config =
          ({ registry with handlers := registry.handlers ++ [(toolName.val, handler)] },
            none) := by
  unfold quicproToolHandlerRegisterFromPhp
  split
  · exact Or.inl ⟨_, rfl⟩
  · split
    · exact Or.inl ⟨_, rfl⟩
    · next hnew =>
        cases hcreate : createToolHandlerFromPhp toolName.val config with
        | error message => exact Or.inl ⟨message, rfl⟩
        | ok handler =>
          have hnone := Option.not_isSome_iff_eq_none.mp hnew
          exact Or.inr ⟨handler, hnone, handlerGiven_of_create hcreate, rfl⟩

variable {registry : ToolRegistry} {calls : List (CString × HashTable)}

/-- A name that is registered keeps its handler. -/
theorem lookup_after {final : ToolRegistry} {name : Bytes}
    (hafter : Machine.after step registry calls = some final)
    (hregistered : registry.handlers.lookup name = some handler) :
    final.handlers.lookup name = some handler := by
  refine Machine.invariant
    (P := fun _ registry => registry.handlers.lookup name = some handler) hregistered ?_ hafter
  intro _ registry call next _ ih hstep
  cases hstep
  rcases register_cases registry call.1 call.2 with ⟨message, hfails⟩ | ⟨added, -, -, hadds⟩
  · rw [hfails]
    exact ih
  · rw [hadds, List.lookup_append, ih]
    rfl

/-- Every handler comes from one of the calls, with the name and the configuration of that call. -/
theorem handlers_given {start : ToolRegistry} (hstart : start.handlers = [])
    (hafter : Machine.after step start calls = some registry) :
    ∀ entry ∈ registry.handlers, ∃ call ∈ calls, call.1.val = entry.1 ∧
      HandlerGiven call.2 entry.2 := by
  refine Machine.invariant
    (P := fun calls registry => ∀ entry ∈ registry.handlers, ∃ call ∈ calls,
      call.1.val = entry.1 ∧ HandlerGiven call.2 entry.2)
    (by rw [hstart]; exact List.forall_mem_nil _) ?_ hafter
  intro calls registry call next _ ih hstep entry hentry
  cases hstep
  have hearlier : entry ∈ registry.handlers → ∃ other ∈ calls ++ [call],
      other.1.val = entry.1 ∧ HandlerGiven other.2 entry.2 := by
    intro hold
    obtain ⟨other, hother, hgiven⟩ := ih entry hold
    exact ⟨other, List.mem_append_left _ hother, hgiven⟩
  rcases register_cases registry call.1 call.2 with ⟨message, hfails⟩ | ⟨added, -, hgiven, hadds⟩
  · rw [hfails] at hentry
    exact hearlier hentry
  · rw [hadds, List.mem_append, List.mem_singleton] at hentry
    rcases hentry with hold | rfl
    · exact hearlier hold
    · exact ⟨call, List.mem_append_right _ List.mem_cons_self, rfl, hgiven⟩

/-- **The registry keeps its integrity** under every sequence of registrations. Each handler is
    what the configuration given for it says. A call that succeeds adds exactly its own name, a
    call that fails changes nothing, and a name keeps the handler that it was first registered
    with. -/
theorem registry_integrity (start registry : ToolRegistry) (calls : List (CString × HashTable))
    (hstart : start.handlers = []) (hafter : Machine.after step start calls = some registry) :
    (∀ entry ∈ registry.handlers, ∃ call ∈ calls, call.1.val = entry.1 ∧
        HandlerGiven call.2 entry.2) ∧
      (∀ name config next, quicproToolHandlerRegisterFromPhp registry name config = (next, none) →
        name.val ∉ OrderedMap.keys registry.handlers ∧ ∃ handler, HandlerGiven config handler ∧
          next.handlers = registry.handlers ++ [(name.val, handler)]) ∧
      (∀ name config next message,
        quicproToolHandlerRegisterFromPhp registry name config = (next, some message) →
          next = registry) ∧
      ∀ more final name handler, Machine.after step registry more = some final →
        registry.handlers.lookup name = some handler →
          final.handlers.lookup name = some handler := by
  refine ⟨handlers_given hstart hafter, ?_, ?_, fun _ _ _ _ => lookup_after⟩
  · intro name config next hsucceeds
    rcases register_cases registry name config with
      ⟨message, hfails⟩ | ⟨handler, hnew, hgiven, hadds⟩
    · rw [hfails] at hsucceeds
      exact nomatch hsucceeds
    · rw [hadds] at hsucceeds
      cases hsucceeds
      exact ⟨OrderedMap.lookup_eq_none_iff_not_mem_keys.mp hnew, handler, hgiven, rfl⟩
  · intro name config next message hfailed
    rcases register_cases registry name config with ⟨other, hfails⟩ | ⟨handler, -, -, hadds⟩
    · rw [hfails] at hfailed
      cases hfailed
      rfl
    · rw [hadds] at hfailed
      exact nomatch hfailed

/-- A tool with nothing but what is required. -/
def echoConfig : HashTable :=
  [(.str (ascii "mcp_target"), .array [(.str (ascii "host"), .string (ascii "localhost")),
      (.str (ascii "port"), .long 4433), (.str (ascii "service_name"), .string (ascii "Echo")),
      (.str (ascii "method_name"), .string (ascii "echo"))]),
    (.str (ascii "input_proto_schema"), .string (ascii "EchoRequest")),
    (.str (ascii "output_proto_schema"), .string (ascii "EchoResponse"))]

def echoName : CString := ⟨ascii "Echo", by decide⟩

/-- The tool is registered, and again with an empty array: the first handler stays. -/
theorem echo_registered : ∃ registry,
    Machine.after step (quicproToolHandlerRegistryInit ⟨false, []⟩)
        [(echoName, echoConfig), (echoName, [])] = some registry ∧
      OrderedMap.keys registry.handlers = [echoName.val] ∧
      ∀ entry ∈ registry.handlers, ∃ call ∈ [(echoName, echoConfig), (echoName, [])],
        call.1.val = entry.1 ∧ HandlerGiven call.2 entry.2 := by
  have hnames : (Machine.after step (quicproToolHandlerRegistryInit ⟨false, []⟩)
      [(echoName, echoConfig), (echoName, [])]).map (fun registry =>
        OrderedMap.keys registry.handlers) = some [echoName.val] := by decide
  obtain ⟨registry, hafter, hkeys⟩ := Option.map_eq_some_iff.mp hnames
  exact ⟨registry, hafter, hkeys, (registry_integrity _ registry _ rfl hafter).1⟩

/-! ### What a step of a pipeline reads -/

/-- The fields of an agent, if none of its pointers is null. -/
def McpTargetConfig.read (target : McpTargetConfig) : Option McpTarget := do
  let host ← target.host
  let serviceName ← target.serviceName
  let methodName ← target.methodName
  pure ⟨host, target.port, serviceName, methodName, target.mcpClientOptions⟩

def RagConfig.read (rag : RagConfig) : Option Pipeline.RagConfig :=
  rag.enabledParamKey.map Pipeline.RagConfig.mk

def ToolHandlerConfig.read (handler : ToolHandlerConfig) : Option ToolHandler := do
  let mcpTarget ← handler.mcpTarget.read
  let inputProtoSchema ← handler.inputProtoSchema
  let outputProtoSchema ← handler.outputProtoSchema
  match handler.ragConfig with
  | none => pure ⟨mcpTarget, inputProtoSchema, outputProtoSchema, none⟩
  | some rag =>
    let ragConfig ← rag.read
    pure ⟨mcpTarget, inputProtoSchema, outputProtoSchema, some ragConfig⟩

/-- The registry as the orchestrator sees it. -/
def ToolRegistry.forSteps (registry : ToolRegistry) : Pipeline.Registry :=
  registry.handlers.filterMap fun entry => entry.2.read.map (Prod.mk entry.1)

theorem TargetGiven.read {table : HashTable} {target : McpTargetConfig}
    (hgiven : TargetGiven table target) : ∃ agent, target.read = some agent := by
  obtain ⟨host, -, hhost⟩ := hgiven.host
  obtain ⟨service, -, hservice⟩ := hgiven.serviceName
  obtain ⟨method, -, hmethod⟩ := hgiven.methodName
  refine ⟨⟨host, target.port, service, method, target.mcpClientOptions⟩, ?_⟩
  rw [McpTargetConfig.read, hhost, hservice, hmethod]
  rfl

/-- Where nothing that is required is missing, a step finds no null pointer. -/
theorem HandlerGiven.read {config : HashTable} (hgiven : HandlerGiven config handler) :
    ∃ tool, handler.read = some tool := by
  obtain ⟨agent, -, htarget⟩ := hgiven.target
  obtain ⟨mcpTarget, hread⟩ := htarget.read
  obtain ⟨input, -, hinput⟩ := hgiven.inputProtoSchema
  obtain ⟨output, -, houtput⟩ := hgiven.outputProtoSchema
  cases hrag : handler.ragConfig with
  | none =>
    refine ⟨⟨mcpTarget, input, output, none⟩, ?_⟩
    rw [ToolHandlerConfig.read, hread, hinput, houtput, hrag]
    rfl
  | some rag =>
    obtain ⟨table, -, hcomplete⟩ := hgiven.rag rag hrag
    obtain ⟨enabled, -, henabled⟩ := hcomplete.enabledParamKey
    refine ⟨⟨mcpTarget, input, output, some ⟨enabled⟩⟩, ?_⟩
    rw [ToolHandlerConfig.read, hread, hinput, houtput, hrag]
    simp [RagConfig.read, henabled]

/-- **A step finds every tool that is registered**, after any sequence of registrations, and reads
    it without a null pointer. -/
theorem quicproToolHandlerGet_forSteps {start : ToolRegistry} (hstart : start.handlers = [])
    (hafter : Machine.after step start calls = some registry) (toolName : Bytes) :
    (quicproToolHandlerGet registry.forSteps toolName).isSome =
      (registry.handlers.lookup (cstr toolName)).isSome := by
  have hread : ∀ entry ∈ registry.handlers, ∃ tool, entry.2.read = some tool := by
    intro entry hentry
    obtain ⟨call, -, -, hgiven⟩ := handlers_given hstart hafter entry hentry
    exact hgiven.read
  rw [quicproToolHandlerGet, ToolRegistry.forSteps]
  generalize registry.handlers = handlers at hread ⊢
  induction handlers with
  | nil => rfl
  | cons entry rest ih =>
    obtain ⟨tool, htool⟩ := hread entry List.mem_cons_self
    have hrest := ih fun other hother => hread other (List.mem_cons_of_mem _ hother)
    rw [List.filterMap_cons_some (by rw [htool]; rfl), List.lookup_cons, List.lookup_cons]
    split
    · rfl
    · exact hrest

end QuicproAsync.ToolHandlers
