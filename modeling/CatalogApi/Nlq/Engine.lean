import CatalogApi.Lib.Numerals
import Mathlib.Data.List.Nodup

/-!
# The tool-use loop of the NLQ engine

`api/nlq/engine.py` and the dispatch of `api/nlq/tools.py`. The model answers as it likes and the
tools return what they like: every request is still a transcript that the Messages API takes, in
which each tool use of the model is answered in the next message (`run_conversation`), and a user
who is not signed in runs no tool that reads a collection.
-/

namespace CatalogApi.Nlq

/-! ## Tools -/

/-- The names of `get_public_tool_schemas`. -/
def publicTools : List String :=
  ["search", "autocomplete", "explore_entity", "find_path", "get_collaborators",
    "get_similar_artists", "get_label_dna", "get_trends", "get_genre_tree", "get_graph_stats"]

/-- `_AUTH_TOOLS`, the names of `get_authenticated_tool_schemas`. -/
def authTools : List String :=
  ["get_collection_gaps", "get_taste_fingerprint", "get_taste_blindspots", "get_collection_stats"]

/-- `_ACTION_TOOL_TO_TYPE`. -/
def actionToolToType : List (String × String) :=
  [("ui_seed_graph", "seed_graph"), ("ui_highlight_path", "highlight_path"),
    ("ui_focus_node", "focus_node"), ("ui_filter_graph", "filter_graph"),
    ("ui_find_path", "find_path"), ("ui_show_credits", "show_credits"),
    ("ui_switch_pane", "switch_pane"), ("ui_open_insight_tile", "open_insight_tile"),
    ("ui_set_trend_range", "set_trend_range"), ("ui_suggest_followups", "suggest_followups")]

/-- `_ACTION_TOOLS`. -/
def actionTools : List String := actionToolToType.map (·.1)

/-- The tools with a handler. -/
def handledTools : List String := publicTools ++ authTools

/-- An entity of an answer. -/
structure Entity where
  id : String
  name : String
  type : String

/-- An item of a tool result; a field that is absent is `none`. -/
structure ResultItem where
  id : Option String
  name : Option String
  type : Option String
  labels : List String

/-- The keys of a tool result that the engine reads, and what the result is sent back as. -/
structure ToolResult (Content : Type) where
  isError : Bool
  results : List ResultItem
  nodes : List ResultItem
  id : Option String
  name : Option String
  entityType : Option String
  content : Content

/-- A text, and nothing for an empty one. -/
def truthy (text : Option String) : Option String := text.filter fun text => text ≠ ""

/-- `_VALID_PATH_TYPES`. -/
def validPathTypes : List String := ["artist", "genre", "label", "style"]

/-- `node_label_to_type`, with `str.lower`. -/
def nodeLabelToType (lower : String → String) (labels : List String) : String :=
  match (labels.map lower).find? fun label => label ∈ validPathTypes with
  | some type => type
  | none => (labels.head?.map lower).getD "unknown"

section Engine

variable {User Params Action Content : Type}

/-- `extract_entities`. -/
def extractEntities (lower : String → String) (toolName : String)
    (result : ToolResult Content) : List Entity :=
  if result.isError then []
  else if toolName = "search" then
    result.results.map fun item => ⟨item.id.getD "", item.name.getD "", item.type.getD ""⟩
  else if toolName = "autocomplete" then
    result.results.map fun item => ⟨item.id.getD "", item.name.getD "",
      (truthy item.type).getD (result.entityType.getD "")⟩
  else if toolName = "explore_entity" then
    match truthy result.id, truthy result.name with
    | some id, some name => [⟨id, name, result.entityType.getD ""⟩]
    | _, _ => []
  else if toolName = "find_path" then
    result.nodes.map fun node => ⟨node.id.getD "", node.name.getD "",
      (truthy node.type).getD (nodeLabelToType lower node.labels)⟩
  else []

/-! ## The conversation -/

/-- A block of the model's answer. -/
inductive Block (Params : Type) where
  | text (text : String)
  | toolUse (id name : String) (input : Params)

/-- The id of a tool use. -/
def Block.toolUseId : Block Params → Option String
  | .text _ => none
  | .toolUse id _ _ => some id

/-- The name of the tool that is used. -/
def Block.toolName : Block Params → Option String
  | .text _ => none
  | .toolUse _ name _ => some name

/-- A message of the conversation. -/
inductive Message (Params Content : Type) where
  | query (text : String)
  | assistant (content : List (Block Params))
  | toolResults (results : List (String × Content))

/-- What the model answers. -/
structure ModelResponse (Params : Type) where
  endTurn : Bool
  content : List (Block Params)

/-- `NLQContext`. -/
structure Context (User : Type) where
  userId : Option User
  currentEntityId : Option String
  currentEntityType : Option String

/-- What surrounds the engine: the model's answers by the number of the request, the handlers by the
number of the call, the parser of actions, the results that the dispatch itself makes and `str.lower`.
A handler that raises returns `none`. -/
structure World (User Params Action Content : Type) where
  answers : Nat → ModelResponse Params
  handler : Nat → String → Params → Option User → Option (ToolResult Content)
  parseAction : String → Params → Except String Action
  errorContent : String → Content
  okContent : Content
  lower : String → String

/-- `{"error": …}`. -/
def World.error (world : World User Params Action Content) (text : String) : ToolResult Content :=
  { isError := true, results := [], nodes := [], id := none, name := none, entityType := none,
    content := world.errorContent text }

/-- Where a run stands. `handled` are the handlers that ran, with the user they ran for, and
`requests` the messages of the requests sent. -/
structure State (User Params Action Content : Type) where
  messages : List (Message Params Content)
  toolsUsed : List String
  entities : List Entity
  actions : List Action
  handled : List (String × Option User)
  requests : List (List (Message Params Content))

/-- `NLQToolRunner.execute`: the result, the actions and the handlers after it. -/
def execute (world : World User Params Action Content) (userId : Option User) (toolName : String)
    (params : Params) (state : State User Params Action Content) :
    ToolResult Content × State User Params Action Content :=
  match actionToolToType.find? fun entry => entry.1 = toolName with
  | some (_, actionType) =>
      match world.parseAction actionType params with
      | .ok action =>
          ({ world.error "" with isError := false, content := world.okContent },
            { state with actions := state.actions ++ [action] })
      | .error error => (world.error ("Invalid " ++ actionType ++ " payload: " ++ error), state)
  | none =>
      if toolName ∈ authTools ∧ userId.isNone then
        (world.error "Authentication required for this tool", state)
      else if toolName ∈ handledTools then
        let state' := { state with handled := state.handled ++ [(toolName, userId)] }
        match world.handler state.handled.length toolName params userId with
        | some result => (result, state')
        | none => (world.error ("Tool '" ++ toolName ++ "' failed"), state')
      else (world.error ("Unknown tool: " ++ toolName), state)

/-- The tool results of the blocks of an answer, and the state after their tools ran. -/
def runBlocks (world : World User Params Action Content) (userId : Option User) :
    List (Block Params) → State User Params Action Content →
      List (String × Content) × State User Params Action Content
  | [], state => ([], state)
  | .text _ :: blocks, state => runBlocks world userId blocks state
  | .toolUse id name input :: blocks, state =>
      let (result, state) := execute world userId name input state
      let (results, state) := runBlocks world userId blocks
        { state with
          toolsUsed := state.toolsUsed ++ [name]
          entities := state.entities ++ extractEntities world.lower name result }
      ((id, result.content) :: results, state)

/-- `_extract_text`. -/
def extractText (response : ModelResponse Params) : String :=
  " ".intercalate (response.content.filterMap fun
    | .text text => some text
    | .toolUse _ _ _ => none)

/-- The rest of the loop, with the last answer so far: the summary and the state. -/
def loop (world : World User Params Action Content) (userId : Option User) :
    Nat → Option (ModelResponse Params) → State User Params Action Content →
      String × State User Params Action Content
  | 0, response, state => ((response.map extractText).getD "", state)
  | iterations + 1, _, state =>
      let response := world.answers state.requests.length
      let state := { state with requests := state.requests ++ [state.messages] }
      if response.endTurn then (extractText response, state)
      else
        let (results, state) := runBlocks world userId response.content state
        let state := { state with messages := state.messages ++ [.assistant response.content] }
        if results.isEmpty then (extractText response, state)
        else loop world userId iterations (some response)
          { state with messages := state.messages ++ [.toolResults results] }

/-! ## The result -/

/-- `_OFF_TOPIC_REDIRECT`. -/
def offTopicRedirect : String :=
  "I can only answer questions about the GrooveMap music database. " ++
    "Try asking about an artist, label, or genre!"

/-- `_apply_off_topic_guardrail`; a refusal passes through like any other text. -/
def applyOffTopicGuardrail (summary : String) : String :=
  if Numerals.strip summary = "" then offTopicRedirect else summary

/-- `_deduplicate_entities`, from the keys seen so far. -/
def deduplicateEntities (seen : List (String × String)) : List Entity → List Entity
  | [] => []
  | entity :: entities =>
      if (entity.id, entity.type) ∈ seen then deduplicateEntities seen entities
      else entity :: deduplicateEntities ((entity.id, entity.type) :: seen) entities

/-- `NLQResult`. -/
structure NLQResult (Action : Type) where
  summary : String
  entities : List Entity
  toolsUsed : List String
  actions : List Action

/-- The content of the first message. -/
def userContent (query : String) (context : Context User) : String :=
  match context.currentEntityId, context.currentEntityType with
  | some id, some type =>
      "[Context: the user is currently viewing " ++ type ++ " \"" ++ id ++ "\" " ++
        "in the Explore pane. Resolve references like \"this artist\" or \"them\" to it.]\n\n" ++
        query
  | _, _ => query

/-- A run before its first request. -/
def State.start (query : String) (context : Context User) : State User Params Action Content :=
  { messages := [.query (userContent query context)]
    toolsUsed := [], entities := [], actions := [], handled := [], requests := [] }

/-- `NLQEngine.run`: the result and the state at its end. -/
def run (world : World User Params Action Content) (maxIterations : Nat) (query : String)
    (context : Context User) : NLQResult Action × State User Params Action Content :=
  let (summary, state) := loop world context.userId maxIterations none (State.start query context)
  ({ summary := if state.toolsUsed.isEmpty then applyOffTopicGuardrail summary else summary
     entities := deduplicateEntities [] state.entities
     toolsUsed := state.toolsUsed
     actions := state.actions }, state)

/-! ## Transcripts -/

/-- A transcript that the Messages API takes: the query, and turns in which the tool uses of the
model, of which there is one at least, are answered in the next message, in order. -/
inductive Turns (query : String) : List (Message Params Content) → Prop
  | query : Turns query [.query query]
  | turn {messages : List (Message Params Content)} (h : Turns query messages)
      {content : List (Block Params)} {results : List (String × Content)} (hne : results ≠ [])
      (hids : results.map (·.1) = content.filterMap Block.toolUseId) :
      Turns query (messages ++ [.assistant content] ++ [.toolResults results])

/-- The blocks of the model in a transcript. -/
def Message.blocks : Message Params Content → List (Block Params)
  | .assistant content => content
  | _ => []

/-- The action that a block records. -/
def Block.action (world : World User Params Action Content) : Block Params → Option Action
  | .text _ => none
  | .toolUse _ name input =>
      (actionToolToType.find? fun entry => entry.1 = name).bind fun entry =>
        (world.parseAction entry.2 input).toOption

/-- The tool is no action tool, and has a handler that runs for the user. -/
def Runs (userId : Option User) (name : String) : Prop :=
  name ∉ actionTools ∧ name ∈ handledTools ∧ (name ∈ authTools → userId.isSome = true)

instance (userId : Option User) (name : String) : Decidable (Runs userId name) :=
  inferInstanceAs (Decidable (_ ∧ _ ∧ _))

variable {world : World User Params Action Content} {userId : Option User}

/-- What the execution of a tool does to a run. -/
structure Executed (world : World User Params Action Content) (userId : Option User)
    (block : Block Params) (name : String) (before after : State User Params Action Content) :
    Prop where
  messages : after.messages = before.messages
  requests : after.requests = before.requests
  toolsUsed : after.toolsUsed = before.toolsUsed
  actions : after.actions = before.actions ++ (block.action world).toList
  handled : after.handled = before.handled ++
    if Runs userId name then [(name, userId)] else []

theorem action_tool_iff {name : String} :
    name ∈ actionTools ↔ (actionToolToType.find? fun entry => entry.1 = name).isSome = true := by
  rw [actionTools, List.mem_map, List.find?_isSome]
  simp

/-- What a tool call adds to the state. -/
theorem execute_spec (id name : String) (input : Params)
    (state : State User Params Action Content) :
    Executed world userId (.toolUse id name input) name state
      (execute world userId name input state).2 := by
  rw [execute]
  split
  case h_1 found actionType hfind =>
    have hruns : ¬Runs userId name := fun hruns =>
      hruns.1 (action_tool_iff.mpr (by rw [hfind]; rfl))
    split
    case h_1 action hparse =>
      refine ⟨rfl, rfl, rfl, ?_, ?_⟩
      · simp [Block.action, hfind, hparse, Except.toOption]
      · rw [if_neg hruns, List.append_nil]
    case h_2 error hparse =>
      refine ⟨rfl, rfl, rfl, ?_, ?_⟩
      · simp [Block.action, hfind, hparse, Except.toOption]
      · rw [if_neg hruns, List.append_nil]
  case h_2 hfind =>
    have hnone : name ∉ actionTools := fun hmem => by
      rw [action_tool_iff, hfind] at hmem
      cases hmem
    have haction : (Block.toolUse id name input).action world = none := by
      rw [Block.action, hfind, Option.bind_none]
    split
    case isTrue hauth =>
      have hruns : ¬Runs userId name := fun hruns => by
        rw [Option.isNone_iff_eq_none] at hauth
        have hsome := hruns.2.2 hauth.1
        rw [hauth.2] at hsome
        cases hsome
      exact ⟨rfl, rfl, rfl, by simp [haction], by simp [hruns]⟩
    case isFalse hauth =>
      have hallowed : name ∈ authTools → userId.isSome = true := fun hmem => by
        cases userId with
        | none => exact absurd ⟨hmem, rfl⟩ hauth
        | some user => rfl
      split
      case isTrue hhandled =>
        have hruns : Runs userId name := ⟨hnone, hhandled, hallowed⟩
        dsimp only
        split
        case h_1 => exact ⟨rfl, rfl, rfl, by simp [haction], by simp [hruns]⟩
        case h_2 => exact ⟨rfl, rfl, rfl, by simp [haction], by simp [hruns]⟩
      case isFalse hhandled =>
        have hruns : ¬Runs userId name := fun hruns => hhandled hruns.2.1
        exact ⟨rfl, rfl, rfl, by simp [haction], by simp [hruns]⟩

/-- What the tools of an answer do to a run. -/
structure BlocksRun (world : World User Params Action Content) (userId : Option User)
    (blocks : List (Block Params)) (results : List (String × Content))
    (before after : State User Params Action Content) : Prop where
  messages : after.messages = before.messages
  requests : after.requests = before.requests
  toolsUsed : after.toolsUsed = before.toolsUsed ++ blocks.filterMap Block.toolName
  actions : after.actions = before.actions ++ blocks.filterMap (Block.action world)
  handled : after.handled = before.handled ++
    ((blocks.filterMap Block.toolName).filter fun name => Runs userId name).map (·, userId)
  answered : results.map (·.1) = blocks.filterMap Block.toolUseId

/-- What the blocks of a response add to the state, in order. -/
theorem run_blocks_spec (blocks : List (Block Params)) (state : State User Params Action Content) :
    BlocksRun world userId blocks (runBlocks world userId blocks state).1 state
      (runBlocks world userId blocks state).2 := by
  induction blocks generalizing state with
  | nil => exact ⟨rfl, rfl, by simp [runBlocks], by simp [runBlocks], by simp [runBlocks], rfl⟩
  | cons block blocks ih =>
      cases block with
      | text text =>
          obtain ⟨hmessages, hrequests, htools, hactions, hhandled, hanswered⟩ := ih state
          exact ⟨hmessages, hrequests, htools, hactions, hhandled, hanswered⟩
      | toolUse id name input =>
          have hone : Executed world userId (.toolUse id name input) name state
              (execute world userId name input state).2 := execute_spec id name input state
          rw [runBlocks]
          generalize execute world userId name input state = executed at hone
          obtain ⟨result, next⟩ := executed
          dsimp only at hone ⊢
          obtain ⟨hmessages, hrequests, htools, hactions, hhandled, hanswered⟩ := ih
            { next with
              toolsUsed := next.toolsUsed ++ [name]
              entities := next.entities ++ extractEntities world.lower name result }
          refine ⟨hmessages.trans hone.messages, hrequests.trans hone.requests, ?_, ?_, ?_, ?_⟩
          · rw [htools, List.filterMap_cons, Block.toolName]
            simp [hone.toolsUsed]
          · rw [hactions, List.filterMap_cons]
            cases haction : (Block.toolUse id name input).action world <;>
              simp [hone.actions, haction]
          · rw [hhandled, List.filterMap_cons, Block.toolName]
            by_cases hruns : Runs userId name <;> simp [hone.handled, hruns]
          · rw [List.map_cons, hanswered, List.filterMap_cons, Block.toolUseId]

/-! ## Runs -/

/-- The blocks of the model in the messages of a run. -/
def State.blocks (state : State User Params Action Content) : List (Block Params) :=
  state.messages.flatMap Message.blocks

/-- What holds of a run at every point: the requests are transcripts, each a beginning of those after
it and of the messages, and the tools used, the actions and the handlers that ran are those of the
tool uses in the messages. -/
structure Sound (world : World User Params Action Content) (userId : Option User) (query : String)
    (state : State User Params Action Content) : Prop where
  requests : ∀ request ∈ state.requests, Turns query request ∧ request <+: state.messages
  extends_earlier : state.requests.Pairwise fun earlier later => earlier <+: later
  toolsUsed : state.toolsUsed = state.blocks.filterMap Block.toolName
  actions : state.actions = state.blocks.filterMap (Block.action world)
  handled : state.handled =
    (state.toolsUsed.filter fun name => Runs userId name).map (·, userId)

/-- The messages are sent. -/
theorem Sound.send {query : String} {state : State User Params Action Content}
    (h : Sound world userId query state) (hturns : Turns query state.messages) :
    Sound world userId query { state with requests := state.requests ++ [state.messages] } where
  requests := fun request hrequest => by
    rcases List.mem_append.mp hrequest with hold | hnew
    · exact h.requests request hold
    · rw [List.mem_singleton.mp hnew]
      exact ⟨hturns, List.prefix_refl _⟩
  extends_earlier := List.pairwise_append.mpr ⟨h.extends_earlier, List.pairwise_singleton _ _,
    fun request hrequest last hlast => by
      rw [List.mem_singleton.mp hlast]
      exact (h.requests request hrequest).2⟩
  toolsUsed := h.toolsUsed
  actions := h.actions
  handled := h.handled

/-- The answer is put after the messages once its tools ran. -/
theorem Sound.answer {query : String} {state after : State User Params Action Content}
    {content : List (Block Params)} {results : List (String × Content)}
    (h : Sound world userId query state)
    (hrun : BlocksRun world userId content results state after) :
    Sound world userId query { after with messages := after.messages ++ [.assistant content] } where
  requests := fun request hrequest => by
    rw [show after.requests = state.requests from hrun.requests] at hrequest
    obtain ⟨hturns, hprefix⟩ := h.requests request hrequest
    refine ⟨hturns, ?_⟩
    rw [hrun.messages]
    exact hprefix.trans (List.prefix_append _ _)
  extends_earlier := by
    rw [show after.requests = state.requests from hrun.requests]
    exact h.extends_earlier
  toolsUsed := by
    show after.toolsUsed = ((after.messages ++ [Message.assistant content]).flatMap
      Message.blocks).filterMap Block.toolName
    rw [hrun.toolsUsed, hrun.messages, h.toolsUsed]
    simp [State.blocks, Message.blocks]
  actions := by
    show after.actions = ((after.messages ++ [Message.assistant content]).flatMap
      Message.blocks).filterMap (Block.action world)
    rw [hrun.actions, hrun.messages, h.actions]
    simp [State.blocks, Message.blocks]
  handled := by
    show after.handled = (after.toolsUsed.filter fun name => Runs userId name).map (·, userId)
    rw [hrun.handled, hrun.toolsUsed, h.handled]
    simp

/-- Tool results hold no blocks of the model. -/
theorem Sound.results {query : String} {state : State User Params Action Content}
    (h : Sound world userId query state) (results : List (String × Content)) :
    Sound world userId query
      { state with messages := state.messages ++ [.toolResults results] } where
  requests := fun request hrequest =>
    ⟨(h.requests request hrequest).1,
      (h.requests request hrequest).2.trans (List.prefix_append _ _)⟩
  extends_earlier := h.extends_earlier
  toolsUsed := by
    have hsame := h.toolsUsed
    simp only [State.blocks, List.flatMap_append] at hsame ⊢
    simpa [Message.blocks] using hsame
  actions := by
    have hsame := h.actions
    simp only [State.blocks, List.flatMap_append] at hsame ⊢
    simpa [Message.blocks] using hsame
  handled := h.handled

/-- The loop keeps the invariant and sends at most one request an iteration. -/
theorem loop_sound {query : String} (iterations : Nat) (response : Option (ModelResponse Params))
    {state : State User Params Action Content} (h : Sound world userId query state)
    (hturns : Turns query state.messages) :
    Sound world userId query (loop world userId iterations response state).2 ∧
      (loop world userId iterations response state).2.requests.length ≤
        state.requests.length + iterations := by
  induction iterations generalizing response state with
  | zero => exact ⟨h, Nat.le_refl _⟩
  | succ iterations ih =>
      have hsent := h.send hturns
      rw [loop]
      dsimp only
      split
      · refine ⟨hsent, ?_⟩
        simp only [List.length_append, List.length_singleton]
        omega
      · generalize hran : runBlocks world userId (world.answers state.requests.length).content
          { state with requests := state.requests ++ [state.messages] } = ran
        have hrun : BlocksRun world userId (world.answers state.requests.length).content ran.1
            { state with requests := state.requests ++ [state.messages] } ran.2 :=
          hran ▸ run_blocks_spec _ _
        clear hran
        obtain ⟨results, after⟩ := ran
        have hanswer := hsent.answer hrun
        have hlength : after.requests.length = state.requests.length + 1 := by
          rw [hrun.requests]
          exact List.length_append
        dsimp only
        split
        · refine ⟨hanswer, ?_⟩
          show after.requests.length ≤ _
          omega
        · rename_i hresults
          have hnext := hanswer.results results
          have hmore : Turns query (after.messages ++
              [.assistant (world.answers state.requests.length).content] ++
                [.toolResults results]) := by
            rw [hrun.messages]
            exact hturns.turn (fun hempty => hresults (by rw [hempty]; rfl)) hrun.answered
          obtain ⟨hsound, hcount⟩ := ih (some (world.answers state.requests.length)) hnext hmore
          refine ⟨hsound, Nat.le_trans hcount ?_⟩
          show after.requests.length + iterations ≤ _
          omega

/-! ## Entities -/

/-- The key that tells entities apart. -/
def Entity.key (entity : Entity) : String × String := (entity.id, entity.type)

/-- Of the entities, the first of each key that was not seen is kept, in order. -/
theorem deduplicate_spec (seen : List (String × String)) (entities : List Entity) :
    (deduplicateEntities seen entities).Sublist entities ∧
      ((deduplicateEntities seen entities).map Entity.key).Nodup ∧
      ∀ key, key ∈ (deduplicateEntities seen entities).map Entity.key ↔
        key ∈ entities.map Entity.key ∧ key ∉ seen := by
  induction entities generalizing seen with
  | nil => exact ⟨.slnil, List.nodup_nil, fun key => by simp [deduplicateEntities]⟩
  | cons entity entities ih =>
      rw [deduplicateEntities]
      split
      case isTrue hseen =>
        obtain ⟨hsub, hnodup, hkeys⟩ := ih seen
        refine ⟨hsub.cons entity, hnodup, fun key => ?_⟩
        rw [hkeys, List.map_cons, List.mem_cons]
        refine ⟨fun h => ⟨.inr h.1, h.2⟩, fun ⟨hmem, hnot⟩ => ⟨hmem.resolve_left ?_, hnot⟩⟩
        rintro rfl
        exact hnot hseen
      case isFalse hseen =>
        obtain ⟨hsub, hnodup, hkeys⟩ := ih ((entity.id, entity.type) :: seen)
        refine ⟨hsub.cons_cons entity, ?_, fun key => ?_⟩
        · rw [List.map_cons, List.nodup_cons, hkeys]
          exact ⟨fun h => h.2 List.mem_cons_self, hnodup⟩
        · rw [List.map_cons, List.mem_cons, hkeys, List.map_cons, List.mem_cons, List.mem_cons,
            not_or]
          constructor
          · rintro (rfl | ⟨hmem, -, hnot⟩)
            · exact ⟨.inl rfl, hseen⟩
            · exact ⟨.inr hmem, hnot⟩
          · rintro ⟨hmem, hnot⟩
            by_cases hkey : key = entity.key
            · exact .inl hkey
            · exact .inr ⟨hmem.resolve_left hkey, hkey, hnot⟩

/-! ## The whole run -/

/-- What a run sends and what it answers with. -/
structure Conversation (world : World User Params Action Content) (maxIterations : Nat)
    (query : String) (context : Context User) (result : NLQResult Action)
    (final : State User Params Action Content) : Prop where
  sound : Sound world context.userId (userContent query context) final
  bounded : final.requests.length ≤ maxIterations
  toolsUsed : result.toolsUsed = final.toolsUsed
  actions : result.actions = final.actions
  entities : result.entities.Sublist final.entities ∧ (result.entities.map Entity.key).Nodup ∧
    ∀ key, key ∈ result.entities.map Entity.key ↔ key ∈ final.entities.map Entity.key
  summary : result.toolsUsed = [] → Numerals.strip result.summary ≠ ""

theorem guardrail_nonempty (summary : String) :
    Numerals.strip (applyOffTopicGuardrail summary) ≠ "" := by
  rw [applyOffTopicGuardrail]
  split
  case isTrue => decide
  case isFalse h => exact h

/-- Whatever the model and the tools answer: each request is a transcript and extends those before
it, there are no more of them than iterations, and the handlers that ran are those of the tool uses
that the user is let to run. The answer lists the tools used and the actions in order, each entity
once, and has a text when no tool was used. -/
theorem run_conversation (world : World User Params Action Content) (maxIterations : Nat)
    (query : String) (context : Context User) :
    Conversation world maxIterations query context (run world maxIterations query context).1
      (run world maxIterations query context).2 := by
  have hstart : Sound world context.userId (userContent query context)
      (State.start query context : State User Params Action Content) :=
    ⟨fun _ h => absurd h List.not_mem_nil, .nil, rfl, rfl, rfl⟩
  obtain ⟨hsound, hcount⟩ := loop_sound maxIterations none hstart .query
  rw [run]
  generalize loop world context.userId maxIterations none (State.start query context) = ended
    at hsound hcount
  obtain ⟨summary, state⟩ := ended
  obtain ⟨hsub, hnodup, hkeys⟩ := deduplicate_spec [] state.entities
  refine ⟨hsound, Nat.le_trans hcount (Nat.le_of_eq (Nat.zero_add _)), rfl, rfl,
    ⟨hsub, hnodup, fun key => ?_⟩, fun hnone => ?_⟩
  · rw [hkeys]
    exact ⟨fun h => h.1, fun h => ⟨h, List.not_mem_nil⟩⟩
  · show Numerals.strip (if state.toolsUsed.isEmpty then _ else _) ≠ ""
    rw [show state.toolsUsed = [] from hnone]
    exact guardrail_nonempty summary

end Engine

end CatalogApi.Nlq
