import Mathlib

/-!
# The public data contracts

The types of `pkg/schema` and `pkg/provider` that the rest of the gateway
passes around: the canonical request and response envelopes, messages with
their content parts and tool calls, usage and cost, the caller's identity, and
the `CallEvent` that every call publishes on the bus.

Go `float64` amounts are exact rationals here, `int` is `Int`, and a slice is a
list (a nil slice and an empty one are not told apart).  A value of type `any`
comes from decoding JSON, so it is a `Json` value or absent.

An `error` value is what the code can observe of it: its text, and whether
`errors.Is` finds `context.Canceled` or `context.DeadlineExceeded` in its chain.
-/

namespace Ixr

/-! ## JSON values -/

/-- What decoding JSON into an `any` yields. -/
inductive Json where
  | null
  | bool (b : Bool)
  | num (q : ℚ)
  | str (s : String)
  | arr (xs : List Json)
  | obj (kvs : List (String × Json))
deriving Repr, Inhabited

namespace Json

mutual

/-- Equality of values. -/
def decEq : (a b : Json) → Decidable (a = b)
  | .null, .null => .isTrue rfl
  | .bool a, .bool b => decidable_of_iff (a = b) (by simp)
  | .num a, .num b => decidable_of_iff (a = b) (by simp)
  | .str a, .str b => decidable_of_iff (a = b) (by simp)
  | .arr a, .arr b => @decidable_of_iff _ (a = b) (by simp) (decEqList a b)
  | .obj a, .obj b => @decidable_of_iff _ (a = b) (by simp) (decEqFields a b)
  | .null, .bool _ | .null, .num _ | .null, .str _ | .null, .arr _ | .null, .obj _
  | .bool _, .null | .bool _, .num _ | .bool _, .str _ | .bool _, .arr _ | .bool _, .obj _
  | .num _, .null | .num _, .bool _ | .num _, .str _ | .num _, .arr _ | .num _, .obj _
  | .str _, .null | .str _, .bool _ | .str _, .num _ | .str _, .arr _ | .str _, .obj _
  | .arr _, .null | .arr _, .bool _ | .arr _, .num _ | .arr _, .str _ | .arr _, .obj _
  | .obj _, .null | .obj _, .bool _ | .obj _, .num _ | .obj _, .str _ | .obj _, .arr _ =>
    .isFalse (by simp)

def decEqList : (a b : List Json) → Decidable (a = b)
  | [], [] => .isTrue rfl
  | x :: xs, y :: ys =>
    @decidable_of_iff _ (x = y ∧ xs = ys) (by simp)
      (@instDecidableAnd _ _ (decEq x y) (decEqList xs ys))
  | [], _ :: _ | _ :: _, [] => .isFalse (by simp)

def decEqFields : (a b : List (String × Json)) → Decidable (a = b)
  | [], [] => .isTrue rfl
  | (k, x) :: xs, (l, y) :: ys =>
    @decidable_of_iff _ (k = l ∧ x = y ∧ xs = ys) (by simp [and_assoc])
      (@instDecidableAnd _ _ _ (@instDecidableAnd _ _ (decEq x y) (decEqFields xs ys)))
  | [], _ :: _ | _ :: _, [] => .isFalse (by simp)

end

instance : DecidableEq Json := decEq

end Json

/-- `int(x)` of a `float64`: the fraction is dropped. -/
def truncate (x : ℚ) : Int := if 0 ≤ x then ⌊x⌋ else ⌈x⌉

/-! ## Errors and providers -/

/-- A Go `error`, as far as the code looks into it. -/
structure GoError where
  /-- `err.Error()`. -/
  msg : String
  /-- `errors.Is(err, context.Canceled)`. -/
  canceled : Bool := false
  /-- `errors.Is(err, context.DeadlineExceeded)`. -/
  deadlineExceeded : Bool := false
deriving Repr, DecidableEq, Inhabited

/-- The error reports that the caller gave up, not that the provider failed. -/
def GoError.aborted (e : GoError) : Bool := e.canceled || e.deadlineExceeded

/-- The two values of `ctx.Err()` after `ctx.Done()` is closed. -/
inductive CtxErr where
  | canceled
  | deadlineExceeded
deriving Repr, DecidableEq, Inhabited

/-- `ctx.Err()` as an error value. -/
def CtxErr.toError : CtxErr → GoError
  | .canceled => { msg := "context canceled", canceled := true }
  | .deadlineExceeded => { msg := "context deadline exceeded", deadlineExceeded := true }

/-- A live provider instance: its identity as an interface value, and `Name()`. -/
structure Provider where
  /-- Tells instances apart. -/
  id : Nat
  /-- `Name()`. -/
  name : String
deriving Repr, DecidableEq, Inhabited

/-! ## Messages -/

/-- `schema.ToolFunction`. -/
structure ToolFunction where
  name : String := ""
  arguments : String := ""
deriving Repr, DecidableEq, Inhabited

/-- `schema.ToolCall`. -/
structure ToolCall where
  id : String := ""
  type : String := ""
  function : ToolFunction := {}
deriving Repr, DecidableEq, Inhabited

/-- `schema.ImageURLPart`. -/
structure ImageURLPart where
  url : String
  detail : String := ""
deriving Repr, DecidableEq, Inhabited

/-- `schema.ContentPart`. -/
structure ContentPart where
  type : String
  text : String := ""
  imageURL : Option ImageURLPart := none
deriving Repr, DecidableEq, Inhabited

/-- `schema.Message`. -/
structure Message where
  role : String
  content : String := ""
  parts : List ContentPart := []
  toolCalls : List ToolCall := []
  toolCallID : String := ""
  name : String := ""
deriving Repr, DecidableEq, Inhabited

/-! ## Requests and responses -/

/-- `schema.FunctionDef`. -/
structure FunctionDef where
  name : String
  description : String := ""
  parameters : List (String × Json) := []
  strict : Bool := false
deriving Repr, DecidableEq, Inhabited

/-- `schema.Tool`. -/
structure Tool where
  type : String
  function : FunctionDef
deriving Repr, DecidableEq, Inhabited

/-- `schema.RequestEnvelope`. -/
structure RequestEnvelope where
  model : String := ""
  messages : List Message := []
  stream : Bool := false
  tools : List Tool := []
  toolChoice : Option Json := none
  temperature : ℚ := 0
  maxTokens : Int := 0
  topP : ℚ := 0
  n : Int := 0
  stop : Option Json := none
  user : String := ""
deriving Repr, DecidableEq, Inhabited

/-- `schema.Usage`. -/
structure Usage where
  promptTokens : Int := 0
  completionTokens : Int := 0
  totalTokens : Int := 0
  cacheReadInputTokens : Int := 0
  cacheCreationInputTokens : Int := 0
deriving Repr, DecidableEq, Inhabited

/-- `schema.Choice`. -/
structure Choice where
  index : Int := 0
  message : Message
  finishReason : String := ""
deriving Repr, DecidableEq, Inhabited

/-- `schema.ResponseEnvelope`. -/
structure ResponseEnvelope where
  id : String := ""
  object : String := ""
  created : Int := 0
  model : String := ""
  choices : List Choice := []
  usage : Usage := {}
deriving Repr, DecidableEq, Inhabited

/-- `provider.StreamChunk`. -/
structure StreamChunk where
  id : String := ""
  model : String := ""
  delta : Message
  finishReason : String := ""
  usage : Option Usage := none
deriving Repr, DecidableEq, Inhabited

/-! ## Identity, cost and call events -/

/-- `schema.Identity`. -/
structure Identity where
  tenantID : String := ""
  teamID : String := ""
  userID : String := ""
  useCaseID : String := ""
deriving Repr, DecidableEq, Inhabited

/-- `schema.CostBreakdown`. -/
structure CostBreakdown where
  inputUSD : ℚ := 0
  outputUSD : ℚ := 0
  totalUSD : ℚ := 0
deriving Repr, DecidableEq, Inhabited

/-- `schema.ShadowMetadata`. -/
structure ShadowMetadata where
  primaryID : String := ""
  primaryModel : String := ""
  shadowModel : String := ""
deriving Repr, DecidableEq, Inhabited

/-- `schema.CallEvent`. -/
structure CallEvent where
  id : String := ""
  timestamp : Int := 0
  useCaseID : String := ""
  tenantID : String := ""
  teamID : String := ""
  userID : String := ""
  provider : String := ""
  model : String := ""
  latency : Int := 0
  tokensIn : Int := 0
  tokensOut : Int := 0
  cost : CostBreakdown := {}
  request : RequestEnvelope := {}
  response : ResponseEnvelope := {}
  error : String := ""
  streaming : Bool := false
  shadow : Option ShadowMetadata := none
  autoRouted : Bool := false
  fallbackUsed : Bool := false
  fallbackFrom : String := ""
deriving Repr, DecidableEq, Inhabited

/-! ## Guardrails -/

/-- `guardrail.BlockedError`. -/
structure BlockedError where
  interceptor : String
  category : String := ""
  message : String
deriving Repr, DecidableEq, Inhabited

/-- `BlockedError.Error`. -/
def BlockedError.error (e : BlockedError) : String :=
  if e.category = "" then e.interceptor ++ ": " ++ e.message
  else e.interceptor ++ ": blocked — " ++ e.category ++ ": " ++ e.message

end Ixr
