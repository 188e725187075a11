import IxrGateway.Schema

/-!
# The retrieval tool

A model that wants compressed content back calls the synthetic tool
`ixr_retrieve`.  A marker behind the content names the id to call it with.
-/

namespace Ixr.Retrieval

/-- `retrieval.ToolName`. -/
def toolName : String := "ixr_retrieve"

/-- `retrieval.Tool`. -/
def tool : Tool where
  type := "function"
  function := {
    name := toolName
    description := "Retrieve the full, uncompressed content that was shortened for context " ++
      "efficiency. Only call this if the shortened version doesn't have enough detail to answer " ++
      "accurately — most of the time it does, and calling this costs an extra round trip."
    parameters := [
      ("properties", .obj [("id", .obj [
        ("description", .str "The retrieval ID from the truncation marker, e.g. \"ret_42\"."),
        ("type", .str "string")])]),
      ("required", .arr [.str "id"]),
      ("type", .str "object")] }

/-- `%q` of an id, which has nothing to escape in it. -/
def quoteID (id : String) : String := "\"" ++ id ++ "\""

/-- `retrieval.Marker`. -/
def marker (id : String) (omittedChars : Nat) : String :=
  "\n[" ++ toString omittedChars ++ " more characters omitted — call " ++ toolName ++ " with id=" ++
    quoteID id ++ " to retrieve the full content]"

/-- `retrieval.FindCall`. -/
def findCall (calls : List ToolCall) : Option ToolCall :=
  calls.find? fun c => c.function.name == toolName

/-- `retrieval.ParseArgs`, given what decoding the arguments reads as the `id` field. -/
def parseArgs (unmarshalID : String → Option String) (argsJSON : String) : Option String :=
  match unmarshalID argsJSON with
  | none => none
  | some id => if id = "" then none else some id

end Ixr.Retrieval
