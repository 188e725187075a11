import IxrGateway.Interaction.Prog
import IxrGateway.Schema
import IxrGateway.Utf8

/-!
# The retrieval store

`Put` draws an id at random and hands the content to the backend of the store.
What the backend returns is ignored, so a content may be missing later.
-/

namespace Ixr.Retrieval

open Interaction
open Utf8 (Bytes)

/-- The operations of the store. -/
inductive StoreOp where
  /-- `rand.Read` of 16 bytes. -/
  | random
  /-- `Backend.Put`. -/
  | backendPut (id : String) (content : Bytes) (ttl : Int)

/-- The results of the operations. -/
abbrev StoreOp.Res : StoreOp → Type
  | .random => Fin 16 → UInt8
  | .backendPut _ _ _ => Option GoError

/-- Programs that put contents into the store. -/
abbrev storeSig : Sig := ⟨StoreOp, StoreOp.Res⟩

/-- `randomID`, for the bytes that were drawn. -/
def randomID (b : Fin 16 → UInt8) : String :=
  String.ofList ((List.ofFn b).flatMap fun x =>
    [Nat.digitChar (x.toNat / 16), Nat.digitChar (x.toNat % 16)])

/-- `Store.Put`. -/
def put (content : Bytes) (ttl : Int) : Prog storeSig String := do
  let b ← Prog.perform (S := storeSig) .random
  let id := "ret_" ++ randomID b
  let _ ← Prog.perform (S := storeSig) (.backendPut id content ttl)
  return id

theorem mem_of_runs_put {content : Bytes} {ttl : Int} {t : Trace storeSig} {id : String}
    (h : Runs (put content ttl) t id) : ∃ err, ⟨.backendPut id content ttl, err⟩ ∈ t := by
  obtain ⟨b, t₁, rfl, h₁⟩ := runs_perform_bind_iff.mp h
  obtain ⟨err, t₂, rfl, h₂⟩ := runs_perform_bind_iff.mp h₁
  obtain ⟨-, rfl⟩ := runs_ret_iff.mp h₂
  exact ⟨err, List.mem_cons_of_mem _ List.mem_cons_self⟩

/-- What was put is held. -/
def Holds (held : String → Option Bytes) (t : Trace storeSig) : Prop :=
  ∀ id content ttl err, ⟨.backendPut id content ttl, err⟩ ∈ t → held id = some content

end Ixr.Retrieval
