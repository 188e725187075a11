import IxrGateway.Ingress.StreamedCalls

/-!
# Tool calls do not depend on how they are fragmented

A provider sends a tool call in fragments and the fragments in chunks.  The
accumulators of `openai` and `openaicompat` are the same code.  Here the one of
`openai` has the pointers of the source: a map from indices to calls that are
allocated one after the other and changed in place.  `Represents` relates it to the
accumulator of `openaicompat`, which has the calls in its map.

* A fragment in two parts has the same effect as the whole (`addOne_splits`).
* Fragments of different calls can come in either order, once both calls are there
  (`addOne_comm`).
-/

open List

namespace Ixr.Adapters.OpenAICompat

/-! ## Fragments -/

/-- What one fragment does to each call. -/
def extend (f : WireDeltaToolCall) (p : Int × ToolCall) : Int × ToolCall :=
  if p.1 = f.index then (p.1, addFragment p.2 f) else p

/-- A fragment in two parts.  Each of its texts is the last nonempty one of the parts, and its
arguments are theirs, one after the other. -/
structure Splits (f f₁ f₂ : WireDeltaToolCall) : Prop where
  index₁ : f₁.index = f.index
  index₂ : f₂.index = f.index
  id : lastNonempty [f₁.id, f₂.id] = f.id
  type : lastNonempty [f₁.type, f₂.type] = f.type
  name : lastNonempty [f₁.function.name, f₂.function.name] = f.function.name
  arguments : f₁.function.arguments ++ f₂.function.arguments = f.function.arguments

theorem extend_fst (f : WireDeltaToolCall) (p : Int × ToolCall) : (extend f p).1 = p.1 := by
  unfold extend
  split <;> rfl

theorem keys_extend (f : WireDeltaToolCall) (calls : List (Int × ToolCall)) :
    (calls.map (extend f)).map Prod.fst = calls.map Prod.fst := by
  rw [map_map]
  exact map_congr_left fun p _ => extend_fst f p

theorem set_twice {s s₁ s₂ : String} (h : lastNonempty [s₁, s₂] = s) (old : String) :
    (if s₂ ≠ "" then s₂ else if s₁ ≠ "" then s₁ else old) = if s ≠ "" then s else old := by
  rw [← h, show [s₁, s₂] = [s₁] ++ [s₂] from rfl, lastNonempty_concat]
  rcases eq_or_ne s₂ "" with rfl | h₂
  · rcases eq_or_ne s₁ "" with rfl | h₁
    · rfl
    · simp [h₁, lastNonempty]
  · simp [h₂]

variable {f f₁ f₂ : WireDeltaToolCall}

theorem addFragment_splits (h : Splits f f₁ f₂) (tc : ToolCall) :
    addFragment (addFragment tc f₁) f₂ = addFragment tc f := by
  simp only [addFragment, set_twice h.id, set_twice h.type, set_twice h.name, String.append_assoc,
    h.arguments]

theorem extend_splits (h : Splits f f₁ f₂) (p : Int × ToolCall) :
    extend f₂ (extend f₁ p) = extend f p := by
  unfold extend
  rw [h.index₁, h.index₂]
  by_cases hp : p.1 = f.index
  · rw [if_pos hp, if_pos hp, if_pos hp, addFragment_splits h]
  · rw [if_neg hp, if_neg hp, if_neg hp]

theorem extend_comm {g : WireDeltaToolCall} (h : f.index ≠ g.index) (p : Int × ToolCall) :
    extend g (extend f p) = extend f (extend g p) := by
  unfold extend
  by_cases hf : p.1 = f.index
  · have hg : p.1 ≠ g.index := fun hg => h (hf.symm.trans hg)
    rw [if_pos hf, if_neg hg, if_neg hg, if_pos hf]
  · rw [if_neg hf]
    split <;> rfl

/-! ## The accumulator -/

/-- Has a call at the index. -/
def ToolCallAccumulator.withIndex (a : ToolCallAccumulator) (index : Int) : ToolCallAccumulator :=
  if index ∈ a.byIndex.map Prod.fst then a
  else { byIndex := a.byIndex ++ [(index, {})], order := a.order ++ [index] }

theorem withIndex_of_mem {a : ToolCallAccumulator} {index : Int}
    (h : index ∈ a.byIndex.map Prod.fst) : a.withIndex index = a := if_pos h

theorem addOne_eq (a : ToolCallAccumulator) (f : WireDeltaToolCall) :
    a.addOne f =
      { a.withIndex f.index with byIndex := (a.withIndex f.index).byIndex.map (extend f) } := rfl

theorem addOne_splits (h : Splits f f₁ f₂) (a : ToolCallAccumulator) :
    (a.addOne f₁).addOne f₂ = a.addOne f := by
  rw [addOne_eq a, h.index₁, addOne_eq, withIndex_of_mem, addOne_eq]
  · dsimp only
    rw [map_map]
    congr 1
    exact map_congr_left fun p _ => extend_splits h p
  · rw [h.index₂, keys_extend]
    unfold ToolCallAccumulator.withIndex
    split
    · assumption
    · simp

/-- The order of two fragments does not matter if they are for different calls that are there. -/
theorem addOne_comm {g : WireDeltaToolCall} (h : f.index ≠ g.index) {a : ToolCallAccumulator}
    (hf : f.index ∈ a.byIndex.map Prod.fst) (hg : g.index ∈ a.byIndex.map Prod.fst) :
    (a.addOne f).addOne g = (a.addOne g).addOne f := by
  have hone {f : WireDeltaToolCall} {a : ToolCallAccumulator}
      (hf : f.index ∈ a.byIndex.map Prod.fst) :
      a.addOne f = { a with byIndex := a.byIndex.map (extend f) } := by
    rw [addOne_eq, withIndex_of_mem hf]
  rw [hone hf, hone hg, hone (by rwa [keys_extend]), hone (by rwa [keys_extend])]
  dsimp only
  rw [map_map, map_map]
  congr 1
  exact map_congr_left fun p _ => extend_comm h p

theorem foldl_add (a : ToolCallAccumulator) (chunks : List (List WireDeltaToolCall)) :
    chunks.foldl ToolCallAccumulator.add a = a.add chunks.flatten := by
  induction chunks generalizing a with
  | nil => rfl
  | cons fs chunks ih => rw [foldl_cons, ih, flatten_cons, add_append]

end Ixr.Adapters.OpenAICompat

/-! ## The accumulator with pointers -/

namespace Ixr.Adapters.OpenAI

open OpenAICompat (WireDeltaToolCall addFragment extend)

/-- `toolCallAccumulator` of package `openai`.  A pointer is a position in `calls`. -/
structure ToolCallAccumulator where
  calls : List ToolCall
  byIndex : AList fun _ : Int => Nat
  order : List Int

namespace ToolCallAccumulator

/-- `newToolCallAccumulator` of package `openai`. -/
def new : ToolCallAccumulator := ⟨[], ∅, []⟩

/-- The pointer to the call of an index, which is allocated if the map has none. -/
def pointer (a : ToolCallAccumulator) (index : Int) : Nat × ToolCallAccumulator :=
  match a.byIndex.lookup index with
  | some tc => (tc, a)
  | none =>
    (a.calls.length,
      ⟨a.calls ++ [{}], a.byIndex.insert index a.calls.length, a.order ++ [index]⟩)

/-- The loop body of `add`. -/
def addOne (a : ToolCallAccumulator) (f : WireDeltaToolCall) : ToolCallAccumulator :=
  let (tc, a) := a.pointer f.index
  { a with calls := a.calls.modify tc (addFragment · f) }

/-- `add` of package `openai`. -/
def add (a : ToolCallAccumulator) (fragments : List WireDeltaToolCall) : ToolCallAccumulator :=
  fragments.foldl addOne a

/-- `finalize` of package `openai`. -/
def finalize (a : ToolCallAccumulator) : List ToolCall :=
  a.order.filterMap fun idx => (a.byIndex.lookup idx).bind (a.calls[·]?)

end ToolCallAccumulator

/-- The pointers of an accumulator lead to the calls of another one.  Each index has a pointer of
its own, so that a call is changed by the fragments of its index only. -/
structure Represents (a : ToolCallAccumulator) (b : OpenAICompat.ToolCallAccumulator) : Prop where
  order : a.order = b.order
  keys : b.byIndex.map Prod.fst = b.order
  nodup : b.order.Nodup
  calls : a.calls = b.byIndex.map Prod.snd
  pointer : ∀ i tc, a.byIndex.lookup i = some tc ↔ b.order[tc]? = some i

theorem represents_new : Represents .new {} where
  order := rfl
  keys := rfl
  nodup := nodup_nil
  calls := rfl
  pointer _ _ := ⟨nofun, nofun⟩

variable {a : ToolCallAccumulator} {b : OpenAICompat.ToolCallAccumulator}

theorem Represents.length_calls (h : Represents a b) : a.calls.length = b.order.length := by
  rw [h.calls, length_map, ← h.keys, length_map]

theorem Represents.lookup_eq_none_iff (h : Represents a b) (i : Int) :
    a.byIndex.lookup i = none ↔ i ∉ b.order := by
  rw [Option.eq_none_iff_forall_ne_some, mem_iff_getElem?, not_exists]
  exact forall_congr' fun tc => not_congr (h.pointer i tc)

theorem Represents.withIndex (h : Represents a b) (i : Int) :
    Represents (a.pointer i).2 (b.withIndex i) ∧
      (b.withIndex i).order[(a.pointer i).1]? = some i := by
  unfold ToolCallAccumulator.pointer OpenAICompat.ToolCallAccumulator.withIndex
  rw [h.keys]
  cases hi : a.byIndex.lookup i with
  | some tc =>
    have hat := (h.pointer i tc).mp hi
    rw [if_pos (mem_of_getElem? hat)]
    exact ⟨h, hat⟩
  | none =>
    have hnew := (h.lookup_eq_none_iff i).mp hi
    rw [if_neg hnew]
    refine ⟨⟨?_, ?_, ?_, ?_, ?_⟩, ?_⟩
    · rw [h.order]
    · rw [map_append, h.keys]
      rfl
    · exact h.nodup.append (nodup_singleton i) (disjoint_singleton.mpr hnew)
    · rw [map_append, h.calls]
      rfl
    · intro j tc
      dsimp only
      rcases eq_or_ne j i with rfl | hne
      · rw [AList.lookup_insert, Option.some.injEq, h.length_calls]
        constructor
        · rintro rfl
          exact getElem?_concat_length
        · intro hat
          rcases lt_trichotomy tc b.order.length with hlt | heq | hgt
          · rw [getElem?_append_left hlt] at hat
            exact absurd (mem_of_getElem? hat) hnew
          · exact heq.symm
          · rw [getElem?_eq_none (by simpa using hgt)] at hat
            cases hat
      · rw [AList.lookup_insert_ne hne, h.pointer j tc]
        rcases lt_or_ge tc b.order.length with hlt | hge
        · rw [getElem?_append_left hlt]
        · rw [getElem?_eq_none hge, getElem?_append_right hge, getElem?_singleton]
          split
          · simp [hne.symm]
          · simp
    · rw [h.length_calls]
      exact getElem?_concat_length

theorem Represents.extend (h : Represents a b) {f : WireDeltaToolCall} {tc : Nat}
    (htc : b.order[tc]? = some f.index) :
    Represents { a with calls := a.calls.modify tc (addFragment · f) }
      { b with byIndex := b.byIndex.map (extend f) } where
  order := h.order
  keys := (OpenAICompat.keys_extend f b.byIndex).trans h.keys
  nodup := h.nodup
  calls := by
    dsimp only
    rw [h.calls, map_map]
    apply ext_getElem?
    intro p
    rw [getElem?_modify, getElem?_map, getElem?_map]
    cases hp : b.byIndex[p]? with
    | none => rfl
    | some q =>
      have hkey : b.order[p]? = some q.1 := by
        rw [← h.keys, getElem?_map, hp]
        rfl
      have hsame : tc = p ↔ q.1 = f.index := by
        constructor
        · rintro rfl
          exact Option.some.inj (hkey.symm.trans htc)
        · intro hq
          rw [hq, ← htc] at hkey
          exact (getElem?_inj (List.getElem?_eq_some_iff.mp htc).1 h.nodup).mp hkey.symm
      simp only [Option.map_some, Function.comp_apply, OpenAICompat.extend, hsame]
      split <;> rfl
  pointer := h.pointer

theorem Represents.addOne (h : Represents a b) (f : WireDeltaToolCall) :
    Represents (a.addOne f) (b.addOne f) := by
  obtain ⟨hrep, hat⟩ := h.withIndex f.index
  exact hrep.extend hat

theorem Represents.finalize_eq (h : Represents a b) : a.finalize = b.finalize := by
  have hmap : a.order.map (fun idx => (a.byIndex.lookup idx).bind (a.calls[·]?)) =
      a.calls.map some := by
    apply ext_getElem?
    intro p
    rw [getElem?_map, getElem?_map, h.order]
    cases hp : b.order[p]? with
    | none =>
      rw [List.getElem?_eq_none_iff, ← h.length_calls] at hp
      rw [getElem?_eq_none hp]
      rfl
    | some i =>
      obtain ⟨hlt, -⟩ := List.getElem?_eq_some_iff.mp hp
      rw [← h.length_calls] at hlt
      rw [Option.map_some, (h.pointer i p).mpr hp, Option.bind_some,
        getElem?_eq_getElem hlt, Option.map_some]
  calc a.finalize
      = (a.order.map fun idx => (a.byIndex.lookup idx).bind (a.calls[·]?)).filterMap id := by
        rw [filterMap_map]
        rfl
    _ = a.calls := by rw [hmap, filterMap_map]; exact filterMap_some
    _ = b.byIndex.map Prod.snd := h.calls
    _ = b.finalize := by
        rw [OpenAICompat.ToolCallAccumulator.finalize, ← h.keys,
          Anthropic.filterMap_lookup_keys (h.keys ▸ h.nodup)]

theorem finalize_eq_finalize (chunks : List (List WireDeltaToolCall)) :
    (chunks.foldl ToolCallAccumulator.add .new).finalize =
      (chunks.foldl OpenAICompat.ToolCallAccumulator.add {}).finalize := by
  apply Represents.finalize_eq
  apply foldl_rel represents_new
  intro fragments _ a b h
  apply foldl_rel h
  intro f _ a b h
  exact h.addOne f

end Ixr.Adapters.OpenAI

/-! ## The calls of a stream -/

namespace Ixr.Adapters.OpenAICompat

/-- `finalize` after some fragments. -/
def reassembled (fs : List WireDeltaToolCall) : List ToolCall :=
  (({} : ToolCallAccumulator).add fs).finalize

theorem add_cons (a : ToolCallAccumulator) (f : WireDeltaToolCall) (fs : List WireDeltaToolCall) :
    a.add (f :: fs) = (a.addOne f).add fs := foldl_cons ..

theorem mem_keys_add {fs : List WireDeltaToolCall} {i : Int} (h : i ∈ fs.map (·.index)) :
    i ∈ (({} : ToolCallAccumulator).add fs).byIndex.map Prod.fst := by
  rw [add_eq, keys_assembleAll]
  exact mem_eraseDups.mpr h

/-- Reassembly does not depend on the fragmentation.  However the fragments come in chunks, there is
one call for each index, in the order of their first fragments.  It has the last id, type and name
that are not empty, and the arguments one after the other.  A fragment can be split and fragments of
different calls can be swapped once both calls are there.  The accumulator of `openai` agrees. -/
theorem reassembly_independent :
    (∀ chunks : List (List WireDeltaToolCall),
      (chunks.foldl ToolCallAccumulator.add {}).finalize =
          ((chunks.flatten.map (·.index)).eraseDups.map fun i =>
            assemble (chunks.flatten.filter fun f => f.index = i)) ∧
        (chunks.foldl OpenAI.ToolCallAccumulator.add .new).finalize =
          (chunks.foldl ToolCallAccumulator.add {}).finalize) ∧
      (∀ before f f₁ f₂ after, Splits f f₁ f₂ →
        reassembled (before ++ f₁ :: f₂ :: after) = reassembled (before ++ f :: after)) ∧
      ∀ before f g after, f.index ≠ g.index →
        f.index ∈ before.map (·.index) → g.index ∈ before.map (·.index) →
        reassembled (before ++ f :: g :: after) = reassembled (before ++ g :: f :: after) := by
  refine ⟨?_, ?_, ?_⟩
  · intro chunks
    refine ⟨?_, OpenAI.finalize_eq_finalize chunks⟩
    rw [foldl_add, finalize_eq, assembleAll, map_map]
    rfl
  · intro before f f₁ f₂ after h
    rw [reassembled, reassembled, add_append, add_append, add_cons, add_cons, add_cons,
      addOne_splits h]
  · intro before f g after hne hf hg
    rw [reassembled, reassembled, add_append, add_append, add_cons, add_cons, add_cons, add_cons,
      addOne_comm hne (mem_keys_add hf) (mem_keys_add hg)]

def twoCalls : List WireDeltaToolCall :=
  [{ index := 0, id := "a", type := "function", function := { name := "get" } },
    { index := 1, id := "b", type := "function", function := { name := "put" } }]

/-- The arguments of the first call in one part before those of the second, or in two after. -/
theorem two_calls_reassembled :
    reassembled (twoCalls ++ [{ index := 1, function := { arguments := "2" } },
      { index := 0, function := { arguments := "[1" } },
      { index := 0, function := { arguments := "]" } }]) =
    reassembled (twoCalls ++ [{ index := 0, function := { arguments := "[1]" } },
      { index := 1, function := { arguments := "2" } }]) := by
  obtain ⟨-, hsplit, hswap⟩ := reassembly_independent
  have hparts : Splits { index := 0, function := { arguments := "[1]" } }
      { index := 0, function := { arguments := "[1" } }
      { index := 0, function := { arguments := "]" } } := ⟨rfl, rfl, rfl, rfl, rfl, rfl⟩
  rw [hswap twoCalls { index := 0, function := { arguments := "[1]" } } _ _ (by decide)
    (by decide) (by decide)]
  exact hsplit (twoCalls ++ [{ index := 1, function := { arguments := "2" } }]) _ _ _ [] hparts

end Ixr.Adapters.OpenAICompat
