import Mathlib.Data.List.AList
import IxrGateway.GoTime
import IxrGateway.Utf8

/-!
# The retrieval backend in memory

`memoryBackend` is a map from ids to contents with a size limit.  `Put` makes room
by dropping the entry that was inserted first, and `Get` drops an entry that it
finds expired.  The map is ranged over in any order, and the scan for the oldest
entry has the empty id as its start.

An entry is the oldest only if all others came after it.  So the last entries that
were put are held, as many as the limit allows (`lookup_run`).
-/

namespace Ixr.Retrieval

open List

open Utf8 (Bytes)

/-- `memEntry`. -/
structure MemEntry where
  content : Bytes
  expiresAt : Option Int
  insertedAt : Int
deriving Repr, DecidableEq

/-- `memoryBackend`. -/
structure MemoryBackend where
  entries : AList fun _ : String => MemEntry
  maxSize : Int

namespace MemoryBackend

/-- `newMemoryBackend`. -/
def new (maxSize : Int) : MemoryBackend := ⟨∅, maxSize⟩

/-- `memoryBackend.Len`. -/
def len (b : MemoryBackend) : Int := b.entries.keys.length

/-- The loop body of `evictOldestLocked`, on the oldest id so far and its time. -/
def oldestStep (b : MemoryBackend) (oldest : String × Int) (id : String) : String × Int :=
  match b.entries.lookup id with
  | none => oldest
  | some e => if oldest.1 = "" ∨ e.insertedAt < oldest.2 then (id, e.insertedAt) else oldest

/-- `memoryBackend.evictOldestLocked`, with the order of its loop.  The time at the start is not
read, since the id is empty. -/
def evictOldestLocked (b : MemoryBackend) (order : List String) : MemoryBackend :=
  let oldest := order.foldl b.oldestStep ("", 0)
  if oldest.1 ≠ "" then { b with entries := b.entries.erase oldest.1 } else b

/-- The part of `memoryBackend.Put` that makes room. -/
def withRoom (b : MemoryBackend) (order : List String) : MemoryBackend :=
  if 0 < b.maxSize ∧ b.maxSize ≤ b.len then b.evictOldestLocked order else b

/-- `memoryBackend.Put`.  The clock is read once for the expiry and once for the insertion. -/
def put (b : MemoryBackend) (id : String) (content : Bytes) (ttl now now' : Int)
    (order : List String) : MemoryBackend :=
  let b := b.withRoom order
  { b with entries := b.entries.insert id ⟨content, expiry ttl now, now'⟩ }

/-- The result of `memoryBackend.Get`, and the backend without the entry if it has expired. -/
def get (b : MemoryBackend) (id : String) (now : Int) : Option Bytes × MemoryBackend :=
  match b.entries.lookup id with
  | none => (none, b)
  | some e =>
    if expired e.expiresAt now then (none, { b with entries := b.entries.erase id })
    else (some e.content, b)

/-! ## The oldest entry -/

/-- When an id was put. -/
def insertedAt (b : MemoryBackend) (id : String) : Int :=
  (b.entries.lookup id).elim 0 MemEntry.insertedAt

variable {b : MemoryBackend} {id i : String} {order : List String} {e : MemEntry} {maxSize : Int}

theorem oldestStep_of_mem (h : id ∈ b.entries.keys) (oldest : String × Int) :
    b.oldestStep oldest id =
      if oldest.1 = "" ∨ b.insertedAt id < oldest.2 then (id, b.insertedAt id) else oldest := by
  obtain ⟨e, he⟩ := Option.isSome_iff_exists.mp (AList.lookup_isSome.mpr (AList.mem_keys.mpr h))
  simp only [oldestStep, insertedAt, he, Option.elim_some]

theorem foldl_oldestStep (hkeys : ∀ id ∈ order, id ∈ b.entries.keys ∧ id ≠ "") :
    order.foldl b.oldestStep ("", 0) =
      (order.argmin b.insertedAt).elim ("", 0) fun id => (id, b.insertedAt id) := by
  induction order using reverseRecOn with
  | nil => rfl
  | append_singleton order id ih =>
    obtain ⟨hmem, -⟩ := hkeys id (by simp)
    rw [foldl_concat, ih fun x hx => hkeys x (mem_append_left _ hx),
      oldestStep_of_mem hmem, argmin_concat]
    cases hmin : order.argmin b.insertedAt with
    | none => exact if_pos (.inl rfl)
    | some c =>
      have hne : c ≠ "" :=
        (hkeys c (mem_append_left _ (argmin_mem hmin))).2
      show (if c = "" ∨ b.insertedAt id < b.insertedAt c then (id, b.insertedAt id)
        else (c, b.insertedAt c)) =
          (if b.insertedAt id < b.insertedAt c then some id else some c).elim _ _
      rcases lt_or_ge (b.insertedAt id) (b.insertedAt c) with hlt | hge
      · rw [if_pos (Or.inr hlt), if_pos hlt, Option.elim_some]
      · rw [if_neg (not_or.mpr ⟨hne, not_lt.mpr hge⟩), if_neg (not_lt.mpr hge), Option.elim_some]

theorem exists_oldest (horder : order.Perm b.entries.keys) (hids : ∀ id ∈ b.entries.keys, id ≠ "")
    (hne : b.entries.keys ≠ []) :
    ∃ id ∈ b.entries.keys, (∀ id' ∈ b.entries.keys, b.insertedAt id ≤ b.insertedAt id') ∧
      b.evictOldestLocked order = { b with entries := b.entries.erase id } := by
  have hkeys : ∀ id ∈ order, id ∈ b.entries.keys ∧ id ≠ "" := by
    intro id hid
    have hmem := horder.subset hid
    exact ⟨hmem, hids id hmem⟩
  rw [evictOldestLocked, foldl_oldestStep hkeys]
  cases hmin : order.argmin b.insertedAt with
  | none =>
    have hnil : order = [] := argmin_eq_none.mp hmin
    rw [hnil] at horder
    exact absurd (nil_perm.mp horder) hne
  | some id =>
    have hid := hkeys id (argmin_mem hmin)
    refine ⟨id, hid.1, ?_, if_pos hid.2⟩
    intro id' hid'
    exact le_of_mem_argmin (horder.mem_iff.mpr hid') hmin

/-! ## Runs -/

/-- A call of the backend. -/
inductive Op where
  | put (id : String) (content : Bytes) (ttl now now' : Int) (order : List String)
  | get (id : String) (now : Int)

/-- What a call does. -/
def step (b : MemoryBackend) : Op → MemoryBackend
  | .put id content ttl now now' order => b.put id content ttl now now' order
  | .get id now => (b.get id now).2

/-- The order is one of the map. -/
def Op.Possible (b : MemoryBackend) : Op → Prop
  | .put _ _ _ _ _ order => order.Perm b.entries.keys
  | .get _ _ => True

/-- What a call puts. -/
def Op.inserted : Op → Option (String × MemEntry)
  | .put id content ttl now now' _ => some (id, ⟨content, expiry ttl now, now'⟩)
  | .get _ _ => none

/-- What the calls put. -/
def inserts (ops : List Op) : List (String × MemEntry) := ops.filterMap Op.inserted

/-- The backend after calls. -/
def run (maxSize : Int) (ops : List Op) : MemoryBackend := ops.foldl step (new maxSize)

/-- Each call is possible when it comes. -/
def Possible (b : MemoryBackend) : List Op → Prop
  | [] => True
  | op :: ops => op.Possible b ∧ Possible (b.step op) ops

theorem run_concat (maxSize : Int) (ops : List Op) (op : Op) :
    run maxSize (ops ++ [op]) = (run maxSize ops).step op := foldl_concat ..

theorem inserts_append (ops more : List Op) : inserts (ops ++ more) = inserts ops ++ inserts more :=
  filterMap_append

variable {ops : List Op} {op : Op}

theorem possible_concat :
    b.Possible (ops ++ [op]) ↔ b.Possible ops ∧ op.Possible (ops.foldl step b) := by
  induction ops generalizing b with
  | nil => exact and_comm
  | cons op' ops ih => exact (and_congr_right fun _ => ih).trans and_assoc.symm

/-- The ids are distinct and not empty, and each insertion is later than the one before. -/
structure Ordered (ops : List Op) : Prop where
  nodup : ((inserts ops).map Prod.fst).Nodup
  nonempty : ∀ p ∈ inserts ops, p.1 ≠ ""
  increasing : (inserts ops).Pairwise fun p q => p.2.insertedAt < q.2.insertedAt

theorem Ordered.of_append {more : List Op} (h : Ordered (ops ++ more)) : Ordered ops := by
  obtain ⟨hnodup, hnonempty, hincreasing⟩ := h
  rw [inserts_append] at hnodup hnonempty hincreasing
  rw [map_append] at hnodup
  exact ⟨(nodup_append.mp hnodup).1, fun p hp => hnonempty p (mem_append_left _ hp),
    (pairwise_append.mp hincreasing).1⟩

/-! ## What is held -/

theorem lookup_erase_some {entries : AList fun _ : String => MemEntry}
    (h : (entries.erase id).lookup i = some e) : entries.lookup i = some e := by
  rcases eq_or_ne i id with rfl | hne
  · rw [AList.lookup_erase] at h
    cases h
  · rwa [AList.lookup_erase_ne hne] at h

theorem withRoom_eq (b : MemoryBackend) (order : List String) :
    b.withRoom order = b ∨ ∃ id, b.withRoom order = { b with entries := b.entries.erase id } := by
  unfold withRoom evictOldestLocked
  dsimp only
  split
  · split
    · exact .inr ⟨_, rfl⟩
    · exact .inl rfl
  · exact .inl rfl

theorem get_eq (b : MemoryBackend) (id : String) (now : Int) :
    (b.get id now).2 = b ∨
      (∃ e, b.entries.lookup id = some e ∧ expired e.expiresAt now) ∧
        (b.get id now).2 = { b with entries := b.entries.erase id } := by
  cases he : b.entries.lookup id with
  | none => simp only [get, he, true_or]
  | some e =>
    cases hexp : expired e.expiresAt now with
    | true => exact .inr ⟨⟨e, rfl, hexp⟩, by simp only [get, he, hexp, if_true]⟩
    | false => exact .inl (by simp only [get, he, hexp, Bool.false_eq_true, if_false])

theorem maxSize_step (b : MemoryBackend) (op : Op) : (b.step op).maxSize = b.maxSize := by
  cases op with
  | put id content ttl now now' order =>
    show (b.withRoom order).maxSize = b.maxSize
    rcases b.withRoom_eq order with heq | ⟨v, heq⟩ <;> rw [heq]
  | get id now =>
    show (b.get id now).2.maxSize = b.maxSize
    rcases b.get_eq id now with heq | ⟨-, heq⟩ <;> rw [heq]

theorem maxSize_run (maxSize : Int) (ops : List Op) : (run maxSize ops).maxSize = maxSize := by
  induction ops using reverseRecOn with
  | nil => rfl
  | append_singleton ops op ih => rw [run_concat, maxSize_step, ih]

theorem lookup_step (h : (b.step op).entries.lookup i = some e) :
    op.inserted = some (i, e) ∨ b.entries.lookup i = some e := by
  cases op with
  | put id content ttl now now' order =>
    dsimp only [step, put] at h
    rcases eq_or_ne i id with rfl | hne
    · rw [AList.lookup_insert, Option.some.injEq] at h
      rw [← h]
      exact .inl rfl
    · rw [AList.lookup_insert_ne hne] at h
      rcases b.withRoom_eq order with heq | ⟨v, heq⟩ <;> rw [heq] at h
      · exact .inr h
      · exact .inr (lookup_erase_some h)
  | get id now =>
    dsimp only [step] at h
    rcases b.get_eq id now with heq | ⟨-, heq⟩ <;> rw [heq] at h
    · exact .inr h
    · exact .inr (lookup_erase_some h)

theorem mem_inserts (h : (run maxSize ops).entries.lookup i = some e) : (i, e) ∈ inserts ops := by
  induction ops using reverseRecOn with
  | nil => cases h
  | append_singleton ops op ih =>
    rw [run_concat] at h
    rw [inserts_append, mem_append]
    rcases lookup_step h with hput | hheld
    · exact .inr (mem_filterMap.mpr ⟨op, mem_singleton_self op, hput⟩)
    · exact .inl (ih hheld)

theorem exists_insert (h : i ∈ (run maxSize ops).entries.keys) :
    ∃ e, (run maxSize ops).entries.lookup i = some e ∧ (i, e) ∈ inserts ops := by
  obtain ⟨e, he⟩ := Option.isSome_iff_exists.mp (AList.lookup_isSome.mpr (AList.mem_keys.mpr h))
  exact ⟨e, he, mem_inserts he⟩

/-! ## The limit -/

theorem withRoom_run (hpos : 0 < maxSize) (hops : Ordered ops)
    (horder : order.Perm (run maxSize ops).entries.keys) :
    (run maxSize ops).len < maxSize ∧ (run maxSize ops).withRoom order = run maxSize ops ∨
      maxSize ≤ (run maxSize ops).len ∧ ∃ id ∈ (run maxSize ops).entries.keys,
        (∀ id' ∈ (run maxSize ops).entries.keys,
          (run maxSize ops).insertedAt id ≤ (run maxSize ops).insertedAt id') ∧
        (run maxSize ops).withRoom order =
          { run maxSize ops with entries := (run maxSize ops).entries.erase id } := by
  rw [withRoom, maxSize_run]
  rcases lt_or_ge (run maxSize ops).len maxSize with hlt | hge
  · exact .inl ⟨hlt, if_neg fun h => not_lt.mpr h.2 hlt⟩
  · right
    have hne : (run maxSize ops).entries.keys ≠ [] := by
      intro hnil
      rw [len, hnil] at hge
      exact absurd hpos (not_lt.mpr hge)
    have hids : ∀ id ∈ (run maxSize ops).entries.keys, id ≠ "" := by
      intro id hid
      obtain ⟨e, -, hmem⟩ := exists_insert hid
      exact hops.nonempty _ hmem
    obtain ⟨id, hid, hmin, hevict⟩ := exists_oldest horder hids hne
    exact ⟨hge, id, hid, hmin, by rw [if_pos ⟨hpos, hge⟩, hevict]⟩

theorem length_keys_insert_le (entries : AList fun _ : String => MemEntry) (id : String)
    (e : MemEntry) : (entries.insert id e).keys.length ≤ entries.keys.length + 1 := by
  rw [AList.keys_insert, length_cons]
  exact Nat.succ_le_succ (length_erase_le ..)

theorem len_run_le (hpos : 0 < maxSize) (hops : Ordered ops) (hposs : (new maxSize).Possible ops) :
    (run maxSize ops).len ≤ maxSize := by
  induction ops using reverseRecOn with
  | nil => exact hpos.le
  | append_singleton ops op ih =>
    have hle := ih hops.of_append (possible_concat.mp hposs).1
    rw [run_concat]
    cases op with
    | put id content ttl now now' order =>
      have hins := length_keys_insert_le ((run maxSize ops).withRoom order).entries id
        ⟨content, expiry ttl now, now'⟩
      show ((AList.insert id _ _).keys.length : Int) ≤ maxSize
      rcases withRoom_run hpos hops.of_append (possible_concat.mp hposs).2 with
        ⟨hlt, heq⟩ | ⟨-, v, hv, -, heq⟩
      · rw [heq] at hins ⊢
        unfold len at hlt
        omega
      · have hpred := length_erase_of_mem hv
        rw [← AList.keys_erase] at hpred
        have hkeys := length_pos_of_mem hv
        rw [heq] at hins ⊢
        dsimp only at hins ⊢
        unfold len at hle
        omega
    | get id now =>
      show (((run maxSize ops).get id now).2.entries.keys.length : Int) ≤ maxSize
      rcases (run maxSize ops).get_eq id now with heq | ⟨-, heq⟩ <;> rw [heq]
      · exact hle
      · refine le_trans (Int.ofNat_le.mpr ?_) hle
        rw [AList.keys_erase]
        exact length_erase_le ..

/-! ## The last entries put -/

/-- An id with fewer than `maxSize` puts after its own is not the oldest of a full backend: all that
is held is the id itself and what those put. -/
theorem len_le_of_oldest {before after : List Op} (hop : op.inserted = some (id, e))
    (hops : Ordered (before ++ op :: after))
    (hid : (run maxSize (before ++ op :: after)).entries.lookup id = some e)
    (hmin : ∀ id' ∈ (run maxSize (before ++ op :: after)).entries.keys,
      (run maxSize (before ++ op :: after)).insertedAt id ≤
        (run maxSize (before ++ op :: after)).insertedAt id') :
    (run maxSize (before ++ op :: after)).len ≤ (inserts after).length + 1 := by
  have hins : inserts (before ++ op :: after) = inserts before ++ (id, e) :: inserts after := by
    rw [inserts_append, inserts, inserts, filterMap_cons_some hop, inserts]
  have hsub : (run maxSize (before ++ op :: after)).entries.keys ⊆
      id :: (inserts after).map Prod.fst := by
    intro id' hid'
    obtain ⟨e', he', hmem⟩ := exists_insert hid'
    have hle := hmin id' hid'
    rw [insertedAt, insertedAt, hid, he'] at hle
    rw [hins] at hmem
    rcases mem_append.mp hmem with hbefore | hrest
    · -- an earlier put would be older
      have hpair := hops.increasing
      rw [hins] at hpair
      have hlt := (pairwise_append.mp hpair).2.2 _ hbefore _ mem_cons_self
      exact absurd hlt (not_lt.mpr hle)
    · have hfst := mem_map_of_mem (f := Prod.fst) hrest
      rwa [map_cons] at hfst
  have hlen := ((run maxSize (before ++ op :: after)).entries.keys_nodup.subperm hsub).length_le
  rw [length_cons, length_map] at hlen
  exact Int.ofNat_le.mpr hlen

theorem lookup_run {before after : List Op} (hop : op.inserted = some (id, e))
    (hops : Ordered (before ++ op :: after))
    (hposs : (new maxSize).Possible (before ++ op :: after))
    (hlast : ((inserts after).length : Int) < maxSize)
    (hlive : ∀ t, Op.get id t ∈ after → expired e.expiresAt t = false) :
    (run maxSize (before ++ op :: after)).entries.lookup id = some e := by
  have hpos : 0 < maxSize := lt_of_le_of_lt (Int.natCast_nonneg _) hlast
  induction after using reverseRecOn with
  | nil =>
    rw [run_concat]
    cases op with
    | put id content ttl now now' order =>
      obtain ⟨rfl, rfl⟩ := Prod.mk.inj (Option.some.inj hop)
      exact AList.lookup_insert _
    | get => cases hop
  | append_singleton after op' ih =>
    rw [← cons_append, ← append_assoc] at hops hposs ⊢
    rw [inserts_append, length_append, Nat.cast_add] at hlast
    have hheld := ih hops.of_append (possible_concat.mp hposs).1 (by omega)
      fun t ht => hlive t (mem_append_left _ ht)
    rw [run_concat]
    cases op' with
    | put id' content ttl now now' order =>
      have hnew : id ≠ id' := by
        have hnodup := hops.nodup
        rw [inserts_append, map_append] at hnodup
        exact (nodup_append.mp hnodup).2.2 id
          (mem_map_of_mem (f := Prod.fst) (mem_inserts hheld)) id'
          (mem_singleton_self id')
      show (AList.insert id' _ ((run maxSize _).withRoom order).entries).lookup id = some e
      rw [AList.lookup_insert_ne hnew]
      rcases withRoom_run hpos hops.of_append (possible_concat.mp hposs).2 with
        ⟨-, heq⟩ | ⟨hfull, v, -, hmin, heq⟩ <;> rw [heq]
      · exact hheld
      · rcases eq_or_ne id v with rfl | hne
        · have hlen := len_le_of_oldest hop hops.of_append hheld hmin
          have hone : (inserts [Op.put id' content ttl now now' order]).length = 1 := rfl
          omega
        · rw [AList.lookup_erase_ne hne]
          exact hheld
    | get id' t =>
      show ((run maxSize _).get id' t).2.entries.lookup id = some e
      rcases (run maxSize (before ++ op :: after)).get_eq id' t with
        heq | ⟨⟨e', he', hexp⟩, heq⟩ <;> rw [heq]
      · exact hheld
      · rcases eq_or_ne id id' with rfl | hne
        · obtain rfl : e' = e := Option.some.inj (he'.symm.trans hheld)
          rw [hlive t (by simp)] at hexp
          cases hexp
        · rw [AList.lookup_erase_ne hne]
          exact hheld

/-- Stored originals stay retrievable.  For any `Put`s and `Get`s with distinct ids that are not
empty and insertions one after the other, no more than `maxSize` entries are held.  What was put
among the last `maxSize` puts, and that no `Get` comes too late for, is found by `Get` as it was
put. -/
theorem last_puts_found {maxSize : Int} (hsize : 1 ≤ maxSize) {ops : List Op}
    (hposs : (new maxSize).Possible ops) (hops : Ordered ops) :
    (run maxSize ops).len ≤ maxSize ∧
      ∀ before id content ttl now now' order after T,
        ops = before ++ .put id content ttl now now' order :: after →
        ((inserts after).length : Int) < maxSize →
        (∀ t, Op.get id t ∈ after ++ [.get id T] → expired (expiry ttl now) t = false) →
        ((run maxSize ops).get id T).1 = some content := by
  constructor
  · exact len_run_le hsize hops hposs
  rintro before id content ttl now now' order after T rfl hlast hlive
  have hheld := lookup_run rfl hops hposs hlast
    fun t ht => hlive t (mem_append_left _ ht)
  have hT := hlive T (mem_append_right _ (mem_singleton_self _))
  simp only [get, hheld, hT, Bool.false_eq_true, if_false]

def threeOriginals : List Op :=
  [.put "a" [97] 0 0 0 [], .put "b" [98] 9 1 1 ["a"], .get "a" 2, .put "c" [99] 0 3 3 ["b", "a"]]

/-- The second one is found as long as it has not expired. -/
theorem second_original_found : ((run 2 threeOriginals).get "b" 10).1 = some [98] := by
  have hposs : (new 2).Possible threeOriginals :=
    ⟨.refl _, .refl _, trivial, .refl _, trivial⟩
  refine (last_puts_found (by decide) hposs ⟨by decide, by decide, by decide⟩).2
    [.put "a" [97] 0 0 0 []] "b" [98] 9 1 1 ["a"] [.get "a" 2, .put "c" [99] 0 3 3 ["b", "a"]] 10
    rfl (by decide) ?_
  intro t ht
  obtain rfl : t = 10 := by simpa using ht
  rfl

end MemoryBackend

end Ixr.Retrieval
