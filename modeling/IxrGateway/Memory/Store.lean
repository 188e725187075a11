import IxrGateway.LineJournal
import IxrGateway.Retention

/-!
# The store of user memories

`MemoryStore` keeps facts about users.  Each user has a list of entries, oldest
first, that is pruned by age and by number whenever it is read or written.  A
journal has a line for every entry saved.  `Delete` and `compactNow` rewrite it
from memory, and a new store replays it.

Times are nanoseconds.  A call reads the clock once or more, so the readings are
arguments.  A user without entries and a user that the map does not have are the
same.  The map is ranged over in some order, which is an argument as well.
-/

namespace Ixr.Memory

open LineJournal

/-- The zero `time.Time`: the start of the year 1, counted from 1970. -/
def zeroTime : Int := -62135596800000000000

/-- `now.Sub(t)`, which saturates. -/
def timeSub (now t : Int) : Int := max (-2 ^ 63) (min (now - t) (2 ^ 63 - 1))

/-- `Entry`. -/
structure Entry where
  id : String := ""
  userKey : String := ""
  category : String := ""
  content : String := ""
  source : String := ""
  createdAt : Int := zeroTime
deriving Repr, DecidableEq

/-- How long and how much is kept. -/
structure Config where
  ttl : Int
  maxPerUser : Int
  /-- `t.Format(time.RFC3339Nano)`. -/
  formatTime : Int → String

/-- `pruneLocked` at time `now`. -/
def pruneLocked (cfg : Config) (now : Int) (entries : List Entry) : List Entry :=
  let entries :=
    if 0 < cfg.ttl then entries.filter fun e => timeSub now e.createdAt ≤ cfg.ttl else entries
  if 0 < cfg.maxPerUser then entries.rtake cfg.maxPerUser.toNat else entries

/-- The entry `Save` stores: with a creation time and an ID. -/
def stamped (cfg : Config) (e : Entry) (now : Int) : Entry :=
  let e := if e.createdAt = zeroTime then { e with createdAt := now } else e
  if e.id = "" then
    { e with id := e.userKey ++ ":" ++ e.category ++ ":" ++ cfg.formatTime e.createdAt }
  else e

/-! ## The map -/

/-- The entries by user. -/
abbrev Entries := String → List Entry

/-- An order in which the map may be ranged over. -/
structure Ranges {α : Type} (order : List String) (s : String → List α) : Prop where
  nodup : order.Nodup
  /-- A key with entries is in the map. -/
  mem : ∀ key, s key ≠ [] → key ∈ order

/-- `Save`, on the map. -/
def Entries.save (cfg : Config) (s : Entries) (e : Entry) (now : Int) : Entries :=
  Function.update s e.userKey (pruneLocked cfg now (s e.userKey ++ [e]))

/-- `Recent` and `All`, on the map. -/
def Entries.prune (cfg : Config) (s : Entries) (userKey : String) (now : Int) : Entries :=
  Function.update s userKey (pruneLocked cfg now (s userKey))

/-- `Delete`, on the map: `none` is `ErrNotFound`. -/
def Entries.delete (s : Entries) (userKey entryID : String) : Option Entries :=
  if (s userKey).any fun e => e.id = entryID then
    some (Function.update s userKey ((s userKey).eraseP fun e => e.id = entryID))
  else none

/-- `compactNow`, on the map.  The clock is read once for each user. -/
def Entries.compact (cfg : Config) (s : Entries) (times : String → Int) : Entries :=
  fun userKey => pruneLocked cfg (times userKey) (s userKey)

/-- The loop of `Recent` over the sorted entries: the first entry of each category. -/
def firstPerCategory (n : Int) : List String → List Entry → List Entry → List Entry
  | _, result, [] => result
  | seen, result, e :: es =>
    if e.category ∈ seen then firstPerCategory n seen result es
    else if n ≤ (result ++ [e]).length then result ++ [e]
    else firstPerCategory n (e.category :: seen) (result ++ [e]) es

/-- An answer of `Recent` for a pruned list.  `sort.Slice` may order entries of one time either
way. -/
def IsRecent (all : List Entry) (n : Int) (result : List Entry) : Prop :=
  ∃ sorted, sorted.Perm all ∧ (sorted.Pairwise fun a b => b.createdAt ≤ a.createdAt) ∧
    result = firstPerCategory n [] [] sorted

/-! ## The journal -/

/-- The scanner's limit in `replayJournal`, `4<<20`. -/
def maxLine : Nat := 4194304

/-- The entries of a user. -/
def ofUser (key : String) (es : List Entry) : List Entry := es.filter fun e => e.userKey = key

/-- What `replayJournal` loads: the lines that have not expired, pruned for each user. -/
def loaded (cfg : Config) (es : List Entry) (now : Int) : Entries := fun key =>
  pruneLocked cfg now (ofUser key
    (es.filter fun e => ¬(0 < cfg.ttl ∧ cfg.ttl < timeSub now e.createdAt)))

/-- A store with its journal file.  `now` is the last clock reading. -/
structure Store (β : Type) where
  entries : Entries
  file : List β
  now : Int

section

variable {β : Type} (c : Codec β Entry) (cfg : Config)

/-- `NewMemoryStoreWithLimits` with a directory, at time `now`.  The file is compacted if it has
more lines than live entries. -/
inductive Opens [DecidableEq β] (file : List β) (now : Int) : Store β → Prop where
  | keep {order : List String} :
      Ranges order (loaded cfg (c.entries maxLine file) now) →
      (scan c.newline c.cr maxLine file).length ≤
        (order.flatMap (loaded cfg (c.entries maxLine file) now)).length →
      Opens file now ⟨loaded cfg (c.entries maxLine file) now, file, now⟩
  | compact {order : List String} :
      Ranges order (loaded cfg (c.entries maxLine file) now) →
      (order.flatMap (loaded cfg (c.entries maxLine file) now)).length <
        (scan c.newline c.cr maxLine file).length →
      Opens file now ⟨loaded cfg (c.entries maxLine file) now,
        c.file (order.flatMap (loaded cfg (c.entries maxLine file) now)), now⟩

/-- A call on the store, with the times it reads and the order in which it ranges over the map.
`Save` reads the clock to stamp the entry and again to prune. -/
inductive Op where
  | save (e : Entry) (stamp now : Int)
  | recent (userKey : String) (n : Int) (now : Int)
  | all (userKey : String) (now : Int)
  | delete (userKey entryID : String) (order : List String)
  | compactNow (times : String → Int) (order : List String) (now : Int)

/-- What a call does. -/
def Store.step (st : Store β) : Op → Store β
  | .save e stamp now =>
    { entries := st.entries.save cfg (stamped cfg e stamp) now
      file := c.append st.file (stamped cfg e stamp)
      now := now }
  | .recent userKey _ now => { st with entries := st.entries.prune cfg userKey now, now := now }
  | .all userKey now => { st with entries := st.entries.prune cfg userKey now, now := now }
  | .delete userKey entryID order =>
    match st.entries.delete userKey entryID with
    | none => st
    | some entries => { st with entries := entries, file := c.file (order.flatMap entries) }
  | .compactNow times order now =>
    { entries := st.entries.compact cfg times
      file := c.file (order.flatMap (st.entries.compact cfg times))
      now := now }

/-- The answer of `All` at time `now`. -/
def Store.all (st : Store β) (userKey : String) (now : Int) : List Entry :=
  pruneLocked cfg now (st.entries userKey)

end

end Ixr.Memory
