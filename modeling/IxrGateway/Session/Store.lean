import IxrGateway.GoTime
import IxrGateway.Schema
import IxrGateway.LineJournal

/-!
# The session stores

`MemorySessionStore` keeps the last turns of each session with an expiry time.
`PersistentSessionStore` adds a journal: `Append` writes the new turn to memory
and then to the journal, and a new store replays the journal.  `Get`, `Delete`
and the collector are inherited and act on memory only.

The journal file is a list of bytes.  A missing file is an empty one, since
opening it for append creates it.
-/

namespace Ixr.Session

open LineJournal

/-- `sessionEntry`. -/
structure SessionEntry where
  messages : List Message := []
  expiresAt : Option Int := none
deriving Repr, DecidableEq

/-- How long and how much is kept. -/
structure Config where
  ttl : Int
  maxTurns : Int
deriving Repr, DecidableEq

/-- Keep the last `2 * maxTurns` messages. -/
def trim (cfg : Config) (messages : List Message) : List Message :=
  if 0 < cfg.maxTurns then messages.rtake (cfg.maxTurns * 2).toNat else messages

/-! ## The store in memory -/

/-- The map of a `MemorySessionStore`. -/
abbrev Sessions := String → Option SessionEntry

/-- The result of `MemorySessionStore.Get`. -/
def Sessions.get (s : Sessions) (key : String) (now : Int) : Option (List Message) :=
  match s key with
  | none => none
  | some e => if expired e.expiresAt now then none else some e.messages

/-- The session, unless expired. -/
def dropExpired (now : Int) (e : Option SessionEntry) : Option SessionEntry :=
  e.filter fun e => !expired e.expiresAt now

/-- `MemorySessionStore.Get`, on the map. -/
def Sessions.afterGet (s : Sessions) (key : String) (now : Int) : Sessions :=
  Function.update s key (dropExpired now (s key))

/-- The entry after `MemorySessionStore.Append`. -/
def appendTurn (cfg : Config) (e : SessionEntry) (user assistant : Message) (now : Int) :
    SessionEntry where
  messages := trim cfg (e.messages ++ [user, assistant])
  expiresAt := if 0 < cfg.ttl then some (now + cfg.ttl) else e.expiresAt

/-- `MemorySessionStore.Append`. -/
def Sessions.append (cfg : Config) (s : Sessions) (key : String) (user assistant : Message)
    (now : Int) : Sessions :=
  Function.update s key (some (appendTurn cfg ((s key).getD {}) user assistant now))

/-- `MemorySessionStore.Delete`. -/
def Sessions.delete (s : Sessions) (key : String) : Sessions := Function.update s key none

/-- One round of `gcLoop`. -/
def Sessions.gc (s : Sessions) (now : Int) : Sessions := fun key => dropExpired now (s key)

/-! ## The journal -/

/-- `deltaEntry`, one line of the journal. -/
structure DeltaEntry where
  key : String
  msgs : List Message
  expiresAt : Option Int := none
deriving Repr, DecidableEq

/-- The scanner's limit in `replayJournal`, `4<<20`. -/
def maxLine : Nat := 4194304

/-- One line of the accumulation loop.  The last expiry of a key wins. -/
def accumulate (acc : Sessions) (e : DeltaEntry) : Sessions :=
  Function.update acc e.key
    (some ⟨((acc e.key).getD {}).messages ++ e.msgs, e.expiresAt⟩)

/-- All messages of a key, and its last expiry. -/
def accumulated (es : List DeltaEntry) : Sessions := es.foldl accumulate fun _ => none

/-- What `replayJournal` loads: unexpired sessions, trimmed. -/
def loaded (cfg : Config) (es : List DeltaEntry) (now : Int) : Sessions := fun key =>
  (dropExpired now (accumulated es key)).map fun a => { a with messages := trim cfg a.messages }

/-- The keys of loaded sessions. -/
def loadedKeys (cfg : Config) (es : List DeltaEntry) (now : Int) : List String :=
  (es.map (·.key)).dedup.filter fun key => (loaded cfg es now key).isSome

/-- The line `compactJournal` writes for a session. -/
def compactEntry (s : Sessions) (key : String) : DeltaEntry :=
  ⟨key, ((s key).getD {}).messages, ((s key).getD {}).expiresAt⟩

/-- A store with its journal file.  `now` is the last clock reading. -/
structure Store (β : Type) where
  sessions : Sessions
  file : List β
  now : Int

section

variable {β : Type} (c : Codec β DeltaEntry) (cfg : Config)

/-- `NewPersistentSessionStore` at time `now`.  The file is compacted if it has more lines than live
sessions, in the order in which the map happens to be ranged over. -/
inductive Opens [DecidableEq β] (file : List β) (now : Int) : Store β → Prop where
  | keep :
      (scan c.newline c.cr maxLine file).length ≤
        (loadedKeys cfg (c.entries maxLine file) now).length →
      Opens file now ⟨loaded cfg (c.entries maxLine file) now, file, now⟩
  | compact {order : List String} :
      (loadedKeys cfg (c.entries maxLine file) now).length <
        (scan c.newline c.cr maxLine file).length →
      order.Perm (loadedKeys cfg (c.entries maxLine file) now) →
      Opens file now ⟨loaded cfg (c.entries maxLine file) now,
        c.file (order.map (compactEntry (loaded cfg (c.entries maxLine file) now))), now⟩

/-- A call on the store, with the times it reads.  `Append` reads the clock once for memory and once
for the journal. -/
inductive Op where
  | append (key : String) (user assistant : Message) (now now' : Int)
  | delete (key : String)
  | get (key : String) (now : Int)
  | gc (now : Int)

/-- What a call does. -/
def Store.step (st : Store β) : Op → Store β
  | .append key user assistant now now' =>
    { sessions := st.sessions.append cfg key user assistant now
      file := c.append st.file ⟨key, [user, assistant], expiry cfg.ttl now'⟩
      now := now' }
  | .delete key => { st with sessions := st.sessions.delete key }
  | .get key now => { st with sessions := st.sessions.afterGet key now, now := now }
  | .gc now => { st with sessions := st.sessions.gc now, now := now }

end

end Ixr.Session
