import IxrGateway.Cache.Semantic
import IxrGateway.LineJournal

/-!
# The persistent semantic cache

`PersistentSemanticBackend` appends every stored entry to `semantic.jsonl`, with
the time at which it expires.  On startup it replays the lines of the file into
memory, and rewrites the file without the lines that have expired.

The replay reads the clock again and again: once at its start, and for every
line once for the time that is left and up to twice in `Store`.  A line that has
not expired at the start can have expired when its remaining time is computed.
The time left is then not positive, and `Store` takes that for "never expires"
(`replayed_expiry_iff`).
-/

namespace Ixr.Cache

open LineJournal List MemorySemanticBackend Codec

/-- `journalEntry`. -/
structure JournalEntry (ρ : Type) where
  vec : Vec
  resp : ρ
  expiresAt : Option Int
deriving Repr, DecidableEq

/-- The scanner's limit in `replayJournal`, `4<<20`. -/
def maxLine : Nat := 4194304

/-- The clock readings for one line of the replay: that of `time.Until`, and those of `evict` and
of the expiry in `Store`.  A reading that is not taken is not looked at. -/
structure LineClock where
  untilRead : Int
  evictRead : Int
  storeRead : Int
deriving Repr, DecidableEq

/-- `PersistentSemanticBackend`, with the text of its journal if that is open. -/
structure PersistentSemanticBackend (β ρ : Type) where
  memory : MemorySemanticBackend ρ
  file : Option (List β)

/-! ## The replay -/

/-- The time a line has left. -/
def JournalEntry.ttl {ρ : Type} (e : JournalEntry ρ) (r : LineClock) : Int :=
  match e.expiresAt with
  | none => 0
  | some t => t - r.untilRead

/-- Stores a line of the journal. -/
def MemorySemanticBackend.load {ρ : Type} (b : MemorySemanticBackend ρ)
    (p : JournalEntry ρ × LineClock) : MemorySemanticBackend ρ :=
  b.store p.1.vec p.1.resp (p.1.ttl p.2) p.2.evictRead p.2.storeRead

/-- What the replay has done: the memory, the number of lines, and the lines that are live. -/
structure Replayed (ρ : Type) where
  memory : MemorySemanticBackend ρ
  total : Nat := 0
  live : List (JournalEntry ρ) := []

section

variable {β ρ : Type} (c : Codec β (JournalEntry ρ))

/-- One line of the loop in `replayJournal`, which began at `now`. -/
def replayLine (now : Int) (s : Replayed ρ) (line : List β × LineClock) : Replayed ρ :=
  let s := { s with total := s.total + 1 }
  match c.decode line.1 with
  | none => s
  | some e =>
    if expired e.expiresAt now then s
    else { s with memory := s.memory.load (e, line.2), live := s.live ++ [e] }

variable [DecidableEq β]

/-- The lines with their times. -/
def timedLines (clock : Nat → LineClock) (file : List β) : List (List β × LineClock) :=
  (scan c.newline c.cr maxLine file).zipIdx.map fun (line, i) => (line, clock i)

/-- The loop of `replayJournal`. -/
def replayLines (maxSize now : Int) (clock : Nat → LineClock) (file : List β) : Replayed ρ :=
  (timedLines c clock file).foldl (replayLine c now) { memory := { maxSize := maxSize } }

/-- `replayJournal`: the memory, and the file, which is compacted if lines were dropped. -/
def replayJournal (maxSize now : Int) (clock : Nat → LineClock) (file : List β) :
    MemorySemanticBackend ρ × List β :=
  let s := replayLines c maxSize now clock file
  (s.memory, if s.live.length < s.total ∧ s.live ≠ [] then c.file s.live else file)

/-- `NewPersistentSemanticBackend` on a directory in which the journal can be opened.  Without a
journal there is nothing to replay, and an empty one is created. -/
def PersistentSemanticBackend.new (maxSize now : Int) (clock : Nat → LineClock)
    (file : Option (List β)) : PersistentSemanticBackend β ρ :=
  match file with
  | none => { memory := { maxSize := maxSize }, file := some [] }
  | some text =>
    let (memory, text) := replayJournal c maxSize now clock text
    { memory := memory, file := some text }

omit [DecidableEq β]

/-- `PersistentSemanticBackend.Store`.  The clock is read for an eviction and for the expiry in
memory, and once more for the expiry in the journal. -/
def PersistentSemanticBackend.store (b : PersistentSemanticBackend β ρ) (vec : Vec) (resp : ρ)
    (ttl evictRead storeRead journalRead : Int) : PersistentSemanticBackend β ρ where
  memory := b.memory.store vec resp ttl evictRead storeRead
  file := b.file.map fun text => c.append text ⟨vec, resp, expiry ttl journalRead⟩

/-! ## What is loaded -/

/-- The lines that are loaded. -/
def loadedLines (now : Int) (lines : List (List β × LineClock)) :
    List (JournalEntry ρ × LineClock) :=
  lines.filterMap fun line =>
    ((c.decode line.1).filter fun e => !expired e.expiresAt now).map (·, line.2)

/-- The entry of a loaded line. -/
def storedEntry (p : JournalEntry ρ × LineClock) : VectorEntry ρ where
  vec := p.1.vec
  resp := p.1.resp
  expiresAt := expiry (p.1.ttl p.2) p.2.storeRead

theorem foldl_replayLine_memory (now : Int) : ∀ (lines : List (List β × LineClock))
    (s : Replayed ρ),
    (lines.foldl (replayLine c now) s).memory =
      (loadedLines c now lines).foldl load s.memory
  | [], _ => rfl
  | line :: lines, s => by
    rw [foldl_cons, foldl_replayLine_memory now lines]
    cases hdecode : c.decode line.1 with
    | none => simp [replayLine, loadedLines, hdecode]
    | some e =>
      by_cases hexpired : expired e.expiresAt now = true
      · simp [replayLine, loadedLines, hdecode, hexpired]
      · simp [replayLine, loadedLines, hdecode, hexpired]

theorem MemorySemanticBackend.evict_sublist (entries : List (VectorEntry ρ)) (now : Int) :
    (evict entries now).Sublist entries := by
  unfold evict
  split
  · exact eraseP_sublist
  · exact tail_sublist entries

theorem MemorySemanticBackend.load_sublist (b : MemorySemanticBackend ρ)
    (p : JournalEntry ρ × LineClock) :
    (b.load p).entries.Sublist (b.entries ++ [storedEntry p]) := by
  refine Sublist.append ?_ (Sublist.refl _)
  split
  · exact evict_sublist b.entries _
  · exact Sublist.refl _

theorem foldl_load_sublist : ∀ (ps : List (JournalEntry ρ × LineClock))
    (b : MemorySemanticBackend ρ),
    (ps.foldl load b).entries.Sublist (b.entries ++ ps.map storedEntry)
  | [], b => by simp
  | p :: ps, b => by
    rw [foldl_cons, map_cons]
    have hlater := (b.load_sublist p).append (Sublist.refl (ps.map storedEntry))
    rw [append_assoc] at hlater
    exact (foldl_load_sublist ps _).trans hlater

/-! ## Expiry after the replay -/

/-- The readings of a replay that ends at `fin`, in order. -/
def readings (now : Int) (lines : List (List β × LineClock)) (fin : Int) : List Int :=
  now :: (lines.flatMap fun line => [line.2.untilRead, line.2.evictRead, line.2.storeRead]) ++
    [fin]

theorem readings_within {now fin : Int} {lines : List (List β × LineClock)}
    (hclock : (readings now lines fin).Pairwise (· ≤ ·)) {p : JournalEntry ρ × LineClock}
    (hp : p ∈ loadedLines c now lines) : now ≤ p.2.untilRead ∧ p.2.storeRead ≤ fin := by
  obtain ⟨line, hline, hload⟩ := mem_filterMap.mp hp
  obtain ⟨e, -, rfl⟩ := Option.map_eq_some_iff.mp hload
  have hread : ∀ r ∈ [line.2.untilRead, line.2.evictRead, line.2.storeRead],
      r ∈ lines.flatMap fun line => [line.2.untilRead, line.2.evictRead, line.2.storeRead] :=
    fun r hr => mem_flatMap.mpr ⟨line, hline, hr⟩
  obtain ⟨hfirst, -, hlast⟩ := pairwise_append.mp hclock
  exact ⟨(pairwise_cons.mp hfirst).1 _ (hread _ (by simp)),
    hlast _ (mem_cons_of_mem _ (hread _ (by simp))) fin (by simp)⟩

theorem storedEntry_expiresAt {p : JournalEntry ρ × LineClock} {x : Int}
    (hx : p.1.expiresAt = some x) :
    (storedEntry p).expiresAt = expiry (x - p.2.untilRead) p.2.storeRead := by
  rw [storedEntry, JournalEntry.ttl, hx]

variable [DecidableEq β]

/-- What is in memory after the replay has been loaded from lines.  All loaded lines that expire
still do so, and are not found any more when the clock has passed their expiry by more than the
replay took, just if each of them had time left when that was computed. -/
theorem replayed_expiry_iff (sqrt : ℚ → ℚ) (maxSize now fin : Int) (clock : Nat → LineClock)
    (file : List β) (hclock : (readings now (timedLines c clock file) fin).Pairwise (· ≤ ·)) :
    (replayLines c maxSize now clock file).memory.entries.Sublist
      ((loadedLines c now (timedLines c clock file)).map storedEntry) ∧
    ((∀ p ∈ loadedLines c now (timedLines c clock file), ∀ x, p.1.expiresAt = some x →
        (storedEntry p).expiresAt ≠ none ∧
        ∀ t, fin < t → x + (fin - now) < t → ∀ before after vec threshold,
          find sqrt ⟨before ++ storedEntry p :: after, maxSize⟩ vec threshold
              t =
            find sqrt ⟨before ++ after, maxSize⟩ vec threshold t) ↔
      ∀ p ∈ loadedLines c now (timedLines c clock file), ∀ x, p.1.expiresAt = some x →
        p.2.untilRead < x) := by
  constructor
  · rw [replayLines, foldl_replayLine_memory]
    have hloaded := foldl_load_sublist (loadedLines c now (timedLines c clock file))
      { maxSize := maxSize }
    rwa [nil_append] at hloaded
  · refine forall₂_congr fun p hp => forall₂_congr fun x hx => ?_
    obtain ⟨hstart, hstop⟩ := readings_within c hclock hp
    rw [storedEntry_expiresAt hx, expiry]
    constructor
    · rintro ⟨hsome, -⟩
      by_contra hlate
      rw [if_neg (by omega)] at hsome
      exact hsome rfl
    · intro hleft
      rw [if_pos (by omega)]
      refine ⟨Option.some_ne_none _, fun t _ ht before after vec threshold => ?_⟩
      have hexpired : expired (storedEntry p).expiresAt t = true := by
        rw [storedEntry_expiresAt hx, expiry, if_pos (by omega)]
        exact decide_eq_true (by omega)
      simp only [find, foldl_append, foldl_cons, findStep, hexpired, if_true]

end

/-! ## A line that expires during the replay -/

def shortLived : JournalEntry String := ⟨[1], "answer", some 10⟩

def shortLivedFile : List (Bool ⊕ JournalEntry String) :=
  (symbols (JournalEntry String)).file [shortLived]

def stoppedClock (t : Int) : Nat → LineClock := fun _ => ⟨t, t, t⟩

/-- Replayed between 5 and 7, the line is not found at 100 any more. -/
theorem replayed_in_time :
    storedEntry (shortLived, stoppedClock 6 0) = ⟨[1], "answer", some 10⟩ ∧
      find id ⟨[storedEntry (shortLived, stoppedClock 6 0)], 10⟩ [1] 0 100 =
        none := by
  have hloaded : loadedLines (symbols (JournalEntry String)) 5
      (timedLines (symbols (JournalEntry String)) (stoppedClock 6) shortLivedFile) =
      [(shortLived, stoppedClock 6 0)] := by decide
  have hexpiry := (replayed_expiry_iff (symbols (JournalEntry String)) id 10 5 7
    (stoppedClock 6) shortLivedFile (by decide)).2
  rw [hloaded] at hexpiry
  have hfound := (hexpiry.mpr (forall_mem_singleton.mpr (by decide)) _ mem_cons_self 10
    rfl).2 100 (by decide) (by decide) [] [] [1] 0
  exact ⟨by decide, hfound⟩

/-- The replay begins at 9 and comes to the line at 11.  The line is loaded without an expiry, and
is found as long as it stays in memory. -/
theorem replayed_forever :
    (readings 9 (timedLines (symbols (JournalEntry String)) (stoppedClock 11)
        shortLivedFile) 12).Pairwise (· ≤ ·) ∧
      (replayLines (symbols (JournalEntry String)) 10 9 (stoppedClock 11)
        shortLivedFile).memory.entries = [⟨[1], "answer", none⟩] ∧
      ∀ t, (replayLines (symbols (JournalEntry String)) 10 9 (stoppedClock 11)
        shortLivedFile).memory.find id [1] 0 t = some "answer" := by
  have hentries : (replayLines (symbols (JournalEntry String)) 10 9 (stoppedClock 11)
      shortLivedFile).memory.entries = [⟨[1], "answer", none⟩] := by decide
  refine ⟨by decide, hentries, fun t => ?_⟩
  have hscore : cosineSimilarity id [1] [1] = 1 := by decide +kernel
  simp [find, hentries, findStep, expired, hscore]

end Ixr.Cache
