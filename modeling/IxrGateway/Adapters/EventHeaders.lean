import IxrGateway.GoIO

/-!
# Headers of event-stream frames

The headers of a frame are entries, one after the other: the length of a name in
one byte, the name, the type of a value in one byte, and the value.  `Entry` is
one of them, with the sizes that the format prescribes.

`parseHeadersFrom_eq_ok` says that the parser accepts exactly the concatenations
of entries, and what it makes of them.

The source indexes and cuts slices, which panics out of range.  `Checked` has
the same functions with these accesses, where `none` is a panic or a loop that
has not ended.  Neither comes up (`Checked.headersFrom_eq`).
-/

namespace Ixr.Adapters.Bedrock

open GoIO List

/-! ## The parser -/

/-- The signed number of `w` bytes. -/
def signedBE (w : Nat) (b : Bytes) : Int :=
  if decodeBE b < 256 ^ w / 2 then decodeBE b else decodeBE b - 256 ^ w

/-- A header value of `w` bytes that is printed as a number. -/
def readNumberValue (w : Nat) (kind : String) (b : Bytes) : Except Err (Bytes × Bytes) :=
  if b.length < w then
    .error (.new (ascii ("bedrock: truncated event stream " ++ kind ++ " header")))
  else .ok (ascii (toString (signedBE w (b.take w))), b.drop w)

/-- Reads a value after its length. -/
def readSizedValue (kind : String) (b : Bytes) : Except Err (Bytes × Bytes) :=
  if b.length < 2 then
    .error (.new (ascii ("bedrock: truncated event stream " ++ kind ++ " header length")))
  else
    let n := decodeBE (b.take 2)
    let b := b.drop 2
    if b.length < n then
      .error (.new (ascii ("bedrock: truncated event stream " ++ kind ++ " header")))
    else .ok (b.take n, b.drop n)

/-- Bytes in hexadecimal. -/
def hexBytes (b : Bytes) : Bytes :=
  b.flatMap fun x => [x.toNat / 16, x.toNat % 16].map fun d => (Nat.digitChar d).toNat.toUInt8

/-- `readEventStreamHeaderValue`: the value and what follows it. -/
def readEventStreamHeaderValue (valueType : UInt8) (b : Bytes) : Except Err (Bytes × Bytes) :=
  match valueType.toNat with
  | 0 => .ok (ascii "true", b)
  | 1 => .ok (ascii "false", b)
  | 2 => readNumberValue 1 "byte" b
  | 3 => readNumberValue 2 "short" b
  | 4 => readNumberValue 4 "int" b
  | 5 | 8 => readNumberValue 8 "long" b
  | 6 => readSizedValue "byte-array" b
  | 7 => readSizedValue "string" b
  | 9 =>
    if b.length < 16 then .error (.new (ascii "bedrock: truncated event stream uuid header"))
    else .ok (hexBytes (b.take 16), b.drop 16)
  | kind =>
    .error (.new (ascii ("bedrock: unknown event stream header value type " ++ toString kind)))

/-- `headers[name] = value`. -/
def setHeader (headers : List (Bytes × Bytes)) (name value : Bytes) : List (Bytes × Bytes) :=
  if name ∈ headers.map Prod.fst then
    headers.map fun h => if h.1 = name then (name, value) else h
  else headers ++ [(name, value)]

/-- The loop of `parseEventStreamHeaders`.  A pass takes at least two bytes, so the number of
bytes is enough passes. -/
def parseHeadersFrom :
    Nat → List (Bytes × Bytes) → Bytes → Except Err (List (Bytes × Bytes))
  | 0, headers, _ => .ok headers
  | _ + 1, headers, [] => .ok headers
  | passes + 1, headers, nameLen :: b =>
    if b.length < nameLen.toNat + 1 then
      .error (.new (ascii "bedrock: truncated event stream header name"))
    else
      let name := b.take nameLen.toNat
      let b := b.drop nameLen.toNat
      match readEventStreamHeaderValue (b.headD 0) b.tail with
      | .error err => .error err
      | .ok (value, b) => parseHeadersFrom passes (setHeader headers name value) b

/-- `parseEventStreamHeaders`. -/
def parseEventStreamHeaders (b : Bytes) : Except Err (List (Bytes × Bytes)) :=
  parseHeadersFrom b.length [] b

/-! ## Entries -/

/-- How long a value is. -/
def valueSize (valueType : UInt8) (b : Bytes) : Option Nat :=
  match valueType.toNat with
  | 0 | 1 => some 0
  | 2 => some 1
  | 3 => some 2
  | 4 => some 4
  | 5 | 8 => some 8
  | 6 | 7 => some (2 + decodeBE (b.take 2))
  | 9 => some 16
  | _ => none

/-- The text of a value. -/
def decodeValue (valueType : UInt8) (value : Bytes) : Bytes :=
  match valueType.toNat with
  | 0 => ascii "true"
  | 1 => ascii "false"
  | 6 | 7 => value.drop 2
  | 9 => hexBytes value
  | _ => ascii (toString (signedBE value.length value))

/-- An entry of the headers: a name, the type of its value and the bytes of the value. -/
structure Entry where
  name : Bytes
  valueType : UInt8
  value : Bytes
  name_length : name.length < 256
  value_size : valueSize valueType value = some value.length

/-- The bytes of an entry. -/
def Entry.bytes (e : Entry) : Bytes :=
  e.name.length.toUInt8 :: (e.name ++ e.valueType :: e.value)

/-- The text of the entry's value. -/
def Entry.decoded (e : Entry) : Bytes := decodeValue e.valueType e.value

/-- The last value of a name. -/
def lastValue (entries : List Entry) (name : Bytes) : Option Bytes :=
  (entries.reverse.find? fun e => e.name = name).map Entry.decoded

/-! ## Values -/

variable {b rest value : Bytes}

variable {w passes : Nat} {kind : String} {headers parsed : List (Bytes × Bytes)}

theorem cut_eq_ok {e : Err} (decode : Bytes → Bytes) :
    (if b.length < w then .error e else .ok (decode (b.take w), b.drop w) :
        Except Err (Bytes × Bytes)) = .ok (value, rest) ↔
      ∃ raw, some w = some raw.length ∧ b = raw ++ rest ∧ value = decode raw := by
  constructor
  · intro h
    split at h
    · cases h
    · next hlen =>
      cases h
      have htake : (b.take w).length = w := length_take_of_le (Nat.le_of_not_lt hlen)
      exact ⟨b.take w, by rw [htake], (take_append_drop w b).symm, rfl⟩
  · rintro ⟨raw, hw, rfl, rfl⟩
    cases hw
    rw [if_neg (by simp), take_left, drop_left]

theorem readNumberValue_eq_ok :
    readNumberValue w kind b = .ok (value, rest) ↔
      ∃ raw, some w = some raw.length ∧ b = raw ++ rest ∧
        value = ascii (toString (signedBE raw.length raw)) := by
  rw [readNumberValue, cut_eq_ok fun raw => ascii (toString (signedBE w raw))]
  refine exists_congr fun raw => and_congr_right fun hw => ?_
  cases hw
  exact Iff.rfl

theorem readSizedValue_eq_ok :
    readSizedValue kind b = .ok (value, rest) ↔
      ∃ raw, some (2 + decodeBE (raw.take 2)) = some raw.length ∧ b = raw ++ rest ∧
        value = raw.drop 2 := by
  constructor
  · intro h
    unfold readSizedValue at h
    split at h
    · cases h
    · next htwo =>
      obtain ⟨body, hbody, hrest, hvalue⟩ := (cut_eq_ok id).mp h
      have htake : (b.take 2).length = 2 := length_take_of_le (Nat.le_of_not_lt htwo)
      have hfront : (b.take 2 ++ body).take 2 = b.take 2 := take_left' htake
      refine ⟨b.take 2 ++ body, ?_, ?_, hvalue.trans (drop_left' htake).symm⟩
      · rw [hfront, length_append, htake, Option.some.inj hbody]
      · rw [append_assoc, ← hrest, take_append_drop]
  · rintro ⟨raw, hsize, rfl, rfl⟩
    have hsize := Option.some.inj hsize
    have htwo : 2 ≤ raw.length := by omega
    rw [readSizedValue, if_neg (by rw [length_append]; omega)]
    refine (cut_eq_ok id).mpr ⟨raw.drop 2, ?_, drop_append_of_le_length htwo, rfl⟩
    rw [take_append_of_le_length htwo, length_drop, ← hsize, Nat.add_sub_cancel_left]

/-- A value is read exactly if it stands at the front with the size of its type. -/
theorem readEventStreamHeaderValue_eq_ok {valueType : UInt8} :
    readEventStreamHeaderValue valueType b = .ok (value, rest) ↔
      ∃ raw, valueSize valueType raw = some raw.length ∧ b = raw ++ rest ∧
        value = decodeValue valueType raw := by
  have hempty (text : Bytes) : (.ok (text, b) : Except Err (Bytes × Bytes)) = .ok (value, rest) ↔
      ∃ raw, some 0 = some raw.length ∧ b = raw ++ rest ∧ value = text :=
    cut_eq_ok (w := 0) (e := .eof) fun _ => text
  unfold readEventStreamHeaderValue valueSize decodeValue
  generalize valueType.toNat = kind
  rcases kind with _ | _ | _ | _ | _ | _ | _ | _ | _ | _ | kind
  · exact hempty _
  · exact hempty _
  iterate 4 exact readNumberValue_eq_ok
  iterate 2 exact readSizedValue_eq_ok
  · exact readNumberValue_eq_ok
  · exact cut_eq_ok hexBytes
  · exact iff_of_false nofun fun ⟨_, h, _⟩ => nomatch h

/-! ## The loop -/

/-- Adds an entry to the headers. -/
def addEntry (headers : List (Bytes × Bytes)) (e : Entry) : List (Bytes × Bytes) :=
  setHeader headers e.name e.decoded

theorem parseHeadersFrom_nil (passes : Nat) :
    parseHeadersFrom passes headers [] = .ok parsed ↔
      ∃ entries : List Entry, [] = entries.flatMap Entry.bytes ∧
        parsed = entries.foldl addEntry headers := by
  have hdone : parseHeadersFrom passes headers [] = .ok headers := by cases passes <;> rfl
  rw [hdone]
  constructor
  · rintro ⟨⟩
    exact ⟨[], rfl, rfl⟩
  · rintro ⟨entries, hb, rfl⟩
    cases entries with
    | nil => rfl
    | cons e entries => cases hb

theorem parseHeadersFrom_cons {nameLen : UInt8} :
    parseHeadersFrom (passes + 1) headers (nameLen :: b) = .ok parsed ↔
      ∃ (e : Entry) (rest : Bytes), nameLen :: b = e.bytes ++ rest ∧
        parseHeadersFrom passes (addEntry headers e) rest = .ok parsed := by
  constructor
  · intro h
    rw [parseHeadersFrom] at h
    split at h
    · cases h
    · next hlen =>
      have hname : (b.take nameLen.toNat).length = nameLen.toNat :=
        length_take_of_le (by omega)
      obtain ⟨valueType, after, hdrop⟩ :
          ∃ valueType after, b.drop nameLen.toNat = valueType :: after :=
        exists_cons_of_length_pos (by rw [length_drop]; omega)
      simp only [hdrop, headD_cons, tail_cons] at h
      split at h
      · cases h
      · next value rest hvalue =>
        obtain ⟨raw, hsize, rfl, rfl⟩ := readEventStreamHeaderValue_eq_ok.mp hvalue
        have hbyte : (b.take nameLen.toNat).length.toUInt8 = nameLen := by
          rw [hname, Nat.toUInt8_eq, UInt8.ofNat_toNat]
        refine ⟨⟨_, valueType, raw, hname.trans_lt nameLen.toNat_lt, hsize⟩, rest, ?_, h⟩
        rw [Entry.bytes, hbyte, cons_append, append_assoc, cons_append, ← hdrop, take_append_drop]
  · rintro ⟨e, rest, hb, h⟩
    obtain ⟨rfl, rfl⟩ : nameLen = _ ∧ b = e.name ++ e.valueType :: (e.value ++ rest) := by
      simpa [Entry.bytes] using hb
    have hname : e.name.length.toUInt8.toNat = e.name.length := by
      rw [Nat.toUInt8_eq, UInt8.toNat_ofNat', Nat.mod_eq_of_lt e.name_length]
    have hvalue : readEventStreamHeaderValue e.valueType (e.value ++ rest) =
        .ok (e.decoded, rest) :=
      readEventStreamHeaderValue_eq_ok.mpr ⟨e.value, e.value_size, rfl, rfl⟩
    simp only [parseHeadersFrom, hname, drop_left, take_left, headD_cons, tail_cons, hvalue]
    rw [if_neg (by simp)]
    exact h

theorem parseHeadersFrom_eq_ok (hpasses : b.length ≤ passes) :
    parseHeadersFrom passes headers b = .ok parsed ↔
      ∃ entries : List Entry, b = entries.flatMap Entry.bytes ∧
        parsed = entries.foldl addEntry headers := by
  induction passes generalizing headers b with
  | zero =>
    obtain rfl := eq_nil_of_length_eq_zero (Nat.le_zero.mp hpasses)
    exact parseHeadersFrom_nil 0
  | succ passes ih =>
    cases b with
    | nil => exact parseHeadersFrom_nil (passes + 1)
    | cons nameLen b =>
      have hrest {e : Entry} {rest : Bytes} (hb : nameLen :: b = e.bytes ++ rest) :
          rest.length ≤ passes := by
        have hlen := congrArg List.length hb
        rw [Entry.bytes, cons_append, length_cons, length_cons, length_append] at hlen
        rw [length_cons] at hpasses
        omega
      rw [parseHeadersFrom_cons]
      constructor
      · rintro ⟨e, rest, hb, h⟩
        obtain ⟨entries, rfl, rfl⟩ := (ih (hrest hb)).mp h
        exact ⟨e :: entries, hb, rfl⟩
      · rintro ⟨entries, hb, rfl⟩
        cases entries with
        | nil => cases hb
        | cons e entries =>
          exact ⟨e, _, hb, (ih (hrest hb)).mpr ⟨entries, rfl, rfl⟩⟩

/-! ## The map -/

theorem lookup_replace (headers : List (Bytes × Bytes)) (name value key : Bytes) :
    (headers.map fun h => if h.1 = name then (name, value) else h).lookup key =
      if name = key then (headers.lookup key).map fun _ => value else headers.lookup key := by
  induction headers with
  | nil => simp
  | cons h headers ih =>
    rw [map_cons, lookup_cons, lookup_cons, ih]
    grind

theorem lookup_setHeader (headers : List (Bytes × Bytes)) (name value key : Bytes) :
    (setHeader headers name value).lookup key =
      if name = key then some value else headers.lookup key := by
  have hmem : (headers.lookup name).isSome ↔ name ∈ headers.map Prod.fst := by
    simp only [lookup_isSome_iff, mem_map, beq_iff_eq]
    exact exists_congr fun p => and_congr_right fun _ => eq_comm
  unfold setHeader
  split
  · next h =>
    obtain ⟨old, hold⟩ := Option.isSome_iff_exists.mp (hmem.mpr h)
    rw [lookup_replace]
    split
    · next heq => rw [← heq, hold, Option.map_some]
    · rfl
  · next h =>
    have hnone : headers.lookup name = none := Option.not_isSome_iff_eq_none.mp (mt hmem.mp h)
    rw [lookup_append]
    split
    · next heq => simp [← heq, hnone]
    · next hne => simp [lookup_cons, beq_false_of_ne (Ne.symm hne)]

theorem lookup_foldl_addEntry (entries : List Entry) (name : Bytes) :
    (entries.foldl addEntry []).lookup name = lastValue entries name := by
  induction entries using reverseRecOn with
  | nil => rfl
  | append_singleton entries e ih =>
    rw [foldl_concat, addEntry, lookup_setHeader, ih, lastValue, lastValue,
      reverse_concat, find?_cons]
    rcases eq_or_ne e.name name with heq | hne
    · simp [heq]
    · simp [hne]

/-! ## Accesses -/

namespace Checked

/-- `b[:n]`. -/
def upTo (n : Nat) (b : Bytes) : Option Bytes := if n ≤ b.length then some (b.take n) else none

/-- `b[n:]`. -/
def past (n : Nat) (b : Bytes) : Option Bytes := if n ≤ b.length then some (b.drop n) else none

/-- A value of `w` bytes, after the check that there are as many. -/
def cut (w : Nat) (err : Err) (decode : Bytes → Bytes) (b : Bytes) :
    Option (Except Err (Bytes × Bytes)) :=
  if b.length < w then some (.error err)
  else do
    let front ← upTo w b
    let rest ← past w b
    some (.ok (decode front, rest))

/-- Reads a number, or would panic. -/
def numberValue (w : Nat) (kind : String) : Bytes → Option (Except Err (Bytes × Bytes)) :=
  cut w (.new (ascii ("bedrock: truncated event stream " ++ kind ++ " header")))
    fun front => ascii (toString (signedBE w front))

/-- Reads a sized value, or would panic. -/
def sizedValue (kind : String) (b : Bytes) : Option (Except Err (Bytes × Bytes)) :=
  if b.length < 2 then
    some (.error (.new (ascii ("bedrock: truncated event stream " ++ kind ++ " header length"))))
  else do
    let front ← upTo 2 b
    let b ← past 2 b
    cut (decodeBE front) (.new (ascii ("bedrock: truncated event stream " ++ kind ++ " header"))) id
      b

/-- `readEventStreamHeaderValue`. -/
def headerValue (valueType : UInt8) (b : Bytes) : Option (Except Err (Bytes × Bytes)) :=
  match valueType.toNat with
  | 0 => some (.ok (ascii "true", b))
  | 1 => some (.ok (ascii "false", b))
  | 2 => numberValue 1 "byte" b
  | 3 => numberValue 2 "short" b
  | 4 => numberValue 4 "int" b
  | 5 | 8 => numberValue 8 "long" b
  | 6 => sizedValue "byte-array" b
  | 7 => sizedValue "string" b
  | 9 => cut 16 (.new (ascii "bedrock: truncated event stream uuid header")) hexBytes b
  | kind =>
    some (.error
      (.new (ascii ("bedrock: unknown event stream header value type " ++ toString kind))))

/-- The loop of `parseEventStreamHeaders`, for a number of passes. -/
def headersFrom :
    Nat → List (Bytes × Bytes) → Bytes → Option (Except Err (List (Bytes × Bytes)))
  | _, headers, [] => some (.ok headers)
  | 0, _, _ :: _ => none
  | passes + 1, headers, first :: b => do
    let nameLen ← (first :: b)[0]?
    let b ← past 1 (first :: b)
    if b.length < nameLen.toNat + 1 then
      some (.error (.new (ascii "bedrock: truncated event stream header name")))
    else do
      let name ← upTo nameLen.toNat b
      let b ← past nameLen.toNat b
      let valueType ← b[0]?
      let b ← past 1 b
      match ← headerValue valueType b with
      | .error err => some (.error err)
      | .ok (value, b) => headersFrom passes (setHeader headers name value) b

theorem upTo_eq {n : Nat} (h : n ≤ b.length) : upTo n b = some (b.take n) := if_pos h

theorem past_eq {n : Nat} (h : n ≤ b.length) : past n b = some (b.drop n) := if_pos h

theorem past_one (first : UInt8) (b : Bytes) : past 1 (first :: b) = some b :=
  past_eq (Nat.succ_pos b.length)

theorem cut_eq (w : Nat) (err : Err) (decode : Bytes → Bytes) (b : Bytes) :
    cut w err decode b =
      some (if b.length < w then .error err else .ok (decode (b.take w), b.drop w)) := by
  unfold cut
  split
  · rfl
  · next h =>
    rw [upTo_eq (Nat.le_of_not_lt h), past_eq (Nat.le_of_not_lt h)]
    rfl

theorem sizedValue_eq (kind : String) (b : Bytes) :
    sizedValue kind b = some (readSizedValue kind b) := by
  unfold sizedValue readSizedValue
  split
  · rfl
  · next h =>
    rw [upTo_eq (Nat.le_of_not_lt h), past_eq (Nat.le_of_not_lt h)]
    exact cut_eq _ _ id _

theorem headerValue_eq (valueType : UInt8) (b : Bytes) :
    headerValue valueType b = some (readEventStreamHeaderValue valueType b) := by
  unfold headerValue readEventStreamHeaderValue
  generalize valueType.toNat = kind
  rcases kind with _ | _ | _ | _ | _ | _ | _ | _ | _ | _ | kind
  · rfl
  · rfl
  iterate 4 exact cut_eq _ _ _ _
  iterate 2 exact sizedValue_eq _ _
  iterate 2 exact cut_eq _ _ _ _
  · rfl

theorem headersFrom_eq {passes enough : Nat} {headers : List (Bytes × Bytes)}
    (hpasses : b.length ≤ passes) (henough : b.length ≤ enough) :
    headersFrom passes headers b = some (parseHeadersFrom enough headers b) := by
  induction passes generalizing enough headers b with
  | zero =>
    obtain rfl := eq_nil_of_length_eq_zero (Nat.le_zero.mp hpasses)
    cases enough <;> rfl
  | succ passes ih =>
    cases b with
    | nil => cases enough <;> rfl
    | cons nameLen b =>
      rw [length_cons] at hpasses henough
      obtain ⟨enough, rfl⟩ : ∃ k, enough = k + 1 := ⟨enough - 1, by omega⟩
      rw [headersFrom, parseHeadersFrom]
      simp only [getElem?_cons_zero, past_one, Option.bind_eq_bind, Option.bind_some]
      split
      · rfl
      · next hlen =>
        have hle : nameLen.toNat ≤ b.length := by omega
        obtain ⟨valueType, after, hdrop⟩ :
            ∃ valueType after, b.drop nameLen.toNat = valueType :: after :=
          exists_cons_of_length_pos (by rw [length_drop]; omega)
        simp only [upTo_eq hle, past_eq hle, hdrop, Option.bind_some,
          getElem?_cons_zero, past_one, headerValue_eq, headD_cons, tail_cons]
        cases hvalue : readEventStreamHeaderValue valueType after with
        | error err => rfl
        | ok read =>
          obtain ⟨raw, -, rfl, -⟩ := readEventStreamHeaderValue_eq_ok.mp hvalue
          have hlength := congrArg List.length hdrop
          simp only [length_drop, length_cons, length_append] at hlength
          exact ih (by omega) (by omega)

end Checked

/-- The parser ends without an access out of range.  It succeeds exactly on the concatenations of
entries, and then it gives each name the value of its last entry. -/
theorem parseEventStreamHeaders_grammar (b : Bytes) :
    (∀ passes, b.length ≤ passes →
        Checked.headersFrom passes [] b = some (parseEventStreamHeaders b)) ∧
      ((∃ headers, parseEventStreamHeaders b = .ok headers) ↔
        ∃ entries : List Entry, b = entries.flatMap Entry.bytes) ∧
      ∀ entries : List Entry, b = entries.flatMap Entry.bytes →
        ∃ headers, parseEventStreamHeaders b = .ok headers ∧
          ∀ name, headers.lookup name = lastValue entries name := by
  have hok (headers : List (Bytes × Bytes)) : parseEventStreamHeaders b = .ok headers ↔
      ∃ entries : List Entry, b = entries.flatMap Entry.bytes ∧
        headers = entries.foldl addEntry [] := parseHeadersFrom_eq_ok le_rfl
  refine ⟨fun passes hpasses => Checked.headersFrom_eq hpasses le_rfl, ?_, ?_⟩
  · constructor
    · rintro ⟨headers, h⟩
      obtain ⟨entries, hb, -⟩ := (hok headers).mp h
      exact ⟨entries, hb⟩
    · rintro ⟨entries, hb⟩
      exact ⟨_, (hok _).mpr ⟨entries, hb, rfl⟩⟩
  · intro entries hb
    exact ⟨_, (hok _).mpr ⟨entries, hb, rfl⟩, lookup_foldl_addEntry entries⟩

end Ixr.Adapters.Bedrock
