import IxrGateway.JsonText.RoundTrip
import IxrGateway.Schema
import IxrGateway.Utf8

/-!
# The response to a blocked request

`writeBlockedResponse` puts its JSON text together by hand, and `jsonEscape`
escapes the message byte by byte.  No byte of a longer encoding is an ASCII
byte, so this escapes characters (`jsonEscape_encode`).

The escapes cover quotes, backslashes, line feeds, carriage returns and tabs.
The other control characters are written as they are, and a JSON string may
have none.  So the text is read back exactly if the message has none of them
(`parse_blockedText`).
-/

namespace Ixr.Guardrail

open List

open Utf8 (Bytes encode decode ofString)
open JsonText (Value parse parseString parseValue parseFields printString readChar)

/-! ## The code -/

/-- The error of an interceptor: a `BlockedError`, or another one with its text. -/
inductive InterceptError where
  | blocked (err : BlockedError)
  | other (text : String)
deriving Repr, DecidableEq

/-- The text that `WriteBlockedResponse` shows. -/
def InterceptError.message : InterceptError → String
  | .blocked err => err.message
  | .other text => text

/-- The `switch` of `jsonEscape`. -/
def escapeByte (b : UInt8) : Bytes :=
  if b = 34 then [92, 34]
  else if b = 92 then [92, 92]
  else if b = 10 then [92, 110]
  else if b = 13 then [92, 114]
  else if b = 9 then [92, 116]
  else [b]

/-- `jsonEscape`. -/
def jsonEscape (s : Bytes) : Bytes := s.flatMap escapeByte

/-- What the client gets. -/
structure Response where
  status : Nat
  contentType : String
  body : Bytes
deriving Repr, DecidableEq

/-- `WriteBlockedResponse`. -/
def writeBlockedResponse (err : InterceptError) : Response where
  status := 403
  contentType := "application/json"
  body :=
    ofString "\x7b\"error\":\x7b\"type\":\"request_blocked\",\"message\":\"" ++
      jsonEscape (ofString err.message) ++ ofString "\"\x7d\x7d"

/-! ## Characters -/

/-- What `jsonEscape` makes of a character. -/
def escapeChar (c : Char) : List Char :=
  if c = '"' then ['\\', '"']
  else if c = '\\' then ['\\', '\\']
  else if c = '\n' then ['\\', 'n']
  else if c = '\r' then ['\\', 'r']
  else if c = '\t' then ['\\', 't']
  else [c]

/-- A control character that `jsonEscape` leaves as it is. -/
def Raw (c : Char) : Prop := c.toNat < 0x20 ∧ c ≠ '\n' ∧ c ≠ '\r' ∧ c ≠ '\t'

instance : DecidablePred Raw := fun _ => inferInstanceAs (Decidable (_ ∧ _))

theorem flatMap_escapeByte (c : Char) :
    (String.utf8EncodeChar c).flatMap escapeByte = encode (escapeChar c) := by
  unfold escapeChar
  split_ifs with hquote hslash hfeed hreturn htab
  iterate 5
    subst c
    decide
  -- an ASCII byte would be all of the character, which is none of the five
  have hne (b : UInt8) (hascii : b.toNat < 128) (hc : ¬ c = Char.ofNat b.toNat) :
      b ∉ String.utf8EncodeChar c := by
    intro hb
    have hmem : Char.ofNat b.toNat ∈ [c] :=
      Utf8.ofNat_mem_of_mem_encode (by simpa using hb) hascii
    exact hc (mem_singleton.mp hmem).symm
  have hplain : ∀ b ∈ String.utf8EncodeChar c, escapeByte b = [b] := by
    intro b hb
    unfold escapeByte
    split_ifs with h h h h h
    · exact absurd (h ▸ hb) (hne 34 (by decide) hquote)
    · exact absurd (h ▸ hb) (hne 92 (by decide) hslash)
    · exact absurd (h ▸ hb) (hne 10 (by decide) hfeed)
    · exact absurd (h ▸ hb) (hne 13 (by decide) hreturn)
    · exact absurd (h ▸ hb) (hne 9 (by decide) htab)
    · rfl
  rw [flatMap_congr hplain, flatMap_singleton', Utf8.encode_cons, Utf8.encode_nil, append_nil]

theorem jsonEscape_encode (cs : List Char) :
    jsonEscape (encode cs) = encode (cs.flatMap escapeChar) := by
  rw [jsonEscape]
  induction cs with
  | nil => rfl
  | cons c cs ih =>
    rw [Utf8.encode_cons, flatMap_append, ih, flatMap_escapeByte, flatMap_cons, Utf8.encode_append]

theorem readChar_escapeChar {c : Char} (h : ¬ Raw c) (cs : List Char) :
    readChar (escapeChar c ++ cs) = some (some c, cs) := by
  unfold escapeChar
  split_ifs with hquote hslash hfeed hreturn htab
  iterate 5
    subst c
    rfl
  have hge : ¬ c.toNat < 0x20 := fun hlt => h ⟨hlt, hfeed, hreturn, htab⟩
  rw [singleton_append, readChar, if_neg hquote, if_neg hslash, if_neg hge]

theorem readChar_raw {c : Char} (h : Raw c) (cs : List Char) :
    readChar (escapeChar c ++ cs) = none := by
  obtain ⟨hlt, hfeed, hreturn, htab⟩ := h
  have hquote : ¬ c = '"' := by
    rintro rfl
    exact absurd hlt (by decide)
  have hslash : ¬ c = '\\' := by
    rintro rfl
    exact absurd hlt (by decide)
  rw [escapeChar, if_neg hquote, if_neg hslash, if_neg hfeed, if_neg hreturn, if_neg htab,
    singleton_append, readChar, if_neg hquote, if_neg hslash, if_pos hlt]

theorem parseString_message (s rest : List Char) (fuel : Nat) :
    parseString (s.length + (fuel + 1)) (s.flatMap escapeChar ++ '"' :: rest) =
      if ∀ c ∈ s, ¬ Raw c then some (s, rest) else none := by
  induction s with
  | nil => simp [parseString, readChar]
  | cons c s ih =>
    rw [length_cons, Nat.add_right_comm, flatMap_cons, append_assoc, parseString]
    by_cases hc : Raw c
    · rw [readChar_raw hc, if_neg fun hplain => hplain c mem_cons_self hc]
    · rw [readChar_escapeChar hc]
      simp only [ih, forall_mem_cons, hc, not_false_eq_true, true_and]
      split_ifs <;> rfl

/-! ## The whole text -/

/-- The value that the text should stand for. -/
def blockedValue (message : String) : Value :=
  .object [("error", .object [("type", .string "request_blocked"), ("message", .string message)])]

/-- The body as it is written. -/
def blockedText (message : String) : List Char :=
  '{' :: (printString "error" ++ ':' :: '{' :: (printString "type" ++ ':' ::
    (printString "request_blocked" ++ ',' :: (printString "message" ++ ':' :: '"' ::
      (message.toList.flatMap escapeChar ++ ['"', '}', '}'])))))

theorem body_eq (err : InterceptError) :
    (writeBlockedResponse err).body = encode (blockedText err.message) := by
  have hhead : "\x7b\"error\":\x7b\"type\":\"request_blocked\",\"message\":\"".toList =
      '{' :: (printString "error" ++ ':' :: '{' :: (printString "type" ++ ':' ::
        (printString "request_blocked" ++ ',' :: (printString "message" ++ [':', '"'])))) := by
    decide
  have htail : "\"\x7d\x7d".toList = ['"', '}', '}'] := by decide
  rw [writeBlockedResponse, Utf8.ofString_eq, Utf8.ofString_eq, Utf8.ofString_eq, hhead, htail,
    jsonEscape_encode, ← Utf8.encode_append, ← Utf8.encode_append, blockedText]
  simp only [append_assoc, cons_append, nil_append]

/-- Reading the text, with the steps that the message takes set apart. -/
theorem parseValue_blockedText (message : String) (fuel : Nat) :
    parseValue (message.toList.length + (fuel + 20) + 6) (blockedText message) =
      if ∀ c ∈ message.toList, ¬ Raw c then some (blockedValue message, []) else none := by
  have hroom (k : Nat) {n : Nat} (h : n < 20) : n < message.toList.length + (fuel + 20) + k := by
    omega
  have htype (rest : List Char) :=
    JsonText.parseValue_print (.string "request_blocked") (message.toList.length + (fuel + 20) + 2)
      (',' :: rest) (hroom 2 (by decide)) (by simp [JsonText.Ends, JsonText.isNumberChar])
  have hmessage := parseString_message message.toList ['}', '}'] (fuel + 19)
  rw [blockedText, JsonText.parseValue_object, JsonText.parseField_key _ _ (hroom 4 (by decide)),
    JsonText.parseValue_object, JsonText.parseField_key _ _ (hroom 2 (by decide))]
  rw [JsonText.print] at htype
  rw [htype, Option.map_some, Option.bind_some, JsonText.parseFields_cons,
    JsonText.parseField_key _ _ (hroom 1 (by decide))]
  have hstring (text : List Char) : parseValue (message.toList.length + (fuel + 20) + 1)
      ('"' :: text) = (parseString (message.toList.length + (fuel + 20)) text).map fun p =>
        (.string (String.ofList p.1), p.2) := rfl
  rw [hstring, hmessage]
  split_ifs
  · rw [Option.map_some, String.ofList_toList]
    rfl
  · rfl

theorem length_blockedText (message : String) :
    message.toList.length + 49 ≤ (blockedText message).length := by
  have hescaped : ∀ n ∈ message.toList.map fun c => (escapeChar c).length, 1 ≤ n := by
    intro n hn
    obtain ⟨c, -, rfl⟩ := mem_map.mp hn
    unfold escapeChar
    split_ifs <;> exact Nat.succ_pos _
  have hlen := card_nsmul_le_sum _ 1 hescaped
  rw [← length_flatMap, length_map, smul_eq_mul, mul_one] at hlen
  simp only [blockedText, length_cons, length_append, length_nil,
    show (printString "error").length = 7 by decide, show (printString "type").length = 6 by decide,
    show (printString "request_blocked").length = 17 by decide,
    show (printString "message").length = 9 by decide]
  omega

theorem parse_blockedText (message : String) :
    parse (blockedText message) =
      if ∀ c ∈ message.toList, ¬ Raw c then some (blockedValue message) else none := by
  have hlen := length_blockedText message
  obtain ⟨fuel, hfuel⟩ : ∃ fuel, (blockedText message).length + 1 =
      message.toList.length + (fuel + 20) + 6 :=
    ⟨(blockedText message).length - message.toList.length - 25, by omega⟩
  rw [parse, hfuel, parseValue_blockedText]
  split_ifs <;> rfl

/-- The body that is written for a blocked request is valid UTF-8.  It is a JSON text with the
message at `error.message` if the message has no control character but line feeds, carriage
returns and tabs, and no JSON text otherwise. -/
theorem blocked_response_json (err : InterceptError) :
    Utf8.Valid (writeBlockedResponse err).body ∧
      parse (decode (writeBlockedResponse err).body) =
        if ∀ c ∈ err.message.toList, ¬ Raw c then some (blockedValue err.message) else none := by
  rw [body_eq, Utf8.decode_encode]
  exact ⟨Utf8.valid_encode _, parse_blockedText err.message⟩

def controlTenant : InterceptError :=
  .blocked
    { interceptor := "budget"
      category := "budget_exceeded"
      message := "a\x01 spend limit of $1.0000 exceeded (spent $1.0000)" }

theorem control_tenant_invalid :
    Utf8.Valid (ofString controlTenant.message) ∧
      parse (decode (writeBlockedResponse controlTenant).body) = none := by
  have hmem : Char.ofNat 1 ∈ controlTenant.message.toList := mem_of_getElem? (i := 1) rfl
  have hraw : ¬ ∀ c ∈ controlTenant.message.toList, ¬ Raw c := by
    intro hplain
    exact hplain _ hmem (by decide)
  rw [body_eq, Utf8.decode_encode, parse_blockedText, if_neg hraw]
  exact ⟨Utf8.valid_ofString _, rfl⟩

end Ixr.Guardrail
