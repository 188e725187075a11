import Mathlib

/-!
# Byte readers, wrapped errors and big-endian numbers

A reader is the list of bytes it has still to give, after which it reports the
end of the stream.  `readFull` is `io.ReadFull`: it tells a stream that ends
before the first byte it wants (`io.EOF`) from one that ends later
(`io.ErrUnexpectedEOF`).

An error is a sentinel, a text, or a text around another error.  `Err.is` is
`errors.Is`, which looks through the texts.

A number of `w` bytes is written with its most significant byte first
(`encodeBE`) and read back modulo `256 ^ w` (`decodeBE_encodeBE`).
-/

namespace GoIO

open List

/-- A byte slice. -/
abbrev Bytes := List UInt8

/-- The bytes of an ASCII text. -/
def ascii (s : String) : Bytes := s.toList.map fun c => c.toNat.toUInt8

/-! ## Errors -/

/-- An `error`. -/
inductive Err where
  /-- `io.EOF`. -/
  | eof
  /-- `io.ErrUnexpectedEOF`. -/
  | unexpectedEOF
  /-- `errors.New` and `fmt.Errorf` without `%w`. -/
  | new (text : Bytes)
  /-- `fmt.Errorf` with `: %w` after the text. -/
  | wrap (text : Bytes) (inner : Err)
deriving Repr, DecidableEq

namespace Err

/-- `errors.Is`. -/
def is (target : Err) : Err → Bool
  | .wrap text inner => target == .wrap text inner || is target inner
  | err => target == err

@[simp] theorem is_eof_eof : is .eof .eof = true := rfl

@[simp] theorem is_eof_unexpectedEOF : is .eof .unexpectedEOF = false := rfl

@[simp] theorem is_eof_wrap (text : Bytes) (inner : Err) :
    is .eof (.wrap text inner) = is .eof inner := by
  simp [is]

end Err

/-! ## Readers -/

/-- `io.ReadFull` into a buffer of `n` bytes: the bytes and the reader after them. -/
def readFull (n : Nat) (input : Bytes) : Except Err (Bytes × Bytes) :=
  if n = 0 then .ok ([], input)
  else if input = [] then .error .eof
  else if input.length < n then .error .unexpectedEOF
  else .ok (input.take n, input.drop n)

theorem readFull_eq_ok {n : Nat} {input front rest : Bytes} :
    readFull n input = .ok (front, rest) ↔ input = front ++ rest ∧ front.length = n := by
  constructor
  · intro h
    rw [readFull] at h
    split at h
    · next hn =>
      cases h
      exact ⟨rfl, hn.symm⟩
    · split at h
      · cases h
      · split at h
        · cases h
        · next hlen =>
          cases h
          exact ⟨(take_append_drop n input).symm, by rw [length_take]; omega⟩
  · rintro ⟨rfl, rfl⟩
    rw [readFull]
    split
    · next hn => rw [length_eq_zero_iff.mp hn, nil_append]
    · next hn =>
      have hne : front ++ rest ≠ [] := by
        intro h
        rw [(append_eq_nil_iff.mp h).1] at hn
        exact hn rfl
      have hlen : ¬(front ++ rest).length < front.length := by
        rw [length_append]
        omega
      rw [if_neg hne, if_neg hlen, take_left, drop_left]

theorem readFull_append (front rest : Bytes) :
    readFull front.length (front ++ rest) = .ok (front, rest) :=
  readFull_eq_ok.mpr ⟨rfl, rfl⟩

theorem readFull_nil {n : Nat} (h : 0 < n) : readFull n [] = .error .eof := by
  rw [readFull, if_neg (by omega), if_pos rfl]

theorem readFull_take {n k : Nat} {input : Bytes} (hpos : 0 < k) (hk : k < n)
    (hinput : 0 < input.length) : readFull n (input.take k) = .error .unexpectedEOF := by
  have hlen : (input.take k).length = min k input.length := length_take
  have hne : input.take k ≠ [] := ne_nil_of_length_pos (by omega)
  rw [readFull, if_neg (by omega), if_neg hne, if_pos (by omega)]

/-! ## Big-endian numbers -/

/-- A big-endian number. -/
def decodeBE : Bytes → Nat
  | [] => 0
  | b :: bs => b.toNat * 256 ^ bs.length + decodeBE bs

/-- The last `w` bytes of a number, most significant byte first. -/
def encodeBE : Nat → Nat → Bytes
  | 0, _ => []
  | w + 1, n => (n / 256 ^ w).toUInt8 :: encodeBE w n

@[simp] theorem length_encodeBE (n : Nat) : ∀ w, (encodeBE w n).length = w
  | 0 => rfl
  | w + 1 => by rw [encodeBE, length_cons, length_encodeBE n w]

theorem decodeBE_encodeBE (n : Nat) : ∀ w, decodeBE (encodeBE w n) = n % 256 ^ w
  | 0 => by rw [encodeBE, decodeBE, Nat.pow_zero, Nat.mod_one]
  | w + 1 => by
    have hbyte : (n / 256 ^ w).toUInt8.toNat = n / 256 ^ w % 256 := rfl
    rw [encodeBE, decodeBE, length_encodeBE, decodeBE_encodeBE n w, hbyte, Nat.mod_pow_succ]
    ring

theorem decodeBE_encodeBE_of_lt {n w : Nat} (h : n < 256 ^ w) : decodeBE (encodeBE w n) = n := by
  rw [decodeBE_encodeBE, Nat.mod_eq_of_lt h]

end GoIO
