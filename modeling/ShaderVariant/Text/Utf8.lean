import ShaderVariant.Text.Basic

/-!
# UTF-8

* `Utf8.encode` : the bytes of a text;
* `Utf8.decode` : the text of well-formed bytes, or where and how they go wrong.

A sequence is refused at its first byte that cannot continue it, so the fault names the longest part of the
sequence that was still good; surrogates, overlong forms and scalars past U+10FFFF are refused at their second byte.
-/

namespace ShaderVariant

abbrev Bytes := List UInt8

/-- Why bytes are not UTF-8: `validUpTo` bytes are good; then either `bad` bytes form no sequence, or (`none`) the
input ends inside a sequence. -/
structure Utf8Error where
  validUpTo : Nat
  bad : Option Nat
  deriving DecidableEq, Repr

namespace Utf8Error

def message (e : Utf8Error) : String :=
  match e.bad with
  | some n => s!"invalid utf-8 sequence of {n} bytes from index {e.validUpTo}"
  | none => s!"incomplete utf-8 byte sequence from index {e.validUpTo}"

end Utf8Error

namespace Utf8

def encode (t : Text) : Bytes := t.flatMap String.utf8EncodeChar

/-- What the first byte of a longer sequence asks for: how many bytes follow it, and the range of the first of them. -/
structure Lead where
  following : Nat
  low : UInt8
  high : UInt8

/-- The sequences that a byte from `0x80` on can start. -/
def lead? (b : UInt8) : Option Lead :=
  if 0xC2 ≤ b && b ≤ 0xDF then some ⟨1, 0x80, 0xBF⟩
  else if b == 0xE0 then some ⟨2, 0xA0, 0xBF⟩
  else if b == 0xED then some ⟨2, 0x80, 0x9F⟩
  else if 0xE1 ≤ b && b ≤ 0xEF then some ⟨2, 0x80, 0xBF⟩
  else if b == 0xF0 then some ⟨3, 0x90, 0xBF⟩
  else if 0xF1 ≤ b && b ≤ 0xF3 then some ⟨3, 0x80, 0xBF⟩
  else if b == 0xF4 then some ⟨3, 0x80, 0x8F⟩
  else none

def isContinuation (b : UInt8) : Bool := 0x80 ≤ b && b ≤ 0xBF

/-- The low six bits of a continuation byte. -/
def payload (b : UInt8) : Nat := b.toNat % 64

/-- The worker of `decode`: `seen` is the text so far, last character first, and `pos` its length in bytes. -/
def decodeFrom (seen : Text) (pos : Nat) : Bytes → Except Utf8Error Text
  | [] => .ok seen.reverse
  | b :: bs =>
    if b < 0x80 then decodeFrom (Char.ofNat b.toNat :: seen) (pos + 1) bs
    else match lead? b with
      | none => .error ⟨pos, some 1⟩
      | some l =>
        match bs with
        | [] => .error ⟨pos, none⟩
        | b₁ :: bs =>
          if b₁ < l.low || l.high < b₁ then .error ⟨pos, some 1⟩
          else if l.following = 1 then
            decodeFrom (Char.ofNat (b.toNat % 32 * 64 + payload b₁) :: seen) (pos + 2) bs
          else match bs with
            | [] => .error ⟨pos, none⟩
            | b₂ :: bs =>
              if !isContinuation b₂ then .error ⟨pos, some 2⟩
              else if l.following = 2 then
                decodeFrom (Char.ofNat ((b.toNat % 16 * 64 + payload b₁) * 64 + payload b₂) :: seen) (pos + 3) bs
              else match bs with
                | [] => .error ⟨pos, none⟩
                | b₃ :: bs =>
                  if !isContinuation b₃ then .error ⟨pos, some 3⟩
                  else
                    decodeFrom
                      (Char.ofNat (((b.toNat % 8 * 64 + payload b₁) * 64 + payload b₂) * 64 + payload b₃) :: seen)
                      (pos + 4) bs

def decode (bytes : Bytes) : Except Utf8Error Text := decodeFrom [] 0 bytes

theorem length_of_decodeFrom {seen : Text} {pos : Nat} {bytes : Bytes} {t : Text}
    (h : decodeFrom seen pos bytes = .ok t) : t.length ≤ seen.length + bytes.length := by
  fun_induction decodeFrom seen pos bytes
  case case1 =>
    cases h
    rw [List.length_reverse]
    exact Nat.le_refl _
  -- The bytes of one character are read, and those behind it in turn.
  case case2 ih | case6 ih | case9 ih | case12 ih =>
    have := ih h
    simp only [List.length_cons] at this ⊢
    omega
  all_goals cases h

theorem length_of_decode {bytes : Bytes} {t : Text} (h : decode bytes = .ok t) : t.length ≤ bytes.length :=
  Nat.le_trans (length_of_decodeFrom h) (Nat.le_of_eq (Nat.zero_add _))

end Utf8

end ShaderVariant
