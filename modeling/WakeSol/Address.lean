import WakeSol.Lib.Radix

set_option autoImplicit false

namespace WakeSol

open TextLib RadixLib

structure Address where
  bytes : Bytes
  size : bytes.length = 32
deriving DecidableEq

def Address.fill (byte : UInt8) : Address := ⟨List.replicate 32 byte, by simp⟩

def Address.zero : Address := .fill 0

def Address.text (address : Address) : Text := base58 address.bytes

-- from_str: base58 text of exactly 32 bytes.
def Address.ofText (text : Text) : Option Address :=
  (base58Decode text).bind fun bytes => if size : bytes.length = 32 then some ⟨bytes, size⟩ else none

theorem address_of_text (address : Address) : Address.ofText address.text = some address := by
  rw [Address.ofText, Address.text, base58_decode_encode, Option.bind_some, dif_pos address.size]

theorem address_text_injective (left right : Address) (same : left.text = right.text) : left = right := by
  have parsed := address_of_text left
  rw [same, address_of_text] at parsed
  exact (Option.some.inj parsed).symm

end WakeSol
