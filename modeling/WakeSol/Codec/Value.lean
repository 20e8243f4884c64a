import WakeSol.Address
import WakeSol.Lib.Binary
import WakeSol.Lib.Wire
import WakeSol.Lib.Dict

/- The Python values the codec sees, the conversions Python applies to them, and
   the errors the codec raises. -/
set_option autoImplicit false

namespace WakeSol

open TextLib RadixLib EndianLib BinaryLib WireLib

abbrev Name := Text

namespace Codec

-- A generated dataclass, or the dataclass of one variant of a generated enum.
inductive ClassId where
  | plain (name : Name)
  | variant (owner : Name) (tag : Nat) (name : Name)
deriving DecidableEq

-- A float is its bit pattern. An instance holds one value for each attribute.
inductive Value where
  | none
  | bool (b : Bool)
  | int (n : Int)
  | float (bits : Bytes)
  | str (s : String)
  | bytes (raw : Bytes)
  | pubkey (key : Address)
  | opt (inner : Value)
  | list (items : List Value)
  | member (cls : Name) (value : Nat)
  | object (cls : ClassId) (attrs : List Name) (values : List Value)

inductive Step where
  | field (name : Name)
  | index (i : Nat)
deriving DecidableEq

abbrev Path := List Step

inductive Complaint where
  | need (n : Int) (remaining : Nat)
  | tooDeep (limit : Nat)
  | trailing (consumed total : Nat)
  | trailingArgs (consumed total : Nat)
  | trailingReturn (consumed total : Nat)
  | expectedInt (got : Name)
  | intOutOfRange (n : Int) (bits : Nat)
  | nan
  | boolByte (byte : UInt8)
  | notBool (got : Value)
  | lengthExceeds (n remaining : Nat)
  | lengthExceedsFloor (n remaining : Nat) (minElem : Int)
  | invalidUtf8 (raw : Bytes)
  | expectedStr (got : Name)
  | fixedLength (got : Nat) (n : Int)
  | optionTag (tag : UInt8)
  | expectedOpt (got : Name)
  | arrayLength (got : Nat) (n : Int)
  | enumTag (tag : UInt8) (cls : Name)
  | noVariant (tag : UInt8) (cls : Name)
  | notVariant (got cls : Name)
  | discriminatorMismatch

-- The interpreter's own wording is a parameter: repr of a value and the text of
-- a UnicodeDecodeError.
def Complaint.text (shown : Value → String) (undecodable : Bytes → String) : Complaint → String
  | need n remaining => s!"need {n} bytes, {remaining} remain"
  | tooDeep limit => s!"decode depth exceeded {limit}"
  | trailing consumed total => s!"trailing bytes: consumed {consumed} of {total} (layout mismatch)"
  | trailingArgs consumed total => s!"trailing bytes: consumed {consumed} of {total}"
  | trailingReturn consumed total => s!"trailing bytes in return data: consumed {consumed} of {total}"
  | expectedInt got => s!"expected int, got {String.ofList got}"
  | intOutOfRange n bits => s!"int {n} out of range for {bits}-bit"
  | nan => "NaN float"
  | boolByte byte => s!"bool byte {byte} not in \x7b0,1\x7d"
  | notBool got => s!"bool must be 0/1, got {shown got}"
  | lengthExceeds n remaining => s!"length {n} exceeds remaining {remaining}"
  | lengthExceedsFloor n remaining minElem =>
    s!"length {n} exceeds buffer (remaining {remaining}, min elem {minElem})"
  | invalidUtf8 raw => s!"invalid UTF-8: {undecodable raw}"
  | expectedStr got => s!"expected str, got {String.ofList got}"
  | fixedLength got n => s!"fixed bytes length {got} != {n}"
  | optionTag tag => s!"option tag {tag} not in \x7b0,1\x7d"
  | expectedOpt got => s!"expected Opt(...) or None, got {String.ofList got}"
  | arrayLength got n => s!"array length {got} != {n}"
  | enumTag tag cls => s!"enum tag {tag} out of range for {String.ofList cls}"
  | noVariant tag cls => s!"enum tag {tag} has no variant in {String.ofList cls}"
  | notVariant got cls => s!"{String.ofList got} is not a variant of {String.ofList cls}"
  | discriminatorMismatch => "discriminator mismatch"

inductive Refusal where
  | bareNumeric (kind : Name)
  | arrayMetadata
  | annotatedInner
  | coption
  | untaggedUnion
  | unsupported
  | notCompilable
deriving DecidableEq

-- BorshError carries its text, byte offset and field path, GenError the place of
-- the annotation; the other classes are raised by the interpreter.
inductive Raised where
  | borshError (complaint : Complaint) (offset : Nat) (path : Path)
  | genError (place : Text) (refusal : Refusal)
  | refuseToDecode (reason : Text)
  | nameError
  | syntaxError
  | overflowError
  | typeError
  | valueError
  | attributeError
  | structError
  | keyError
  | recursionError

def Value.typeName : Value → Name
  | none => ['N', 'o', 'n', 'e', 'T', 'y', 'p', 'e']
  | bool _ => ['b', 'o', 'o', 'l']
  | int _ => ['i', 'n', 't']
  | float _ => ['f', 'l', 'o', 'a', 't']
  | str _ => ['s', 't', 'r']
  | bytes _ => ['b', 'y', 't', 'e', 's']
  | pubkey _ => ['P', 'u', 'b', 'k', 'e', 'y']
  | opt _ => ['O', 'p', 't']
  | list _ => ['l', 'i', 's', 't']
  | member cls _ => cls
  | object (.plain name) _ _ => name
  | object (.variant _ _ name) _ _ => name

mutual

def Value.height : Value → Nat
  | .opt inner => inner.height
  | .list items => heights items
  | .object _ _ values => heights values + 1
  | _ => 0

def heights : List Value → Nat
  | [] => 0
  | value :: rest => max value.height (heights rest)

end

mutual

def Value.tagsFit : Value → Bool
  | .opt inner => inner.tagsFit
  | .list items => allTagsFit items
  | .member _ value => value < 256
  | .object _ _ values => allTagsFit values
  | _ => true

def allTagsFit : List Value → Bool
  | [] => true
  | value :: rest => value.tagsFit && allTagsFit rest

end

theorem height_le_heights (values : List Value) (value : Value) (member : value ∈ values) :
    value.height ≤ heights values := by
  induction values with
  | nil => simp at member
  | cons first rest ih =>
    rw [heights]
    rcases List.mem_cons.mp member with rfl | later
    · exact Nat.le_max_left _ _
    · exact Nat.le_trans (ih later) (Nat.le_max_right _ _)

theorem all_tags_fit_iff (values : List Value) :
    allTagsFit values = true ↔ ∀ value ∈ values, value.tagsFit = true := by
  induction values with
  | nil => simp [allTagsFit]
  | cons first rest ih => simp [allTagsFit, ih]

-- isinstance(value, int): an IntEnum member is one, and so is a bool.
def Value.asInt : Value → Option Int
  | bool b => some (if b then 1 else 0)
  | int n => some n
  | member _ n => some n
  | _ => Option.none

def Value.isBool : Value → Bool
  | bool _ => true
  | _ => false

def byteOf (value : Value) : Except Raised UInt8 :=
  match value.asInt with
  | some n => if 0 ≤ n ∧ n < 256 then .ok (UInt8.ofNat n.toNat) else .error .valueError
  | none => .error .typeError

-- bytes(value): an integer gives that many zero bytes.
def pyBytes (value : Value) : Except Raised Bytes :=
  match value with
  | .bytes raw => .ok raw
  | .pubkey key => .ok key.bytes
  | .list items => items.mapM byteOf
  | _ =>
    match value.asInt with
    | some n => if n < 0 then .error .valueError else .ok (List.replicate n.toNat 0)
    | none => .error .typeError

-- Blanks around, a sign, and at most 4300 digits with single underscores between.
def intLiteral (blank : Char → Bool) (text : Text) : Except Raised Int :=
  let body := (text.dropWhile blank).rdropWhile blank
  let (negative, rest) := match body with
    | '-' :: rest => (true, rest)
    | '+' :: rest => (false, rest)
    | _ => (false, body)
  let groups := rest.splitOn '_'
  if [] ∈ groups ∨ 4300 < groups.flatten.length then .error .valueError
  else (digitsValue 0 groups.flatten).elim (.error .valueError) fun n => .ok (if negative then -n else n)

def isBlank (c : Char) : Bool := isWhitespace c || (0x1C ≤ c.toNat && c.toNat ≤ 0x1F)

def isAsciiBlank (c : Char) : Bool := (9 ≤ c.toNat && c.toNat ≤ 13) || c == ' '

-- int(value): a float is truncated, a text or bytes is a decimal literal.
def pyInt (value : Value) : Except Raised Int :=
  match value with
  | .float bits =>
    if isNaN bits then .error .valueError
    else
      match unpack bits with
      | .infinite _ => .error .overflowError
      | .finite negative significand exponent => .ok (truncate negative significand exponent)
  | .str s => intLiteral isBlank s.toList
  | .bytes raw => intLiteral isAsciiBlank (raw.map fun byte => Char.ofNat byte.toNat)
  | _ => value.asInt.elim (.error .typeError) .ok

def pyFloat (value : Value) : Option Bytes :=
  match value with
  | .float bits => some bits
  | _ => value.asInt.bind fun n => pack 8 (.finite (n < 0) n.natAbs 0)

-- What len and iteration see.
def pyItems : Value → Except Raised (List Value)
  | .list items => .ok items
  | .bytes raw => .ok (raw.map fun byte => .int byte.toNat)
  | .str s => .ok (s.toList.map fun c => .str (String.singleton c))
  | _ => .error .typeError

def getAttr (value : Value) (name : Name) : Except Raised Value :=
  match value with
  | .object _ attrs values => ((attrs.zip values).lookup name).elim (.error .attributeError) .ok
  | _ => .error .attributeError

-- value == 1 and value == 0 hold of equal numbers of every numeric type.
def Value.isOne : Value → Bool
  | bool b => b
  | int n => n = 1
  | member _ n => n = 1
  | float bits => bits = leBytes 4 0x3F800000 ∨ bits = leBytes 8 0x3FF0000000000000
  | _ => false

def Value.isZero : Value → Bool
  | bool b => !b
  | int n => n = 0
  | member _ n => n = 0
  | float bits => leNat bits * 2 % 256 ^ bits.length = 0
  | _ => false

def bigEndianBytes (width n : Nat) : Bytes := (leBytes width n).reverse

def addressOf (raw : Bytes) : Except Raised Address :=
  if size : raw.length = 32 then .ok ⟨raw, size⟩ else .error .valueError

-- Pubkey(value): a base58 text, a big-endian integer or 32 raw bytes.
def pubkeyOf (value : Value) : Except Raised Address :=
  match value with
  | .pubkey key => .ok key
  | .str s => (base58Decode s.toList).elim (.error .valueError) addressOf
  | .bytes raw => addressOf raw
  | .list items =>
    match items.mapM byteOf with
    | .ok raw => addressOf raw
    | .error _ => .error .typeError
  | _ =>
    match value.asInt with
    | some n =>
      if 0 ≤ n ∧ n < (256 ^ 32 : Nat) then addressOf (bigEndianBytes 32 n.toNat) else .error .overflowError
    | none => .error .typeError

def utf8Encode (s : String) : Bytes := s.toByteArray.data.toList

def utf8Decode (raw : Bytes) : Option String := String.fromUTF8? ⟨raw.toArray⟩

theorem utf8_decode_encode (s : String) : utf8Decode (utf8Encode s) = some s := by
  have same : (⟨(utf8Encode s).toArray⟩ : ByteArray) = s.toByteArray := by simp [utf8Encode]
  rw [utf8Decode, same, String.fromUTF8?, dif_pos s.isValidUTF8]
  rfl

theorem utf8_encode_decode (raw : Bytes) (s : String) (decoded : utf8Decode raw = some s) : utf8Encode s = raw := by
  rw [utf8Decode, String.fromUTF8?] at decoded
  by_cases valid : (⟨raw.toArray⟩ : ByteArray).IsValidUTF8
  · rw [dif_pos valid] at decoded
    rw [← Option.some.inj decoded]
    simp [utf8Encode, String.fromUTF8]
  · simp [valid] at decoded

end Codec

end WakeSol
