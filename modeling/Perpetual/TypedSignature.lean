import Perpetual.SafeMath
import Perpetual.Checked

/-! ABI words as bytes, the two cryptographic builtins as parameters, and the library
`TypedSignature`. -/
namespace Perpetual

namespace Abi

def bytesOnto (rest : List UInt8) : Nat → Nat → List UInt8
  | 0,_ => rest
  | n + 1,v => bytesOnto (UInt8.ofNat v::rest) n (v / 256)

def bytesOf (n v : Nat) : List UInt8 := bytesOnto [] n v

def natOf (bytes : List UInt8) : Nat := bytes.foldl (fun n b => n * 256 + b.toNat) 0

def word (x : Uint256) : List UInt8 := bytesOf 32 x.toNat

def addressWord (a : Address) : List UInt8 := bytesOf 32 a.toNat

def ascii (s : String) : List UInt8 := s.toList.map fun c => UInt8.ofNat c.toNat

def wordAt (data : List UInt8) (i : Nat) : Uint256 :=
  BitVec.ofNat 256 (natOf ((data.drop (32 * i)).take 32))

def addressAt (data : List UInt8) (i : Nat) : Checked Address := do
  Checked.require ((wordAt data i).toNat < 2 ^ 160) ""
  return (wordAt data i).setWidth 160

def boolAt (data : List UInt8) (i : Nat) : Checked Bool := do
  Checked.require ((wordAt data i).toNat < 2) ""
  return decide (wordAt data i = 1)

def bytes2At (data : List UInt8) (i : Nat) : Checked (BitVec 16) := do
  Checked.require ((wordAt data i).setWidth 240 = 0) ""
  return (wordAt data i >>> 240).setWidth 16

end Abi

/-- `ecrecover` answers the zero address for an invalid signature. -/
structure Crypto where
  keccak256 : List UInt8 → Bytes32
  ecrecover : (hash : Bytes32) → (v : BitVec 8) → (r s : Bytes32) → Address

def Crypto.sample : Crypto where
  keccak256 := fun bytes => BitVec.ofNat 256 (Abi.natOf (bytes.drop (bytes.length - 32)))
  ecrecover := fun _ _ r _ => r.setWidth 160

namespace TypedSignature

inductive SignatureType where
  | NoPrepend
  | Decimal
  | Hexadecimal
  | Invalid
  deriving DecidableEq, Repr

structure Signature where
  r : Bytes32
  s : Bytes32
  vType : BitVec 16
  deriving DecidableEq, Repr

def PREPEND_DEC : List UInt8 := Abi.ascii "\x19Ethereum Signed Message:\n32"

def PREPEND_HEX : List UInt8 := Abi.ascii "\x19Ethereum Signed Message:\n\x20"

def bytes1 (value : BitVec 16) : BitVec 8 := (value >>> 8).setWidth 8

def signatureType (value : BitVec 8) : Checked SignatureType :=
  match value.toNat with
  | 0 => .ok .NoPrepend
  | 1 => .ok .Decimal
  | 2 => .ok .Hexadecimal
  | 3 => .ok .Invalid
  | _ => .error "invalid opcode"

/-- The structure of a signature is `{32:r}{32:s}{1:v}{1:type}`. -/
def recover (crypto : Crypto) (hash : Bytes32) (signature : Signature) : Checked Address := do
  let sigType ← signatureType (bytes1 (signature.vType <<< 8))
  let signedHash ← match sigType with
    | .NoPrepend => Except.ok hash
    | .Decimal => Except.ok (crypto.keccak256 (PREPEND_DEC ++ Abi.word hash))
    | .Hexadecimal => Except.ok (crypto.keccak256 (PREPEND_HEX ++ Abi.word hash))
    | .Invalid => Except.error "invalid opcode"
  return crypto.ecrecover signedHash (bytes1 signature.vType) signature.r signature.s

def ValidBy (crypto : Crypto) (hash : Bytes32) (signature : Signature) (signer : Address) : Prop :=
  recover crypto hash signature = .ok signer ∧ signer ≠ 0

end TypedSignature
end Perpetual
