import Perpetual.Storage

/-! `P1ChainlinkOracle` and `P1OracleInverter`. Both keep what their reader needs in a mapping,
where only the reader has an entry. -/
namespace Perpetual

structure ReaderOracle where
  oracle : Address
  reader : Address
  adjustment : Uint256
  mapping : Address → Bytes32

namespace ReaderOracle

/-- `10**exponent`, which wraps around. -/
def powerOfTen (exponent : Nat) : Uint256 := BitVec.ofNat 256 (10 ^ exponent)

def constructor (oracle reader : Address) (adjustmentExponent : BitVec 96) : ReaderOracle where
  oracle := oracle
  reader := reader
  adjustment := powerOfTen adjustmentExponent.toNat
  mapping := Function.update (fun _ => 0) reader ((widen oracle <<< 96) ||| widen adjustmentExponent)

def getOracleAndAdjustment (oracleAndExponent : Bytes32) : Address × Uint256 :=
  ((oracleAndExponent >>> 96).setWidth 160,powerOfTen (oracleAndExponent.setWidth 96).toNat)

end ReaderOracle

namespace P1ChainlinkOracle

def getPrice (latestAnswer : Address → Checked (BitVec 256)) (sender : Address) (s : ReaderOracle) :
    Checked Uint256 := do
  let oracleAndExponent := s.mapping sender
  Checked.require (oracleAndExponent ≠ 0) "P1ChainlinkOracle: Sender not authorized to get price"
  let (oracle,adjustment) := ReaderOracle.getOracleAndAdjustment oracleAndExponent
  let answer ← latestAnswer oracle
  Checked.require (0 < answer.toInt) "P1ChainlinkOracle: Invalid answer from aggregator"
  BaseMath.baseMul answer adjustment

end P1ChainlinkOracle

namespace P1OracleInverter

/-- `rawPrice` is what the oracle at an address answers the inverter. -/
def getPrice (rawPrice : Address → Checked Uint256) (sender : Address) (s : ReaderOracle) :
    Checked Uint256 := do
  let oracleAndExponent := s.mapping sender
  Checked.require (oracleAndExponent ≠ 0) "P1OracleInverter: Sender not authorized to get price"
  let (oracle,adjustment) := ReaderOracle.getOracleAndAdjustment oracleAndExponent
  let rawPrice ← rawPrice oracle
  let invertedPrice ← BaseMath.baseReciprocal rawPrice
  BaseMath.baseMul invertedPrice adjustment

end P1OracleInverter

structure Feeds where
  latestAnswer : Address → Checked (BitVec 256)
  rawPrice : Address → Checked Uint256

inductive PriceOracle where
  | chainlink (s : ReaderOracle)
  | inverter (s : ReaderOracle)

namespace PriceOracle

def getPrice (feeds : Feeds) (sender : Address) : PriceOracle → Checked Uint256
  | chainlink s => P1ChainlinkOracle.getPrice feeds.latestAnswer sender s
  | inverter s => P1OracleInverter.getPrice feeds.rawPrice sender s

inductive BuiltFor (reader : Address) : PriceOracle → Prop where
  | chainlink (oracle : Address) (adjustmentExponent : BitVec 96) :
      BuiltFor reader (.chainlink (ReaderOracle.constructor oracle reader adjustmentExponent))
  | inverter (oracle : Address) (adjustmentExponent : BitVec 96) :
      BuiltFor reader (.inverter (ReaderOracle.constructor oracle reader adjustmentExponent))

theorem onlyReader {oracle : PriceOracle} {reader sender : Address} {feeds : Feeds} {price : Uint256}
    (built : BuiltFor reader oracle) (ok : oracle.getPrice feeds sender = .ok price) : sender = reader := by
  by_contra other
  have none (o : Address) (exponent : BitVec 96) :
      (ReaderOracle.constructor o reader exponent).mapping sender = 0 := by
    simp only [ReaderOracle.constructor]
    rw [Function.update_of_ne other]
  cases built <;>
    simp only [getPrice, P1ChainlinkOracle.getPrice, P1OracleInverter.getPrice, none, Checked.bindOk,
      Checked.requireOk, exists_const, ne_eq, not_true_eq_false, false_and] at ok

def answers (contracts : Address → PriceOracle) (feeds : Feeds) (sender : Address) :
    Address → Checked Uint256 :=
  fun oracle => (contracts oracle).getPrice feeds sender

end PriceOracle
end Perpetual
