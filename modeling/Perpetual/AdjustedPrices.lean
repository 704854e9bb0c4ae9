import Perpetual.PackedWord
import Perpetual.PriceOracles

/-! What the price adapters report: the oracle that they ask, and the price that it answers
scaled by their power of ten. -/
namespace Perpetual
open PackedWord

namespace ReaderOracle

def packing (oracle : Address) (adjustmentExponent : BitVec 96) : Packing 256 where
  fields := [⟨⟨96,160,by decide⟩,oracle⟩,⟨⟨0,96,by decide⟩,adjustmentExponent⟩]
  apart := by simp [Field.Apart]

theorem stored (oracle reader : Address) (adjustmentExponent : BitVec 96) :
    (constructor oracle reader adjustmentExponent).mapping reader =
      (packing oracle adjustmentExponent).word := by
  simp only [constructor, Function.update_self]
  simp [packing, Packing.word, combine, Field.put, widen]

theorem packedOracle (oracle : Address) (adjustmentExponent : BitVec 96) :
    (packing oracle adjustmentExponent).word.extractLsb' 96 160 = oracle :=
  (packing oracle adjustmentExponent).readBack (f := ⟨⟨96,160,by decide⟩,oracle⟩) (by simp [packing])

theorem unpacked (oracle : Address) (adjustmentExponent : BitVec 96) :
    getOracleAndAdjustment (packing oracle adjustmentExponent).word =
      (oracle,powerOfTen adjustmentExponent.toNat) := by
  have exponent : (packing oracle adjustmentExponent).word.extractLsb' 0 96 = adjustmentExponent :=
    (packing oracle adjustmentExponent).readBack (f := ⟨⟨0,96,by decide⟩,adjustmentExponent⟩)
      (by simp [packing])
  rw [getOracleAndAdjustment, BitVec.setWidth_ushiftRight_eq_extractLsb, packedOracle,
    BitVec.setWidth_eq_extractLsb' (by decide), exponent]

theorem configured {oracle : Address} (set : oracle ≠ 0) (adjustmentExponent : BitVec 96) :
    (packing oracle adjustmentExponent).word ≠ 0 := by
  intro none
  have address := packedOracle oracle adjustmentExponent
  rw [none] at address
  exact set (by rw [← address]; rfl)

@[simp] theorem powerOfTenNat (exponent : Nat) : (powerOfTen exponent).toNat = 10 ^ exponent % 2 ^ 256 :=
  BitVec.toNat_ofNat _ _

def Adjusts (raw exponent : Nat) : Prop :=
  2 ^ 256 ≤ raw * (10 ^ exponent % 2 ^ 256) ∨ exponent ≤ 77 ∧ 10 ^ 18 ≤ raw * 10 ^ exponent

theorem powerExact {exponent : Nat} (small : exponent ≤ 77) : 10 ^ exponent % 2 ^ 256 = 10 ^ exponent := by
  have bound : 10 ^ exponent ≤ 10 ^ 77 := Nat.pow_le_pow_right (by decide) small
  exact Nat.mod_eq_of_lt (bound.trans_lt (by norm_num))

theorem powerWrapped {exponent raw : Nat} (large : 77 < exponent) (nonzero : 0 < raw) :
    raw * (10 ^ exponent % 2 ^ 256) / 10 ^ 18 < raw * 10 ^ exponent / 10 ^ 18 := by
  have bound : 10 ^ 78 ≤ 10 ^ exponent := Nat.pow_le_pow_right (by decide) large
  have word : 2 ^ 256 ≤ 10 ^ exponent := le_trans (by norm_num) bound
  have lost : 10 ^ exponent % 2 ^ 256 + 2 ^ 256 ≤ 10 ^ exponent := by omega
  have scaled := Nat.mul_le_mul_left raw lost
  rw [Nat.mul_add] at scaled
  have one := Nat.le_mul_of_pos_left (2 ^ 256) nonzero
  omega

theorem adjusted (raw : Uint256) (exponent : Nat) :
    (∀ price, BaseMath.baseMul raw (powerOfTen exponent) = .ok price →
      price ≠ 0 ∧ price.toNat = raw.toNat * 10 ^ exponent / 10 ^ 18) ↔ Adjusts raw.toNat exponent := by
  have product {price : Uint256} (ok : BaseMath.baseMul raw (powerOfTen exponent) = .ok price) :
      price.toNat = raw.toNat * (10 ^ exponent % 2 ^ 256) / 10 ^ 18 := by
    rw [BaseMath.baseMulNat ok, powerOfTenNat]
  constructor
  · intro right
    by_cases fits : raw.toNat * (powerOfTen exponent).toNat < 2 ^ 256
    · obtain ⟨price,ok⟩ := BaseMath.baseMulFits fits
      obtain ⟨nonzero,exact⟩ := right price ok
      rw [nonzeroWord, exact] at nonzero
      have raws : 0 < raw.toNat := by
        by_contra none
        rw [Nat.eq_zero_of_not_pos none, Nat.zero_mul] at nonzero
        cases nonzero
      have small : exponent ≤ 77 := by
        by_contra large
        exact absurd ((product ok).symm.trans exact) (powerWrapped (not_le.mp large) raws).ne
      exact .inr ⟨small,(Nat.div_pos_iff.mp nonzero).2⟩
    · rw [powerOfTenNat, not_lt] at fits
      exact .inl fits
  · intro adjusts price ok
    rcases adjusts with overflow | ⟨small,enough⟩
    · simp only [BaseMath.baseMul, Checked.bindOk, SafeMath.mulOk, powerOfTenNat] at ok
      obtain ⟨word,same,_⟩ := ok
      have bound := word.isLt
      omega
    · have exact := product ok
      rw [powerExact small] at exact
      rw [nonzeroWord, exact]
      exact ⟨Nat.div_pos enough (by decide),rfl⟩

end ReaderOracle

namespace P1ChainlinkOracle

theorem asked {latestAnswer : Address → Checked (BitVec 256)} {oracle reader : Address}
    {adjustmentExponent : BitVec 96} {price : Uint256} (set : oracle ≠ 0) :
    getPrice latestAnswer reader (ReaderOracle.constructor oracle reader adjustmentExponent) = .ok price ↔
      ∃ answer, latestAnswer oracle = .ok answer ∧ 0 < answer.toInt ∧
        BaseMath.baseMul answer (ReaderOracle.powerOfTen adjustmentExponent.toNat) = .ok price := by
  have configured := ReaderOracle.configured set adjustmentExponent
  simp only [getPrice, ReaderOracle.stored, ReaderOracle.unpacked, Checked.bindOk, Checked.requireOk,
    configured, ne_eq, not_false_eq_true, exists_const, true_and]

theorem plainAnswer {answer : BitVec 256} (positive : 0 < answer.toInt) : answer.toInt = answer.toNat := by
  have bound := answer.isLt
  rw [BitVec.toInt_eq_toNat_cond] at positive ⊢
  split at positive <;> grind

def Reports (latestAnswer : Address → Checked (BitVec 256)) (oracle : Address) (exponent : Nat)
    (x : Checked Uint256) : Prop :=
  ∀ price, x = .ok price → ∃ answer, latestAnswer oracle = .ok answer ∧
    price ≠ 0 ∧ (price.toNat : Int) = answer.toInt * 10 ^ exponent / 10 ^ 18

end P1ChainlinkOracle

namespace P1OracleInverter

theorem reciprocal {raw inverted : Uint256} :
    BaseMath.baseReciprocal raw = .ok inverted ↔ raw ≠ 0 ∧ inverted.toNat = 10 ^ 36 / raw.toNat := by
  have square : SafeMath.mul BaseMath.BASE BaseMath.BASE = .ok (BaseMath.BASE * BaseMath.BASE) := rfl
  have exact : (BaseMath.BASE * BaseMath.BASE).toNat = 10 ^ 36 := rfl
  rw [BaseMath.baseReciprocal, BaseMath.baseDiv, square, Checked.okBind, SafeMath.divOk, exact, nonzeroWord]

theorem reciprocalFits {raw : Uint256} (nonzero : raw ≠ 0) :
    ∃ inverted, BaseMath.baseReciprocal raw = .ok inverted := by
  have small : 10 ^ 36 / raw.toNat < 2 ^ 256 := (Nat.div_le_self _ _).trans_lt (by norm_num)
  exact ⟨BitVec.ofNat 256 (10 ^ 36 / raw.toNat),
    reciprocal.mpr ⟨nonzero,by rw [BitVec.toNat_ofNat, Nat.mod_eq_of_lt small]⟩⟩

theorem asked {rawPrice : Address → Checked Uint256} {oracle reader : Address}
    {adjustmentExponent : BitVec 96} {price : Uint256} (set : oracle ≠ 0) :
    getPrice rawPrice reader (ReaderOracle.constructor oracle reader adjustmentExponent) = .ok price ↔
      ∃ raw, rawPrice oracle = .ok raw ∧ ∃ inverted : Uint256,
        (raw ≠ 0 ∧ inverted.toNat = 10 ^ 36 / raw.toNat) ∧
        BaseMath.baseMul inverted (ReaderOracle.powerOfTen adjustmentExponent.toNat) = .ok price := by
  have configured := ReaderOracle.configured set adjustmentExponent
  simp only [getPrice, ReaderOracle.stored, ReaderOracle.unpacked, Checked.bindOk, Checked.requireOk,
    configured, ne_eq, not_false_eq_true, exists_const, true_and, reciprocal]

def Reports (rawPrice : Address → Checked Uint256) (oracle : Address) (exponent : Nat)
    (x : Checked Uint256) : Prop :=
  ∀ price, x = .ok price → ∃ raw, rawPrice oracle = .ok raw ∧
    price ≠ 0 ∧ price.toNat = 10 ^ 36 / raw.toNat * 10 ^ exponent / 10 ^ 18

end P1OracleInverter

theorem adaptersReport {oracle reader : Address} {adjustmentExponent : BitVec 96} (feeds : Feeds)
    (set : oracle ≠ 0) :
    (P1ChainlinkOracle.Reports feeds.latestAnswer oracle adjustmentExponent.toNat
        (P1ChainlinkOracle.getPrice feeds.latestAnswer reader
          (ReaderOracle.constructor oracle reader adjustmentExponent)) ↔
      ∀ answer, feeds.latestAnswer oracle = .ok answer → 0 < answer.toInt →
        ReaderOracle.Adjusts answer.toNat adjustmentExponent.toNat) ∧
    (P1OracleInverter.Reports feeds.rawPrice oracle adjustmentExponent.toNat
        (P1OracleInverter.getPrice feeds.rawPrice reader
          (ReaderOracle.constructor oracle reader adjustmentExponent)) ↔
      ∀ raw, feeds.rawPrice oracle = .ok raw → raw ≠ 0 →
        ReaderOracle.Adjusts (10 ^ 36 / raw.toNat) adjustmentExponent.toNat) := by
  constructor
  · simp only [P1ChainlinkOracle.Reports, P1ChainlinkOracle.asked set]
    constructor
    · intro right answer answered positive
      rw [← ReaderOracle.adjusted]
      intro price ok
      obtain ⟨other,same,nonzero,exact⟩ := right price ⟨answer,answered,positive,ok⟩
      cases answered.symm.trans same
      rw [P1ChainlinkOracle.plainAnswer positive] at exact
      exact ⟨nonzero,by exact_mod_cast exact⟩
    · rintro adjusts price ⟨answer,answered,positive,ok⟩
      obtain ⟨nonzero,exact⟩ := (ReaderOracle.adjusted _ _).mpr (adjusts answer answered positive) price ok
      refine ⟨answer,answered,nonzero,?_⟩
      rw [P1ChainlinkOracle.plainAnswer positive, exact]
      norm_cast
  · simp only [P1OracleInverter.Reports, P1OracleInverter.asked set]
    constructor
    · intro right raw answered positive
      obtain ⟨inverted,ok⟩ := P1OracleInverter.reciprocalFits positive
      rw [← (P1OracleInverter.reciprocal.mp ok).2, ← ReaderOracle.adjusted]
      intro price scaled
      obtain ⟨other,same,nonzero,exact⟩ :=
        right price ⟨raw,answered,inverted,P1OracleInverter.reciprocal.mp ok,scaled⟩
      cases answered.symm.trans same
      exact ⟨nonzero,by rw [exact, (P1OracleInverter.reciprocal.mp ok).2]⟩
    · rintro adjusts price ⟨raw,answered,inverted,⟨positive,reciprocal⟩,ok⟩
      have adjust := adjusts raw answered positive
      rw [← reciprocal] at adjust
      refine ⟨raw,answered,?_⟩
      rw [← reciprocal]
      exact (ReaderOracle.adjusted _ _).mpr adjust price ok

def adapterFeeds : Feeds where
  latestAnswer _ := .ok 3000000000000000000#256
  rawPrice _ := .ok 4000000000000000000#256

theorem sampleReported :
    P1ChainlinkOracle.Reports adapterFeeds.latestAnswer 1 18 (P1ChainlinkOracle.getPrice
      adapterFeeds.latestAnswer 2 (ReaderOracle.constructor 1 2 18)) ∧
    P1OracleInverter.Reports adapterFeeds.rawPrice 1 18 (P1OracleInverter.getPrice
      adapterFeeds.rawPrice 2 (ReaderOracle.constructor 1 2 18)) := by
  obtain ⟨chainlink,inverter⟩ := adaptersReport adapterFeeds (show (1 : Address) ≠ 0 by decide)
  refine ⟨chainlink.mpr ?_,inverter.mpr ?_⟩
  · intro answer answered _
    cases answered
    exact .inr (by decide +kernel)
  · intro raw answered _
    cases answered
    exact .inr (by decide +kernel)

theorem zeroPriceReported :
    ¬∀ (oracle reader : Address) (adjustmentExponent : BitVec 96) (feeds : Feeds), oracle ≠ 0 →
      P1ChainlinkOracle.Reports feeds.latestAnswer oracle adjustmentExponent.toNat
        (P1ChainlinkOracle.getPrice feeds.latestAnswer reader
          (ReaderOracle.constructor oracle reader adjustmentExponent)) ∧
      P1OracleInverter.Reports feeds.rawPrice oracle adjustmentExponent.toNat
        (P1OracleInverter.getPrice feeds.rawPrice reader
          (ReaderOracle.constructor oracle reader adjustmentExponent)) := by
  intro claim
  have reports := (claim 1 2 0 ⟨fun _ => .ok 1,fun _ => .ok 1⟩ (by decide)).1
  obtain ⟨_,_,nonzero,_⟩ := reports 0 (by decide +kernel)
  exact nonzero rfl

end Perpetual
