import Perpetual.BalanceMath
import Perpetual.PackedWord

/-! The words under which balances and indexes are logged, and what they decode to. -/
namespace Perpetual
open PackedWord

namespace Balance

def packing (b : Balance) : Packing 256 where
  fields := [⟨⟨0,120,by decide⟩,b.position⟩,⟨⟨128,120,by decide⟩,b.margin⟩,
    ⟨⟨248,1,by decide⟩,BitVec.ofBool b.marginIsPositive⟩,
    ⟨⟨120,1,by decide⟩,BitVec.ofBool b.positionIsPositive⟩]
  apart := by simp [Field.Apart]

def ofBytes32 (word : Bytes32) : Balance where
  marginIsPositive := word.getLsbD 248
  positionIsPositive := word.getLsbD 120
  margin := word.extractLsb' 128 120
  position := word.extractLsb' 0 120

theorem packed (b : Balance) : b.toBytes32 = b.packing.word := by
  obtain ⟨mp,pp,m,p⟩ := b
  cases mp <;> cases pp <;> simp [toBytes32, packing, Packing.word, combine, Field.put, widen,
    FLAG_MARGIN_IS_POSITIVE, FLAG_POSITION_IS_POSITIVE, BitVec.or_assoc]

theorem recovered (b : Balance) : ofBytes32 b.toBytes32 = b := by
  rw [packed]
  have position : b.packing.word.extractLsb' 0 120 = b.position :=
    b.packing.readBack (f := ⟨⟨0,120,by decide⟩,b.position⟩) (by simp [packing])
  have margin : b.packing.word.extractLsb' 128 120 = b.margin :=
    b.packing.readBack (f := ⟨⟨128,120,by decide⟩,b.margin⟩) (by simp [packing])
  have marginIsPositive : b.packing.word.getLsbD 248 = b.marginIsPositive :=
    b.packing.flagBack (by decide) (by simp [packing])
  have positionIsPositive : b.packing.word.getLsbD 120 = b.positionIsPositive :=
    b.packing.flagBack (by decide) (by simp [packing])
  rw [ofBytes32, position, margin, marginIsPositive, positionIsPositive]

end Balance

namespace Index

def packing (index : Index) : Packing 256 where
  fields := [⟨⟨0,128,by decide⟩,index.value⟩,⟨⟨128,1,by decide⟩,BitVec.ofBool index.isPositive⟩,
    ⟨⟨136,32,by decide⟩,index.timestamp⟩]
  apart := by simp [Field.Apart]

def ofBytes32 (word : Bytes32) : Index where
  timestamp := word.extractLsb' 136 32
  isPositive := word.getLsbD 128
  value := word.extractLsb' 0 128

theorem packed (index : Index) : index.toBytes32 = index.packing.word := by
  obtain ⟨t,s,v⟩ := index
  cases s <;> simp [toBytes32, packing, Packing.word, combine, Field.put, widen, FLAG_IS_POSITIVE,
    BitVec.or_assoc]

theorem recovered (index : Index) : ofBytes32 index.toBytes32 = index := by
  rw [packed]
  have value : index.packing.word.extractLsb' 0 128 = index.value :=
    index.packing.readBack (f := ⟨⟨0,128,by decide⟩,index.value⟩) (by simp [packing])
  have timestamp : index.packing.word.extractLsb' 136 32 = index.timestamp :=
    index.packing.readBack (f := ⟨⟨136,32,by decide⟩,index.timestamp⟩) (by simp [packing])
  have isPositive : index.packing.word.getLsbD 128 = index.isPositive :=
    index.packing.flagBack (by decide) (by simp [packing])
  rw [ofBytes32, value, timestamp, isPositive]

end Index

/-- The word is packed from fields that share no bit, and the struct is read off their bits. -/
structure Decodes {α : Type} (toBytes32 : α → Bytes32) (packing : α → Packing 256) (ofBytes32 : Bytes32 → α) :
    Prop where
  packed : ∀ a, toBytes32 a = (packing a).word
  inside : ∀ a, ∀ f ∈ (packing a).fields, ∀ i, (f.field.put f.value).getLsbD i = true → f.field.Holds i
  apart : ∀ a, (packing a).fields.Pairwise fun f g => ∀ i, ¬(f.field.Holds i ∧ g.field.Holds i)
  readBack : ∀ a, ∀ f ∈ (packing a).fields, f.field.read (toBytes32 a) = f.value
  recovered : ∀ a, ofBytes32 (toBytes32 a) = a
  injective : Function.Injective toBytes32

theorem decodes {α : Type} {toBytes32 : α → Bytes32} {packing : α → Packing 256} {ofBytes32 : Bytes32 → α}
    (packed : ∀ a, toBytes32 a = (packing a).word) (recovered : ∀ a, ofBytes32 (toBytes32 a) = a) :
    Decodes toBytes32 packing ofBytes32 where
  packed := packed
  inside := by
    intro a f _ i set
    by_contra outside
    rw [Field.putOutside outside] at set
    cases set
  apart := fun a => (packing a).apart.imp Field.Apart.bits
  readBack := fun a f mem => (packed a).symm ▸ (packing a).readBack mem
  recovered := recovered
  injective := Function.LeftInverse.injective recovered

theorem loggedWordsDecode : Decodes Balance.toBytes32 Balance.packing Balance.ofBytes32 ∧
    Decodes Index.toBytes32 Index.packing Index.ofBytes32 :=
  ⟨decodes Balance.packed Balance.recovered,decodes Index.packed Index.recovered⟩

end Perpetual
