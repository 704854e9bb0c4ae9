import Mathlib.Data.Char
import Mathlib.Data.List.Basic
import Mathlib.Data.List.Lex
import Mathlib.Tactic.Ring

/-! Hexadecimal texts in either letter case: the number that one spells, and the bytes. -/
namespace HexText

def digit (c : Char) : Option Nat :=
  if '0' ≤ c ∧ c ≤ '9' then some (c.toNat - 48)
  else if 'a' ≤ c ∧ c ≤ 'f' then some (c.toNat - 87)
  else if 'A' ≤ c ∧ c ≤ 'F' then some (c.toNat - 55)
  else none

def IsHex (text : List Char) : Prop := ∀ c ∈ text, (digit c).isSome

instance (text : List Char) : Decidable (IsHex text) :=
  List.decidableBAll (fun c => (digit c).isSome) text

def valueFrom (start : Nat) (text : List Char) : Nat :=
  text.foldl (fun n c => n * 16 + (digit c).getD 0) start

def value (text : List Char) : Nat := valueFrom 0 text

def bytes : List Char → Option (List UInt8)
  | [] => some []
  | [_] => none
  | high::low::rest => do
      let h ← digit high
      let l ← digit low
      let tail ← bytes rest
      return UInt8.ofNat (h * 16 + l)::tail

def ofBytes (data : List UInt8) : List Char :=
  data.flatMap fun b => [(b.toNat / 16).digitChar,(b.toNat % 16).digitChar]

theorem digitLt {c : Char} {d : Nat} (same : digit c = some d) : d < 16 := by
  have small (low high : Char) (inside : low ≤ c ∧ c ≤ high) : low.toNat ≤ c.toNat ∧ c.toNat ≤ high.toNat := inside
  unfold digit at same
  split at same
  · have inside := small '0' '9' (by assumption)
    have low : '0'.toNat = 48 ∧ '9'.toNat = 57 := by decide
    have number := Option.some.inj same
    omega
  · split at same
    · have inside := small 'a' 'f' (by assumption)
      have low : 'a'.toNat = 97 ∧ 'f'.toNat = 102 := by decide
      have number := Option.some.inj same
      omega
    · split at same
      · have inside := small 'A' 'F' (by assumption)
        have low : 'A'.toNat = 65 ∧ 'F'.toNat = 70 := by decide
        have number := Option.some.inj same
        omega
      · cases same

theorem digitCases (holds : Char → Prop)
    (all : ∀ n < 103, (digit (Char.ofNat n)).isSome → holds (Char.ofNat n)) {c : Char}
    (hex : (digit c).isSome) : holds c := by
  have low : c.toNat < 103 := by
    unfold digit at hex
    split at hex
    · have inside : c.toNat ≤ '9'.toNat := (by assumption : '0' ≤ c ∧ c ≤ '9').2
      exact inside.trans_lt (by decide)
    · split at hex
      · have inside : c.toNat ≤ 'f'.toNat := (by assumption : 'a' ≤ c ∧ c ≤ 'f').2
        exact inside.trans_lt (by decide)
      · split at hex
        · have inside : c.toNat ≤ 'F'.toNat := (by assumption : 'A' ≤ c ∧ c ≤ 'F').2
          exact inside.trans_lt (by decide)
        · cases hex
  have found := all c.toNat low
  rw [Char.ofNat_toNat] at found
  exact found hex

theorem digitOf {n : Nat} (small : n < 16) : digit n.digitChar = some n := by
  have all : ∀ n < 16, digit n.digitChar = some n := by decide
  exact all n small

theorem digitGetD (c : Char) : (digit c).getD 0 < 16 := by
  cases same : digit c with
  | none => decide
  | some d => exact digitLt same

theorem valueFromEq (start : Nat) (text : List Char) :
    valueFrom start text = start * 16 ^ text.length + value text := by
  unfold value
  induction text generalizing start with
  | nil => simp [valueFrom]
  | cons c rest ih =>
    have step (n : Nat) : valueFrom n (c::rest) = valueFrom (n * 16 + (digit c).getD 0) rest := rfl
    rw [step, step, ih, ih (0 * 16 + _), List.length_cons, pow_succ]
    ring

theorem valueCons (c : Char) (rest : List Char) :
    value (c::rest) = (digit c).getD 0 * 16 ^ rest.length + value rest := by
  have step : value (c::rest) = valueFrom (0 * 16 + (digit c).getD 0) rest := rfl
  rw [step, valueFromEq, Nat.zero_mul, Nat.zero_add]

theorem valueAppend (first last : List Char) :
    value (first ++ last) = value first * 16 ^ last.length + value last := by
  have step : value (first ++ last) = valueFrom (value first) last := List.foldl_append
  rw [step, valueFromEq]

theorem valueLt (text : List Char) : value text < 16 ^ text.length := by
  induction text with
  | nil => decide
  | cons c rest ih =>
    have small := digitGetD c
    rw [valueCons, List.length_cons, pow_succ, Nat.mul_comm (16 ^ rest.length)]
    calc (digit c).getD 0 * 16 ^ rest.length + value rest
        < (digit c).getD 0 * 16 ^ rest.length + 16 ^ rest.length := Nat.add_lt_add_left ih _
      _ = ((digit c).getD 0 + 1) * 16 ^ rest.length := by ring
      _ ≤ 16 * 16 ^ rest.length := Nat.mul_le_mul_right _ small

theorem valueDrop (text : List Char) {k : Nat} (long : k ≤ text.length) :
    value (text.drop (text.length - k)) = value text % 16 ^ k := by
  have length : (text.drop (text.length - k)).length = k := by
    rw [List.length_drop]
    omega
  have small := valueLt (text.drop (text.length - k))
  have split := valueAppend (text.take (text.length - k)) (text.drop (text.length - k))
  rw [List.take_append_drop] at split
  rw [length] at small split
  rw [split, Nat.add_comm, Nat.add_mul_mod_self_right, Nat.mod_eq_of_lt small]

theorem valueZeros (n : Nat) : value (List.replicate n '0') = 0 := by
  induction n with
  | zero => rfl
  | succ n ih =>
    have nothing : (digit '0').getD 0 = 0 := by decide
    rw [List.replicate_succ, valueCons, ih, nothing, Nat.zero_mul]

theorem hexDigits (n : Nat) : IsHex (Nat.toDigits 16 n) ∧ value (Nat.toDigits 16 n) = n := by
  induction n using Nat.strong_induction_on with
  | _ n ih =>
    rcases Nat.lt_or_ge n 16 with small | large
    · rw [Nat.toDigits_of_lt_base small]
      refine ⟨?_,?_⟩
      · intro c mem
        rw [List.mem_singleton.mp mem, digitOf small]
        rfl
      · rw [valueCons, digitOf small]
        simp [value, valueFrom]
    · obtain ⟨hex,number⟩ := ih (n / 16) (Nat.div_lt_self (by omega) (by decide))
      have last := Nat.mod_lt n (show 16 > 0 by decide)
      rw [Nat.toDigits_of_base_le (by decide) large]
      refine ⟨?_,?_⟩
      · intro c mem
        rcases List.mem_append.mp mem with early | late
        · exact hex c early
        · rw [List.mem_singleton.mp late, digitOf last]
          rfl
      · rw [valueAppend, number, valueCons, digitOf last]
        simp only [Option.getD_some, List.length_nil, List.length_singleton, value, valueFrom, List.foldl_nil]
        omega

theorem bytesOfBytes (data : List UInt8) : bytes (ofBytes data) = some data := by
  induction data with
  | nil => rfl
  | cons b rest ih =>
    have small : b.toNat < 256 := b.toNat_lt
    have whole : b.toNat / 16 * 16 + b.toNat % 16 = b.toNat := by omega
    have split : ofBytes (b::rest) = (b.toNat / 16).digitChar::(b.toNat % 16).digitChar::ofBytes rest := rfl
    rw [split, bytes, digitOf (by omega), digitOf (by omega), ih]
    simp only [bind, Option.bind, pure, whole, UInt8.ofNat_toNat]

theorem bytesAppend {first : List Char} {data : List UInt8} (reads : bytes first = some data) (last : List Char) :
    bytes (first ++ last) = (bytes last).map (data ++ ·) := by
  induction first using bytes.induct generalizing data with
  | case1 =>
    cases reads
    simp
  | case2 c => cases reads
  | case3 high low rest ih =>
    simp only [bytes, Option.bind_eq_bind, Option.bind_eq_some_iff, Option.pure_def, Option.some.injEq] at reads
    obtain ⟨h,hh,l,hl,tail,ht,rfl⟩ := reads
    rw [List.cons_append, List.cons_append, bytes, hh, hl, ih ht]
    cases bytes last <;> rfl

theorem bytesValue {text : List Char} {data : List UInt8} (reads : bytes text = some data) :
    text.length = 2 * data.length ∧ data.foldl (fun n b => n * 256 + b.toNat) 0 = value text := by
  suffices ∀ start, text.length = 2 * data.length ∧
      data.foldl (fun n b => n * 256 + b.toNat) start = valueFrom start text from this 0
  induction text using bytes.induct generalizing data with
  | case1 =>
    cases reads
    exact fun start => ⟨rfl,rfl⟩
  | case2 c => cases reads
  | case3 high low rest ih =>
    simp only [bytes, Option.bind_eq_bind, Option.bind_eq_some_iff, Option.pure_def, Option.some.injEq] at reads
    obtain ⟨h,hh,l,hl,tail,ht,rfl⟩ := reads
    intro start
    have highSmall := digitLt hh
    have lowSmall := digitLt hl
    have byte : (UInt8.ofNat (h * 16 + l)).toNat = h * 16 + l :=
      UInt8.toNat_ofNat_of_lt' (by change h * 16 + l < 256; omega)
    obtain ⟨long,number⟩ := ih ht ((start * 16 + h) * 16 + l)
    refine ⟨by simp only [List.length_cons]; omega,?_⟩
    have two : valueFrom start (high::low::rest) = valueFrom ((start * 16 + h) * 16 + l) rest := by
      change valueFrom ((start * 16 + (digit high).getD 0) * 16 + (digit low).getD 0) rest = _
      rw [hh, hl]
      rfl
    rw [List.foldl_cons, byte, two, ← number]
    congr 1
    omega

theorem bytesTotal {text : List Char} (hex : IsHex text) (even : text.length % 2 = 0) :
    ∃ data, bytes text = some data := by
  induction text using bytes.induct with
  | case1 => exact ⟨[],rfl⟩
  | case2 c => cases even
  | case3 high low rest ih =>
    obtain ⟨h,hh⟩ := Option.isSome_iff_exists.mp (hex high List.mem_cons_self)
    obtain ⟨l,hl⟩ := Option.isSome_iff_exists.mp (hex low (List.mem_cons_of_mem _ List.mem_cons_self))
    obtain ⟨tail,ht⟩ := ih (fun c mem => hex c (List.mem_cons_of_mem _ (List.mem_cons_of_mem _ mem)))
      (by simp only [List.length_cons] at even; omega)
    exact ⟨_,by rw [bytes, hh, hl, ht]; rfl⟩

theorem bytesHex {text : List Char} {data : List UInt8} (reads : bytes text = some data) : IsHex text := by
  induction text using bytes.induct generalizing data with
  | case1 => exact List.forall_mem_nil _
  | case2 c => cases reads
  | case3 high low rest ih =>
    simp only [bytes, Option.bind_eq_bind, Option.bind_eq_some_iff, Option.pure_def, Option.some.injEq] at reads
    obtain ⟨h,hh,l,hl,tail,ht,_⟩ := reads
    exact List.forall_mem_cons.mpr ⟨Option.isSome_of_eq_some hh,
      List.forall_mem_cons.mpr ⟨Option.isSome_of_eq_some hl,ih ht⟩⟩

/-! A digit in lower case. The letters come after the ciphers, so that texts of one length are in the
order of their values. -/

theorem ofBytesHex (data : List UInt8) : IsHex (ofBytes data) := bytesHex (bytesOfBytes data)

theorem ofBytesLength (data : List UInt8) : (ofBytes data).length = 2 * data.length :=
  (bytesValue (bytesOfBytes data)).1

theorem digitToLower {c : Char} (hex : (digit c).isSome) : digit c.toLower = digit c :=
  digitCases (fun c => digit c.toLower = digit c) (by decide) hex

theorem codeToLower {c : Char} (hex : (digit c).isSome) : c.toLower.toNat =
    if (digit c).getD 0 < 10 then (digit c).getD 0 + 48 else (digit c).getD 0 + 87 :=
  digitCases (fun c => c.toLower.toNat =
    if (digit c).getD 0 < 10 then (digit c).getD 0 + 48 else (digit c).getD 0 + 87) (by decide) hex

theorem toLowerLt {c d : Char} (hexC : (digit c).isSome) (hexD : (digit d).isSome) :
    c.toLower < d.toLower ↔ (digit c).getD 0 < (digit d).getD 0 := by
  have order : c.toLower < d.toLower ↔ c.toLower.toNat < d.toLower.toNat := Iff.rfl
  rw [order, codeToLower hexC, codeToLower hexD]
  split <;> split <;> omega

theorem toLowerEq {c d : Char} (hexC : (digit c).isSome) (hexD : (digit d).isSome) :
    c.toLower = d.toLower ↔ (digit c).getD 0 = (digit d).getD 0 := by
  rw [eq_iff_le_not_lt, ← not_lt, toLowerLt hexC hexD, toLowerLt hexD hexC]
  omega

theorem hexToLower {text : List Char} (hex : IsHex text) : IsHex (text.map Char.toLower) := by
  intro c mem
  obtain ⟨d,inside,rfl⟩ := List.mem_map.mp mem
  rw [digitToLower (hex d inside)]
  exact hex d inside

theorem valueToLower {text : List Char} (hex : IsHex text) : value (text.map Char.toLower) = value text := by
  induction text with
  | nil => rfl
  | cons c rest ih =>
    obtain ⟨first,later⟩ := List.forall_mem_cons.mp hex
    rw [List.map_cons, valueCons, valueCons, digitToLower first, ih later, List.length_map]

theorem lowerLt {s t : List Char} (hexS : IsHex s) (hexT : IsHex t) (long : s.length = t.length) :
    s.map Char.toLower < t.map Char.toLower ↔ value s < value t := by
  induction s generalizing t with
  | nil =>
    obtain rfl := List.eq_nil_of_length_eq_zero long.symm
    exact iff_of_false (lt_irrefl _) (lt_irrefl _)
  | cons c s ih =>
    cases t with
    | nil => cases long
    | cons d t =>
      obtain ⟨hexC,hexS⟩ := List.forall_mem_cons.mp hexS
      obtain ⟨hexD,hexT⟩ := List.forall_mem_cons.mp hexT
      have long : s.length = t.length := Nat.succ.inj long
      have smallS := valueLt s
      have smallT := valueLt t
      rw [List.map_cons, List.map_cons, List.cons_lt_cons_iff, toLowerLt hexC hexD, toLowerEq hexC hexD,
        ih hexS hexT long, valueCons, valueCons, long]
      rw [long] at smallS
      rcases lt_trichotomy ((digit c).getD 0) ((digit d).getD 0) with less | same | more
      · refine iff_of_true (.inl less) ?_
        calc (digit c).getD 0 * 16 ^ t.length + value s
            < (digit c).getD 0 * 16 ^ t.length + 16 ^ t.length := Nat.add_lt_add_left smallS _
          _ = ((digit c).getD 0 + 1) * 16 ^ t.length := by ring
          _ ≤ (digit d).getD 0 * 16 ^ t.length := Nat.mul_le_mul_right _ less
          _ ≤ (digit d).getD 0 * 16 ^ t.length + value t := Nat.le_add_right _ _
      · rw [same]
        simp
      · refine iff_of_false (fun h => by omega) (Nat.not_lt.mpr ?_)
        calc (digit d).getD 0 * 16 ^ t.length + value t
            ≤ (digit d).getD 0 * 16 ^ t.length + 16 ^ t.length := Nat.add_le_add_left smallT.le _
          _ = ((digit d).getD 0 + 1) * 16 ^ t.length := by ring
          _ ≤ (digit c).getD 0 * 16 ^ t.length := Nat.mul_le_mul_right _ more
          _ ≤ (digit c).getD 0 * 16 ^ t.length + value s := Nat.le_add_right _ _

end HexText
