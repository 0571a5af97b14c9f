import Std

/-!
# Bytes, the two-byte blocks of a frame, and C strings

`char` is the signed type of the target platform: `readBlock` sign-extends both
bytes before it combines them, while the header decoder works on `uint8_t`.
-/

set_option autoImplicit false

namespace NetgameFormal

abbrev Byte := BitVec 8

/-- `(r >> 8) & 0xff`, stored in a `char`. -/
def hiByte (r : Int) : Byte := ((BitVec.ofInt 32 r).sshiftRight 8 &&& 0xff#32).setWidth 8

/-- `r & 0xff`, stored in a `char`. -/
def loByte (r : Int) : Byte := (BitVec.ofInt 32 r &&& 0xff#32).setWidth 8

/-- `(int)hi << 8 | (int)lo` on signed characters. -/
def signedPair (hi lo : Byte) : Int := (hi.signExtend 32 <<< 8 ||| lo.signExtend 32).toInt

def readBlock (buffer : List Byte) (pos : Nat) : Int :=
  signedPair (buffer.getD pos 0#8) (buffer.getD (pos + 1) 0#8)

def writeBlock (buffer : List Byte) (r : Int) (pos : Nat) : List Byte :=
  (buffer.set pos (hiByte r)).set (pos + 1) (loByte r)

/-- `plen[0] << 8 | plen[1]` on unsigned bytes. -/
def plenHeader (p₀ p₁ : Byte) : Nat := p₀.toNat <<< 8 ||| p₁.toNat

/-- The big-endian unsigned value of two bytes. -/
def beNat (hi lo : Byte) : Nat := hi.toNat * 256 + lo.toNat

theorem beNat_lt (hi lo : Byte) : beNat hi lo < 65536 := by
  have hhi := hi.isLt
  have hlo := lo.isLt
  unfold beNat
  omega

theorem plenHeader_eq (p₀ p₁ : Byte) : plenHeader p₀ p₁ = beNat p₀ p₁ := by
  unfold plenHeader beNat
  rw [← Nat.shiftLeft_add_eq_or_of_lt p₁.isLt, Nat.shiftLeft_eq]

theorem hiByte_toNat {n : Nat} (hn : n < 65536) : (hiByte n).toNat = n / 256 := by
  have hmsb : (BitVec.ofNat 32 n).msb = false := by
    rw [BitVec.msb_eq_false_iff_two_mul_lt, BitVec.toNat_ofNat]
    omega
  have hmask : n / 256 &&& 255 = n / 256 % 2 ^ 8 := Nat.and_two_pow_sub_one_eq_mod _ 8
  simp only [hiByte, BitVec.ofInt_natCast, BitVec.sshiftRight_eq_of_msb_false hmsb,
    BitVec.toNat_setWidth, BitVec.toNat_and, BitVec.toNat_ushiftRight, BitVec.toNat_ofNat,
    Nat.shiftRight_eq_div_pow]
  rw [Nat.mod_eq_of_lt (show n < 2 ^ 32 by omega)]
  change (n / 256 &&& 255) % 256 = n / 256
  rw [hmask]
  omega

theorem loByte_toNat {n : Nat} : (loByte n).toNat = n % 256 := by
  have hmask : n % 2 ^ 32 &&& 255 = n % 2 ^ 32 % 2 ^ 8 := Nat.and_two_pow_sub_one_eq_mod _ 8
  simp only [loByte, BitVec.ofInt_natCast, BitVec.toNat_setWidth, BitVec.toNat_and,
    BitVec.toNat_ofNat]
  change (n % 2 ^ 32 &&& 255) % 256 = n % 256
  rw [hmask]
  omega

theorem beNat_written {n : Nat} (hn : n < 65536) : beNat (hiByte n) (loByte n) = n := by
  rw [beNat, hiByte_toNat hn, loByte_toNat]
  omega

theorem hiByte_beNat (hi lo : Byte) : hiByte (beNat hi lo) = hi := by
  apply BitVec.eq_of_toNat_eq
  rw [hiByte_toNat (beNat_lt hi lo), beNat]
  have hlo := lo.isLt
  omega

theorem loByte_beNat (hi lo : Byte) : loByte (beNat hi lo) = lo := by
  apply BitVec.eq_of_toNat_eq
  rw [loByte_toNat, beNat]
  have hlo := lo.isLt
  omega

/-- A positive protocol number below 128 has one encoding only, although `readBlock` is signed. -/
theorem signedPair_eq_iff {hi lo : Byte} : signedPair hi lo = 100 ↔ hi = 0#8 ∧ lo = 100#8 := by
  constructor
  · intro h
    have hpair : hi.signExtend 32 <<< 8 ||| lo.signExtend 32 = 100#32 := BitVec.eq_of_toInt_eq h
    have hlo : lo = 100#8 := by
      apply BitVec.eq_of_getLsbD_eq
      intro i hi8
      have hbit := congrArg (BitVec.getLsbD · i) hpair
      simp only [BitVec.getLsbD_or, BitVec.getLsbD_shiftLeft, BitVec.getLsbD_signExtend, hi8,
        decide_true, Bool.not_true, Bool.and_false, Bool.false_and, Bool.false_or, if_true,
        show i < 32 by omega, Bool.true_and] at hbit
      rw [hbit]
      clear hbit
      revert i
      decide
    subst hlo
    refine ⟨?_, rfl⟩
    revert hi
    decide
  · rintro ⟨rfl, rfl⟩
    decide

theorem loByte_toNat_int (r : Int) : (loByte r).toNat = (r % 256).toNat := by
  have hmask : ∀ m : Nat, m &&& 255 = m % 2 ^ 8 := fun m => Nat.and_two_pow_sub_one_eq_mod m 8
  simp only [loByte, BitVec.toNat_setWidth, BitVec.toNat_and, BitVec.toNat_ofNat,
    BitVec.toNat_ofInt]
  change ((r % (2 ^ 32 : Nat)).toNat &&& 255) % 256 = _
  rw [hmask]
  omega

theorem hiByte_toNat_int (r : Int) : (hiByte r).toNat = (r / 256 % 256).toNat := by
  have hmask : ∀ m : Nat, m &&& 255 = m % 2 ^ 8 := fun m => Nat.and_two_pow_sub_one_eq_mod m 8
  have hshift : hiByte r = ((BitVec.ofInt 32 r >>> 8) &&& 0xff#32).setWidth 8 := by
    apply BitVec.eq_of_getLsbD_eq
    intro i hi
    simp only [hiByte, BitVec.getLsbD_setWidth, BitVec.getLsbD_and, BitVec.getLsbD_sshiftRight,
      BitVec.getLsbD_ushiftRight, show ¬ 32 ≤ i by omega, show 8 + i < 32 by omega, decide_false,
      Bool.not_false, if_true, Bool.true_and]
  rw [hshift]
  simp only [BitVec.toNat_setWidth, BitVec.toNat_and, BitVec.toNat_ofNat, BitVec.toNat_ofInt,
    BitVec.toNat_ushiftRight, Nat.shiftRight_eq_div_pow]
  change ((r % (2 ^ 32 : Nat)).toNat / 256 &&& 255) % 256 = _
  rw [hmask]
  omega

theorem beNat_block (r : Int) : (beNat (hiByte r) (loByte r) : Int) = r % 65536 := by
  rw [beNat, hiByte_toNat_int, loByte_toNat_int]
  omega

theorem signedPair_of_msb {hi lo : Byte} (h : lo.msb = true) : signedPair hi lo = lo.toInt := by
  have habsorb : hi.signExtend 32 <<< 8 ||| lo.signExtend 32 = lo.signExtend 32 := by
    apply BitVec.eq_of_getLsbD_eq
    intro i hi32
    simp only [BitVec.getLsbD_or, BitVec.getLsbD_shiftLeft, BitVec.getLsbD_signExtend, h]
    by_cases hi8 : i < 8
    · simp [hi8]
    · simp [hi8, hi32]
  rw [signedPair, habsorb, BitVec.toInt_signExtend_of_le (by decide)]

theorem signedPair_of_not_msb {hi lo : Byte} (h : lo.msb = false) :
    signedPair hi lo = hi.toInt * 256 + lo.toNat := by
  have hlo : lo.signExtend 32 = lo.setWidth 32 := BitVec.signExtend_eq_setWidth_of_msb_false h
  have hdisjoint : hi.signExtend 32 <<< 8 &&& lo.setWidth 32 = 0#32 := by
    apply BitVec.eq_of_getLsbD_eq
    intro i hi32
    by_cases hi8 : i < 8
    · simp [hi8]
    · simp [hi8, hi32, BitVec.getLsbD_of_ge lo i (by omega)]
  have hhi := BitVec.toInt_lt (x := hi)
  have hhi' := BitVec.le_toInt hi
  have hlt := lo.isLt
  have hhi32 : (hi.signExtend 32).toInt = hi.toInt := BitVec.toInt_signExtend_of_le (by decide)
  have hhigh : (hi.signExtend 32 <<< 8).toInt = hi.toInt * 256 := by
    rw [BitVec.toInt_shiftLeft, Nat.shiftLeft_eq, Int.natCast_mul, ← Int.bmod_mul_bmod,
      ← BitVec.toInt_eq_toNat_bmod, hhi32]
    apply Int.bmod_eq_of_le <;> omega
  have hlow : (lo.setWidth 32).toInt = lo.toNat := by
    rw [BitVec.toInt_setWidth]
    apply Int.bmod_eq_of_le <;> omega
  rw [signedPair, hlo, ← BitVec.add_eq_or_of_and_eq_zero _ _ hdisjoint, BitVec.toInt_add, hhigh,
    hlow]
  apply Int.bmod_eq_of_le <;> omega

theorem msb_iff (x : Byte) : x.msb = true ↔ 128 ≤ x.toNat := by
  rw [BitVec.msb_eq_decide, decide_eq_true_eq]

theorem signedPair_of_lt {hi lo : Byte} (hhi : hi.toNat < 128) (hlo : lo.toNat < 128) :
    signedPair hi lo = beNat hi lo := by
  have hmsb : lo.msb = false := by
    rw [← Bool.not_eq_true, msb_iff]
    omega
  rw [signedPair_of_not_msb hmsb, BitVec.toInt_eq_toNat_of_lt (by omega), beNat]
  rw [Int.natCast_add, Int.natCast_mul]
  rfl

theorem signedPair_neg {hi lo : Byte} (h : 128 ≤ hi.toNat ∨ 128 ≤ lo.toNat) :
    signedPair hi lo < 0 := by
  have hbound := hi.isLt
  have hbound' := lo.isLt
  by_cases hlo : 128 ≤ lo.toNat
  · rw [signedPair_of_msb ((msb_iff lo).mpr hlo), BitVec.toInt_eq_toNat_cond]
    split <;> omega
  · have hmsb : lo.msb = false := by
      rw [← Bool.not_eq_true, msb_iff]
      exact hlo
    rw [signedPair_of_not_msb hmsb, BitVec.toInt_eq_toNat_cond]
    split <;> omega

/-- Whether the block of a sign-extended number still holds the two bytes it was read from. -/
theorem block_signedPair_iff (hi lo : Byte) :
    beNat (hiByte (signedPair hi lo)) (loByte (signedPair hi lo)) = beNat hi lo ↔
      lo.toNat < 128 ∨ hi.toNat = 255 := by
  have hblock := beNat_block (signedPair hi lo)
  have hbound := hi.isLt
  have hbound' := lo.isLt
  generalize beNat (hiByte (signedPair hi lo)) (loByte (signedPair hi lo)) = n at hblock ⊢
  unfold beNat
  by_cases hlo : 128 ≤ lo.toNat
  · rw [signedPair_of_msb ((msb_iff lo).mpr hlo), BitVec.toInt_eq_toNat_cond] at hblock
    split at hblock <;> omega
  · have hmsb : lo.msb = false := by
      rw [← Bool.not_eq_true, msb_iff]
      exact hlo
    rw [signedPair_of_not_msb hmsb, BitVec.toInt_eq_toNat_cond] at hblock
    split at hblock <;> omega

@[simp] theorem writeBlock_length (buffer : List Byte) (r : Int) (pos : Nat) :
    (writeBlock buffer r pos).length = buffer.length := by
  simp [writeBlock]

theorem exists_cons_two {buffer : List Byte} (h : 2 ≤ buffer.length) :
    ∃ a b rest, buffer = a :: b :: rest := by
  match buffer, h with
  | a :: b :: rest, _ => exact ⟨a, b, rest, rfl⟩

@[simp] theorem writeBlock_zero (a b : Byte) (buffer : List Byte) (r : Int) :
    writeBlock (a :: b :: buffer) r 0 = hiByte r :: loByte r :: buffer := rfl

@[simp] theorem writeBlock_two (a b c d : Byte) (buffer : List Byte) (r : Int) :
    writeBlock (a :: b :: c :: d :: buffer) r 2 = a :: b :: hiByte r :: loByte r :: buffer := rfl

/-- The length of a C string: the bytes before the first zero. -/
def strlen (s : List Byte) : Nat := (s.takeWhile (· ≠ 0#8)).length

/-- `strncmp` on zero-terminated memory; a list is followed by its terminator. -/
def strncmp : List Byte → List Byte → Nat → Int
  | _, _, 0 => 0
  | a, b, n + 1 =>
    if a.headD 0#8 ≠ b.headD 0#8 then (a.headD 0#8).toNat - (b.headD 0#8).toNat
    else if a.headD 0#8 = 0#8 then 0
    else strncmp a.tail b.tail n

theorem strlen_eq_length {s : List Byte} (hs : 0#8 ∉ s) : strlen s = s.length := by
  unfold strlen
  induction s with
  | nil => rfl
  | cons a s ih =>
    have ha : a ≠ 0#8 := fun h => hs (h ▸ List.mem_cons_self)
    simpa [ha] using ih fun h => hs (List.mem_cons_of_mem a h)

theorem strncmp_eq_zero_iff {a b : List Byte} (hb : 0#8 ∉ b) :
    strncmp a b b.length = 0 ↔ b <+: a := by
  induction b generalizing a with
  | nil => simp [strncmp]
  | cons y b ih =>
    have hy : y ≠ 0#8 := fun h => hb (h ▸ List.mem_cons_self)
    have hb' : 0#8 ∉ b := fun h => hb (List.mem_cons_of_mem y h)
    cases a with
    | nil =>
      have hne : 0#8 ≠ y := Ne.symm hy
      have hpos : y.toNat ≠ 0 := fun h => hy (BitVec.eq_of_toNat_eq (by simpa using h))
      simp [strncmp, hne, hpos]
    | cons x a =>
      by_cases hxy : x = y
      · subst x
        simp [strncmp, hy, ih hb', List.cons_prefix_cons]
      · have hval : x.toNat ≠ y.toNat := fun h => hxy (BitVec.eq_of_toNat_eq h)
        simp only [strncmp, List.headD_cons, List.length_cons, ne_eq, hxy, not_false_eq_true,
          if_true, List.cons_prefix_cons, Ne.symm hxy, false_and, iff_false]
        omega

end NetgameFormal
