import NetgameFormal.Lproto

/-!
# A C module that the assumptions on `lproto_c` describe

The module itself is not part of the sources. This one writes an integer as four
bytes and a string behind its length in two bytes; on 32-bit integers and on
strings of less than 2^16 bytes nothing is lost. Its reads know no end of the
buffer.
-/

set_option autoImplicit false

namespace NetgameFormal

/-- The memory with `bytes` written from `off` on. -/
def poke (mem : Memory) (off : Nat) (bytes : List Byte) : Memory :=
  fun i => if off ≤ i then (bytes[i - off]?).getD (mem i) else mem i

def peek (mem : Memory) (off n : Nat) : List Byte := (List.range n).map fun i => mem (off + i)

section Poking

variable {mem buf : Memory} {off : Nat} {bytes : List Byte}

theorem poke_frame {i : Nat} (h : i < off ∨ off + bytes.length ≤ i) :
    poke mem off bytes i = mem i := by
  unfold poke
  by_cases hle : off ≤ i
  · have hlen : bytes.length ≤ i - off := by omega
    rw [if_pos hle, List.getElem?_eq_none hlen]
    rfl
  · rw [if_neg hle]

theorem poke_at {i : Nat} (hi : i < bytes.length) : poke mem off bytes (off + i) = bytes[i] := by
  have hsub : off + i - off = i := by omega
  rw [poke, if_pos (Nat.le_add_right off i), hsub, List.getElem?_eq_getElem hi]
  rfl

theorem holds_poked
    (hbuf : ∀ i, off ≤ i → i < off + bytes.length → buf i = poke mem off bytes i) {i : Nat}
    (hi : i < bytes.length) : buf (off + i) = bytes[i] := by
  rw [hbuf (off + i) (by omega) (by omega), poke_at hi]

end Poking

/-- Two's complement in four bytes. -/
def intBytes (n : Int) : List Byte :=
  let w := (n % 4294967296).toNat
  [hiByte (w / 65536 : Nat), loByte (w / 65536 : Nat), hiByte (w % 65536 : Nat),
    loByte (w % 65536 : Nat)]

def intOfBytes (b₀ b₁ b₂ b₃ : Byte) : Int :=
  let w := beNat b₀ b₁ * 65536 + beNat b₂ b₃
  if w < 2147483648 then w else (w : Int) - 4294967296

def scalarBytes : Scalar → List Byte
  | .int n => intBytes n
  | .str s => [hiByte s.length, loByte s.length] ++ s

/-- 32-bit integers, and strings whose length fits its two bytes. -/
def Representable : Scalar → Prop
  | .int n => -2147483648 ≤ n ∧ n < 2147483648
  | .str s => s.length < 65536

instance (v : Scalar) : Decidable (Representable v) := by
  cases v <;> unfold Representable <;> infer_instance

def lprotoBytes : LprotoC where
  write2byte mem n off := (poke mem off [hiByte n, loByte n], 2)
  write mem v off := (poke mem off (scalarBytes v), (scalarBytes v).length)
  newpack mem sz := (sz, (List.range sz).map mem)
  read2byte mem off := (2, beNat (mem off) (mem (off + 1)))
  read
    | .TINTEGER, mem, off =>
      (4, .int (intOfBytes (mem off) (mem (off + 1)) (mem (off + 2)) (mem (off + 3))))
    | .TSTRING, mem, off =>
      let len := beNat (mem off) (mem (off + 1))
      ((2 + len : Nat), .str (peek mem (off + 2) len))

theorem intOfBytes_written {n : Int} (hn : -2147483648 ≤ n ∧ n < 2147483648) :
    intOfBytes (hiByte ((n % 4294967296).toNat / 65536 : Nat))
      (loByte ((n % 4294967296).toNat / 65536 : Nat))
      (hiByte ((n % 4294967296).toNat % 65536 : Nat))
      (loByte ((n % 4294967296).toNat % 65536 : Nat)) = n := by
  have hw : (n % 4294967296).toNat < 4294967296 := by omega
  unfold intOfBytes
  rw [beNat_written (by omega), beNat_written (by omega)]
  have hjoin : (n % 4294967296).toNat / 65536 * 65536 + (n % 4294967296).toNat % 65536 =
      (n % 4294967296).toNat := by omega
  simp only [hjoin]
  split <;> omega

theorem read_written {mem buf : Memory} {off : Nat} {v : Scalar} (hv : Representable v)
    (hbuf : ∀ i, off ≤ i → i < off + (scalarBytes v).length →
      buf i = poke mem off (scalarBytes v) i) :
    lprotoBytes.read v.type buf off = (((scalarBytes v).length : Int), v) := by
  have hat := fun i => holds_poked (i := i) hbuf
  cases v with
  | int n =>
    have h₀ : buf off = _ := hat 0 (by simp [scalarBytes, intBytes])
    have h₁ := hat 1 (by simp [scalarBytes, intBytes])
    have h₂ := hat 2 (by simp [scalarBytes, intBytes])
    have h₃ := hat 3 (by simp [scalarBytes, intBytes])
    simp only [Scalar.type, lprotoBytes, h₀, h₁, h₂, h₃]
    exact congrArg (Prod.mk 4) (congrArg Scalar.int (intOfBytes_written hv))
  | str s =>
    have h₀ : buf off = _ := hat 0 (by simp [scalarBytes])
    have h₁ := hat 1 (by simp [scalarBytes])
    have hlen : beNat (buf off) (buf (off + 1)) = s.length := by
      rw [h₀, h₁]
      exact beNat_written hv
    have htext : peek buf (off + 2) s.length = s := by
      apply List.ext_getElem
      · simp [peek]
      · intro i _ hi
        have hbyte := hat (i + 2) (by simp [scalarBytes]; omega)
        have hpos : off + 2 + i = off + (i + 2) := by omega
        simp only [peek, List.getElem_map, List.getElem_range, hpos, hbyte]
        rfl
    simp only [Scalar.type, lprotoBytes, hlen, htext]
    have hsize : (scalarBytes (.str s)).length = 2 + s.length := by
      simp [scalarBytes]
      omega
    rw [hsize]

theorem lprotoBytes_lossless : lprotoBytes.Lossless Representable where
  write2byte_size _ _ _ := rfl
  write2byte_frame _ _ _ _ hi := poke_frame hi
  read2byte mem n off buf hnonneg hlt hbuf := by
    obtain ⟨m, rfl⟩ := Int.eq_ofNat_of_zero_le hnonneg
    have hat := fun i => @holds_poked mem buf off [hiByte m, loByte m] hbuf i
    have h₀ : buf off = hiByte m := hat 0 (by simp)
    have h₁ : buf (off + 1) = loByte m := hat 1 (by simp)
    have hvalue : beNat (hiByte m) (loByte m) = m := beNat_written (by omega)
    simp only [lprotoBytes, h₀, h₁, hvalue]
  write_frame _ _ _ _ _ _ hi := poke_frame hi
  read _ _ _ _ hv _ hbuf := read_written hv hbuf
  newpack _ _ := rfl

/-! ## Small dictionaries and buffers -/

def oneProt (protId : Int) (fields : Table Field) : Int → Option (Table Field) :=
  fun i => if i = protId then some fields else none

/-- `{n = 0}` -/
def pingFields : Table Field := ⟨[(luaString "n", .scalar (.int 0))], by decide⟩

/-- A buffer that starts with these bytes. -/
def holding (bytes : List Byte) : Memory := fun i => bytes.getD i 0#8

end NetgameFormal
