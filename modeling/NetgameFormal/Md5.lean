import NetgameFormal.PaddedBlocks
import NetgameFormal.Relay
import NetgameFormal.SineTables
import Mathlib.Data.List.GetD

/-!
# md5.c

The code works in place on four words, in four unrolled passes, and pads the
message while it converts it. Its meaning is given by a uniform step in which
the four words change places, by constants that are sines, and by a padding that
is added in advance. The length is the exact one only below 2^32 bytes:
`put_length` keeps 35 of its bits.
-/

set_option autoImplicit false

namespace NetgameFormal.Md5

open PaddedBlocks (leNat leBytes pad absorbAll)

/-- `WORD32` -/
abbrev Word := BitVec 32

structure Digest where
  d0 : Word
  d1 : Word
  d2 : Word
  d3 : Word
  deriving DecidableEq

def T : List Word :=
  [0xd76aa478#32, 0xe8c7b756#32, 0x242070db#32, 0xc1bdceee#32,
   0xf57c0faf#32, 0x4787c62a#32, 0xa8304613#32, 0xfd469501#32,
   0x698098d8#32, 0x8b44f7af#32, 0xffff5bb1#32, 0x895cd7be#32,
   0x6b901122#32, 0xfd987193#32, 0xa679438e#32, 0x49b40821#32,
   0xf61e2562#32, 0xc040b340#32, 0x265e5a51#32, 0xe9b6c7aa#32,
   0xd62f105d#32, 0x02441453#32, 0xd8a1e681#32, 0xe7d3fbc8#32,
   0x21e1cde6#32, 0xc33707d6#32, 0xf4d50d87#32, 0x455a14ed#32,
   0xa9e3e905#32, 0xfcefa3f8#32, 0x676f02d9#32, 0x8d2a4c8a#32,
   0xfffa3942#32, 0x8771f681#32, 0x6d9d6122#32, 0xfde5380c#32,
   0xa4beea44#32, 0x4bdecfa9#32, 0xf6bb4b60#32, 0xbebfbc70#32,
   0x289b7ec6#32, 0xeaa127fa#32, 0xd4ef3085#32, 0x04881d05#32,
   0xd9d4d039#32, 0xe6db99e5#32, 0x1fa27cf8#32, 0xc4ac5665#32,
   0xf4292244#32, 0x432aff97#32, 0xab9423a7#32, 0xfc93a039#32,
   0x655b59c3#32, 0x8f0ccc92#32, 0xffeff47d#32, 0x85845dd1#32,
   0x6fa87e4f#32, 0xfe2ce6e0#32, 0xa3014314#32, 0x4e0811a1#32,
   0xf7537e82#32, 0xbd3af235#32, 0x2ad7d2bb#32, 0xeb86d391#32]

/-- `T[i]` -/
def tableT (i : Nat) : Word := T.getD i 0#32

def rotate (d : Word) (num : Nat) : Word := d <<< num ||| d >>> (32 - num)

def mixF (x y z : Word) : Word := (x &&& y) ||| (~~~x &&& z)

def mixG (x y z : Word) : Word := (x &&& z) ||| (y &&& ~~~z)

def mixH (x y z : Word) : Word := x ^^^ y ^^^ z

def mixI (x y z : Word) : Word := y ^^^ (x ||| ~~~z)

def word32tobytes (d : Digest) : List Byte :=
  [d.d0, d.d1, d.d2, d.d3].flatMap fun v =>
    [v &&& 0xff#32, v >>> 8 &&& 0xff#32, v >>> 16 &&& 0xff#32, v >>> 24 &&& 0xff#32].map (·.setWidth 8)

def inicDigest : Digest := ⟨0x67452301#32, 0xEFCDAB89#32, 0x98BADCFE#32, 0x10325476#32⟩

/-- The body of one of the four loops of `digest`: `m` and `t` are the words it adds in step `j`. -/
def passoBody (f : Word → Word → Word → Word) (m t : Nat → Word) (s₀ s₁ s₂ s₃ : Nat) (d : Digest)
    (j : Nat) : Digest :=
  let d := { d with d0 := rotate (d.d0 + f d.d1 d.d2 d.d3 + m j + t j) s₀ + d.d1 }
  let d := { d with d3 := rotate (d.d3 + f d.d0 d.d1 d.d2 + m (j + 1) + t (j + 1)) s₁ + d.d0 }
  let d := { d with d2 := rotate (d.d2 + f d.d3 d.d0 d.d1 + m (j + 2) + t (j + 2)) s₂ + d.d3 }
  { d with d1 := rotate (d.d1 + f d.d2 d.d3 d.d0 + m (j + 3) + t (j + 3)) s₃ + d.d2 }

/-- `for (j=0; j<4*4; j+=4)` -/
def passo (f : Word → Word → Word → Word) (m t : Nat → Word) (s₀ s₁ s₂ s₃ : Nat) (d : Digest) : Digest :=
  [0, 4, 8, 12].foldl (passoBody f m t s₀ s₁ s₂ s₃) d

def passo1 (m : Nat → Word) : Digest → Digest := passo mixF m tableT 7 12 17 22

def passo2 (m : Nat → Word) : Digest → Digest :=
  passo mixG (fun j => m (5 * j + 1 &&& 0x0f)) (fun j => tableT (j + 17 - 1)) 5 9 14 20

def passo3 (m : Nat → Word) : Digest → Digest :=
  passo mixH (fun j => m (3 * j + 5 &&& 0x0f)) (fun j => tableT (j + 33 - 1)) 4 11 16 23

def passo4 (m : Nat → Word) : Digest → Digest :=
  passo mixI (fun j => m (7 * j &&& 0x0f)) (fun j => tableT (j + 49 - 1)) 6 10 15 21

def digest (m : Nat → Word) (d : Digest) : Digest := passo4 m (passo3 m (passo2 m (passo1 m d)))

/-- The sixteen words of `x`. -/
def bytestoword32 (pt : List Byte) (i : Nat) : Word :=
  let word := fun k => (pt.getD (4 * i + k) 0#8).setWidth 32
  if i < 16 then ((word 3 <<< 8 ||| word 2) <<< 8 ||| word 1) <<< 8 ||| word 0 else 0#32

def putLength (x : Nat → Word) (len : Nat) : Nat → Word :=
  Function.update (Function.update x 14 (BitVec.ofNat 32 (len <<< 3 &&& 0xFFFFFFFF))) 15
    (BitVec.ofNat 32 (len >>> 29 &&& 0x7))

/-- The words of the next block, and the new status. -/
def converte (pt : List Byte) (num oldStatus : Nat) : (Nat → Word) × Nat :=
  let newStatus := if num ≤ 64 - 9 then 2 else if num < 64 then 1 else 0
  if num < 64 then
    let buff := pt.take num ++ List.replicate (64 - num) 0#8
    let buff := if oldStatus = 0 then buff.set num 0x80#8 else buff
    (bytestoword32 buff, newStatus)
  else (bytestoword32 pt, newStatus)

def Digest.add (d e : Digest) : Digest := ⟨d.d0 + e.d0, d.d1 + e.d1, d.d2 + e.d2, d.d3 + e.d3⟩

/-- The loop of `md5`. -/
def md5Loop (message : List Byte) : Nat → Nat → Nat → Digest → Option Digest
  | 0, _, _, _ => none
  | fuel + 1, i, status, d =>
    if status = 2 then some d
    else
      let numbytes := if message.length - i ≥ 64 then 64 else message.length - i
      let (wbuff, status) := converte (message.drop i) numbytes status
      let wbuff := if status = 2 then putLength wbuff message.length else wbuff
      md5Loop message fuel (i + numbytes) status ((digest wbuff d).add d)

def md5 (message : List Byte) : Option (List Byte) :=
  (md5Loop message (message.length / 64 + 3) 0 0 inicDigest).map word32tobytes

/-- `string.format("%02x", string.byte(c))` for every byte of the sum. -/
def sumhexa (k : List Byte) : Option (List Byte) :=
  (md5 k).map fun sum => sum.flatMap fun c =>
    [c.toNat / 16, c.toNat % 16].map fun digit => asciiBytes "0123456789abcdef" |>.getD digit 0#8

/-- What `handshake` of client.lua sends. -/
def clientGreeting (fd : Int) : Option (List Byte) :=
  (sumhexa (asciiBytes "client_md5")).map (handshakePackage fd)

/-! ## The meaning -/

/-- Which bits of the second and third word are taken, by those of the first. -/
def select (x y z : Word) : Word := (x &&& y) ||| (~~~x &&& z)

def mixing (i : Nat) (b c d : Word) : Word :=
  match i / 16 with
  | 0 => select b c d
  | 1 => select d b c
  | 2 => b ^^^ c ^^^ d
  | _ => c ^^^ (b ||| ~~~d)

def wordUsed (i : Nat) : Nat :=
  match i / 16 with
  | 0 => i % 16
  | 1 => (5 * i + 1) % 16
  | 2 => (3 * i + 5) % 16
  | _ => 7 * i % 16

def rotation (i : Nat) : Nat :=
  match i / 16 with
  | 0 => [7, 12, 17, 22].getD (i % 4) 0
  | 1 => [5, 9, 14, 20].getD (i % 4) 0
  | 2 => [4, 11, 16, 23].getD (i % 4) 0
  | _ => [6, 10, 15, 21].getD (i % 4) 0

/-- The words move one place on, and the first one is mixed into the second. -/
def turn (f : Word → Word → Word → Word) (x t : Word) (s : Nat) (d : Digest) : Digest where
  d0 := d.d3
  d1 := (d.d0 + f d.d1 d.d2 d.d3 + x + t).rotateLeft s + d.d1
  d2 := d.d1
  d3 := d.d2

/-- The integer part of `2 ^ 32 * |sin (i + 1)|`. -/
noncomputable def sineWord (i : Nat) : Word := BitVec.ofNat 32 ⌊2 ^ 32 * |Real.sin (i + 1 : ℕ)|⌋₊

/-- Step `i` of 64. -/
noncomputable def md5Step (x : Nat → Word) (d : Digest) (i : Nat) : Digest :=
  turn (mixing i) (x (wordUsed i)) (sineWord i) (rotation i) d

/-- The little-endian words of a block. -/
def wordsOf (block : List Byte) (i : Nat) : Word :=
  BitVec.ofNat 32 (leNat ((List.range 4).map fun k => block.getD (4 * i + k) 0#8))

/-- The digest that the bytes 01 23 45 67 89 ab cd ef, up and down again, make up. -/
def startDigest : Digest :=
  let x := wordsOf [0x01#8, 0x23#8, 0x45#8, 0x67#8, 0x89#8, 0xab#8, 0xcd#8, 0xef#8,
    0xfe#8, 0xdc#8, 0xba#8, 0x98#8, 0x76#8, 0x54#8, 0x32#8, 0x10#8]
  ⟨x 0, x 1, x 2, x 3⟩

noncomputable def compress (block : List Byte) (d : Digest) : Digest :=
  ((List.range 64).foldl (md5Step (wordsOf block)) d).add d

/-- The hash of a message, with `bits` in the place of its length. -/
noncomputable def md5Hash (bits : Nat) (message : List Byte) : List Byte :=
  let d := absorbAll 64 compress (pad 64 0x80#8 0#8 (leBytes 8 bits) message) startDigest
  [d.d0, d.d1, d.d2, d.d3].flatMap fun v => leBytes 4 v.toNat

/-! ## The constants -/

theorem tableT_eq {i : Nat} (hi : i < 64) : tableT i = sineWord i := by
  have hbrackets : ∀ i, i < 64 → SineTables.Brackets 9966818358784711825 15522399902203605024 64 60
      32 (i + 1) (tableT i).toNat := by decide +kernel
  rw [sineWord, SineTables.unit_approximates.floor_sin (hbrackets i hi), BitVec.ofNat_toNat,
    BitVec.setWidth_eq]

theorem inicDigest_eq : inicDigest = startDigest := by decide

/-! ## The four passes -/

theorem rotate_eq (d : Word) {num : Nat} (h : num < 32) : rotate d num = d.rotateLeft num := by
  rw [rotate, BitVec.rotateLeft_def, Nat.mod_eq_of_lt h]

theorem mixG_eq (x y z : Word) : mixG x y z = select z x y := by
  rw [mixG, select, BitVec.and_comm x z, BitVec.and_comm y]

/-- Four assignments of the code are four uniform steps. -/
theorem passoBody_eq (f : Word → Word → Word → Word) (m t : Nat → Word) {s₀ s₁ s₂ s₃ : Nat}
    (h₀ : s₀ < 32) (h₁ : s₁ < 32) (h₂ : s₂ < 32) (h₃ : s₃ < 32) (d : Digest) (j : Nat) :
    passoBody f m t s₀ s₁ s₂ s₃ d j =
      turn f (m (j + 3)) (t (j + 3)) s₃ (turn f (m (j + 2)) (t (j + 2)) s₂
        (turn f (m (j + 1)) (t (j + 1)) s₁ (turn f (m j) (t j) s₀ d))) := by
  simp only [passoBody, rotate_eq _ h₀, rotate_eq _ h₁, rotate_eq _ h₂, rotate_eq _ h₃]
  rfl

theorem passo_eq (f : Word → Word → Word → Word) (m t : Nat → Word) {s₀ s₁ s₂ s₃ : Nat}
    (h₀ : s₀ < 32) (h₁ : s₁ < 32) (h₂ : s₂ < 32) (h₃ : s₃ < 32) (d : Digest) :
    passo f m t s₀ s₁ s₂ s₃ d = (List.range 16).foldl
      (fun d j => turn f (m j) (t j) ([s₀, s₁, s₂, s₃].getD (j % 4) 0) d) d := by
  simp only [passo, List.foldl_cons, List.foldl_nil, passoBody_eq f m t h₀ h₁ h₂ h₃]
  rfl

theorem and_fifteen (n : Nat) : n &&& 0x0f = n % 16 := Nat.and_two_pow_sub_one_eq_mod n 4

section Steps

variable {x : Nat → Word} {d : Digest} {j : Nat}

theorem md5Step_first (hj : j < 16) :
    turn mixF (x j) (tableT j) ([7, 12, 17, 22].getD (j % 4) 0) d = md5Step x d j := by
  rw [tableT_eq (by omega)]
  have hpass : j / 16 = 0 := by omega
  have hword : j % 16 = j := Nat.mod_eq_of_lt hj
  have hmix : mixing j = mixF := by
    funext b c e
    simp only [mixing, hpass, select, mixF]
  simp only [md5Step, hmix, wordUsed, rotation, hpass, hword]

theorem md5Step_second (hj : j < 16) :
    turn mixG (x (5 * j + 1 &&& 0x0f)) (tableT (j + 17 - 1)) ([5, 9, 14, 20].getD (j % 4) 0) d =
      md5Step x d (16 + j) := by
  have hpass : (16 + j) / 16 = 1 := by omega
  have hword : (5 * (16 + j) + 1) % 16 = (5 * j + 1) % 16 := by omega
  have hturn : (16 + j) % 4 = j % 4 := by omega
  have htable : j + 17 - 1 = 16 + j := by omega
  have hmix : mixing (16 + j) = mixG := by
    funext b c e
    simp only [mixing, hpass, mixG_eq]
  rw [htable, tableT_eq (by omega)]
  simp only [md5Step, hmix, wordUsed, rotation, hpass, hword, hturn, and_fifteen]

theorem md5Step_third (hj : j < 16) :
    turn mixH (x (3 * j + 5 &&& 0x0f)) (tableT (j + 33 - 1)) ([4, 11, 16, 23].getD (j % 4) 0) d =
      md5Step x d (32 + j) := by
  have hpass : (32 + j) / 16 = 2 := by omega
  have hword : (3 * (32 + j) + 5) % 16 = (3 * j + 5) % 16 := by omega
  have hturn : (32 + j) % 4 = j % 4 := by omega
  have htable : j + 33 - 1 = 32 + j := by omega
  have hmix : mixing (32 + j) = mixH := by
    funext b c e
    simp only [mixing, hpass, mixH]
  rw [htable, tableT_eq (by omega)]
  simp only [md5Step, hmix, wordUsed, rotation, hpass, hword, hturn, and_fifteen]

theorem md5Step_fourth (hj : j < 16) :
    turn mixI (x (7 * j &&& 0x0f)) (tableT (j + 49 - 1)) ([6, 10, 15, 21].getD (j % 4) 0) d =
      md5Step x d (48 + j) := by
  have hpass : (48 + j) / 16 = 3 := by omega
  have hword : 7 * (48 + j) % 16 = 7 * j % 16 := by omega
  have hturn : (48 + j) % 4 = j % 4 := by omega
  have htable : j + 49 - 1 = 48 + j := by omega
  have hmix : mixing (48 + j) = mixI := by
    funext b c e
    simp only [mixing, hpass, mixI]
  rw [htable, tableT_eq (by omega)]
  simp only [md5Step, hmix, wordUsed, rotation, hpass, hword, hturn, and_fifteen]

end Steps

/-- The unrolled passes are the 64 steps. -/
theorem digest_eq (x : Nat → Word) (d : Digest) :
    digest x d = (List.range 64).foldl (md5Step x) d := by
  have hrange : List.range 64 = List.range 16 ++ (List.range 16).map (16 + ·) ++
      (List.range 16).map (32 + ·) ++ (List.range 16).map (48 + ·) := by decide
  have hfirst : passo1 x d = (List.range 16).foldl (md5Step x) d := by
    rw [passo1, passo_eq _ _ _ (by decide) (by decide) (by decide) (by decide)]
    exact List.foldl_ext _ _ _ fun d j hj => md5Step_first (List.mem_range.mp hj)
  have hsecond : ∀ d, passo2 x d = (List.range 16).foldl (fun d j => md5Step x d (16 + j)) d := by
    intro d
    rw [passo2, passo_eq _ _ _ (by decide) (by decide) (by decide) (by decide)]
    exact List.foldl_ext _ _ _ fun d j hj => md5Step_second (List.mem_range.mp hj)
  have hthird : ∀ d, passo3 x d = (List.range 16).foldl (fun d j => md5Step x d (32 + j)) d := by
    intro d
    rw [passo3, passo_eq _ _ _ (by decide) (by decide) (by decide) (by decide)]
    exact List.foldl_ext _ _ _ fun d j hj => md5Step_third (List.mem_range.mp hj)
  have hfourth : ∀ d, passo4 x d = (List.range 16).foldl (fun d j => md5Step x d (48 + j)) d := by
    intro d
    rw [passo4, passo_eq _ _ _ (by decide) (by decide) (by decide) (by decide)]
    exact List.foldl_ext _ _ _ fun d j hj => md5Step_fourth (List.mem_range.mp hj)
  rw [digest, hfirst, hsecond, hthird, hfourth, hrange, List.foldl_append, List.foldl_append,
    List.foldl_append, List.foldl_map, List.foldl_map, List.foldl_map]

/-! ## Words and bytes -/

section Words

variable {front word rest : List Byte} {i : Nat}

theorem shift_or {x : Word} (hx : x.toNat < 2 ^ 24) (b : Byte) :
    (x <<< 8 ||| b.setWidth 32).toNat = b.toNat + 256 * x.toNat := by
  have hb := b.isLt
  have hshift : x.toNat <<< 8 % 2 ^ 32 = x.toNat <<< 8 := by
    rw [Nat.shiftLeft_eq]
    omega
  have hwidth : (b.setWidth 32).toNat = b.toNat := by
    rw [BitVec.toNat_setWidth]
    omega
  rw [BitVec.toNat_or, BitVec.toNat_shiftLeft, hshift, hwidth, ← Nat.shiftLeft_add_eq_or_of_lt hb,
    Nat.shiftLeft_eq]
  omega

theorem packed_word (b₀ b₁ b₂ b₃ : Byte) :
    ((b₃.setWidth 32 <<< 8 ||| b₂.setWidth 32) <<< 8 ||| b₁.setWidth 32) <<< 8 ||| b₀.setWidth 32 =
      BitVec.ofNat 32 (leNat [b₀, b₁, b₂, b₃]) := by
  have h₀ := b₀.isLt
  have h₁ := b₁.isLt
  have h₂ := b₂.isLt
  have h₃ := b₃.isLt
  have hwidth : (b₃.setWidth 32).toNat = b₃.toNat := by
    rw [BitVec.toNat_setWidth]
    omega
  have hfirst := shift_or (x := b₃.setWidth 32) (by omega) b₂
  have hsecond := shift_or (x := b₃.setWidth 32 <<< 8 ||| b₂.setWidth 32) (by omega) b₁
  apply BitVec.eq_of_toNat_eq
  rw [shift_or (by omega), hsecond, hfirst, hwidth, BitVec.toNat_ofNat]
  simp only [leNat]
  omega

theorem wordsOf_front (h : 4 * i + 4 ≤ front.length) : wordsOf (front ++ rest) i = wordsOf front i := by
  have hbytes : ∀ k ∈ List.range 4, (front ++ rest).getD (4 * i + k) 0#8 = front.getD (4 * i + k) 0#8 := by
    intro k hk
    have hlt := List.mem_range.mp hk
    exact List.getD_append _ _ _ _ (by omega)
  rw [wordsOf, wordsOf, List.map_congr_left hbytes]

theorem wordsOf_at (hfront : front.length = 4 * i) (hword : word.length = 4) :
    wordsOf (front ++ word ++ rest) i = BitVec.ofNat 32 (leNat word) := by
  have hbytes : (List.range 4).map (fun k => (front ++ word ++ rest).getD (4 * i + k) 0#8) = word := by
    apply List.ext_getElem (by simp [hword])
    intro k hk hk'
    rw [List.getElem_map, List.getElem_range, List.append_assoc, List.getD_append_right _ _ _ _ (by omega),
      hfront, Nat.add_sub_cancel_left, List.getD_append _ _ _ _ hk', List.getD_eq_getElem _ _ hk']
  rw [wordsOf, hbytes]

theorem wordsOf_beyond (h : front.length ≤ 4 * i) : wordsOf front i = 0#32 := by
  have hbytes : ∀ k ∈ List.range 4, front.getD (4 * i + k) 0#8 = 0#8 :=
    fun k _ => List.getD_eq_default _ _ (by omega)
  rw [wordsOf, List.map_congr_left hbytes]
  rfl

theorem bytestoword32_eq (pt : List Byte) : bytestoword32 pt = wordsOf (pt.take 64) := by
  funext i
  by_cases hi : i < 16
  · have hbytes : ∀ k ∈ List.range 4, (pt.take 64).getD (4 * i + k) 0#8 = pt.getD (4 * i + k) 0#8 := by
      intro k hk
      have hlt := List.mem_range.mp hk
      rw [List.getD_eq_getElem?_getD, List.getD_eq_getElem?_getD, List.getElem?_take_of_lt (by omega)]
    rw [bytestoword32, if_pos hi, packed_word, wordsOf, List.map_congr_left hbytes]
    rfl
  · rw [bytestoword32, if_neg hi, wordsOf_beyond]
    rw [List.length_take]
    omega

/-- The last two words of the last block hold the length in bits. -/
theorem putLength_eq {spare : List Byte} (hfront : front.length = 56) (hspare : spare.length = 8)
    (len : Nat) :
    putLength (wordsOf (front ++ spare)) len = wordsOf (front ++ leBytes 8 (8 * (len % 2 ^ 32))) := by
  generalize hbits : 8 * (len % 2 ^ 32) = bits
  have hlow : BitVec.ofNat 32 (len <<< 3 &&& 0xFFFFFFFF) = BitVec.ofNat 32 (leNat (leBytes 4 bits)) := by
    apply BitVec.eq_of_toNat_eq
    rw [BitVec.toNat_ofNat, BitVec.toNat_ofNat, PaddedBlocks.leNat_leBytes, Nat.shiftLeft_eq,
      Nat.and_two_pow_sub_one_eq_mod _ 32]
    omega
  have hhigh : BitVec.ofNat 32 (len >>> 29 &&& 0x7) =
      BitVec.ofNat 32 (leNat (leBytes 4 (bits / 256 ^ 4))) := by
    apply BitVec.eq_of_toNat_eq
    rw [BitVec.toNat_ofNat, BitVec.toNat_ofNat, PaddedBlocks.leNat_leBytes, Nat.shiftRight_eq_div_pow,
      Nat.and_two_pow_sub_one_eq_mod _ 3]
    omega
  rw [PaddedBlocks.leBytes_add 4 4, ← List.append_assoc, putLength, hlow, hhigh]
  funext i
  have hsplit : i < 14 ∨ i = 14 ∨ i = 15 ∨ 16 ≤ i := by omega
  rcases hsplit with hlt | rfl | rfl | hle
  · rw [Function.update_of_ne (by omega), Function.update_of_ne (by omega), wordsOf_front (by omega),
      List.append_assoc, wordsOf_front (by omega)]
  · rw [Function.update_of_ne (by decide), Function.update_self,
      wordsOf_at hfront (PaddedBlocks.leBytes_length _ _)]
  · have hword := @wordsOf_at (front ++ leBytes 4 bits) (leBytes 4 (bits / 256 ^ 4)) [] 15
      (by simp [hfront]) (PaddedBlocks.leBytes_length _ _)
    rw [Function.update_self, ← hword, List.append_nil]
  · rw [Function.update_of_ne (by omega), Function.update_of_ne (by omega), wordsOf_beyond,
      wordsOf_beyond]
    · simp only [List.length_append, PaddedBlocks.leBytes_length]
      omega
    · simp only [List.length_append]
      omega

end Words

theorem word32tobytes_eq (d : Digest) :
    word32tobytes d = [d.d0, d.d1, d.d2, d.d3].flatMap fun v => leBytes 4 v.toNat := by
  have hword : ∀ v : Word, [v &&& 0xff#32, v >>> 8 &&& 0xff#32, v >>> 16 &&& 0xff#32,
      v >>> 24 &&& 0xff#32].map (·.setWidth 8) = leBytes 4 v.toNat := by
    intro v
    have hbyte : ∀ k, (v >>> k &&& 0xff#32).setWidth 8 = BitVec.ofNat 8 (v.toNat / 2 ^ k) := by
      intro k
      apply BitVec.eq_of_toNat_eq
      rw [BitVec.toNat_setWidth, BitVec.toNat_and, BitVec.toNat_ushiftRight, BitVec.toNat_ofNat,
        Nat.shiftRight_eq_div_pow, BitVec.toNat_ofNat]
      change (v.toNat / 2 ^ k &&& 2 ^ 8 - 1) % 2 ^ 8 = _
      rw [Nat.and_two_pow_sub_one_eq_mod, Nat.mod_mod]
    have hzero := hbyte 0
    rw [BitVec.ushiftRight_zero, Nat.pow_zero, Nat.div_one] at hzero
    simp only [List.map_cons, List.map_nil, hbyte, hzero, leBytes, Nat.div_div_eq_div_mul]
    rfl
  simp only [word32tobytes, hword]

/-! ## The loop -/

section Loop

variable {message pt : List Byte} {i : Nat}

/-- What `converte` makes of the end of a message. -/
theorem converte_end {num : Nat} (hpt : pt.length = num) (hnum : num < 64) :
    converte pt num 0 = (wordsOf (pt ++ 0x80#8 :: List.replicate (64 - (num + 1)) 0#8),
      if num ≤ 55 then 2 else 1) := by
  have hbuff : (pt.take num ++ List.replicate (64 - num) 0#8).set num 0x80#8 =
      pt ++ 0x80#8 :: List.replicate (64 - (num + 1)) 0#8 := by
    have hspare : 64 - num = (64 - (num + 1)) + 1 := by omega
    subst hpt
    rw [List.take_length, hspare, List.replicate_succ, List.set_append_right _ _ (Nat.le_refl _),
      Nat.sub_self, List.set_cons_zero]
  have hlength : (pt ++ 0x80#8 :: List.replicate (64 - (num + 1)) 0#8).length = 64 := by
    rw [List.length_append, List.length_cons, List.length_replicate]
    omega
  simp only [converte, hnum, if_true, hbuff]
  rw [bytestoword32_eq, List.take_of_length_le (Nat.le_of_eq hlength)]

/-- The block behind a message that has filled its last one. -/
theorem converte_spare (pt : List Byte) :
    converte pt 0 1 = (wordsOf (List.replicate 64 0#8), 2) := by
  simp only [converte]
  rw [bytestoword32_eq]
  rfl

theorem converte_full (pt : List Byte) : converte pt 64 0 = (wordsOf (pt.take 64), 0) := by
  simp [converte, bytestoword32_eq]

theorem compress_eq (block : List Byte) (d : Digest) :
    compress block d = (digest (wordsOf block) d).add d := by
  rw [compress, digest_eq]

/-- One round of the loop. -/
theorem md5Loop_step {num status status' : Nat} {words : Nat → Word} (fuel : Nat) (d : Digest)
    (hstatus : status ≠ 2) (hnum : num = if message.length - i ≥ 64 then 64 else message.length - i)
    (hconverte : converte (message.drop i) num status = (words, status')) :
    md5Loop message (fuel + 1) i status d = md5Loop message fuel (i + num) status'
      ((digest (if status' = 2 then putLength words message.length else words) d).add d) := by
  rw [md5Loop, if_neg hstatus, ← hnum]
  simp only [hconverte]

theorem md5Loop_done (fuel i : Nat) (d : Digest) : md5Loop message (fuel + 1) i 2 d = some d :=
  if_pos rfl

/-- A round that has room for the length is the last one. -/
theorem md5Loop_last {num status : Nat} {front spare : List Byte} (fuel : Nat) (d : Digest)
    (hstatus : status ≠ 2) (hnum : num = if message.length - i ≥ 64 then 64 else message.length - i)
    (hconverte : converte (message.drop i) num status = (wordsOf (front ++ spare), 2))
    (hfront : front.length = 56) (hspare : spare.length = 8) :
    md5Loop message (fuel + 2) i status d =
      some (compress (front ++ leBytes 8 (8 * (message.length % 2 ^ 32))) d) := by
  rw [md5Loop_step _ _ hstatus hnum hconverte, if_pos rfl, putLength_eq hfront hspare, md5Loop_done,
    compress_eq]

/-- From the start of a block on, the loop absorbs what is left of the padded message. -/
theorem md5Loop_eq (message : List Byte) {fuel : Nat} (d : Digest) (hi : i ≤ message.length)
    (hfuel : (message.length - i) / 64 + 3 ≤ fuel) :
    md5Loop message fuel i 0 d = some (absorbAll 64 compress
      (pad 64 0x80#8 0#8 (leBytes 8 (8 * (message.length % 2 ^ 32))) (message.drop i)) d) := by
  have hfield : (leBytes 8 (8 * (message.length % 2 ^ 32))).length = 8 := PaddedBlocks.leBytes_length _ _
  induction fuel generalizing i d with
  | zero => omega
  | succ fuel ih =>
    have hrest : (message.drop i).length = message.length - i := List.length_drop
    by_cases hfull : 64 ≤ message.length - i
    · have hsplit : message.drop i = (message.drop i).take 64 ++ message.drop (i + 64) := by
        rw [← List.drop_drop, List.take_append_drop]
      have hblock : ((message.drop i).take 64).length = 64 := by
        rw [List.length_take, hrest]
        omega
      rw [md5Loop_step fuel d (by decide) (if_pos hfull).symm (converte_full _), if_neg (by decide),
        ← compress_eq, ih _ (by omega) (by omega)]
      conv_rhs => rw [hsplit, PaddedBlocks.pad_append hblock,
        PaddedBlocks.absorbAll_append (by decide) hblock]
    · obtain ⟨k, rfl⟩ : ∃ k, fuel = k + 2 := ⟨fuel - 2, by omega⟩
      have hlt : message.length - i < 64 := by omega
      have hend := converte_end hrest hlt
      by_cases hroom : message.length - i ≤ 55
      · have hspare : 64 - (message.length - i + 1) = 55 - (message.length - i) + 8 := by omega
        have hzeros : 64 - ((message.drop i).length + 1 + 8) = 55 - (message.length - i) := by omega
        rw [if_pos hroom, hspare, List.replicate_add, ← List.cons_append, ← List.append_assoc] at hend
        have hfront : (message.drop i ++ 0x80#8 :: List.replicate (55 - (message.length - i)) 0#8).length =
            56 := by
          rw [List.length_append, List.length_cons, List.length_replicate, hrest]
          omega
        rw [md5Loop_last (k + 1) d (by decide) (if_neg hfull).symm hend hfront List.length_replicate,
          PaddedBlocks.pad_one (by omega), hfield, hzeros, PaddedBlocks.absorbAll_block (by decide)]
        rw [List.length_append, hfront, hfield]
      · rw [if_neg hroom] at hend
        have hblock : (message.drop i ++
            0x80#8 :: List.replicate (64 - (message.length - i + 1)) 0#8).length = 64 := by
          rw [List.length_append, List.length_cons, List.length_replicate, hrest]
          omega
        have hover : 0 = if message.length - (i + (message.length - i)) ≥ 64 then 64
            else message.length - (i + (message.length - i)) := by
          have hzero : message.length - (i + (message.length - i)) = 0 := by omega
          rw [hzero]
          rfl
        have hspare := converte_spare (message.drop (i + (message.length - i)))
        rw [List.replicate_add 56 8] at hspare
        rw [md5Loop_step (k + 2) d (by decide) (if_neg hfull).symm hend, if_neg (by decide),
          ← compress_eq, md5Loop_last k _ (by decide) hover hspare List.length_replicate
          List.length_replicate, PaddedBlocks.pad_two (by omega) (by omega) (by omega), hrest, hfield,
          PaddedBlocks.absorbAll_append (by decide) hblock, PaddedBlocks.absorbAll_block (by decide)]
        rw [List.length_append, List.length_replicate, hfield]

end Loop

/-- The code computes the hash of every message, with its length taken modulo 2^32 bytes. -/
theorem md5_eq (message : List Byte) :
    64 ∣ (pad 64 0x80#8 0#8 (leBytes 8 (8 * (message.length % 2 ^ 32))) message).length ∧
      md5 message = some (md5Hash (8 * (message.length % 2 ^ 32)) message) := by
  constructor
  · exact PaddedBlocks.pad_dvd (by decide) _ _ _ _
  · have hloop := md5Loop_eq message startDigest (Nat.zero_le _) (Nat.le_refl _)
    rw [Nat.sub_zero] at hloop
    rw [md5, inicDigest_eq, hloop, Option.map_some, word32tobytes_eq, md5Hash]
    rfl

/-- The gateway knows clients by the sum that they compute. -/
theorem client_sum : sumhexa (asciiBytes "client_md5") = some gatewayMd5.client := by decide +kernel

/-- What the console client sends first is a greeting, on every descriptor. -/
theorem clientGreeting_greets (fd : Int) : ∃ f : Framing.Frame beNat,
    clientGreeting fd = some f.bytes ∧ Greets gatewayMd5.client f := by
  refine ⟨packageFrame fd 100 gatewayMd5.client (by decide), ?_, ⟨_, _, rfl⟩⟩
  rw [clientGreeting, client_sum]
  rfl

end NetgameFormal.Md5
