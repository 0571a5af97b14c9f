import NetgameFormal.Md5

/-!
# md5lib.c: encryption with the hash in cipher feedback

Every block of the message is masked with the hash of the seed and the key, and
the masked block is the next seed. The text starts with the length of the seed
and the seed, so that the key is enough to read it.
-/

set_option autoImplicit false

namespace NetgameFormal.Md5

def MAXKEY : Nat := 256

def BLOCKSIZE : Nat := 16

inductive CryptError where
  | keyTooLong
  | seedTooLong
  | invalidCyphered
  deriving DecidableEq

def CryptError.message : CryptError → String
  | .keyTooLong => "key too long (> 256)"
  | .seedTooLong => "seed too long (> 16)"
  | .invalidCyphered => "invalid cyphered string"

/-- The bytes of `code` up to the length of `msg`, with `code[i] ^= *msg++`. -/
def mask (code msg : List Byte) : List Byte := List.zipWith (· ^^^ ·) code msg

/-- The block of the seed, filled up with zeros, and the key. -/
def initblock (seed key : List Byte) : Except CryptError (List Byte) :=
  if key.length > MAXKEY then .error .keyTooLong
  else .ok (seed ++ List.replicate (BLOCKSIZE - seed.length) 0#8 ++ key)

/-- The loop of `codestream`; none when it does not end. -/
def codestream : Nat → List Byte → List Byte → Option (List Byte)
  | 0, msg, _ => if msg = [] then some [] else none
  | fuel + 1, msg, block =>
    if msg = [] then some []
    else do
      let code ← md5 block
      let code := mask code msg
      let rest ← codestream fuel (msg.drop BLOCKSIZE) (code ++ block.drop code.length)
      some (code ++ rest)

def decodestream : Nat → List Byte → List Byte → Option (List Byte)
  | 0, cypher, _ => if cypher = [] then some [] else none
  | fuel + 1, cypher, block =>
    if cypher = [] then some []
    else do
      let code ← md5 block
      let code := mask code cypher
      let rest ← decodestream fuel (cypher.drop BLOCKSIZE)
        (cypher.take code.length ++ block.drop code.length)
      some (code ++ rest)

/-- `md5.crypt`. Without a seed the script's call takes the time for it. -/
def crypt (msg key seed : List Byte) : Except CryptError (Option (List Byte)) :=
  if seed.length > BLOCKSIZE then .error .seedTooLong
  else do
    let block ← initblock seed key
    .ok ((codestream msg.length msg block).map fun cypher =>
      BitVec.ofNat 8 seed.length :: seed ++ cypher)

/-- `size_t lseed = cyphertext[0]`, where a string ends with a zero byte and characters are signed. -/
def seedLength (cyphertext : List Byte) : Nat :=
  ((cyphertext.getD 0 0#8).signExtend 64).toNat

/-- `md5.decrypt` -/
def decrypt (cyphertext key : List Byte) : Except CryptError (Option (List Byte)) :=
  let lseed := seedLength cyphertext
  if cyphertext.length ≥ (lseed + 1) % 2 ^ 64 ∧ lseed ≤ BLOCKSIZE then do
    let seed := (cyphertext.drop 1).take lseed
    let cypher := cyphertext.drop (lseed + 1)
    let block ← initblock seed key
    .ok (decodestream cypher.length cypher block)
  else .error .invalidCyphered

/-! ## The two streams -/

section Streams

variable {code msg cypher block : List Byte}

theorem md5_some (message : List Byte) : ∃ code, md5 message = some code ∧ code.length = BLOCKSIZE := by
  refine ⟨_, (md5_eq message).2, ?_⟩
  simp only [md5Hash, List.length_flatMap, List.map_cons, List.map_nil, PaddedBlocks.leBytes_length]
  rfl

@[simp] theorem mask_length (code msg : List Byte) :
    (mask code msg).length = min code.length msg.length := List.length_zipWith

theorem mask_mask (code msg : List Byte) : mask code (mask code msg) = msg.take code.length := by
  apply List.ext_getElem
  · simp
  · intro i hi hi'
    simp only [mask, List.getElem_zipWith, List.getElem_take]
    rw [← BitVec.xor_assoc, BitVec.xor_self, BitVec.zero_xor]

theorem mask_append {rest : List Byte} (h : code.length ≤ msg.length ∨ rest = []) :
    mask code (msg ++ rest) = mask code msg := by
  rcases h with hle | rfl
  · apply List.ext_getElem
    · simp
      omega
    · intro i hi hi'
      simp only [mask_length] at hi'
      simp only [mask, List.getElem_zipWith, List.getElem_append_left (show i < msg.length by omega)]
  · rw [List.append_nil]

theorem codestream_cons {fuel : Nat} {code rest : List Byte} (hmsg : msg ≠ [])
    (hcode : md5 block = some code)
    (hrest : codestream fuel (msg.drop BLOCKSIZE)
      (mask code msg ++ block.drop (mask code msg).length) = some rest) :
    codestream (fuel + 1) msg block = some (mask code msg ++ rest) := by
  simp only [codestream, hmsg, if_false, hcode, Option.bind_eq_bind, Option.bind_some, hrest]

theorem decodestream_cons {fuel : Nat} {code rest : List Byte} (hcypher : cypher ≠ [])
    (hcode : md5 block = some code)
    (hrest : decodestream fuel (cypher.drop BLOCKSIZE)
      (cypher.take (mask code cypher).length ++ block.drop (mask code cypher).length) = some rest) :
    decodestream (fuel + 1) cypher block = some (mask code cypher ++ rest) := by
  simp only [decodestream, hcypher, if_false, hcode, Option.bind_eq_bind, Option.bind_some, hrest]

theorem mask_exchange {text rest : List Byte} (hcode : code.length = BLOCKSIZE)
    (hrest : rest.length = text.length - BLOCKSIZE) :
    mask code (mask code text ++ rest) = text.take BLOCKSIZE ∧
      (mask code text ++ rest).drop BLOCKSIZE = rest ∧
      (mask code text ++ rest).take (text.take BLOCKSIZE).length = mask code text ∧
      (mask code text ++ rest).length = text.length := by
  have hhead : (mask code text).length = min BLOCKSIZE text.length := by rw [mask_length, hcode]
  have hcut : BLOCKSIZE ≤ text.length ∨ rest = [] := by
    rw [← List.length_eq_zero_iff]
    omega
  have hwhole : code.length ≤ (mask code text).length ∨ rest = [] := by
    rcases hcut with hle | hnil
    · left
      omega
    · exact .inr hnil
  refine ⟨?_, ?_, ?_, ?_⟩
  · rw [mask_append hwhole, mask_mask, hcode]
  · rcases hcut with hle | rfl
    · have hlength : (mask code text).length = BLOCKSIZE := by omega
      rw [← hlength, List.drop_left]
    · rw [List.append_nil, List.drop_eq_nil_iff, hhead]
      omega
  · rw [List.length_take, ← hhead, List.take_left]
  · rw [List.length_append, hhead]
    omega

theorem decodestream_codestream {fuel : Nat} (hfuel : msg.length ≤ fuel) :
    ∃ cypher, codestream fuel msg block = some cypher ∧ cypher.length = msg.length ∧
      decodestream fuel cypher block = some msg := by
  induction fuel generalizing msg block with
  | zero =>
    obtain rfl := List.length_eq_zero_iff.mp (Nat.le_zero.mp hfuel)
    exact ⟨[], rfl, rfl, rfl⟩
  | succ fuel ih =>
    by_cases hmsg : msg = []
    · subst hmsg
      exact ⟨[], rfl, rfl, rfl⟩
    · obtain ⟨code, hsum, hcode⟩ := md5_some block
      have hpos := List.length_pos_iff.mpr hmsg
      have hblock : 0 < BLOCKSIZE := by decide
      obtain ⟨rest, hrest, hlength, hback⟩ := @ih (msg.drop BLOCKSIZE)
        (mask code msg ++ block.drop (mask code msg).length) (by rw [List.length_drop]; omega)
      rw [List.length_drop] at hlength
      obtain ⟨hmask, hdrop, htake, hall⟩ := mask_exchange hcode hlength
      have hsome : mask code msg ++ rest ≠ [] := by
        rw [← List.length_pos_iff, hall]
        exact hpos
      have hsize : (msg.take BLOCKSIZE).length = (mask code msg).length := by
        rw [List.length_take, mask_length, hcode]
      refine ⟨_, codestream_cons hmsg hsum hrest, hall, ?_⟩
      have hagain := @decodestream_cons (mask code msg ++ rest) block fuel code (msg.drop BLOCKSIZE)
        hsome hsum (by rw [hmask, htake, hdrop, hsize]; exact hback)
      rw [hagain, hmask, List.take_append_drop]

theorem codestream_decodestream {fuel : Nat} (hfuel : cypher.length ≤ fuel) :
    ∃ msg, decodestream fuel cypher block = some msg ∧ msg.length = cypher.length ∧
      codestream fuel msg block = some cypher := by
  induction fuel generalizing cypher block with
  | zero =>
    obtain rfl := List.length_eq_zero_iff.mp (Nat.le_zero.mp hfuel)
    exact ⟨[], rfl, rfl, rfl⟩
  | succ fuel ih =>
    by_cases hcypher : cypher = []
    · subst hcypher
      exact ⟨[], rfl, rfl, rfl⟩
    · obtain ⟨code, hsum, hcode⟩ := md5_some block
      have hpos := List.length_pos_iff.mpr hcypher
      have hblock : 0 < BLOCKSIZE := by decide
      obtain ⟨rest, hrest, hlength, hback⟩ := @ih (cypher.drop BLOCKSIZE)
        (cypher.take (mask code cypher).length ++ block.drop (mask code cypher).length)
        (by rw [List.length_drop]; omega)
      rw [List.length_drop] at hlength
      obtain ⟨hmask, hdrop, -, hall⟩ := mask_exchange hcode hlength
      have hsome : mask code cypher ++ rest ≠ [] := by
        rw [← List.length_pos_iff, hall]
        exact hpos
      have hsize : (mask code cypher).length = (cypher.take BLOCKSIZE).length := by
        rw [List.length_take, mask_length, hcode]
      have hhead : cypher.take (mask code cypher).length = cypher.take BLOCKSIZE := by
        rw [hsize, List.length_take, List.take_eq_take_iff]
        omega
      refine ⟨_, decodestream_cons hcypher hsum hrest, hall, ?_⟩
      have hagain := @codestream_cons (mask code cypher ++ rest) block fuel code
        (cypher.drop BLOCKSIZE) hsome hsum (by rw [hmask, hdrop, ← hsize, ← hhead]; exact hback)
      rw [hagain, hmask, List.take_append_drop]

end Streams

/-! ## The texts -/

section Texts

variable {msg key seed cyphertext : List Byte}

theorem initblock_ok (hkey : key.length ≤ MAXKEY) :
    initblock seed key = .ok (seed ++ List.replicate (BLOCKSIZE - seed.length) 0#8 ++ key) :=
  if_neg (Nat.not_lt.mpr hkey)

/-- A text of `crypt`: the length of the seed, the seed, and the stream. -/
theorem crypt_eq_iff {c : List Byte} : crypt msg key seed = .ok (some c) ↔
    seed.length ≤ BLOCKSIZE ∧ key.length ≤ MAXKEY ∧ ∃ cypher,
      codestream msg.length msg (seed ++ List.replicate (BLOCKSIZE - seed.length) 0#8 ++ key) =
        some cypher ∧ c = BitVec.ofNat 8 seed.length :: seed ++ cypher := by
  unfold crypt
  by_cases hseed : seed.length ≤ BLOCKSIZE
  · rw [if_neg (Nat.not_lt.mpr hseed)]
    by_cases hkey : key.length ≤ MAXKEY
    · simp [initblock_ok hkey, bind, Except.bind, hseed, hkey, eq_comm]
    · have hlong : key.length > MAXKEY := Nat.lt_of_not_le hkey
      simp [initblock, hlong, bind, Except.bind, hkey]
  · rw [if_pos (Nat.lt_of_not_le hseed)]
    simp [hseed]

theorem seedLength_cons {n : Nat} (hn : n ≤ BLOCKSIZE) (text : List Byte) :
    seedLength (BitVec.ofNat 8 n :: text) = n := by
  have hall : ∀ n ≤ 16, ((BitVec.ofNat 8 n).signExtend 64).toNat = n := by decide
  exact hall n hn

theorem seedLength_byte {b : Byte} {text : List Byte} (h : seedLength (b :: text) ≤ BLOCKSIZE) :
    b = BitVec.ofNat 8 (seedLength (b :: text)) := by
  have hall : ∀ b : Byte, (b.signExtend 64).toNat ≤ 16 →
      b = BitVec.ofNat 8 (b.signExtend 64).toNat := by decide +kernel
  exact hall b h

/-- A text that passes the check is made of the length of a seed, the seed, and the stream. -/
theorem decrypt_eq_iff : decrypt cyphertext key = .ok (some msg) ↔
    key.length ≤ MAXKEY ∧ ∃ seed cypher, seed.length ≤ BLOCKSIZE ∧
      cyphertext = BitVec.ofNat 8 seed.length :: seed ++ cypher ∧
      decodestream cypher.length cypher
        (seed ++ List.replicate (BLOCKSIZE - seed.length) 0#8 ++ key) = some msg := by
  constructor
  · intro h
    unfold decrypt at h
    simp only at h
    split at h
    · next hcheck =>
      obtain ⟨hlong, hseed⟩ := hcheck
      have hwrap : (seedLength cyphertext + 1) % 2 ^ 64 = seedLength cyphertext + 1 := by
        apply Nat.mod_eq_of_lt
        have hbound : BLOCKSIZE = 16 := rfl
        omega
      rw [hwrap] at hlong
      cases cyphertext with
      | nil => simp at hlong
      | cons b text =>
        have hbyte := seedLength_byte hseed
        generalize seedLength (b :: text) = lseed at h hlong hseed hbyte
        rw [List.length_cons] at hlong
        have hlength : (text.take lseed).length = lseed := by
          rw [List.length_take]
          omega
        by_cases hkey : key.length ≤ MAXKEY
        · rw [initblock_ok hkey] at h
          refine ⟨hkey, text.take lseed, text.drop lseed, by rw [hlength]; exact hseed, ?_, Except.ok.inj h⟩
          rw [hlength, List.cons_append, List.take_append_drop, ← hbyte]
        · have hover : key.length > MAXKEY := Nat.lt_of_not_le hkey
          simp [initblock, hover, bind, Except.bind] at h
    · cases h
  · intro h
    obtain ⟨hkey, seed, cypher, hseed, rfl, hstream⟩ := h
    have hlength := seedLength_cons hseed (seed ++ cypher)
    have hwrap : (seed.length + 1) % 2 ^ 64 = seed.length + 1 := by
      apply Nat.mod_eq_of_lt
      have hbound : BLOCKSIZE = 16 := rfl
      omega
    have hlong : (BitVec.ofNat 8 seed.length :: seed ++ cypher).length ≥ seed.length + 1 := by
      simp only [List.cons_append, List.length_cons, List.length_append]
      omega
    unfold decrypt
    simp only [List.cons_append, hlength, hwrap]
    rw [if_pos ⟨hlong, hseed⟩, List.drop_succ_cons, List.drop_zero, List.drop_succ_cons,
      List.take_left, List.drop_left, initblock_ok hkey]
    exact congrArg Except.ok hstream

/-- `decrypt` reads a text back exactly when `crypt` makes it with this key, for some seed; and
`crypt` makes one exactly when neither the seed nor the key is too long. -/
theorem decrypt_iff_crypt (cyphertext key msg : List Byte) :
    (decrypt cyphertext key = .ok (some msg) ↔
        ∃ seed, crypt msg key seed = .ok (some cyphertext)) ∧
      ∀ seed, (∃ c, crypt msg key seed = .ok (some c)) ↔
        seed.length ≤ BLOCKSIZE ∧ key.length ≤ MAXKEY := by
  constructor
  · rw [decrypt_eq_iff]
    constructor
    · intro h
      obtain ⟨hkey, seed, cypher, hseed, rfl, hstream⟩ := h
      obtain ⟨msg', hmsg, hlength, hcode⟩ := @codestream_decodestream cypher
        (seed ++ List.replicate (BLOCKSIZE - seed.length) 0#8 ++ key) _ (Nat.le_refl _)
      rw [hstream] at hmsg
      obtain rfl := Option.some.inj hmsg
      rw [← hlength] at hcode
      exact ⟨seed, crypt_eq_iff.mpr ⟨hseed, hkey, cypher, hcode, rfl⟩⟩
    · intro h
      obtain ⟨seed, hcrypt⟩ := h
      obtain ⟨hseed, hkey, cypher, hcode, rfl⟩ := crypt_eq_iff.mp hcrypt
      obtain ⟨cypher', hcode', hlength, hstream⟩ := @decodestream_codestream msg
        (seed ++ List.replicate (BLOCKSIZE - seed.length) 0#8 ++ key) _ (Nat.le_refl _)
      rw [hcode] at hcode'
      obtain rfl := Option.some.inj hcode'
      rw [← hlength] at hstream
      exact ⟨hkey, seed, cypher, hseed, rfl, hstream⟩
  · intro seed
    constructor
    · intro h
      obtain ⟨c, hcrypt⟩ := h
      obtain ⟨hseed, hkey, -⟩ := crypt_eq_iff.mp hcrypt
      exact ⟨hseed, hkey⟩
    · intro h
      obtain ⟨cypher, hcode, -⟩ := @decodestream_codestream msg
        (seed ++ List.replicate (BLOCKSIZE - seed.length) 0#8 ++ key) _ (Nat.le_refl _)
      exact ⟨_, crypt_eq_iff.mpr ⟨h.1, h.2, cypher, hcode, rfl⟩⟩

end Texts

end NetgameFormal.Md5
