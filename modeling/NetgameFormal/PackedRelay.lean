import NetgameFormal.EndToEnd
import NetgameFormal.LprotoRoundTrip

/-!
# Messages from client to server

What the server's script unpacks from the frames of one client is what the
client has packed, with its defaults, in order and with the client's id. Where
the gateway writes that id, the script's `fd` stood; the message does not cover it.
-/

set_option autoImplicit false

namespace NetgameFormal

open Framing (Frame stream delivered)

/-- `write_2byte` puts the high byte first, as the gateway and the scripts read it. -/
structure LprotoC.BigEndian (c : LprotoC) : Prop where
  hi : ∀ mem n off, (c.write2byte mem n off).1 off = hiByte n
  lo : ∀ mem n off, (c.write2byte mem n off).1 (off + 1) = loByte n

/-- The frame `f` is a package of the scripts, for protocol `protId` and with this content. -/
inductive Packed (lp : LprotoC) (holds : Scalar → Prop) (protDict : Int → Option (Table Field)) :
    Frame beNat → Int × UnpackedTable → Prop where
  | mk {fields : Table Field} {heap : Heap} {mem : Memory} {fd protId : Int} {p sz : Nat}
      {f : Frame beNat} (hprot : protDict protId = some fields) (hu : Unreserved fields)
      (hfd : 0 ≤ fd ∧ fd < 65536) (hid : 0 ≤ protId ∧ protId < 65536)
      (hconf : Conforms fields heap p)
      (hholds : ∀ v ∈ bodyValues heap (initTable fields) p, holds v)
      (hpack : pack lp (initprot protDict) heap mem fd protId p = .ok (sz, f.bytes))
      (hroom : sz < BUFFER_MAX_LEN) :
      Packed lp holds protDict f (protId, unpackedTable heap fields p)

variable {lp : LprotoC} {holds : Scalar → Prop} {protDict : Int → Option (Table Field)}
variable {f : Frame beNat} {value : Int × UnpackedTable}

theorem hiByte_mod (d : Int) : hiByte (d % 65536) = hiByte d := by
  apply BitVec.eq_of_toNat_eq
  rw [hiByte_toNat_int, hiByte_toNat_int]
  omega

theorem loByte_mod (d : Int) : loByte (d % 65536) = loByte d := by
  apply BitVec.eq_of_toNat_eq
  rw [loByte_toNat_int, loByte_toNat_int]
  omega

theorem pack_bytes (hc : lp.Lossless holds) {fields : Table Field} {heap : Heap} {mem : Memory}
    {fd protId : Int} {p sz : Nat} {frame : List Byte} (hprot : protDict protId = some fields)
    (hu : Unreserved fields) (hconf : Conforms fields heap p)
    (hholds : ∀ v ∈ bodyValues heap (initTable fields) p, holds v)
    (hpack : pack lp (initprot protDict) heap mem fd protId p = .ok (sz, frame)) :
    ∃ st : PackState, st.sz = sz ∧ Wrote lp ⟨heap, packHeader lp mem fd protId, 6⟩ st
        (bodyValues heap (initTable fields) p) ∧
      frame = (List.range sz).map (lp.write2byte st.mem ((sz : Int) - 2) 0).1 := by
  have hbody : Packs lp ⟨heap, packHeader lp mem fd protId, 6⟩ _ _ _ :=
    packFields_packs hc hu hconf [] (initTable fields).keysort rfl rfl hholds
  rw [pack_eq hc (initprot_some hprot)] at hpack
  generalize packFields lp (initTable fields) p (initTable fields).keysort
    ⟨heap, packHeader lp mem fd protId, 6⟩ = res at hbody hpack
  cases hbody with
  | full hmem hlarge => cases hpack
  | @done st hwrote hfilled =>
    obtain ⟨rfl, rfl⟩ := Prod.mk.inj (Except.ok.inj hpack)
    exact ⟨st, rfl, hwrote, rfl⟩

/-- What a package holds, byte by byte: the protocol number at 4, and the body behind it. -/
theorem Wrote.package_bytes (hc : lp.Lossless holds) {heap : Heap} {mem : Memory} {fd protId : Int}
    {st : PackState} {vs : List Scalar} (h : Wrote lp ⟨heap, packHeader lp mem fd protId, 6⟩ st vs)
    (hroom : st.sz < BUFFER_MAX_LEN) :
    (∀ i, 4 ≤ i → i < 6 → (lp.write2byte st.mem ((st.sz : Int) - 2) 0).1 i =
        (lp.write2byte (lp.write2byte mem fd 2).1 protId 4).1 i) ∧
      ∀ i, 6 ≤ i → i < st.sz → (lp.write2byte st.mem ((st.sz : Int) - 2) 0).1 i = st.mem i := by
  have hframe : ∀ i, 2 ≤ i → (lp.write2byte st.mem ((st.sz : Int) - 2) 0).1 i = st.mem i :=
    fun i hi => hc.write2byte_frame _ _ _ i (.inr hi)
  constructor
  · intro i hle hlt
    rw [hframe i (by omega)]
    exact h.kept hroom i hlt
  · intro i hle _
    exact hframe i (by omega)

theorem stamped_eq (d : Int) (f : Frame beNat) :
    stamped d f.payload = writeBlock f.bytes d 2 := by
  rw [stamped, rebuiltFrame_payload]

theorem holding_stamped {b₀ b₁ b₂ b₃ : Byte} {rest : List Byte} (d : Int) (i : Nat) (hi : 4 ≤ i) :
    holding (writeBlock (b₀ :: b₁ :: b₂ :: b₃ :: rest) d 2) i =
      (b₀ :: b₁ :: b₂ :: b₃ :: rest).getD i 0#8 := by
  obtain ⟨j, rfl⟩ := Nat.exists_eq_add_of_le' hi
  rw [writeBlock_two, holding]
  rfl

/-- A relayed package unpacks to the message, under the id of the connection it came from. -/
theorem Packed.unpack_stamped (hc : lp.Lossless holds) (hbig : lp.BigEndian)
    (h : Packed lp holds protDict f value) (d : Int) :
    unpack lp (initprot protDict) (holding (stamped d f.payload)) (stamped d f.payload).length =
      .ok (d % 65536, value) := by
  obtain @⟨fields, heap, mem, fd, protId, p, sz, _, hprot, hu, hfd, hid, hconf, hholds, hpack, hroom⟩ := h
  obtain ⟨st, rfl, hwrote, hbytes⟩ := pack_bytes hc hprot hu hconf hholds hpack
  obtain ⟨hheader, hbody⟩ := hwrote.package_bytes hc hroom
  have hsz : 6 ≤ st.sz := hwrote.grows
  have hlength : f.bytes.length = st.sz := by rw [hbytes]; simp
  have hat : ∀ i, i < st.sz → f.bytes.getD i 0#8 =
      (lp.write2byte st.mem ((st.sz : Int) - 2) 0).1 i := by
    intro i hi
    rw [hbytes, List.getD_eq_getElem?_getD, List.getElem?_map, List.getElem?_range hi]
    rfl
  rw [stamped_eq, writeBlock_length, hlength]
  obtain ⟨b₀, b₁, tail, htail⟩ := exists_cons_two (Nat.le_trans (by decide) (hlength ▸ hsz))
  have htwo : 2 ≤ tail.length := by
    rw [htail, List.length_cons, List.length_cons] at hlength
    omega
  obtain ⟨b₂, b₃, rest, rfl⟩ := exists_cons_two htwo
  rw [htail] at hat ⊢
  have hbuf : ∀ i, 4 ≤ i → i < st.sz → holding (writeBlock (b₀ :: b₁ :: b₂ :: b₃ :: rest) d 2) i =
      (lp.write2byte st.mem ((st.sz : Int) - 2) 0).1 i := by
    intro i hle hlt
    rw [holding_stamped d i hle]
    exact hat i hlt
  apply unpack_eq hprot hu hconf hroom
  · apply hc.read2byte (fun _ => 0) (d % 65536) 2 _ (by omega) (by omega)
    intro i hle hlt
    have hi : i = 2 ∨ i = 3 := by omega
    rcases hi with rfl | rfl
    · rw [hbig.hi, hiByte_mod, writeBlock_two]
      rfl
    · rw [hbig.lo, loByte_mod, writeBlock_two]
      rfl
  · apply hc.read2byte (lp.write2byte mem fd 2).1 protId 4 _ hid.1 hid.2
    intro i hle hlt
    rw [hbuf i hle (by omega)]
    exact hheader i hle hlt
  · apply hwrote.reads hroom
    intro i hle hlt
    have hle' : 6 ≤ i := hle
    rw [hbuf i (by omega) hlt]
    exact hbody i hle' hlt

theorem Packed.ordinary_iff (hc : lp.Lossless holds) (hbig : lp.BigEndian)
    (h : Packed lp holds protDict f value) : Ordinary f ↔ value.1 ≠ 100 := by
  obtain @⟨fields, heap, mem, fd, protId, p, sz, _, hprot, hu, hfd, hid, hconf, hholds, hpack, hroom⟩ := h
  obtain ⟨st, rfl, hwrote, hbytes⟩ := pack_bytes hc hprot hu hconf hholds hpack
  obtain ⟨hheader, -⟩ := hwrote.package_bytes hc hroom
  have hsz : 6 ≤ st.sz := hwrote.grows
  have hat : ∀ i, 4 ≤ i → i < 6 →
      f.bytes.getD i 0#8 = (lp.write2byte (lp.write2byte mem fd 2).1 protId 4).1 i := by
    intro i hle hlt
    rw [hbytes, List.getD_eq_getElem?_getD, List.getElem?_map,
      List.getElem?_range (Nat.lt_of_lt_of_le hlt hsz)]
    exact hheader i hle hlt
  have hshake : isHandshake (rebuiltFrame f.payload) = true ↔ protId = 100 := by
    rw [rebuiltFrame_payload, isHandshake_iff, hat 4 (by decide) (by decide),
      hat 5 (by decide) (by decide), hbig.hi, hbig.lo]
    constructor
    · intro hbytes
      have hvalue := beNat_block protId
      rw [hbytes.1, hbytes.2] at hvalue
      have hhundred : beNat 0#8 100#8 = 100 := by decide
      omega
    · rintro rfl
      decide
  rw [Ordinary, ← Bool.not_eq_true, hshake]

section
variable {md5 : HandshakeMd5} {hello : Frame beNat} {fs : List (Frame beNat)}
variable {values : List (Int × UnpackedTable)}

theorem speaks_of_packed (hc : lp.Lossless holds) (hbig : lp.BigEndian)
    (hplain : 0#8 ∉ md5.client) (hgreets : Greets md5.client hello)
    (hpacked : List.Forall₂ (Packed lp holds protDict) fs values)
    (hids : ∀ v ∈ values, v.1 ≠ 100) (hlong : ∀ f ∈ hello :: fs, 6 ≤ f.payload.length) :
    Speaks md5.client hello fs := by
  refine ⟨hplain, hgreets, ?_, fun f hf => .inr (hlong f hf)⟩
  clear hlong
  induction hpacked with
  | nil => simp
  | @cons f v fs values hf _ ih =>
    intro f' hf'
    rcases List.mem_cons.mp hf' with rfl | hf'
    · exact (hf.ordinary_iff hc hbig).mpr (hids v List.mem_cons_self)
    · exact ih (fun v hv => hids v (List.mem_cons_of_mem _ hv)) f' hf'

theorem map_unpack_stamped (hc : lp.Lossless holds) (hbig : lp.BigEndian) (c : Int)
    (hpacked : List.Forall₂ (Packed lp holds protDict) fs values) :
    (fs.map fun f => stamped c f.payload).map (fun buf =>
        unpack lp (initprot protDict) (holding buf) buf.length) =
      values.map fun v => .ok (c % 65536, v) := by
  induction hpacked with
  | nil => rfl
  | cons hf _ ih => simp only [List.map_cons, hf.unpack_stamped hc hbig c, ih]

end

/-- What the server's script unpacks from the frames with the id of client `c` is an initial segment
of the messages that `c` has packed, and none of them is damaged. -/
theorem messages_heard (md5 : HandshakeMd5) (max : Capacity) (listenId : Int) (s c fd : Int)
    {hello : Frame beNat} {fs : List (Frame beNat)} {values : List (Int × UnpackedTable)} {g : Gate}
    {front mid : List (Record Gate GateInput Act)} {r : Record Gate GateInput Act}
    (hc : lp.Lossless holds) (hbig : lp.BigEndian)
    (h : Exec (dispatchSocketMessage md5) FreshAccept (gateInit max listenId) (front ++ r :: mid) g)
    (hlives : Lives c r mid) (hplain : 0#8 ∉ md5.client) (hgreets : Greets md5.client hello)
    (hpacked : List.Forall₂ (Packed lp holds protDict) fs values)
    (hids : ∀ v ∈ values, v.1 ≠ 100) (hlong : ∀ f ∈ hello :: fs, 6 ≤ f.payload.length)
    (hs : 0 < s) (hup : Uplink s c front r mid)
    (hstream : (chunksOf c mid).flatten <+: stream (hello :: fs))
    {ok : Socket → ClientInput → Prop} {tr : List (Record Socket ClientInput ClientAct)}
    {sock : Socket} (hfd : fd ≠ -1)
    (hsocket : Exec clientStep ok (socketConnect socketNew fd) tr sock)
    (hopen : ∀ q ∈ tr, ¬ Closes q.output)
    (hwire : received (tr.filterMap clientDelivery) <+:
      (streamTo s (outputsOf (front ++ r :: mid))).flatten) :
    ((calledBack (outputsOf tr)).filter (taggedWith c)).map (fun buf =>
        unpack lp (initprot protDict) (holding buf) buf.length) <+:
      values.map fun v => .ok (c % 65536, v) := by
  have hclient := speaks_of_packed hc hbig hplain hgreets hpacked hids hlong
  have hheard := heard_prefix h hlives hclient hs hup hstream hfd hsocket hopen hwire
  have hall : ∀ f ∈ fs, 6 ≤ f.payload.length := fun f hf => hlong f (List.mem_cons_of_mem _ hf)
  rw [Framing.delivered_eq_map hall, List.map_map] at hheard
  have hmap := hheard.map fun buf => unpack lp (initprot protDict) (holding buf) buf.length
  have hvalues := map_unpack_stamped hc hbig c hpacked
  exact hvalues ▸ hmap

theorem lprotoBytes_bigEndian : lprotoBytes.BigEndian where
  hi mem n off := by
    have hpoked := @poke_at mem off [hiByte n, loByte n] 0 (by simp)
    exact hpoked
  lo mem n off := by
    have hpoked := @poke_at mem off [hiByte n, loByte n] 1 (by simp)
    exact hpoked

def sevenMessage : Heap := fun t k =>
  if t = 0 ∧ k = luaString "n" then .scalar (.int 7) else .nil

theorem sevenMessage_packed :
    Packed lprotoBytes Representable (oneProt 1 pingFields) clientFrame
      (1, unpackedTable sevenMessage pingFields 0) := by
  have hfields : ∀ k r, pingFields.get k ≠ some (.record r) := by
    intro k r hfield
    have hmem := Table.mem_of_get hfield
    simp [pingFields] at hmem
  apply @Packed.mk _ _ _ pingFields _ (fun _ => 0) 0 _ _ 10 _ rfl
  · exact ⟨Option.not_isSome_iff_eq_none.mp (by decide), fun k r hfield => absurd hfield (hfields k r)⟩
  · decide
  · decide
  · apply Conforms.of_owned
    · exact fun k r hfield => absurd hfield (hfields k r)
    · exact fun k _ r _ _ hfield => absurd hfield (hfields k r)
  · decide
  · rfl
  · decide

theorem messages_heard_in_pieces :
    ∃ tr : List (Record Socket ClientInput ClientAct),
      ((calledBack (outputsOf tr)).filter (taggedWith 5)).length = 1 ∧
      ((calledBack (outputsOf tr)).filter (taggedWith 5)).map (fun buf =>
          unpack lprotoBytes (initprot (oneProt 1 pingFields)) (holding buf) buf.length) <+:
        [.ok (5, 1, unpackedTable sevenMessage pingFields 0)] := by
  obtain ⟨r, mid, g, tr, sock, h, hlives, hup, hstream, hsocket, hopen, hwire, hheard⟩ := pieces_run
  refine ⟨tr, by rw [hheard]; rfl, ?_⟩
  exact @messages_heard lprotoBytes Representable (oneProt 1 pingFields) gatewayMd5 _ 7 4 5 3
    clientHandshake [clientFrame] [(1, unpackedTable sevenMessage pingFields 0)] g [] mid r
    lprotoBytes_lossless lprotoBytes_bigEndian h hlives (by decide) ⟨_, _, rfl⟩
    (.cons sevenMessage_packed .nil) (by simp) (by decide) (by decide) hup hstream _ tr sock
    (by decide) hsocket hopen hwire

end NetgameFormal
