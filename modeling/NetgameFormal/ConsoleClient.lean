import NetgameFormal.LprotoRoundTrip
import Mathlib.Data.List.GetD

/-!
# The receive loop of the console client

The client cuts the bytes that arrive into packages, without their size, and
hands each to `unpack`. It takes two bytes off the package first and binds three
of the four values that `unpack` returns: packages arrive as they were sent, but
what the loop binds to `pp` is the number read for a protocol, or nil.
-/

set_option autoImplicit false

namespace NetgameFormal

/-! ## Packages -/

/-- `unpack_package`: the first package without its size, and what is left of the text. -/
def unpackPackage (text : LuaString) : Option LuaString × LuaString :=
  let size := text.length
  if size < 2 then (none, text)
  else
    let s := beNat (text.getD 0 0#8) (text.getD 1 0#8)
    if size < s + 2 then (none, text) else (some ((text.drop 2).take s), text.drop (2 + s))

/-- What a call of `socket.recv` finds: nothing yet, or bytes; no bytes are the end. -/
abbrev Incoming := List (Option LuaString)

/-- `recv_package`, with what is left over and what is still to arrive; none when the server has
closed. -/
def recvPackage (last : LuaString) (incoming : Incoming) :
    Option (Option LuaString × LuaString × Incoming) :=
  match unpackPackage last with
  | (some result, last) => some (some result, last, incoming)
  | (none, last) =>
    match incoming with
    | [] => some (none, last, [])
    | none :: incoming => some (none, last, incoming)
    | some r :: incoming =>
      if r = [] then none
      else
        let (result, last) := unpackPackage (last ++ r)
        some (result, last, incoming)

/-! ## The loop -/

inductive ClientValue where
  | nil
  | number (n : Int)
  | table (p : UnpackedTable)

def ClientValue.asNumber : ClientValue → Option Int
  | .number n => some n
  | _ => none

/-- The values that `prot:unpack` returns; none when it raises. -/
def unpackResults (res : Except LuaStop (Int × Int × UnpackedTable)) : Option (List ClientValue) :=
  match res with
  | .ok (fd, protId, p) => some [.number 0, .number fd, .number protId, .table p]
  | .error (.returns code) => some [.number code]
  | .error .raises => none

/-- The buffer that `unpackinit` makes of a string: behind it is whatever the memory holds. -/
def bufferOf (s : LuaString) (beyond : Memory) : Memory := fun i => (s[i]?).getD (beyond i)

/-- What one turn of the loop binds. -/
structure Received where
  v : LuaString
  sfd : Nat
  ret : ClientValue
  protId : ClientValue
  pp : ClientValue

def receive (c : LprotoC) (prot : Int → Option Prot) (beyond : Memory) (v : LuaString) :
    Option Received :=
  if v.length < 2 then none
  else
    let result := v.drop 2
    let sz := v.length - 2
    (unpackResults (unpack c prot (bufferOf result beyond) sz)).map fun results =>
      { v := v
        sfd := beNat (v.getD 0 0#8) (v.getD 1 0#8)
        ret := results.getD 0 .nil
        protId := results.getD 1 .nil
        pp := results.getD 2 .nil }

/-- `string.format` raises when `protId` is nil. -/
def Received.goesOn (r : Received) : Bool :=
  match r.protId with
  | .number _ => true
  | _ => false

/-- At most `n` calls of `recv_package`, and the turns on the packages they return. -/
def clientRun (c : LprotoC) (prot : Int → Option Prot) (beyond : Nat → Memory) :
    Nat → LuaString → Incoming → List Received
  | 0, _, _ => []
  | n + 1, last, incoming =>
    match recvPackage last incoming with
    | none => []
    | some (none, last, incoming) => clientRun c prot beyond n last incoming
    | some (some v, last, incoming) =>
      match receive c prot (beyond n) v with
      | none => []
      | some r => r :: if r.goesOn then clientRun c prot beyond n last incoming else []

/-! ## Packages arrive -/

def arrived (incoming : Incoming) : LuaString := incoming.flatMap fun r => r.getD []

section Arrival

variable {c : LprotoC} {prot : Int → Option Prot} {beyond : Nat → Memory}

structure Packaged (w : LuaString) : Prop where
  header : 2 ≤ w.length
  size : w.length = beNat (w.getD 0 0#8) (w.getD 1 0#8) + 2

theorem unpackPackage_full {w : LuaString} (hw : Packaged w) :
    unpackPackage w = (some (w.drop 2), []) := by
  have hheader := hw.header
  have hsize := hw.size
  unfold unpackPackage
  generalize beNat (w.getD 0 0#8) (w.getD 1 0#8) = s at hsize
  have hshort : ¬ w.length < 2 := by omega
  have hpart : ¬ w.length < s + 2 := by omega
  have htake : (w.drop 2).take s = w.drop 2 := List.take_of_length_le (by simp; omega)
  have hrest : w.drop (2 + s) = [] := List.drop_of_length_le (by omega)
  simp only [hshort, hpart, if_false, htake, hrest]

theorem unpackPackage_part {w part rest : LuaString} (hw : Packaged w) (hsplit : part ++ rest = w)
    (hrest : rest ≠ []) : unpackPackage part = (none, part) := by
  have hlength : part.length + rest.length = w.length := by rw [← hsplit, List.length_append]
  have hpos : 0 < rest.length := List.length_pos_iff.mpr hrest
  have hsize := hw.size
  unfold unpackPackage
  by_cases hshort : part.length < 2
  · simp only [hshort, if_true]
  · have h₀ : part.getD 0 0#8 = w.getD 0 0#8 := by
      rw [← hsplit, List.getD_append _ _ _ _ (by omega)]
    have h₁ : part.getD 1 0#8 = w.getD 1 0#8 := by
      rw [← hsplit, List.getD_append _ _ _ _ (by omega)]
    have hpart : part.length < beNat (w.getD 0 0#8) (w.getD 1 0#8) + 2 := by omega
    simp only [hshort, if_false, h₀, h₁, hpart, if_true]

/-- A package that arrives in any pieces is the first that the loop takes. -/
theorem clientRun_package {w : LuaString} (hw : Packaged w) {last : LuaString}
    {incoming : Incoming} (hpieces : some [] ∉ incoming) (hlater : arrived incoming ≠ [])
    (hsplit : last ++ arrived incoming = w) (n : Nat) :
    ∃ i, (clientRun c prot beyond (incoming.length + n) last incoming).head? =
      receive c prot (beyond i) (w.drop 2) := by
  induction incoming generalizing last with
  | nil => exact absurd rfl hlater
  | cons piece incoming ih =>
    have hpieces' : some [] ∉ incoming := fun h => hpieces (List.mem_cons_of_mem _ h)
    have hpart := unpackPackage_part hw hsplit hlater
    have hcount : (piece :: incoming).length + n = incoming.length + n + 1 := by
      rw [List.length_cons]
      omega
    rw [hcount]
    cases piece with
    | none =>
      obtain ⟨i, hi⟩ := ih hpieces' hlater hsplit
      refine ⟨i, ?_⟩
      simp only [clientRun, recvPackage, hpart]
      exact hi
    | some r =>
      have hr : r ≠ [] := fun h => hpieces (h ▸ List.mem_cons_self)
      have hsplit' : (last ++ r) ++ arrived incoming = w := by
        rw [← hsplit, List.append_assoc]
        rfl
      by_cases hdone : arrived incoming = []
      · rw [hdone, List.append_nil] at hsplit'
        refine ⟨incoming.length + n, ?_⟩
        simp only [clientRun, recvPackage, hpart, hr, if_false, hsplit', unpackPackage_full hw]
        cases receive c prot (beyond (incoming.length + n)) (w.drop 2) <;> rfl
      · obtain ⟨i, hi⟩ := ih hpieces' hdone hsplit'
        refine ⟨i, ?_⟩
        have hpart' := unpackPackage_part hw hsplit' hdone
        simp only [clientRun, recvPackage, hpart, hr, if_false, hpart']
        exact hi

end Arrival

/-! ## What the loop binds -/

section Bound

variable {c : LprotoC} {prot : Int → Option Prot}

theorem receive_pp {beyond : Memory} {v : LuaString} {r : Received}
    (h : receive c prot beyond v = some r) (p : UnpackedTable) : r.pp ≠ .table p := by
  unfold receive at h
  by_cases hshort : v.length < 2
  · rw [if_pos hshort] at h
    cases h
  · simp only [hshort, if_false] at h
    cases hres : unpack c prot (bufferOf (v.drop 2) beyond) (v.length - 2) with
    | ok out =>
      rw [hres] at h
      cases h
      exact ClientValue.noConfusion
    | error stop =>
      rw [hres] at h
      cases stop with
      | raises => cases h
      | returns code =>
        cases h
        exact ClientValue.noConfusion

theorem clientRun_pp {beyond : Nat → Memory} {n : Nat} {last : LuaString} {incoming : Incoming}
    {r : Received} (hr : r ∈ clientRun c prot beyond n last incoming) (p : UnpackedTable) :
    r.pp ≠ .table p := by
  induction n generalizing last incoming with
  | zero => cases hr
  | succ n ih =>
    unfold clientRun at hr
    cases hrecv : recvPackage last incoming with
    | none =>
      rw [hrecv] at hr
      cases hr
    | some out =>
      obtain ⟨result, last', incoming'⟩ := out
      rw [hrecv] at hr
      cases result with
      | none => exact ih hr
      | some v =>
        cases hv : receive c prot (beyond n) v with
        | none =>
          simp only [hv] at hr
          cases hr
        | some r' =>
          simp only [hv] at hr
          rcases List.mem_cons.mp hr with rfl | hlater
          · exact receive_pp hv p
          · cases hgo : r'.goesOn with
            | true =>
              rw [hgo] at hlater
              exact ih hlater
            | false =>
              rw [hgo] at hlater
              cases hlater

end Bound

/-- What the client should bind when the frame of the message `p`, relayed for the server `sid`,
arrives in the pieces `incoming` among other packages. -/
def ClientUnpacks (c : LprotoC) (protDict : Int → Option (Table Field)) (fields : Table Field)
    (heap : Heap) (mem : Memory) (cfd protId : Int) (p : Nat) (sid : Int)
    (beyond : Nat → Memory) (incoming : Incoming) : Prop :=
  ∀ (sz : Nat) (frame after : List Byte) (before : List LuaString),
    pack c (initprot protDict) heap mem cfd protId p = .ok (sz, frame) →
    (∀ w ∈ before, Packaged w) → some [] ∉ incoming →
    arrived incoming = before.flatten ++ writeBlock frame sid 2 ++ after →
    ∃ n, ∃ r ∈ clientRun c (initprot protDict) beyond n [] incoming,
      r.protId = .number protId ∧ r.pp = .table (unpackedTable heap fields p)

section Never

variable {c : LprotoC} {protDict : Int → Option (Table Field)} {heap : Heap} {mem : Memory}
  {cfd protId : Int} {p sz : Nat} {frame after : List Byte} {before : List LuaString}
  {sid : Int} {incoming : Incoming}

theorem client_never_unpacks (fields : Table Field) (beyond : Nat → Memory)
    (hpack : pack c (initprot protDict) heap mem cfd protId p = .ok (sz, frame))
    (hbefore : ∀ w ∈ before, Packaged w) (hpieces : some [] ∉ incoming)
    (harrives : arrived incoming = before.flatten ++ writeBlock frame sid 2 ++ after) :
    ¬ ClientUnpacks c protDict fields heap mem cfd protId p sid beyond incoming := by
  intro h
  obtain ⟨n, r, hr, -, hpp⟩ := h sz frame after before hpack hbefore hpieces harrives
  exact clientRun_pp hr _ hpp

end Never

def pingMessage : Heap := fun t k =>
  if t = 0 ∧ k = luaString "n" then .scalar (.int 1) else .nil

def pingPieces : Incoming :=
  [some [0#8, 8#8, 0#8], none, some [3#8, 0#8, 1#8, 0#8, 0#8, 0#8, 1#8]]

theorem client_never_unpacks_ping :
    ¬ ClientUnpacks lprotoBytes (oneProt 1 pingFields) pingFields pingMessage (fun _ => 0#8) 5 1 0 3
      (fun _ _ => 0#8) pingPieces := by
  have hpack : pack lprotoBytes (initprot (oneProt 1 pingFields)) pingMessage (fun _ => 0#8) 5 1 0 =
      .ok (10, [0#8, 8#8, 0#8, 5#8, 0#8, 1#8, 0#8, 0#8, 0#8, 1#8]) := by decide
  have harrives : arrived pingPieces = ([] : List LuaString).flatten ++
      writeBlock [0#8, 8#8, 0#8, 5#8, 0#8, 1#8, 0#8, 0#8, 0#8, 1#8] 3 2 ++ [] := by decide
  exact client_never_unpacks pingFields _ hpack (List.forall_mem_nil _) (by decide) harrives

/-- The package is the one that was relayed, but its protocol is read from the first two bytes of
the body, and what is bound to `pp` is the number in the next two. -/
theorem client_misreads :
    pack lprotoBytes (initprot (oneProt 1 pingFields)) pingMessage (fun _ => 0#8) 5 1 0 =
        .ok (10, [0#8, 8#8, 0#8, 5#8, 0#8, 1#8, 0#8, 0#8, 0#8, 1#8]) ∧
      (clientRun lprotoBytes (initprot (oneProt 1 pingFields)) (fun _ _ => 0#8) 4 []
          pingPieces).map (fun r => (r.v, r.protId.asNumber, r.pp.asNumber)) =
        [([0#8, 3#8, 0#8, 1#8, 0#8, 0#8, 0#8, 1#8], some 0, some 1)] ∧
      ¬ ClientUnpacks lprotoBytes (oneProt 1 pingFields) pingFields pingMessage (fun _ => 0#8) 5 1
        0 3 (fun _ _ => 0#8) pingPieces := by
  have hpack : pack lprotoBytes (initprot (oneProt 1 pingFields)) pingMessage (fun _ => 0#8) 5 1 0 =
      .ok (10, [0#8, 8#8, 0#8, 5#8, 0#8, 1#8, 0#8, 0#8, 0#8, 1#8]) := by decide
  have harrives : arrived pingPieces = ([] : List LuaString).flatten ++
      writeBlock [0#8, 8#8, 0#8, 5#8, 0#8, 1#8, 0#8, 0#8, 0#8, 1#8] 3 2 ++ [] := by decide
  refine ⟨hpack, by decide +kernel, ?_⟩
  intro h
  obtain ⟨n, r, hr, -, hpp⟩ := h _ _ [] [] hpack (List.forall_mem_nil _) (by decide) harrives
  exact clientRun_pp hr _ hpp

end NetgameFormal
