import NetgameFormal.ClientSession
import NetgameFormal.Composition
import NetgameFormal.PackedRelay
import NetgameFormal.SendStream

/-!
# The network

The gateway, the socket of the server and the scripts of the console clients,
with the bytes that are on their way between them. The parties take their steps
in any order; a step of one party that reads takes what is next on its wire.
Connections are named by the ids that the gateway has for them.
-/

set_option autoImplicit false

namespace NetgameFormal

open Framing (Frame stream delivered)

structure Network where
  gate : Gate
  server : Socket
  clients : Int → ClientSession
  /-- On the way to the gateway, by connection. -/
  up : Int → List Byte
  /-- On the way from the gateway, by connection. -/
  down : Int → List Byte

inductive NetworkTurn where
  | gate (i : GateInput)
  | server (i : ClientInput)
  | client (c : Int) (turn : ClientTurn)
  /-- A peer that is neither the server nor a console client writes. -/
  | peer (c : Int) (bytes : List Byte)

inductive NetworkAct where
  | gate (a : Act)
  | server (a : ClientAct)
  | client (c : Int) (a : ClientTurnAct)
  deriving DecidableEq

/-- The bytes that a turn of the script reads from its socket. -/
def ClientSession.reads (s : ClientSession) : ClientTurn → List Byte
  | .recvPackage received _ => if (unpackPackage s.last).1 = none then received.getD [] else []
  | _ => []

/-- One step of one party; `s` is the connection of the server. -/
def networkStep (md5 : HandshakeMd5) (lp : LprotoC) (prot : Int → Option Prot) (s : Int)
    (n : Network) : NetworkTurn → Option (Network × List NetworkAct)
  | .gate i => (dispatchSocketMessage md5 n.gate i).map fun (gate, o) =>
    ({ n with
        gate := gate
        up := fun c => (n.up c).drop (i.bytesOf c).length
        down := fun c => n.down c ++ (streamTo c o).flatten }, o.map .gate)
  | .server i => (clientStep n.server i).map fun (server, o) =>
    ({ n with
        server := server
        up := Function.update n.up s (n.up s ++ acceptedIn o)
        down := Function.update n.down s ((n.down s).drop (i.chunk.getD []).length) }, o.map .server)
  | .client c turn => (clientTurn lp prot (n.clients c) turn).map fun (session, o) =>
    ({ n with
        clients := Function.update n.clients c session
        up := Function.update n.up c (n.up c ++ takenIn o)
        down := Function.update n.down c ((n.down c).drop ((n.clients c).reads turn).length) },
      o.map (.client c))
  | .peer c bytes => some ({ n with up := Function.update n.up c (n.up c ++ bytes) }, [])

/-- The bytes of an event are next on their wire. -/
def GateInput.Next (up : Int → List Byte) (i : GateInput) : Prop :=
  match i.msg with
  | .data id data => data <+: up id
  | _ => True

/-- What is read is what is next on the wire, and the socket server keeps its contract. -/
def NetworkContract (s : Int) (n : Network) : NetworkTurn → Prop
  | .gate i => FreshAccept n.gate i ∧ i.Next n.up
  | .server i => i.chunk.getD [] <+: n.down s
  | .client c turn => c ≠ s ∧ (n.clients c).reads turn <+: n.down c
  | .peer _ _ => True

instance (up : Int → List Byte) (i : GateInput) : Decidable (i.Next up) :=
  match i with
  | ⟨.data id data, _⟩ => inferInstanceAs (Decidable (data <+: up id))
  | ⟨.connect _, _⟩ => isTrue trivial
  | ⟨.close _, _⟩ => isTrue trivial
  | ⟨.error _, _⟩ => isTrue trivial
  | ⟨.accept _ _, _⟩ => isTrue trivial

instance (s : Int) (n : Network) (turn : NetworkTurn) : Decidable (NetworkContract s n turn) :=
  match turn with
  | .gate i => inferInstanceAs (Decidable (FreshAccept n.gate i ∧ i.Next n.up))
  | .server i => inferInstanceAs (Decidable (i.chunk.getD [] <+: n.down s))
  | .client c turn => inferInstanceAs (Decidable (c ≠ s ∧ (n.clients c).reads turn <+: n.down c))
  | .peer _ _ => isTrue trivial

theorem GateInput.Next.bytesOf {up : Int → List Byte} {i : GateInput} (h : i.Next up) (c : Int) :
    i.bytesOf c <+: up c := by
  by_cases hdata : ∃ data, i.msg = .data c data
  · obtain ⟨data, hmsg⟩ := hdata
    rw [GateInput.Next, hmsg] at h
    rw [GateInput.bytesOf, hmsg]
    simpa using h
  · rw [GateInput.bytesOf_of_ne fun data heq => hdata ⟨data, heq⟩]
    exact List.nil_prefix

/-- Nothing has been said; every client has connected, on the descriptor `fdOf`. -/
def networkInit (max : Capacity) (listenId fd : Int) (fdOf : Int → Int) : Network where
  gate := gateInit max listenId
  server := socketConnect socketNew fd
  clients := fun c => clientSessionInit (fdOf c)
  up := fun _ => []
  down := fun _ => []

/-- What a step of the network does. -/
inductive NetworkStepped (md5 : HandshakeMd5) (lp : LprotoC) (prot : Int → Option Prot) (s : Int)
    (n : Network) : NetworkTurn → Network → List NetworkAct → Prop where
  | gate {i : GateInput} {g : Gate} {o : List Act}
      (h : dispatchSocketMessage md5 n.gate i = some (g, o)) :
      NetworkStepped md5 lp prot s n (.gate i)
        { n with
          gate := g
          up := fun c => (n.up c).drop (i.bytesOf c).length
          down := fun c => n.down c ++ (streamTo c o).flatten } (o.map .gate)
  | server {i : ClientInput} {sock : Socket} {o : List ClientAct}
      (h : clientStep n.server i = some (sock, o)) :
      NetworkStepped md5 lp prot s n (.server i)
        { n with
          server := sock
          up := Function.update n.up s (n.up s ++ acceptedIn o)
          down := Function.update n.down s ((n.down s).drop (i.chunk.getD []).length) }
        (o.map .server)
  | client {c : Int} {turn : ClientTurn} {session : ClientSession} {o : List ClientTurnAct}
      (h : clientTurn lp prot (n.clients c) turn = some (session, o)) :
      NetworkStepped md5 lp prot s n (.client c turn)
        { n with
          clients := Function.update n.clients c session
          up := Function.update n.up c (n.up c ++ takenIn o)
          down := Function.update n.down c ((n.down c).drop ((n.clients c).reads turn).length) }
        (o.map (.client c))
  | peer {c : Int} {bytes : List Byte} :
      NetworkStepped md5 lp prot s n (.peer c bytes)
        { n with up := Function.update n.up c (n.up c ++ bytes) } []

section
variable {md5 : HandshakeMd5} {lp : LprotoC} {prot : Int → Option Prot} {s : Int}
variable {n n' : Network} {turn : NetworkTurn} {o : List NetworkAct}

theorem networkStep_cases (h : networkStep md5 lp prot s n turn = some (n', o)) :
    NetworkStepped md5 lp prot s n turn n' o := by
  cases turn with
  | gate i =>
    simp only [networkStep, Option.map_eq_some_iff] at h
    obtain ⟨⟨g, acts⟩, hstep, heq⟩ := h
    obtain ⟨rfl, rfl⟩ := Prod.mk.inj heq
    exact .gate hstep
  | server i =>
    simp only [networkStep, Option.map_eq_some_iff] at h
    obtain ⟨⟨sock, acts⟩, hstep, heq⟩ := h
    obtain ⟨rfl, rfl⟩ := Prod.mk.inj heq
    exact .server hstep
  | client c turn =>
    simp only [networkStep, Option.map_eq_some_iff] at h
    obtain ⟨⟨session, acts⟩, hstep, heq⟩ := h
    obtain ⟨rfl, rfl⟩ := Prod.mk.inj heq
    exact .client hstep
  | peer c bytes =>
    obtain ⟨rfl, rfl⟩ := Prod.mk.inj (Option.some.inj h)
    exact .peer

end

/-! ## The parties -/

def NetworkTurn.gateInput : NetworkTurn → Option GateInput
  | .gate i => some i
  | _ => none

def NetworkTurn.serverInput : NetworkTurn → Option ClientInput
  | .server i => some i
  | _ => none

def NetworkTurn.clientInput (c : Int) : NetworkTurn → Option ClientTurn
  | .client d turn => if d = c then some turn else none
  | _ => none

def NetworkAct.gateAct : NetworkAct → Option Act
  | .gate a => some a
  | _ => none

def NetworkAct.serverAct : NetworkAct → Option ClientAct
  | .server a => some a
  | _ => none

def NetworkAct.clientAct (c : Int) : NetworkAct → Option ClientTurnAct
  | .client d a => if d = c then some a else none
  | _ => none

theorem filterMap_map_self {α β : Type} (f : α → β) (g : β → Option α) (h : ∀ a, g (f a) = some a)
    (l : List α) : (l.map f).filterMap g = l := by
  rw [List.filterMap_map]
  exact (List.filterMap_congr fun a _ => h a).trans List.filterMap_some

theorem filterMap_map_none {α β γ : Type} (f : α → β) (g : β → Option γ) (h : ∀ a, g (f a) = none)
    (l : List α) : (l.map f).filterMap g = [] := by
  rw [List.filterMap_map, List.filterMap_eq_nil_iff]
  exact fun a _ => h a

section
variable (md5 : HandshakeMd5) (lp : LprotoC) (prot : Int → Option Prot) (s : Int)

def gatePart : Part (networkStep md5 lp prot s) (dispatchSocketMessage md5) where
  state := Network.gate
  input := NetworkTurn.gateInput
  output := NetworkAct.gateAct
  moves := by
    intro n turn i n' o h hi
    cases networkStep_cases h with
    | gate hstep =>
      obtain rfl := Option.some.inj hi
      rw [hstep, filterMap_map_self NetworkAct.gate NetworkAct.gateAct fun _ => rfl]
    | server _ => cases hi
    | client _ => cases hi
    | peer => cases hi
  rests := by
    intro n turn n' o h hi
    cases networkStep_cases h with
    | gate _ => cases hi
    | server _ => exact ⟨rfl, filterMap_map_none _ _ (fun _ => rfl) _⟩
    | client _ => exact ⟨rfl, filterMap_map_none _ _ (fun _ => rfl) _⟩
    | peer => exact ⟨rfl, rfl⟩

def serverPart : Part (networkStep md5 lp prot s) clientStep where
  state := Network.server
  input := NetworkTurn.serverInput
  output := NetworkAct.serverAct
  moves := by
    intro n turn i n' o h hi
    cases networkStep_cases h with
    | gate _ => cases hi
    | server hstep =>
      obtain rfl := Option.some.inj hi
      rw [hstep, filterMap_map_self NetworkAct.server NetworkAct.serverAct fun _ => rfl]
    | client _ => cases hi
    | peer => cases hi
  rests := by
    intro n turn n' o h hi
    cases networkStep_cases h with
    | gate _ => exact ⟨rfl, filterMap_map_none _ _ (fun _ => rfl) _⟩
    | server _ => cases hi
    | client _ => exact ⟨rfl, filterMap_map_none _ _ (fun _ => rfl) _⟩
    | peer => exact ⟨rfl, rfl⟩

def clientPart (c : Int) : Part (networkStep md5 lp prot s) (clientTurn lp prot) where
  state n := n.clients c
  input := NetworkTurn.clientInput c
  output := NetworkAct.clientAct c
  moves := by
    intro n turn i n' o h hi
    cases networkStep_cases h with
    | gate _ => cases hi
    | server _ => cases hi
    | @client d turn session o hstep =>
      simp only [NetworkTurn.clientInput, Option.ite_none_right_eq_some, Option.some.injEq] at hi
      obtain ⟨rfl, rfl⟩ := hi
      rw [hstep, filterMap_map_self (NetworkAct.client d) (NetworkAct.clientAct d) fun _ => if_pos rfl]
      exact congrArg (fun x => some (x, o)) (Function.update_self d session n.clients).symm
    | peer => cases hi
  rests := by
    intro n turn n' o h hi
    cases networkStep_cases h with
    | gate _ => exact ⟨rfl, filterMap_map_none _ _ (fun _ => rfl) _⟩
    | server _ => exact ⟨rfl, filterMap_map_none _ _ (fun _ => rfl) _⟩
    | @client d turn session o hstep =>
      have hne : d ≠ c := by
        intro heq
        simp [NetworkTurn.clientInput, heq] at hi
      exact ⟨Function.update_of_ne hne.symm _ _,
        filterMap_map_none (NetworkAct.client d) (NetworkAct.clientAct c) (fun _ => if_neg hne) _⟩
    | peer => exact ⟨rfl, rfl⟩

end

/-! ## The wires -/

/-- The bytes that a step puts on the way from connection `c` to the gateway. -/
def saidBy (s c : Int) (r : Record Network NetworkTurn NetworkAct) : List Byte :=
  match r.input with
  | .gate _ => []
  | .server _ => if c = s then acceptedIn (r.output.filterMap NetworkAct.serverAct) else []
  | .client _ _ => takenIn (r.output.filterMap (NetworkAct.clientAct c))
  | .peer d bytes => if d = c then bytes else []

/-- The bytes of connection `c` that a step brings to the gateway. -/
def readFrom (c : Int) (r : Record Network NetworkTurn NetworkAct) : List Byte :=
  match r.input with
  | .gate i => i.bytesOf c
  | _ => []

/-- The bytes that the gateway has handed over for connection `c`. -/
def handedTo (c : Int) (r : Record Network NetworkTurn NetworkAct) : List Byte :=
  (streamTo c (r.output.filterMap NetworkAct.gateAct)).flatten

/-- The bytes of the wire to connection `c` that its program reads. -/
def readBy (s c : Int) (r : Record Network NetworkTurn NetworkAct) : List Byte :=
  match r.input with
  | .gate _ => []
  | .server i => if c = s then i.chunk.getD [] else []
  | .client d turn => if d = c then (r.pre.clients c).reads turn else []
  | .peer _ _ => []

section
variable (md5 : HandshakeMd5) (lp : LprotoC) (prot : Int → Option Prot) (s c : Int)

theorem drop_of_isPrefix {α : Type} {l l' : List α} (h : l <+: l') : l ++ l'.drop l.length = l' := by
  obtain ⟨rest, rfl⟩ := h
  rw [List.drop_left]

def upWire : Wire (networkStep md5 lp prot s) (NetworkContract s) Byte where
  content n := n.up c
  put := saidBy s c
  taken := readFrom c
  carries := by
    intro n turn n' o hcontract h
    cases networkStep_cases h with
    | @gate i g o hstep =>
      simp only [saidBy, readFrom, List.append_nil]
      exact (drop_of_isPrefix (hcontract.2.bytesOf c)).symm
    | @server i sock o hstep =>
      simp only [saidBy, readFrom, List.nil_append,
        filterMap_map_self NetworkAct.server NetworkAct.serverAct fun _ => rfl]
      by_cases hc : c = s
      · subst hc
        rw [if_pos rfl, Function.update_self]
      · rw [if_neg hc, Function.update_of_ne hc, List.append_nil]
    | @client d turn session o hstep =>
      simp only [saidBy, readFrom, List.nil_append]
      by_cases hd : d = c
      · subst hd
        rw [filterMap_map_self (NetworkAct.client d) (NetworkAct.clientAct d) fun _ => if_pos rfl,
          Function.update_self]
      · rw [filterMap_map_none (NetworkAct.client d) (NetworkAct.clientAct c) fun _ => if_neg hd,
          Function.update_of_ne (Ne.symm hd), takenIn_nil, List.append_nil]
    | @peer d bytes =>
      simp only [saidBy, readFrom, List.nil_append]
      by_cases hd : d = c
      · subst hd
        rw [if_pos rfl, Function.update_self]
      · rw [if_neg hd, Function.update_of_ne (Ne.symm hd), List.append_nil]

def downWire : Wire (networkStep md5 lp prot s) (NetworkContract s) Byte where
  content n := n.down c
  put := handedTo c
  taken := readBy s c
  carries := by
    intro n turn n' o hcontract h
    cases networkStep_cases h with
    | @gate i g o hstep =>
      simp only [handedTo, readBy, List.nil_append,
        filterMap_map_self NetworkAct.gate NetworkAct.gateAct fun _ => rfl]
    | @server i sock o hstep =>
      simp only [handedTo, readBy,
        filterMap_map_none NetworkAct.server NetworkAct.gateAct fun _ => rfl]
      by_cases hc : c = s
      · subst hc
        rw [if_pos rfl, Function.update_self]
        exact (List.append_nil _).trans (drop_of_isPrefix hcontract).symm
      · rw [if_neg hc, Function.update_of_ne hc]
        exact List.append_nil _
    | @client d turn session o hstep =>
      simp only [handedTo, readBy,
        filterMap_map_none (NetworkAct.client d) NetworkAct.gateAct fun _ => rfl]
      by_cases hd : d = c
      · subst hd
        rw [if_pos rfl, Function.update_self]
        exact (List.append_nil _).trans (drop_of_isPrefix hcontract.2).symm
      · rw [if_neg hd, Function.update_of_ne (Ne.symm hd)]
        exact List.append_nil _
    | peer => exact List.append_nil _

end

section
variable {md5 : HandshakeMd5} {lp : LprotoC} {prot : Int → Option Prot} {s c listenId fd : Int}
variable {max : Capacity} {fdOf : Int → Int} {n n₀ : Network}
variable {tr : List (Record Network NetworkTurn NetworkAct)}

theorem network_record
    (h : Exec (networkStep md5 lp prot s) (NetworkContract s) n₀ tr n) :
    ∀ r ∈ tr, NetworkContract s r.pre r.input ∧
      NetworkStepped md5 lp prot s r.pre r.input r.post r.output := by
  intro r hr
  obtain ⟨-, -, hcontract, hstep⟩ := h.record (fun _ => True) trivial (fun _ _ _ => trivial) r hr
  exact ⟨hcontract, networkStep_cases hstep⟩

theorem chunksOf_append (c : Int) (tr tr' : List (Record Gate GateInput Act)) :
    chunksOf c (tr ++ tr') = chunksOf c tr ++ chunksOf c tr' := by
  simp [chunksOf]

theorem chunksOf_flatten (c : Int) (tr : List (Record Gate GateInput Act)) :
    (chunksOf c tr).flatten = bytesOf c tr := by
  have hone : ∀ r : Record Gate GateInput Act, (chunksOf c [r]).flatten = r.input.bytesOf c := by
    intro r
    unfold chunksOf ownChunk GateInput.bytesOf
    cases hmsg : r.input.msg with
    | data id data =>
      by_cases hid : id = c
      · simp [hmsg, hid]
      · simp [hmsg, hid]
    | connect id => simp [hmsg]
    | close id => simp [hmsg]
    | error id => simp [hmsg]
    | accept id ud => simp [hmsg]
  induction tr using List.reverseRecOn with
  | nil => rfl
  | append_singleton tr r ih =>
    rw [chunksOf_append, List.flatten_append, ih, hone, bytesOf_snoc]

/-- What the gateway gets of connection `c` is what it takes from the wire. -/
theorem readFrom_eq (c : Int) (tr : List (Record Network NetworkTurn NetworkAct)) :
    tr.flatMap (readFrom c) = bytesOf c ((gatePart md5 lp prot s).records tr) := by
  induction tr using List.reverseRecOn with
  | nil => rfl
  | append_singleton tr r ih =>
    rw [List.flatMap_append, ih, Part.records_snoc, bytesOf, bytesOf, List.flatMap_append]
    congr 1
    cases hi : r.input with
    | gate i => simp [readFrom, Part.record, gatePart, NetworkTurn.gateInput, hi]
    | server i => simp [readFrom, Part.record, gatePart, NetworkTurn.gateInput, hi]
    | client d turn => simp [readFrom, Part.record, gatePart, NetworkTurn.gateInput, hi]
    | peer d bytes => simp [readFrom, Part.record, gatePart, NetworkTurn.gateInput, hi]

theorem streamTo_flatMap (c : Int) (f : Record Network NetworkTurn NetworkAct → List Act) :
    (streamTo c (tr.flatMap f)).flatten = tr.flatMap fun r => (streamTo c (f r)).flatten := by
  induction tr with
  | nil => rfl
  | cons r tr ih => simp [ih]

theorem handedTo_eq (h : Exec (networkStep md5 lp prot s) (NetworkContract s) n₀ tr n) (c : Int) :
    tr.flatMap (handedTo c) =
      (streamTo c (outputsOf ((gatePart md5 lp prot s).records tr))).flatten := by
  rw [← (gatePart md5 lp prot s).flatMap_output h, streamTo_flatMap]
  rfl

theorem received_append (ds ds' : List Delivery) : received (ds ++ ds') = received ds ++ received ds' := by
  simp [received]

/-- What the server's socket gets is what it takes from its wire. -/
theorem readBy_eq (h : Exec (networkStep md5 lp prot s) (NetworkContract s) n₀ tr n) :
    tr.flatMap (readBy s s) =
      received (((serverPart md5 lp prot s).records tr).filterMap clientDelivery) := by
  induction h with
  | nil => rfl
  | @snoc tr n n' turn o _ hcontract _ ih =>
    rw [List.flatMap_append, ih, Part.records_snoc, List.filterMap_append, received_append]
    congr 1
    cases turn with
    | gate i => simp [readBy, Part.record, serverPart, NetworkTurn.serverInput, received]
    | server i =>
      cases hchunk : i.chunk with
      | none =>
        simp [readBy, Part.record, serverPart, NetworkTurn.serverInput, clientDelivery, received, hchunk]
      | some data =>
        simp [readBy, Part.record, serverPart, NetworkTurn.serverInput, clientDelivery, received, hchunk]
    | client d turn =>
      have hne : d ≠ s := hcontract.1
      simp [readBy, Part.record, serverPart, NetworkTurn.serverInput, received, hne]
    | peer d bytes => simp [readBy, Part.record, serverPart, NetworkTurn.serverInput, received]

theorem saidBy_step {turn : NetworkTurn} {n' : Network} {o : List NetworkAct} (hcs : c ≠ s)
    (hpeer : ∀ bytes, turn ≠ .peer c bytes) (h : NetworkStepped md5 lp prot s n turn n' o) :
    saidBy s c ⟨n, turn, o, n'⟩ = takenIn (o.filterMap (NetworkAct.clientAct c)) := by
  cases h with
  | @gate i g o _ =>
    rw [filterMap_map_none NetworkAct.gate (NetworkAct.clientAct c) fun _ => rfl]
    rfl
  | @server i sock o _ =>
    rw [filterMap_map_none NetworkAct.server (NetworkAct.clientAct c) fun _ => rfl]
    exact if_neg hcs
  | client _ => rfl
  | @peer d bytes =>
    have hd : d ≠ c := by
      intro heq
      exact hpeer bytes (heq ▸ rfl)
    exact if_neg hd

/-- What a console client says is what its script sends. -/
theorem saidBy_eq (h : Exec (networkStep md5 lp prot s) (NetworkContract s) n₀ tr n) (hcs : c ≠ s)
    (hpeer : ∀ r ∈ tr, ∀ bytes, r.input ≠ .peer c bytes) :
    tr.flatMap (saidBy s c) = takenIn (outputsOf ((clientPart md5 lp prot s c).records tr)) := by
  rw [← (clientPart md5 lp prot s c).flatMap_output h, takenIn, List.flatMap_assoc]
  apply List.flatMap_congr
  intro r hr
  exact saidBy_step hcs (hpeer r hr) (network_record h r hr).2

end

/-! ## The runs of the parties -/

section
variable {md5 : HandshakeMd5} {lp : LprotoC} {prot : Int → Option Prot} {s c listenId fd : Int}
variable {max : Capacity} {fdOf : Int → Int} {n n₀ : Network}
variable {tr : List (Record Network NetworkTurn NetworkAct)}

theorem gate_run (h : Exec (networkStep md5 lp prot s) (NetworkContract s) n₀ tr n) :
    Exec (dispatchSocketMessage md5) FreshAccept n₀.gate ((gatePart md5 lp prot s).records tr)
      n.gate := by
  apply (gatePart md5 lp prot s).run _ h
  intro n turn i hcontract hi
  cases turn with
  | gate j =>
    obtain rfl := Option.some.inj hi
    exact hcontract.1
  | server _ => cases hi
  | client _ _ => cases hi
  | peer _ _ => cases hi

theorem socket_run (h : Exec (networkStep md5 lp prot s) (NetworkContract s) n₀ tr n) :
    Exec clientStep (fun _ _ => True) n₀.server ((serverPart md5 lp prot s).records tr) n.server :=
  (serverPart md5 lp prot s).run (fun _ _ => trivial) h

theorem script_run (h : Exec (networkStep md5 lp prot s) (NetworkContract s) n₀ tr n) (c : Int) :
    Exec (clientTurn lp prot) (fun _ _ => True) (n₀.clients c)
      ((clientPart md5 lp prot s c).records tr) (n.clients c) :=
  (clientPart md5 lp prot s c).run (fun _ _ => trivial) h

/-- The gateway gets an initial segment of what a console client has said, and all of it when
nothing is on the way. -/
theorem said_in_order (hcs : c ≠ s) (hpeer : ∀ r ∈ tr, ∀ bytes, r.input ≠ .peer c bytes)
    (h : Exec (networkStep md5 lp prot s) (NetworkContract s) n₀ tr n) (hup : n₀.up c = []) :
    (chunksOf c ((gatePart md5 lp prot s).records tr)).flatten <+:
        takenIn (outputsOf ((clientPart md5 lp prot s c).records tr)) ∧
      (n.up c = [] → (chunksOf c ((gatePart md5 lp prot s).records tr)).flatten =
        takenIn (outputsOf ((clientPart md5 lp prot s c).records tr))) := by
  rw [chunksOf_flatten, ← @readFrom_eq md5 lp prot s c tr, ← saidBy_eq h hcs hpeer]
  exact ⟨(upWire md5 lp prot s c).in_order hup h,
    fun hquiet => (upWire md5 lp prot s c).all_taken hup hquiet h⟩

/-- The server's socket gets an initial segment of what the gateway has handed over for it, and all
of it when nothing is on the way. -/
theorem handed_in_order (h : Exec (networkStep md5 lp prot s) (NetworkContract s) n₀ tr n)
    (hdown : n₀.down s = []) :
    received (((serverPart md5 lp prot s).records tr).filterMap clientDelivery) <+:
        (streamTo s (outputsOf ((gatePart md5 lp prot s).records tr))).flatten ∧
      (n.down s = [] → received (((serverPart md5 lp prot s).records tr).filterMap clientDelivery) =
        (streamTo s (outputsOf ((gatePart md5 lp prot s).records tr))).flatten) := by
  rw [← readBy_eq h, ← handedTo_eq h s]
  exact ⟨(downWire md5 lp prot s s).in_order hdown h,
    fun hquiet => (downWire md5 lp prot s s).all_taken hdown hquiet h⟩

/-- Nothing of connection `c` has arrived before it is accepted. -/
theorem chunksOf_accepted {front mid : List (Record Gate GateInput Act)}
    {r : Record Gate GateInput Act} (hlives : Lives c r mid)
    (hfirst : ∀ q ∈ front, ∀ data, q.input.msg ≠ .data c data) :
    chunksOf c (front ++ r :: mid) = chunksOf c mid := by
  have hnone : ∀ q ∈ front ++ [r], (ownChunk c q).map Prod.fst = none := by
    intro q hq
    rcases List.mem_append.mp hq with hq | hq
    · exact chunkOf_of_ne (hfirst q hq)
    · obtain ⟨l, haccept⟩ := hlives.accepted
      apply chunkOf_of_ne
      intro data hdata
      rw [List.mem_singleton.mp hq, haccept] at hdata
      cases hdata
  have hempty : chunksOf c (front ++ [r]) = [] := by
    rw [chunksOf, List.map_filterMap]
    exact List.filterMap_eq_nil_iff.mpr hnone
  rw [List.append_cons, chunksOf_append, hempty, List.nil_append]

end

/-! ## Messages -/

/-- A message that the dictionary describes and that fits into a package of the gateway's size. -/
structure TypedMessage.Sound (lp : LprotoC) (holds : Scalar → Prop)
    (protDict : Int → Option (Table Field)) (fd : Int) (m : TypedMessage) : Prop where
  described : ∃ fields, protDict m.protId = some fields ∧ Unreserved fields ∧
    Conforms fields m.heap m.p ∧ ∀ v ∈ bodyValues m.heap (initTable fields) m.p, holds v
  id_range : 0 ≤ m.protId ∧ m.protId < 65536
  not_handshake : m.protId ≠ 100
  size : ∀ sz block, pack lp (initprot protDict) m.heap m.mem fd m.protId m.p = .ok (sz, block) →
    8 ≤ sz ∧ sz < BUFFER_MAX_LEN

/-- What is to be unpacked from the package of a message, if it has one. -/
def TypedMessage.value (lp : LprotoC) (protDict : Int → Option (Table Field)) (fd : Int)
    (m : TypedMessage) : Option (Int × UnpackedTable) :=
  match pack lp (initprot protDict) m.heap m.mem fd m.protId m.p with
  | .ok _ => (protDict m.protId).map fun fields => (m.protId, unpackedTable m.heap fields m.p)
  | .error _ => none

section
variable {lp : LprotoC} {holds : Scalar → Prop} {protDict : Int → Option (Table Field)} {fd : Int}
variable {m : TypedMessage}

/-- What `prot:pack` makes is a frame. -/
theorem pack_frame (hc : lp.Lossless holds) (hbig : lp.BigEndian) {fields : Table Field}
    {heap : Heap} {mem : Memory} {protId : Int} {p sz : Nat} {block : List Byte}
    (hprot : protDict protId = some fields) (hu : Unreserved fields) (hconf : Conforms fields heap p)
    (hholds : ∀ v ∈ bodyValues heap (initTable fields) p, holds v)
    (hpack : pack lp (initprot protDict) heap mem fd protId p = .ok (sz, block))
    (hroom : sz < BUFFER_MAX_LEN) : ∃ f : Frame beNat, f.bytes = block ∧ f.payload.length + 2 = sz := by
  obtain ⟨st, rfl, hwrote, rfl⟩ := pack_bytes hc hprot hu hconf hholds hpack
  have hsz : 6 ≤ st.sz := hwrote.grows
  have hlt : st.sz - 2 < 65536 := by
    have hmax : BUFFER_MAX_LEN = 10240 := rfl
    omega
  obtain ⟨k, hk⟩ := Nat.exists_eq_add_of_le' hsz
  have hcast : (st.sz : Int) - 2 = ((st.sz - 2 : Nat) : Int) := by omega
  have hrange : List.range st.sz = 0 :: 1 :: (List.range (st.sz - 2)).map (· + 2) := by
    rw [hk, List.range_succ_eq_map, List.range_succ_eq_map]
    simp
  let mem' := (lp.write2byte st.mem ((st.sz : Int) - 2) 0).1
  refine ⟨⟨mem' 0, mem' 1, ((List.range (st.sz - 2)).map (· + 2)).map mem', ?_⟩, ?_, ?_⟩
  · rw [List.length_map, List.length_map, List.length_range]
    simp only [mem']
    rw [hbig.hi, hbig.lo, hcast]
    exact beNat_written hlt
  · rw [hrange]
    rfl
  · simp only [List.length_map, List.length_range]
    omega

theorem package_ok (hc : lp.Lossless holds) {sz : Nat} {block : List Byte}
    (hpack : pack lp (initprot protDict) m.heap m.mem fd m.protId m.p = .ok (sz, block)) :
    m.package lp (initprot protDict) fd = some block := by
  rw [TypedMessage.package, hpack]
  exact congrArg some (lsendbuffer_pack hc.newpack hpack)

theorem package_error {stop : LuaStop}
    (hpack : pack lp (initprot protDict) m.heap m.mem fd m.protId m.p = .error stop) :
    (m.package lp (initprot protDict) fd).getD [] = [] := by
  rw [TypedMessage.package, hpack]
  cases stop with
  | raises => rfl
  | returns code => simp [packResults, lsendbuffer, touserdata]

/-- The packages of sound messages are frames. -/
theorem typed_frames (hc : lp.Lossless holds) (hbig : lp.BigEndian) (hfd : 0 ≤ fd ∧ fd < 65536)
    {typed : List TypedMessage} (h : ∀ m ∈ typed, m.Sound lp holds protDict fd) :
    ∃ fs : List (Frame beNat), packagesOf lp (initprot protDict) fd typed = stream fs ∧
      List.Forall₂ (Packed lp holds protDict) fs
        (typed.filterMap (TypedMessage.value lp protDict fd)) ∧
      (∀ f ∈ fs, 6 ≤ f.payload.length) ∧
      ∀ v ∈ typed.filterMap (TypedMessage.value lp protDict fd), v.1 ≠ 100 := by
  induction typed with
  | nil => exact ⟨[], rfl, .nil, by simp, by simp⟩
  | cons m typed ih =>
    obtain ⟨fs, hstream, hpacked, hlong, hids⟩ := ih fun m hm => h m (List.mem_cons_of_mem _ hm)
    have hsound := h m List.mem_cons_self
    obtain ⟨fields, hprot, hu, hconf, hholds⟩ := hsound.described
    cases hpack : pack lp (initprot protDict) m.heap m.mem fd m.protId m.p with
    | error stop =>
      have hvalue : m.value lp protDict fd = none := by simp [TypedMessage.value, hpack]
      rw [List.filterMap_cons_none hvalue]
      refine ⟨fs, ?_, hpacked, hlong, hids⟩
      rw [packagesOf, List.flatMap_cons, package_error hpack]
      exact hstream
    | ok res =>
      obtain ⟨sz, block⟩ := res
      obtain ⟨hmin, hroom⟩ := hsound.size sz block hpack
      obtain ⟨f, rfl, hsz⟩ := pack_frame hc hbig hprot hu hconf hholds hpack hroom
      have hvalue : m.value lp protDict fd =
          some (m.protId, unpackedTable m.heap fields m.p) := by
        simp [TypedMessage.value, hpack, hprot]
      rw [List.filterMap_cons_some hvalue]
      refine ⟨f :: fs, ?_, ?_, ?_, ?_⟩
      · rw [packagesOf, List.flatMap_cons, package_ok hc hpack]
        exact congrArg (f.bytes ++ ·) hstream
      · exact .cons (.mk hprot hu hfd hsound.id_range hconf hholds hpack hroom) hpacked
      · intro f' hf'
        rcases List.mem_cons.mp hf' with rfl | hf'
        · omega
        · exact hlong f' hf'
      · intro v hv
        rcases List.mem_cons.mp hv with rfl | hv
        · exact hsound.not_handshake
        · exact hids v hv

end

/-- The chunks make up a stream of frames, and none of them ends two. -/
def CutSingly (chunks : List (List Byte)) : Prop :=
  ∃ gs : List (Frame beNat), chunks.flatten = stream gs ∧ Framing.OneEndPerChunk gs chunks

theorem CutSingly.of_stream {chunks : List (List Byte)} {gs : List (Frame beNat)}
    (h : CutSingly chunks) (hgs : chunks.flatten = stream gs) : Framing.OneEndPerChunk gs chunks := by
  obtain ⟨gs', hgs', hone⟩ := h
  rwa [Framing.stream_injective (hgs.symm.trans hgs')]

/-- What the script of the server unpacks from the frames with the id of connection `c`. -/
def heardFrom (lp : LprotoC) (protDict : Int → Option (Table Field)) (c : Int)
    (tr : List (Record Socket ClientInput ClientAct)) :
    List (Except LuaStop (Int × Int × UnpackedTable)) :=
  ((calledBack (outputsOf tr)).filter (taggedWith c)).map fun buf =>
    unpack lp (initprot protDict) (holding buf) buf.length

/-- What is to be unpacked from the messages typed at connection `c`. -/
def typedAt (lp : LprotoC) (protDict : Int → Option (Table Field)) (c fd : Int)
    (tr : List (Record ClientSession ClientTurn ClientTurnAct)) :
    List (Except LuaStop (Int × Int × UnpackedTable)) :=
  ((typedIn tr).filterMap (TypedMessage.value lp protDict fd)).map fun v => .ok (c % 65536, v)

/-- Client `c` has sent all its messages, and nothing is on the way to the server. -/
structure Network.Quiet (s c : Int) (n : Network) : Prop where
  receiving : (n.clients c).stage = .receiving ∨ (n.clients c).stage = .prompting
  up : n.up c = []
  down : n.down s = []

theorem greeting_long {hello : Frame beNat} (h : Greets gatewayMd5.client hello) :
    6 ≤ hello.payload.length := by
  obtain ⟨x, y, hpayload⟩ := h
  have hlength : gatewayMd5.client.length = 32 := by decide
  simp only [hpayload, List.length_cons]
  omega

/-- In every run of the network in which `Uplink` holds for client `c`, in whatever order the parties
take their steps: what the server's script unpacks from the frames with the id of `c` is an initial
segment of the messages that have been typed at that client, in order and undamaged. It is all of
them once nothing is on the way, if no chunk on either side has ended two frames. -/
theorem network_heard (max : Capacity) (listenId s c fd : Int) (fdOf : Int → Int) {lp : LprotoC}
    {holds : Scalar → Prop} {protDict : Int → Option (Table Field)} (hc : lp.Lossless holds)
    (hbig : lp.BigEndian) {tr : List (Record Network NetworkTurn NetworkAct)} {n : Network}
    (h : Exec (networkStep gatewayMd5 lp (initprot protDict) s) (NetworkContract s)
      (networkInit max listenId fd fdOf) tr n)
    (hcs : c ≠ s) (hs : 0 < s) (hpeer : ∀ r ∈ tr, ∀ bytes, r.input ≠ .peer c bytes)
    (hfdc : 0 ≤ fdOf c ∧ fdOf c < 65536)
    (hsound : ∀ m ∈ typedIn ((clientPart gatewayMd5 lp (initprot protDict) s c).records tr),
      m.Sound lp holds protDict (fdOf c))
    {front mid : List (Record Gate GateInput Act)} {r : Record Gate GateInput Act}
    (hgate : (gatePart gatewayMd5 lp (initprot protDict) s).records tr = front ++ r :: mid)
    (hlives : Lives c r mid) (hup : Uplink s c front r mid) (hfd : fd ≠ -1)
    (hopen : ∀ q ∈ (serverPart gatewayMd5 lp (initprot protDict) s).records tr, ¬ Closes q.output) :
    (heardFrom lp protDict c ((serverPart gatewayMd5 lp (initprot protDict) s).records tr) <+:
        typedAt lp protDict c (fdOf c)
          ((clientPart gatewayMd5 lp (initprot protDict) s c).records tr)) ∧
      (n.Quiet s c → CutSingly (chunksOf c mid) →
        CutSingly ((((serverPart gatewayMd5 lp (initprot protDict) s).records tr).filterMap
          clientDelivery).map Delivery.chunk) →
        heardFrom lp protDict c ((serverPart gatewayMd5 lp (initprot protDict) s).records tr) =
          typedAt lp protDict c (fdOf c)
            ((clientPart gatewayMd5 lp (initprot protDict) s c).records tr)) := by
  obtain ⟨fs, hpackages, hpacked, hlong, hids⟩ := typed_frames hc hbig hfdc hsound
  obtain ⟨hello, hgreeting, hgreets⟩ := Md5.clientGreeting_greets (fdOf c)
  have hgaterun := gate_run h
  obtain ⟨hwire, hwireall⟩ := handed_in_order h rfl
  obtain ⟨hchunks, hchunksall⟩ := said_in_order hcs hpeer h rfl
  rw [hgate] at hgaterun hwire hwireall hchunks hchunksall
  rw [chunksOf_accepted hlives hup.first] at hchunks hchunksall
  have hsaid := session_run hgreeting (script_run h c)
  have hstream : (chunksOf c mid).flatten <+: stream (hello :: fs) := by
    have hkept := hsaid.kept
    rw [hpackages] at hkept
    exact hchunks.trans hkept
  have hplain : 0#8 ∉ gatewayMd5.client := by decide
  have hspeaks := speaks_of_packed hc hbig hplain hgreets hpacked hids
    (List.forall_mem_cons.mpr ⟨greeting_long hgreets, hlong⟩)
  have hvalues : typedAt lp protDict c (fdOf c)
      ((clientPart gatewayMd5 lp (initprot protDict) s c).records tr) =
      (fs.map fun f => stamped c f.payload).map fun buf =>
        unpack lp (initprot protDict) (holding buf) buf.length :=
    (map_unpack_stamped hc hbig c hpacked).symm
  constructor
  · have hheard := heard_prefix hgaterun hlives hspeaks hs hup hstream hfd (socket_run h) hopen hwire
    rw [Framing.delivered_eq_map hlong, List.map_map] at hheard
    rw [hvalues]
    exact hheard.map fun buf => unpack lp (initprot protDict) (holding buf) buf.length
  · intro hquiet hcut hcut'
    have hbytes : (chunksOf c mid).flatten = stream (hello :: fs) := by
      have hidle := hsaid.idle hquiet.receiving
      rw [hpackages] at hidle
      exact (hchunksall hquiet.up).trans hidle
    have hfs : ∀ f ∈ fs, f.payload ≠ [] := by
      intro f hf hnil
      have hpos := hlong f hf
      simp [hnil] at hpos
    have hone : ∀ sent : List (Frame beNat),
        streamTo s (outputsOf (front ++ r :: mid)) = sent.map Frame.bytes →
        Framing.OneEndPerChunk sent ((((serverPart gatewayMd5 lp (initprot protDict) s).records
          tr).filterMap clientDelivery).map Delivery.chunk) := by
      intro sent hsent
      apply hcut'.of_stream
      have hread := hwireall hquiet.down
      rw [hsent] at hread
      rw [stream, List.flatMap_def]
      exact hread
    have hheard := heard_all hgaterun hlives hspeaks hs hup hfs hbytes (hcut.of_stream hbytes) hfd
      (socket_run h) hopen (hwireall hquiet.down) hone
    rw [hvalues]
    exact congrArg (List.map fun buf => unpack lp (initprot protDict) (holding buf) buf.length) hheard

theorem typedPing_sound :
    typedPing.Sound lprotoBytes Representable (oneProt 1 pingFields) 3 where
  described := by
    have hfields : ∀ k r, pingFields.get k ≠ some (.record r) := by
      intro k r hfield
      have hmem := Table.mem_of_get hfield
      simp [pingFields] at hmem
    refine ⟨pingFields, rfl, ?_, ?_, by decide⟩
    · exact ⟨Option.not_isSome_iff_eq_none.mp (by decide),
        fun k r hfield => absurd hfield (hfields k r)⟩
    · apply Conforms.of_owned
      · exact fun k r hfield => absurd hfield (hfields k r)
      · exact fun k _ r _ _ hfield => absurd hfield (hfields k r)
  id_range := by decide
  not_handshake := by decide
  size := by
    intro sz block hpack
    have hping : pack lprotoBytes (initprot (oneProt 1 pingFields)) typedPing.heap typedPing.mem 3
        typedPing.protId typedPing.p = .ok (10, [0, 8, 0, 3, 0, 1, 0, 0, 0, 1]) := by decide
    obtain ⟨rfl, -⟩ := Prod.mk.inj (Except.ok.inj (hping.symm.trans hpack))
    decide

/-- The steps of a network in which a message goes from client 5 to the server, in pieces. -/
def pingTurns : List NetworkTurn :=
  [.gate ⟨.accept 7 5, 0⟩, .gate ⟨.accept 7 4, 0⟩,
    .server (.send (handshakePackage 3 gatewayMd5.server) (.wrote 38)),
    .client 5 .handshake, .client 5 (.send (.sent 9)),
    .gate ⟨.data 4 (handshakePackage 3 gatewayMd5.server), 0⟩,
    .gate ⟨.data 5 (clientHandshake.bytes.take 9), 0⟩, .client 5 (.send (.sent 29)),
    .client 5 (.recvPackage none fun _ => 0#8), .client 5 (.readstdin (.message typedPing)),
    .client 5 (.send .again), .client 5 (.send (.sent 10)),
    .gate ⟨.data 5 (clientHandshake.bytes.drop 9), 0⟩,
    .gate ⟨.data 5 (package 3 1 [0, 0, 0, 1]), 0⟩,
    .server (.msgdispatch (.bytes ((package 5 1 [0, 0, 0, 1]).take 3)) []),
    .server (.msgdispatch (.bytes ((package 5 1 [0, 0, 0, 1]).drop 3)) [])]

/-- The message goes through all parties, and is heard when nothing is on the way any more. -/
theorem network_heard_ping :
    ∃ (tr : List (Record Network NetworkTurn NetworkAct)) (n : Network),
      tr.map Record.input = pingTurns ∧ n.Quiet 4 5 ∧
      (heardFrom lprotoBytes (oneProt 1 pingFields) 5
        ((serverPart gatewayMd5 lprotoBytes (initprot (oneProt 1 pingFields)) 4).records tr)).length
          = 1 ∧
      heardFrom lprotoBytes (oneProt 1 pingFields) 5
          ((serverPart gatewayMd5 lprotoBytes (initprot (oneProt 1 pingFields)) 4).records tr) =
        typedAt lprotoBytes (oneProt 1 pingFields) 5 3
          ((clientPart gatewayMd5 lprotoBytes (initprot (oneProt 1 pingFields)) 4 5).records tr) := by
  let prot := initprot (oneProt 1 pingFields)
  let gates := gatePart gatewayMd5 lprotoBytes prot 4
  let socket := serverPart gatewayMd5 lprotoBytes prot 4
  have hrun : (execute (networkStep gatewayMd5 lprotoBytes prot 4) (NetworkContract 4)
      (networkInit ⟨4, by decide⟩ 7 3 fun _ => 3) pingTurns).map
      (fun (run : List (Record Network NetworkTurn NetworkAct) × Network) =>
        decide ((outputsOf (gates.records run.1)).filter Act.visible =
          [.start 5, .start 4, .send .toServer 4 (package 5 1 [0, 0, 0, 1]) 0]) &&
        (gates.records run.1).head?.any (fun r => decide (.start 5 ∈ r.output)) &&
        decide (∀ q ∈ (gates.records run.1).tail, ServedBy 4 5 q) &&
        decide (chunksOf 5 (gates.records run.1).tail = [clientHandshake.bytes.take 9,
          clientHandshake.bytes.drop 9, package 3 1 [0, 0, 0, 1]]) &&
        decide ((run.2.clients 5).stage = .receiving ∧ run.2.up 5 = [] ∧ run.2.down 4 = []) &&
        decide (((socket.records run.1).filterMap clientDelivery).map Delivery.chunk =
          [(package 5 1 [0, 0, 0, 1]).take 3, (package 5 1 [0, 0, 0, 1]).drop 3]) &&
        decide (outputsOf (socket.records run.1) =
          [.write 3 (handshakePackage 3 gatewayMd5.server) (.wrote 38),
            .send (handshakePackage 3 gatewayMd5.server) 38,
            .read 3 (.bytes ((package 5 1 [0, 0, 0, 1]).take 3)),
            .read 3 (.bytes ((package 5 1 [0, 0, 0, 1]).drop 3)),
            .callback (some (package 5 1 [0, 0, 0, 1]))])) = some true := by
    decide +kernel
  obtain ⟨⟨tr, n⟩, hexec, hdata⟩ := Option.map_eq_some_iff.mp hrun
  simp only [Bool.and_eq_true, decide_eq_true_eq] at hdata
  obtain ⟨⟨⟨⟨⟨⟨hvisible, hstart⟩, hserved⟩, hchunks⟩, hquiet⟩, hread⟩, hacts⟩ := hdata
  have h := execute_exec hexec
  have hinputs : tr.map Record.input = pingTurns := execute_inputs hexec
  have hgates : (gates.records tr).map Record.input = pingTurns.filterMap NetworkTurn.gateInput := by
    rw [gates.records_inputs, hinputs]
    rfl
  have htyped : typedIn ((clientPart gatewayMd5 lprotoBytes prot 4 5).records tr) = [typedPing] := by
    have hturns := (clientPart gatewayMd5 lprotoBytes prot 4 5).records_inputs tr
    rw [hinputs] at hturns
    rw [typedIn, ← Function.comp_def, ← List.filterMap_map, hturns]
    rfl
  rcases hrecords : gates.records tr with - | ⟨r, mid⟩
  · rw [hrecords] at hstart
    cases hstart
  rw [hrecords] at hvisible hstart hserved hchunks hgates
  simp only [List.head?_cons, Option.any_some, decide_eq_true_eq, List.tail_cons] at hstart hserved hchunks
  have hinput : ∀ q ∈ r :: mid, q.input ∈ pingTurns.filterMap NetworkTurn.gateInput := by
    intro q hq
    rw [← hgates]
    exact List.mem_map_of_mem hq
  have haccept : r.input = ⟨.accept 7 5, 0⟩ := (List.cons.inj hgates).1
  have hstays : ∀ i ∈ pingTurns.filterMap NetworkTurn.gateInput,
      (i.msg ≠ .close 5 ∧ i.msg ≠ .error 5) ∧ 0 ≤ i.wsz := by decide
  have hsends : ∀ q ∈ r :: mid, ∀ site buf w, .send site 4 buf w ∈ q.output → site = .toServer := by
    intro q hq site buf w hmem
    have hvis : .send site 4 buf w ∈ (outputsOf (r :: mid)).filter Act.visible :=
      List.mem_filter.mpr ⟨List.mem_flatMap.mpr ⟨q, hq, hmem⟩, rfl⟩
    rw [hvisible] at hvis
    simp only [List.mem_cons, Act.send.injEq, reduceCtorEq, List.not_mem_nil, or_false,
      false_or] at hvis
    exact hvis.1
  have hlives : Lives 5 r mid :=
    ⟨⟨7, by rw [haccept]⟩, hstart, fun q hq => (hstays _ (hinput q (List.mem_cons_of_mem r hq))).1⟩
  have hup : Uplink 4 5 [] r mid := by
    refine ⟨hsends, ?_, by simp, hserved,
      fun q hq _ _ => (hstays _ (hinput q (List.mem_cons_of_mem r hq))).2⟩
    intro q hq d data hmsg _ hlo
    have hd : d = 4 ∨ d = 5 := by
      have hmem := hinput q hq
      simp only [pingTurns, List.filterMap_cons, List.filterMap_nil, NetworkTurn.gateInput,
        List.mem_cons, List.not_mem_nil, or_false] at hmem
      rcases hmem with hq | hq | hq | hq | hq | hq <;> simp_all
    rcases hd with rfl | rfl
    · exact absurd hlo (by decide)
    · rfl
  have hopen : ∀ q ∈ socket.records tr, ¬ Closes q.output := by
    intro q hq hcloses
    obtain ⟨fd, hclose⟩ := hcloses
    have hmem : .close fd ∈ outputsOf (socket.records tr) :=
      List.mem_flatMap.mpr ⟨q, hq, hclose⟩
    rw [hacts] at hmem
    simp at hmem
  have hpeer : ∀ r ∈ tr, ∀ bytes, r.input ≠ .peer 5 bytes := by
    intro r hr bytes hpeer
    have hmem : r.input ∈ pingTurns := hinputs ▸ List.mem_map_of_mem hr
    rw [hpeer] at hmem
    simp [pingTurns] at hmem
  have hquiet : n.Quiet 4 5 := ⟨.inl hquiet.1, hquiet.2.1, hquiet.2.2⟩
  have hcut : CutSingly (chunksOf 5 mid) := by
    rw [hchunks]
    exact ⟨[clientHandshake, packageFrame 3 1 [0, 0, 0, 1] (by decide)], by decide, by decide⟩
  have hcut' : CutSingly (((socket.records tr).filterMap clientDelivery).map Delivery.chunk) := by
    rw [hread]
    exact ⟨[packageFrame 5 1 [0, 0, 0, 1] (by decide)], by decide, by decide⟩
  have hall := network_heard _ 7 4 5 3 (fun _ => 3) lprotoBytes_lossless lprotoBytes_bigEndian h
    (by decide) (by decide) hpeer (by decide)
    (fun m hm => by rw [htyped, List.mem_singleton] at hm; exact hm ▸ typedPing_sound) hrecords
    hlives hup (by decide) hopen
  refine ⟨tr, n, hinputs, hquiet, ?_, hall.2 hquiet hcut hcut'⟩
  rw [heardFrom, List.length_map, hacts]
  decide

end NetgameFormal
