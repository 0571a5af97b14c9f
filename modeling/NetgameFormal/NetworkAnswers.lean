import NetgameFormal.Downlink
import NetgameFormal.DuplexStream
import NetgameFormal.GateTrust
import NetgameFormal.Network

/-!
# Answers across the network

What the server's script sends passes the write buffers of its socket and the
gateway before the script of a client takes it apart into packages. Each of
them may hold a part of the stream, and each may cut it anew.
-/

set_option autoImplicit false

namespace NetgameFormal

open Framing (Frame stream delivered)

/-! ## The reading half of the script -/

def ClientTurnAct.returned : ClientTurnAct → Option LuaString
  | .taken _ => none
  | .package v => some v

def returnedIn (acts : List ClientTurnAct) : List LuaString := acts.filterMap ClientTurnAct.returned

/-- The first `done` of the frames `done ++ later` are returned, and a part of the rest is kept. -/
structure Hearing (done later : List (Frame beNat)) (read : List Byte) (returned : List LuaString)
    (s : ClientSession) : Prop where
  returned : returned = done.map Frame.payload
  kept : stream done ++ s.last = read

section
variable {lp : LprotoC} {prot : Int → Option Prot} {fd : Int} {s s' : ClientSession}
variable {turn : ClientTurn} {o : List ClientTurnAct} {received : Option LuaString}
variable {done later fs : List (Frame beNat)} {read : List Byte} {returned : List LuaString}

section
variable (lp prot)

theorem receivePackage_returns (beyond : Memory) {v last : LuaString} {rest : Incoming}
    (h : recvPackage s.last [received] = some (some v, last, rest)) :
    (receivePackage lp prot s received beyond).1.last = last ∧
      returnedIn (receivePackage lp prot s received beyond).2 = [v] := by
  simp only [receivePackage, h]
  split <;> exact ⟨rfl, rfl⟩

theorem receivePackage_waits (beyond : Memory) {last : LuaString} {rest : Incoming}
    (h : recvPackage s.last [received] = some (none, last, rest)) :
    (receivePackage lp prot s received beyond).1.last = last ∧
      returnedIn (receivePackage lp prot s received beyond).2 = [] := by
  unfold receivePackage
  rw [h]
  exact ⟨rfl, rfl⟩

theorem receivePackage_closed (beyond : Memory) (h : recvPackage s.last [received] = none) :
    (receivePackage lp prot s received beyond).1.last = s.last ∧
      returnedIn (receivePackage lp prot s received beyond).2 = [] := by
  unfold receivePackage
  rw [h]
  exact ⟨rfl, rfl⟩

end

theorem recvPackage_next {beyond : Memory} {rest : List Byte}
    (hsplit : s.last ++ (s.reads (.recvPackage received beyond) ++ rest) = stream fs) :
    (∃ f fs' last incoming, fs = f :: fs' ∧ last ++ rest = stream fs' ∧
        recvPackage s.last [received] = some (some f.payload, last, incoming)) ∨
      (∃ incoming, recvPackage s.last [received] =
        some (none, s.last ++ s.reads (.recvPackage received beyond), incoming)) ∨
      (s.reads (.recvPackage received beyond) = [] ∧ recvPackage s.last [received] = none) := by
  rcases unpackPackage_stream hsplit with ⟨f, fs', last, rfl, hlast, hunpack⟩ | ⟨-, hunpack⟩
  · have hreads : s.reads (.recvPackage received beyond) = [] := by
      simp [ClientSession.reads, hunpack]
    rw [hreads, List.nil_append] at hlast
    exact .inl ⟨f, fs', last, [received], rfl, hlast, by simp [recvPackage, hunpack]⟩
  · have hreads : s.reads (.recvPackage received beyond) = received.getD [] := by
      simp [ClientSession.reads, hunpack]
    rw [hreads] at hsplit ⊢
    cases received with
    | none => exact .inr (.inl ⟨[], by simp [recvPackage, hunpack]⟩)
    | some r =>
      by_cases hr : r = []
      · exact .inr (.inr ⟨hr, by simp [recvPackage, hunpack, hr]⟩)
      · rw [Option.getD_some, ← List.append_assoc] at hsplit
        rcases unpackPackage_stream hsplit with ⟨f, fs', last, rfl, hlast, hagain⟩ | ⟨-, hagain⟩
        · exact .inl ⟨f, fs', last, [], rfl, hlast, by simp [recvPackage, hunpack, hr, hagain]⟩
        · exact .inr (.inl ⟨[], by simp [recvPackage, hunpack, hr, hagain]⟩)

theorem Hearing.receive {beyond : Memory} (h : Hearing done later read returned s)
    (hread : read ++ s.reads (.recvPackage received beyond) <+: stream (done ++ later)) :
    ∃ done' later', done ++ later = done' ++ later' ∧
      Hearing done' later' (read ++ s.reads (.recvPackage received beyond))
        (returned ++ returnedIn (receivePackage lp prot s received beyond).2)
        (receivePackage lp prot s received beyond).1 := by
  obtain ⟨hreturned, hkept⟩ := h
  obtain ⟨rest, hrest⟩ := hread
  have hsplit : s.last ++ (s.reads (.recvPackage received beyond) ++ rest) = stream later := by
    rw [← hkept, Framing.stream_append, List.append_assoc, List.append_assoc] at hrest
    exact List.append_cancel_left hrest
  rcases recvPackage_next hsplit with
    ⟨f, later', last, incoming, rfl, hlast, hrecv⟩ | ⟨incoming, hrecv⟩ | ⟨hreads, hrecv⟩
  · obtain ⟨hlast', hreturns⟩ := receivePackage_returns lp prot beyond hrecv
    refine ⟨done ++ [f], later', by simp, ?_, ?_⟩
    · rw [hreturns, hreturned, List.map_append]
      rfl
    · have hwhole : stream (done ++ [f]) ++ last ++ rest =
          read ++ s.reads (.recvPackage received beyond) ++ rest := by
        rw [List.append_assoc, hlast, ← Framing.stream_append, hrest, List.append_assoc]
        rfl
      rw [hlast', List.append_cancel_right hwhole]
  · obtain ⟨hlast', hreturns⟩ := receivePackage_waits lp prot beyond hrecv
    refine ⟨done, later, rfl, ?_, ?_⟩
    · rw [hreturns, hreturned, List.append_nil]
    · rw [hlast', ← List.append_assoc, hkept]
  · obtain ⟨hlast', hreturns⟩ := receivePackage_closed lp prot beyond hrecv
    refine ⟨done, later, rfl, ?_, ?_⟩
    · rw [hreturns, hreturned, List.append_nil]
    · rw [hlast', hreads, hkept, List.append_nil]

theorem ClientTurned.still (h : ClientTurned lp prot s turn s' o)
    (hturn : ∀ received beyond, turn ≠ .recvPackage received beyond) :
    s'.last = s.last ∧ returnedIn o = [] ∧ s.reads turn = [] := by
  cases h with
  | greeted _ _ => exact ⟨rfl, rfl, rfl⟩
  | sent _ => exact ⟨rfl, rfl, rfl⟩
  | again _ => exact ⟨rfl, rfl, rfl⟩
  | error _ => exact ⟨rfl, rfl, rfl⟩
  | read _ _ _ => exact absurd rfl (hturn _ _)
  | untyped _ _ _ => exact ⟨rfl, rfl, rfl⟩
  | unpacked _ _ => exact ⟨rfl, rfl, rfl⟩
  | packed _ _ => exact ⟨rfl, rfl, rfl⟩

theorem Hearing.step (h : Hearing done later read returned s)
    (hrun : clientTurn lp prot s turn = some (s', o))
    (hread : read ++ s.reads turn <+: stream (done ++ later)) :
    ∃ done' later', done ++ later = done' ++ later' ∧
      Hearing done' later' (read ++ s.reads turn) (returned ++ returnedIn o) s' := by
  by_cases hturn : ∃ received beyond, turn = .recvPackage received beyond
  · obtain ⟨received, beyond, rfl⟩ := hturn
    simp only [clientTurn, Option.ite_none_right_eq_some, Option.some.injEq] at hrun
    obtain ⟨-, heq⟩ := hrun
    obtain ⟨rfl, rfl⟩ : s' = (receivePackage lp prot s received beyond).1 ∧
        o = (receivePackage lp prot s received beyond).2 := by
      rw [heq]
      exact ⟨rfl, rfl⟩
    exact h.receive hread
  · obtain ⟨hlast, hreturns, hreads⟩ := (clientTurn_cases hrun).still
      fun received beyond heq => hturn ⟨received, beyond, heq⟩
    refine ⟨done, later, rfl, ?_, ?_⟩
    · rw [hreturns, List.append_nil, h.returned]
    · rw [hlast, hreads, List.append_nil, h.kept]

theorem Hearing.all (h : Hearing done later (stream (done ++ later)) returned s)
    (hdrained : (unpackPackage s.last).1 = none) : later = [] := by
  have hkept := h.kept
  rw [Framing.stream_append] at hkept
  have hlast : s.last = stream later := List.append_cancel_left hkept
  cases later with
  | nil => rfl
  | cons f later =>
    rw [hlast, Framing.stream_cons, unpackPackage_bytes] at hdrained
    cases hdrained

end

/-! ## The wires of the way back -/

section
variable {md5 : HandshakeMd5} {lp : LprotoC} {prot : Int → Option Prot} {s c : Int}
variable {n n₀ : Network} {tr : List (Record Network NetworkTurn NetworkAct)}

end

/-! ## Strangers -/

section
variable {md5 : HandshakeMd5} {c s : Int} {g : Gate}
variable {front mid : List (Record Gate GateInput Act)} {r : Record Gate GateInput Act}

end

section
variable {md5 : HandshakeMd5} {lp : LprotoC} {prot : Int → Option Prot} {s : Int}
variable {n n₀ : Network} {tr : List (Record Network NetworkTurn NetworkAct)}

theorem bytesOf_said (h : Exec (networkStep md5 lp prot s) (NetworkContract s) n₀ tr n) {c : Int}
    (hup : n₀.up c = []) :
    bytesOf c ((gatePart md5 lp prot s).records tr) <+: tr.flatMap (saidBy s c) := by
  rw [← readFrom_eq]
  exact (upWire md5 lp prot s c).in_order hup h

theorem network_trusts (hmd5 : md5.ZeroFree) {max : Capacity} {listenId fd : Int} {fdOf : Int → Int}
    (h : Exec (networkStep md5 lp prot s) (NetworkContract s) (networkInit max listenId fd fdOf) tr n) :
    Trusts md5 (fun c => tr.flatMap (saidBy s c)) n.gate :=
  (gate_trusts hmd5 (gate_run h)).mono fun _ => (bytesOf_said h rfl).isInfix

end

/-- In every run of the network, whatever strangers say and in whatever order the parties take their
steps: the server id, if there is one, is that of a connection that has said the string of the server
in a handshake frame, and so is every connection with the role of the server. Whatever the gateway
sends goes to such a connection or is asked for by its bytes, and it had said the string before. -/
theorem network_authentic (md5 : HandshakeMd5) (hmd5 : md5.ZeroFree) (lp : LprotoC)
    (prot : Int → Option Prot) (max : Capacity) (listenId s fd : Int) (fdOf : Int → Int)
    {tr : List (Record Network NetworkTurn NetworkAct)} {n : Network}
    (h : Exec (networkStep md5 lp prot s) (NetworkContract s) (networkInit max listenId fd fdOf) tr n) :
    Trusts md5 (fun c => tr.flatMap (saidBy s c)) n.gate ∧
      ∀ front r back i, tr = front ++ r :: back → r.input = .gate i →
        ∀ site c buf w, .gate (.send site c buf w) ∈ r.output →
          Utters md5.server (front.flatMap (saidBy s c)) ∨
            ∃ d data, i.msg = .data d data ∧ Utters md5.server (front.flatMap (saidBy s d)) := by
  refine ⟨network_trusts hmd5 h, ?_⟩
  rintro front r back i rfl hi site c buf w hmem
  obtain ⟨m, hfront, hback⟩ := h.split
  obtain ⟨rfl, hcontract, hstep, -⟩ := hback.cons_inv
  rw [hi] at hcontract hstep
  have hok : GateOk r.pre.gate := gate_invariant (gate_run hfront)
  generalize hoff : r.output = off at hmem hstep
  generalize r.post = post at hstep
  cases networkStep_cases hstep with
  | gate hgate =>
    obtain ⟨a, ha, hsend⟩ := List.mem_map.mp hmem
    obtain rfl := NetworkAct.gate.inj hsend
    exact (network_trusts hmd5 hfront).sends hok (dispatch_step hok hcontract.1 hgate) ha

theorem network_authentic_stranger :
    ∃ (tr : List (Record Network NetworkTurn NetworkAct)) (n : Network), n.gate.sid = 4 ∧
      .gate (.send .toServer 4 (package 5 1 [8, 9]) 0) ∈ outputsOf tr ∧
      Utters gatewayMd5.server (tr.flatMap (saidBy 4 4)) ∧
      ¬ Utters gatewayMd5.server (tr.flatMap (saidBy 4 5)) := by
  let prot := initprot (oneProt 1 pingFields)
  have hrun : (execute (networkStep gatewayMd5 lprotoBytes prot 4) (NetworkContract 4)
      (networkInit ⟨4, by decide⟩ 7 3 fun _ => 3)
      [.gate ⟨.accept 7 4, 0⟩, .gate ⟨.accept 7 5, 0⟩,
        .server (.send (handshakePackage 3 gatewayMd5.server) (.wrote 38)),
        .peer 5 (handshakePackage 3 gatewayMd5.client ++ package 0 1 [8, 9]),
        .gate ⟨.data 4 (handshakePackage 3 gatewayMd5.server), 0⟩,
        .gate ⟨.data 5 (handshakePackage 3 gatewayMd5.client), 0⟩,
        .gate ⟨.data 5 (package 0 1 [8, 9]), 0⟩]).map (fun run => (run.2.gate.sid,
      decide (.gate (.send .toServer 4 (package 5 1 [8, 9]) 0) ∈ outputsOf run.1),
      decide (gatewayMd5.server <:+: run.1.flatMap (saidBy 4 5)))) = some (4, true, false) := by
    decide +kernel
  obtain ⟨tr, n, h, hdata⟩ := exists_exec _ hrun
  simp only [Prod.mk.injEq, decide_eq_true_eq, decide_eq_false_iff_not] at hdata
  obtain ⟨hsid, hsend, hunsaid⟩ := hdata
  obtain ⟨htrusts, -⟩ := network_authentic gatewayMd5 gatewayMd5_zeroFree lprotoBytes prot _ 7 4 3
    (fun _ => 3) h
  refine ⟨tr, n, hsid, hsend, ?_, fun huttered => hunsaid huttered.isInfix⟩
  have huttered := htrusts.sid (by omega)
  rwa [hsid] at huttered

/-! ## The way back -/

end NetgameFormal
