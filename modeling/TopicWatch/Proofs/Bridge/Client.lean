import TopicWatch.Bridge.Client
import TopicWatch.Proofs.Bridge.Connection

/-!
# What a call to a reachable server comes to

Only the length of a request decides its call. Within both limits it is handled once and
answered, above the client's limit it is not sent, and above the server's limit it costs the
connection. In each case the next call finds an open connection or none.
-/

namespace TopicWatch.Bridge

variable {σ : Type} {handle : Handler σ}

/-- What a call to a reachable server gives, when the server would answer with `a`. -/
def resultOf (client server : Framing) (r : Request) (a : Ack) : Except Error Ack :=
  if client.limit < r.encode.length then
    .error (.frame (.tooLarge r.encode.length client.limit))
  else if server.limit < r.encode.length then .error (.frame .cutShort)
  else .ok a

/-- Whether a request is within the limits of both sides. -/
def Fits (client server : Framing) (r : Request) : Prop :=
  r.encode.length ≤ min client.limit server.limit

instance (client server : Framing) : DecidablePred (Fits client server) :=
  fun _ => inferInstanceAs (Decidable (_ ≤ _))

theorem fits_iff (client server : Framing) (r : Request) :
    Fits client server r ↔ ¬client.limit < r.encode.length ∧ ¬server.limit < r.encode.length := by
  unfold Fits
  omega

namespace Peer

theorem server_exchange_of_le {server : Framing} {r : Request}
    (h : r.encode.length ≤ server.limit) (state : σ) :
    (Peer.server handle server).exchange (state, true)
        (Framing.header r.encode.length ++ r.encode) =
      (((handle state r).1, true),
        ⟨Framing.header (handle state r).2.encode.length ++ (handle state r).2.encode, false⟩) := by
  have hanswer : (handle state r).2.encode.length ≤ server.limit :=
    Nat.le_trans (length_answer_le_request _ r) h
  simp only [Peer.server, if_true, Handler.serve_request handle h, Served.wire, List.flatMap_cons,
    List.flatMap_nil, Framing.frame_of_le hanswer, List.append_nil]
  rfl

theorem server_exchange_of_lt {server : Framing} {r : Request}
    (h : server.limit < r.encode.length) (hwide : r.encode.length ≤ Framing.widest) (state : σ) :
    (Peer.server handle server).exchange (state, true)
        (Framing.header r.encode.length ++ r.encode) =
      ((state, false), ⟨[], true⟩) := by
  simp only [Peer.server, if_true, Handler.serve,
    Handler.serveAfter_tooLarge handle h hwide, Served.wire]
  rfl

end Peer

namespace Client

theorem readAnswer_of_le {client : Framing} {a : Ack} (h : a.encode.length ≤ client.limit) :
    readAnswer client ⟨Framing.header a.encode.length ++ a.encode, false⟩ = .ok a := by
  have hread := Framing.read_of_le h []
  rw [List.append_nil] at hread
  simp only [readAnswer, hread, Ack.decode_encode]

theorem exists_of_readAnswer {client : Framing} {reply : Reply} {a : Ack}
    (h : readAnswer client reply = .ok a) :
    ∃ payload rest, client.read reply.bytes = .frame payload rest ∧
      Ack.decode payload = .ok a := by
  unfold readAnswer at h
  split at h
  · next payload rest hread =>
      split at h
      · next hdecode => exact ⟨payload, rest, hread, Except.ok.inj h ▸ hdecode⟩
      · exact absurd h (by simp)
  all_goals exact absurd h (by simp)

variable (handle)

/-- The three cases of a call on a connection that the server still serves. -/
theorem exchange_server (c : Client) (server : Framing) (state : σ) (r : Request) :
    c.exchange (Peer.server handle server) (state, true) r =
      (resultOf c.framing server r (handle state r).2,
        if c.framing.limit < r.encode.length then (state, true)
        else if server.limit < r.encode.length then (state, false)
        else ((handle state r).1, true)) := by
  unfold exchange resultOf
  by_cases hclient : c.framing.limit < r.encode.length
  · simp only [Framing.frame_of_lt hclient, hclient, if_true]
  · have hwide : r.encode.length ≤ Framing.widest :=
      Nat.le_trans (Nat.not_lt.1 hclient) c.framing.limit_le_widest
    simp only [Framing.frame_of_le (Nat.not_lt.1 hclient), hclient, if_false]
    by_cases hserver : server.limit < r.encode.length
    · simp only [Peer.server_exchange_of_lt hserver hwide, hserver, if_true]
      rfl
    · have hanswer : (handle state r).2.encode.length ≤ c.framing.limit :=
        Nat.le_trans (length_answer_le_request _ r) (Nat.not_lt.1 hclient)
      simp only [Peer.server_exchange_of_le (Nat.not_lt.1 hserver), hserver, if_false,
        readAnswer_of_le hanswer]

/-- A client and a server are in step when the server still serves the connection that the
client keeps. -/
def InStep (c : Client) (alive : Bool) : Prop := c.connected = true → alive = true

theorem inStep_of_not_connected {c : Client} (h : c.connected = false) : c.InStep false :=
  fun hconnected => h.symm.trans hconnected

/-- A call gives its result, has its request handled exactly if it fits, and leaves the two
sides in step. -/
theorem call_server {c : Client} {alive : Bool} (h : c.InStep alive) (server : Framing)
    (state : σ) (r : Request) :
    ∃ connected alive',
      c.call (Peer.server handle server) (state, alive) r =
        (resultOf c.framing server r (handle state r).2, { c with connected },
          (if Fits c.framing server r then (handle state r).1 else state, alive')) ∧
      InStep { c with connected } alive' := by
  have hopened : (if c.connected then .ok (state, alive)
      else (Peer.server handle server).connect (state, alive) : Except String (σ × Bool)) =
        .ok (state, true) := by
    by_cases hconnected : c.connected = true
    · rw [if_pos hconnected, h hconnected]
    · rw [if_neg hconnected]
      rfl
  have hdone := exchange_server handle c server state r
  unfold call
  simp only [hopened, hdone, after, resultOf, fits_iff]
  by_cases hclient : c.framing.limit < r.encode.length
  · refine ⟨false, true, ?_, fun hfalse => absurd hfalse Bool.false_ne_true⟩
    simp only [hclient, if_true, not_true, false_and, if_false]
  · by_cases hserver : server.limit < r.encode.length
    · refine ⟨false, false, ?_, fun hfalse => hfalse⟩
      simp only [hclient, hserver, if_true, if_false, not_true, and_false]
    · refine ⟨true, true, ?_, fun htrue => htrue⟩
      simp only [hclient, hserver, if_false, not_false_eq_true, and_true, if_true]

end Client

end TopicWatch.Bridge
