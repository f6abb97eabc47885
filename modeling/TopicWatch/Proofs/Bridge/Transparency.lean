import TopicWatch.Bridge.Forwarder
import TopicWatch.Intercept.Callback
import TopicWatch.Proofs.Bridge.Client
import TopicWatch.Sink

/-!
# The bridge is transparent

What the interceptors of an application are called with ends up in the store of the test
process as if each record had been filed where it was met, except for the requests that are
too long for either side. Those are lost one by one.
-/

namespace TopicWatch

open Record Topic Bridge

namespace Bridge.Forwarder

variable (suffixes : Suffixes) (server : Framing)

/-- Draining a queue files the requests that fit, in order, and makes every call once. -/
theorem drain_server (queue : List Request) (store : Store) {c : Client} {alive : Bool}
    (h : c.InStep alive) :
    ∃ connected alive',
      drain c (Peer.server (Sink.accept suffixes) server) (store, alive) queue =
        (queue.map fun r => resultOf c.framing server r (Sink.answer r), { c with connected },
          (Sink.acceptAll suffixes store (queue.filter (Fits c.framing server ·)),
            alive')) := by
  -- what a call leaves of the connection is what the next one begins with
  induction queue generalizing store c alive with
  | nil => exact ⟨c.connected, alive, rfl⟩
  | cons r queue ih =>
      obtain ⟨connected, alive', hcall, hstep⟩ :=
        Client.call_server (Sink.accept suffixes) h server store r
      obtain ⟨connected', alive'', hdrain⟩ :=
        ih (if Fits c.framing server r then (Sink.accept suffixes store r).1 else store) hstep
      refine ⟨connected', alive'', ?_⟩
      simp only [drain, hcall, hdrain, List.map_cons, List.filter_cons, decide_eq_true_eq]
      by_cases hfits : Fits c.framing server r
      · simp only [hfits, if_true]
        rfl
      · simp only [hfits, if_false]
        rfl

/-- The health check before the first call changes nothing in the store. -/
theorem run_server (queue : List Request) (store : Store) {c : Client} {alive : Bool}
    (h : c.InStep alive) :
    ∃ connected alive',
      run c (Peer.server (Sink.accept suffixes) server) (store, alive) queue =
        (queue.map fun r => resultOf c.framing server r (Sink.answer r), { c with connected },
          (Sink.acceptAll suffixes store (queue.filter (Fits c.framing server ·)),
            alive')) := by
  obtain ⟨connected, alive', hcall, hstep⟩ :=
    Client.call_server (Sink.accept suffixes) h server store .healthCheck
  have hsame : (if Fits c.framing server .healthCheck then
      (Sink.accept suffixes store .healthCheck).1 else store) = store := by
    split <;> rfl
  rw [hsame] at hcall
  obtain ⟨connected', alive'', hdrain⟩ := drain_server suffixes server queue store hstep
  refine ⟨connected', alive'', ?_⟩
  simp only [run, Client.checkHealth, hcall, hdrain]

end Bridge.Forwarder

namespace Intercept

/-- What filing records where they are met has come to: the number of the next id, and the
store. -/
structure Filing where
  next : Nat
  store : Store

namespace Filing

variable (suffixes : Suffixes) (ids : Nat → String) (greatest : Nat)

/-- Files a request at once, unless it is longer than a limit. It draws an id in any case. -/
def file (f : Filing) (request : String → Request) : Filing :=
  let r := request (ids f.next)
  ⟨f.next + 1,
    if r.encode.length ≤ greatest then (Sink.accept suffixes f.store r).1 else f.store⟩

/-- Files the records of a call of an interceptor one by one. -/
def call (f : Filing) : Callback → Filing
  | .sent r => f.file suffixes ids greatest fun id => .published (r.toPublished id)
  | .consumed rs =>
      rs.foldl (fun g r => g.file suffixes ids greatest fun id => .consumed (r.toConsumed id)) f
  | .committed es =>
      es.foldl (fun g e => g.file suffixes ids greatest fun id => .committed (e.toCommitted id)) f
  | .acknowledged r => f.file suffixes ids greatest fun id => .acknowledged (r.toAcknowledged id)

theorem call_eq_foldl (f : Filing) (c : Callback) :
    f.call suffixes ids greatest c =
      c.events.foldl (fun g e => g.file suffixes ids greatest fun id => e.toRequest id) f := by
  cases c with
  | sent r => rfl
  | consumed rs =>
      rw [Callback.events, List.foldl_map]
      rfl
  | committed es =>
      rw [Callback.events, List.foldl_map]
      rfl
  | acknowledged r => rfl

/-- Filing records one by one files, in order, those of their requests that are not too long. -/
theorem foldl_events (events : List Event) (f : Filing) :
    (events.foldl (fun g e => g.file suffixes ids greatest fun id => e.toRequest id) f).store =
      Sink.acceptAll suffixes f.store
        (((events.zipIdx f.next).map fun e => e.1.toRequest (ids e.2)).filter
          (·.encode.length ≤ greatest)) := by
  induction events generalizing f with
  | nil => rfl
  | cons e events ih =>
      rw [List.foldl_cons, ih, List.zipIdx_cons, List.map_cons, List.filter_cons]
      by_cases hfits : (e.toRequest (ids f.next)).encode.length ≤ greatest
      · simp only [file, hfits, if_true, decide_true]
        rfl
      · simp only [file, hfits, if_false, decide_false, Bool.false_eq_true]

theorem foldl_calls (calls : List Callback) (f : Filing) :
    (calls.foldl (call suffixes ids greatest) f).store =
      Sink.acceptAll suffixes f.store
        ((requests ids f.next calls).filter (·.encode.length ≤ greatest)) := by
  have hflat : calls.foldl (call suffixes ids greatest) f =
      (calls.flatMap Callback.events).foldl
        (fun g e => g.file suffixes ids greatest fun id => e.toRequest id) f := by
    rw [List.foldl_flatMap]
    congr 1
    funext g c
    exact call_eq_foldl suffixes ids greatest g c
  rw [hflat, foldl_events, requests]

end Filing

/-- A bridge between the interceptors and the store is transparent. The store ends as if every
record had been filed under the id that it drew at the moment of its call, in the order of
the calls, except for the requests above the limit of either side. Every request is called
once, and every one within both limits is answered, whatever became of those before it. -/
theorem bridged_eq_filed (suffixes : Suffixes) (ids : Nat → String) (address : String)
    (client server : Framing) (store : Store) (calls : List Callback) :
    let peer := Peer.server (Sink.accept suffixes) server
    let bridged :=
      Forwarder.run ⟨address, client, false⟩ peer (store, false) (requests ids 0 calls)
    let filed :=
      calls.foldl (Filing.call suffixes ids (min client.limit server.limit)) ⟨0, store⟩
    bridged.2.2.1 = filed.store ∧
      bridged.1 = (requests ids 0 calls).map fun r =>
        if client.limit < r.encode.length then
          .error (.frame (.tooLarge r.encode.length client.limit))
        else if server.limit < r.encode.length then .error (.frame .cutShort)
        else .ok (Sink.answer r) := by
  intro peer bridged filed
  obtain ⟨connected, alive, hrun⟩ := Forwarder.run_server suffixes server (requests ids 0 calls)
    store (Client.inStep_of_not_connected (c := ⟨address, client, false⟩) rfl)
  have hbridged : bridged = _ := hrun
  rw [hbridged]
  refine ⟨?_, rfl⟩
  exact (Filing.foldl_calls suffixes ids (min client.limit server.limit) calls ⟨0, store⟩).symm

end Intercept

end TopicWatch
