import TopicWatch.Bridge.Traffic
import TopicWatch.Proofs.Bridge.Client
import TopicWatch.Proofs.Bridge.Stream

/-!
# What is on its way

The bytes of a call that the server has not read are the beginning of one frame, on one
connection. Once they are the whole frame and the server has read it, what is on its way back
is the beginning of the answer. Whatever else happens to a connection, it only loses bytes.
-/

namespace TopicWatch.Bridge

open Framing

theorem map_snd_tagged (call : Nat) (bytes : Bytes) :
    (tagged call bytes).map Prod.snd = bytes := by
  rw [tagged, List.map_map]
  exact List.map_id bytes

theorem fst_of_mem_tagged {call : Nat} {bytes : Bytes} {x : Nat × UInt8}
    (h : x ∈ tagged call bytes) : x.1 = call := by
  obtain ⟨_, _, rfl⟩ := List.mem_map.1 h
  rfl

theorem Wire.requests_reply (w : Wire) (call : Nat) (answer : Except FrameError Bytes) :
    (w.reply w.requests.length call answer).requests = [] := by
  cases answer with
  | ok bytes => exact List.drop_length
  | error e => rfl

variable {σ : Type}

namespace Endpoints

/-- What the client sends for a call: its request in a frame. -/
def Sends (p : Endpoints σ) (call : Nat) (bytes : Bytes) : Prop :=
  ∃ r, p.calls[call]? = some r ∧ p.client.frame r.encode = .ok bytes

/-- From a state, the server handles the requests of calls in this order with these answers, and
is then in this state. -/
inductive Handles (p : Endpoints σ) (state : σ) : List (Nat × Ack) → σ → Prop
  | nothing : Handles p state [] state
  | next {log : List (Nat × Ack)} {s : σ} {call : Nat} {r : Request} (h : Handles p state log s)
      (hr : p.calls[call]? = some r) :
      Handles p state (log ++ [(call, (p.handle s r).2)]) (p.handle s r).1

/-- What the connection of a call can look like, of which some bytes are left to be sent: the
others are on their way and none has been read, or the call was handled and some of its answer
is on its way, or nothing is on its way any more. -/
inductive Awaits (p : Endpoints σ) (log : List (Nat × Ack)) (call : Nat) : Bytes → Wire → Prop
  | sent {sent left : Bytes} (h : p.Sends call (sent ++ left)) (hnew : call ∉ log.map Prod.fst) :
      Awaits p log call left ⟨tagged call sent, [], true⟩
  | answered {a : Ack} {part : Bytes} {served : Bool} (h : (call, a) ∈ log)
      (hwide : a.encode.length ≤ widest) (hpart : part <+: framed a.encode) :
      Awaits p log call [] ⟨[], tagged call part, served⟩
  | lost {left : Bytes} : Awaits p log call left ⟨[], [], false⟩

variable {p : Endpoints σ} {log : List (Nat × Ack)}

theorem Handles.exists_of_mem {state s : σ} (h : p.Handles state log s) {call : Nat} {a : Ack}
    (hmem : (call, a) ∈ log) :
    ∃ before s' r, before ++ [(call, a)] <+: log ∧ p.Handles state before s' ∧
      p.calls[call]? = some r ∧ (p.handle s' r).2 = a := by
  induction h with
  | nothing => exact absurd hmem List.not_mem_nil
  | @next log s call' r h hr ih =>
      obtain hmem | hmem := List.mem_append.1 hmem
      · obtain ⟨before, s', r', hprefix, hrest⟩ := ih hmem
        exact ⟨before, s', r', hprefix.trans (List.prefix_append _ _), hrest⟩
      · obtain ⟨rfl, rfl⟩ := Prod.mk.inj (List.mem_singleton.1 hmem)
        exact ⟨log, s, r, List.prefix_refl _, h, hr, rfl⟩

namespace Awaits

variable {call : Nat} {left : Bytes} {w : Wire}

theorem call_of_request (h : p.Awaits log call left w) {k : Nat} {b : UInt8}
    (hb : (k, b) ∈ w.requests) : k = call ∧ call ∉ log.map Prod.fst := by
  cases h with
  | sent h hnew => exact ⟨fst_of_mem_tagged hb, hnew⟩
  | answered | lost => exact absurd hb List.not_mem_nil

theorem call_of_answer (h : p.Awaits log call left w) {x : Nat × UInt8} (hx : x ∈ w.answers) :
    x.1 = call := by
  cases h with
  | sent | lost => exact absurd hx List.not_mem_nil
  | answered => exact fst_of_mem_tagged hx

theorem sends (h : p.Awaits log call left w) (hne : w.requests ≠ []) :
    ∃ k sent left, w.requests = tagged k sent ∧ p.Sends k (sent ++ left) := by
  cases h with
  | sent h => exact ⟨_, _, _, rfl, h⟩
  | answered | lost => exact absurd rfl hne

/-- When the client has a frame to read, it is the whole answer to the call. -/
theorem of_frame (h : p.Awaits log call left w) {payload rest : Bytes}
    (hread : p.client.read (w.answers.map Prod.snd) = .frame payload rest) :
    w.requests = [] ∧ rest = [] ∧ ∃ a, (call, a) ∈ log ∧ payload = a.encode := by
  cases h with
  | sent | lost => exact absurd hread (by simp [Framing.read])
  | answered h hwide hpart =>
      rw [map_snd_tagged] at hread
      obtain ⟨hpayload, hrest, -⟩ := frame_of_read_prefix hwide hpart hread
      exact ⟨rfl, hrest, _, h, hpayload⟩

/-- When the server has the whole frame of a call, nothing is left to be sent. -/
theorem left_eq_nil (h : p.Awaits log call left w) {b : UInt8} (hb : (call, b) ∈ w.requests)
    {r : Request} (hr : p.calls[call]? = some r)
    (hrequests : w.requests = tagged call (framed r.encode)) : left = [] := by
  cases h with
  | @sent sent left h =>
      obtain ⟨r', hr', hframe⟩ := h
      obtain rfl := Option.some.inj (hr'.symm.trans hr)
      have hsent := congrArg (List.map Prod.snd) hrequests
      rw [map_snd_tagged, map_snd_tagged] at hsent
      have hframed := (eq_framed_of_frame hframe).2
      rw [hsent] at hframed
      exact List.append_right_eq_self.1 hframed
  | answered | lost => exact absurd hb List.not_mem_nil

theorem send (h : p.Awaits log call left w) (size : Nat) :
    p.Awaits log call (left.drop size) (w.send call (left.take size)) := by
  cases h with
  | @sent sent left h hnew =>
      rw [Wire.send, if_pos rfl, tagged, tagged, ← List.map_append]
      refine .sent ?_ hnew
      rwa [List.append_assoc, List.take_append_drop]
  | @answered a part served h hwide hpart =>
      have hnothing : Wire.send ⟨[], tagged call part, served⟩ call [] =
          ⟨[], tagged call part, served⟩ := by
        cases served <;> rfl
      rw [List.take_nil, List.drop_nil, hnothing]
      exact .answered h hwide hpart
  | lost => exact .lost

theorem close (h : p.Awaits log call left w) (arriving : Nat) :
    p.Awaits log call left (w.close arriving) := by
  cases h with
  | sent | lost =>
      rw [Wire.close, List.take_nil]
      exact .lost
  | answered h hwide hpart =>
      rw [Wire.close, tagged, ← List.map_take]
      exact .answered h hwide ((List.take_prefix _ _).trans hpart)

theorem drop (h : p.Awaits log call left w) :
    p.Awaits log call left { w with answers := [] } := by
  cases h with
  | sent h hnew => exact .sent h hnew
  | @answered a _ _ h hwide =>
      have hnothing : [] <+: framed a.encode := List.nil_prefix
      exact .answered h hwide hnothing
  | lost => exact .lost

/-- The server handles the call, and answers it unless its limit refuses the answer. -/
theorem reply (h : p.Awaits log call [] w) (hne : w.requests ≠ []) (a : Ack) :
    p.Awaits (log ++ [(call, a)]) call []
      (w.reply w.requests.length call (p.server.frame a.encode)) := by
  cases h with
  | sent =>
      cases hframe : p.server.frame a.encode with
      | ok bytes =>
          obtain ⟨hwide, rfl⟩ := eq_framed_of_frame hframe
          simp only [Wire.reply, List.drop_length, List.nil_append]
          exact .answered (List.mem_append_right _ (List.mem_singleton_self _)) hwide
            (List.prefix_refl _)
      | error e => exact .lost
  | answered | lost => exact absurd rfl hne

/-- The server handles another call. -/
theorem other (h : p.Awaits log call left w) {k : Nat} (hk : call ≠ k) (a : Ack) :
    p.Awaits (log ++ [(k, a)]) call left w := by
  cases h with
  | sent h hnew =>
      refine .sent h ?_
      rw [List.map_append, List.mem_append]
      rintro (hmem | hmem)
      · exact hnew hmem
      · exact hk (List.mem_singleton.1 hmem)
  | answered h hwide hpart => exact .answered (List.mem_append_left _ h) hwide hpart
  | lost => exact .lost

end Awaits

end Endpoints

namespace Traffic

/-- The calls that were handled. -/
def keys (t : Traffic σ) : List Nat := t.handled.map Prod.fst

/-- A connection holds a byte of a call that the server has not read. -/
def Holds (t : Traffic σ) (wire call : Nat) : Prop :=
  ∃ w b, t.wires[wire]? = some w ∧ (call, b) ∈ w.requests

/-- No connection holds more requests than before. -/
def Fewer (t t' : Traffic σ) : Prop :=
  ∀ (i : Nat) (w' : Wire), t'.wires[i]? = some w' →
    w'.requests = [] ∨ ∃ w, t.wires[i]? = some w ∧ w'.requests = w.requests

/-- What the server has read and what it can still read: it has handled calls, none of them
twice, and a connection holds at most the beginning of the frame of one call, which was not
handled and of which no other connection holds anything. -/
structure Delivers (p : Endpoints σ) (state : σ) (t : Traffic σ) : Prop where
  handles : p.Handles state t.handled t.state
  once : t.keys.Nodup
  sends : ∀ {i : Nat} {w : Wire}, t.wires[i]? = some w → w.requests ≠ [] →
    ∃ k sent left, w.requests = tagged k sent ∧ p.Sends k (sent ++ left)
  unhandled : ∀ {i k : Nat}, t.Holds i k → k ∉ t.keys
  apart : ∀ {i j k : Nat}, t.Holds i k → t.Holds j k → i = j

variable {p : Endpoints σ} {state : σ} {t t' : Traffic σ}

theorem getElem?_change (t : Traffic σ) (i : Nat) (f : Wire → Wire) (j : Nat) :
    (t.change i f).wires[j]? = if i = j then t.wires[j]?.map f else t.wires[j]? := by
  rw [change, List.getElem?_modify]
  split <;> simp

theorem getElem?_change_self {i : Nat} {w : Wire} (hw : t.wires[i]? = some w) (f : Wire → Wire) :
    (t.change i f).wires[i]? = some (f w) := by
  rw [getElem?_change, if_pos rfl, hw, Option.map_some]

theorem keys_handle (p : Endpoints σ) (t : Traffic σ) (i size k : Nat) (payload : Bytes) :
    (handle p t i size k payload).keys = t.keys ++ [k] :=
  List.map_append

theorem mem_keys_handle {i size k : Nat} {payload : Bytes} {k' : Nat} :
    k' ∈ (handle p t i size k payload).keys ↔ k' ∈ t.keys ∨ k' = k := by
  rw [keys_handle, List.mem_append, List.mem_singleton]

theorem Fewer.of_wires (h : t'.wires = t.wires) : Fewer t t' :=
  fun _ _ hw => .inr ⟨_, h ▸ hw, rfl⟩

theorem Fewer.of_change {i : Nat} {f : Wire → Wire}
    (hf : ∀ w, t.wires[i]? = some w → (f w).requests = [] ∨ (f w).requests = w.requests)
    (h : t'.wires = (t.change i f).wires) : Fewer t t' := by
  intro j w' hw
  rw [h, getElem?_change] at hw
  split at hw
  · next hij =>
      obtain ⟨w, hold, rfl⟩ := Option.map_eq_some_iff.1 hw
      exact (hf w (hij ▸ hold)).imp id fun hf => ⟨w, hold, hf⟩
  · exact .inr ⟨w', hw, rfl⟩

theorem Fewer.handle {i k : Nat} {w : Wire} (hw : t.wires[i]? = some w) (payload : Bytes) :
    Fewer t (handle p t i w.requests.length k payload) := by
  refine .of_change (fun w' hw' => .inl ?_) rfl
  obtain rfl := Option.some.inj (hw.symm.trans hw')
  exact w.requests_reply k _

theorem Holds.of_fewer {i k : Nat} (h : t'.Holds i k) (hfewer : Fewer t t') : t.Holds i k := by
  obtain ⟨w', b, hw', hb⟩ := h
  obtain hnil | ⟨w, hw, hrequests⟩ := hfewer _ _ hw'
  · exact absurd (hnil ▸ hb) List.not_mem_nil
  · exact ⟨w, b, hw, hrequests ▸ hb⟩

/-- When the client sends more of a call, its connection holds that call and the others hold
what they did. -/
theorem holds_send {call i j k : Nat} {left : Bytes} {w : Wire} (hw : t.wires[i]? = some w)
    (hawaits : p.Awaits t.handled call left w) {size : Nat}
    (h : (t.change i fun w => w.send call (left.take size)).Holds j k) :
    t.Holds j k ∨ j = i ∧ k = call ∧ call ∉ t.keys := by
  obtain ⟨w', b, hw', hb⟩ := h
  by_cases hij : i = j
  · subst hij
    obtain rfl := Option.some.inj ((getElem?_change_self hw _).symm.trans hw')
    exact .inr ⟨rfl, (hawaits.send size).call_of_request hb⟩
  · rw [getElem?_change, if_neg hij] at hw'
    exact .inl ⟨w', b, hw', hb⟩

namespace Delivers

theorem sends_of_fewer (h : t.Delivers p state) (hfewer : Fewer t t') {i : Nat} {w : Wire}
    (hw : t'.wires[i]? = some w) (hne : w.requests ≠ []) :
    ∃ k sent left, w.requests = tagged k sent ∧ p.Sends k (sent ++ left) := by
  obtain hnil | ⟨w', hw', hrequests⟩ := hfewer _ _ hw
  · exact absurd hnil hne
  · rw [hrequests] at hne ⊢
    exact h.sends hw' hne

theorem mono (h : t.Delivers p state) (hfewer : Fewer t t') (hstate : t'.state = t.state)
    (hhandled : t'.handled = t.handled) : t'.Delivers p state where
  handles := by
    rw [hstate, hhandled]
    exact h.handles
  once := by
    rw [keys, hhandled]
    exact h.once
  sends := h.sends_of_fewer hfewer
  unhandled hholds := by
    rw [keys, hhandled]
    exact h.unhandled (hholds.of_fewer hfewer)
  apart hi hj := h.apart (hi.of_fewer hfewer) (hj.of_fewer hfewer)

/-- The client sends more of a call that no other connection holds anything of. -/
theorem send (h : t.Delivers p state) {call i : Nat} {left : Bytes} {w : Wire}
    (hw : t.wires[i]? = some w) (hawaits : p.Awaits t.handled call left w)
    (hsole : ∀ {j}, t.Holds j call → j = i) (size : Nat) :
    (t.change i fun w => w.send call (left.take size)).Delivers p state where
  handles := h.handles
  once := h.once
  sends := by
    intro j w' hw' hne
    by_cases hij : i = j
    · subst hij
      obtain rfl := Option.some.inj ((getElem?_change_self hw _).symm.trans hw')
      exact (hawaits.send size).sends hne
    · rw [getElem?_change, if_neg hij] at hw'
      exact h.sends hw' hne
  unhandled := by
    intro j k hj
    obtain hold | ⟨-, rfl, hnew⟩ := holds_send hw hawaits hj
    · exact h.unhandled hold
    · exact hnew
  apart := by
    intro j j' k hj hj'
    obtain hold | ⟨rfl, rfl, -⟩ := holds_send hw hawaits hj
    · obtain hold' | ⟨rfl, rfl, -⟩ := holds_send hw hawaits hj'
      · exact h.apart hold hold'
      · exact hsole hold
    · obtain hold' | ⟨rfl, -⟩ := holds_send hw hawaits hj'
      · exact (hsole hold').symm
      · rfl

/-- What the server reads as a frame is the whole frame of a call. -/
theorem of_frame (h : t.Delivers p state) {i k : Nat} {b : UInt8} {w : Wire}
    (hw : t.wires[i]? = some w) (hb : (k, b) ∈ w.requests) {payload rest : Bytes}
    (hread : p.server.read (w.requests.map Prod.snd) = .frame payload rest) :
    ∃ r, p.calls[k]? = some r ∧ payload = r.encode ∧ rest = [] ∧
      w.requests = tagged k (framed r.encode) := by
  obtain ⟨k', sent, left, hsent, r, hr, hframe⟩ := h.sends hw (List.ne_nil_of_mem hb)
  obtain rfl : k = k' := fst_of_mem_tagged (hsent ▸ hb)
  obtain ⟨hwide, hframed⟩ := eq_framed_of_frame hframe
  rw [hsent, map_snd_tagged] at hread
  obtain ⟨rfl, rfl, rfl⟩ := frame_of_read_prefix hwide (hframed ▸ List.prefix_append _ _) hread
  exact ⟨r, hr, rfl, rfl, hsent⟩

/-- The server handles a call of which a connection holds the whole frame. No connection holds
anything of it then. -/
theorem handle (h : t.Delivers p state) {i k : Nat} {b : UInt8} {w : Wire}
    (hw : t.wires[i]? = some w) (hb : (k, b) ∈ w.requests) {r : Request}
    (hr : p.calls[k]? = some r) :
    (Traffic.handle p t i w.requests.length k r.encode).Delivers p state := by
  have hholds : t.Holds i k := ⟨w, b, hw, hb⟩
  have hfewer : Fewer t (Traffic.handle p t i w.requests.length k r.encode) := .handle hw _
  have hreply : p.handle.reply t.state r.encode = p.handle t.state r := by
    rw [Handler.reply, Request.decode_encode]
  exact
    { handles := by
        rw [Traffic.handle, hreply]
        exact h.handles.next hr
      once := by
        rw [keys_handle]
        refine List.nodup_append.2 ⟨h.once, by simp, ?_⟩
        rintro k' hk' _ hk rfl
        exact h.unhandled hholds (List.mem_singleton.1 hk ▸ hk')
      sends := h.sends_of_fewer hfewer
      unhandled := by
        intro j k' hj hk'
        obtain hk' | rfl := mem_keys_handle.1 hk'
        · exact h.unhandled (hj.of_fewer hfewer) hk'
        · obtain rfl := h.apart (hj.of_fewer hfewer) hholds
          obtain ⟨w', b', hw', hb'⟩ := hj
          obtain rfl := Option.some.inj ((getElem?_change_self hw _).symm.trans hw')
          rw [Wire.requests_reply] at hb'
          exact absurd hb' List.not_mem_nil
      apart := fun hi hj => h.apart (hi.of_fewer hfewer) (hj.of_fewer hfewer) }

end Delivers

end Traffic

end TopicWatch.Bridge
