import TopicWatch.Proofs.Bridge.Delivery

/-!
# Every answer belongs to its request

A client keeps a connection only when nothing is on its way on it. So all that it can read
during a call is the answer to that call, whatever is still on its way on the connections that
it has given up.
-/

namespace TopicWatch.Bridge

open Framing

/-- The connection that the client has open outside an exchange. -/
def Phase.opened : Phase → Option Nat
  | idle kept => kept
  | calling opened => opened
  | exchanging _ _ => none

namespace Traffic

variable {σ : Type}

/-- What is so after any moves: a call of which something was sent or handled has ended, or is
in its exchange; a connection that the client has open outside an exchange is empty, and in an
exchange it is in the hands of that call; calls were answered by what was handled and by their
own bytes only; and a call that has failed has left no connection. -/
structure Sound (p : Endpoints σ) (state : σ) (t : Traffic σ) : Prop where
  delivers : t.Delivers p state
  begun : ∀ {i k : Nat}, t.Holds i k →
    k < t.number ∨ k = t.number ∧ ∃ left, t.phase = .exchanging i left
  sent : ∀ {k : Nat}, k ∈ t.keys → k < t.number ∨ k = t.number ∧ ∃ i, t.phase = .exchanging i []
  empty : ∀ {i : Nat}, t.phase.opened = some i → ∃ served, t.wires[i]? = some ⟨[], [], served⟩
  awaits : ∀ {i : Nat} {left : Bytes}, t.phase = .exchanging i left →
    ∃ w, t.wires[i]? = some w ∧ p.Awaits t.handled t.number left w
  answered : ∀ {k : Nat} {a : Ack}, t.outcomes[k]? = some (.ok a) → (k, a) ∈ t.handled
  own : ∀ x ∈ t.taken, x.1 = x.2
  dropped : ∀ {kept : Option Nat} {e : Error}, t.phase = .idle kept →
    t.outcomes.getLast? = some (.error e) → kept = none

variable {p : Endpoints σ} {state : σ} {t : Traffic σ}

theorem sound_start (p : Endpoints σ) (state : σ) : (start state).Sound p state where
  delivers :=
    { handles := .nothing
      once := List.nodup_nil
      sends := fun h => absurd h (by simp [start])
      unhandled := fun _ => List.not_mem_nil
      apart := fun ⟨_, _, h, _⟩ => absurd h (by simp [start]) }
  begun := fun ⟨_, _, h, _⟩ => absurd h (by simp [start])
  sent h := absurd h List.not_mem_nil
  empty h := nomatch h
  awaits h := nomatch h
  answered h := absurd h (by simp [start])
  own _ h := absurd h List.not_mem_nil
  dropped _ h := absurd h (by simp [start])

namespace Sound

theorem begun_lt (h : t.Sound p state) (hphase : ∀ i left, t.phase ≠ .exchanging i left)
    {i k : Nat} (hholds : t.Holds i k) : k < t.number := by
  obtain hlt | ⟨-, left, hbusy⟩ := h.begun hholds
  · exact hlt
  · exact absurd hbusy (hphase i left)

theorem sent_lt (h : t.Sound p state) (hphase : ∀ i left, t.phase ≠ .exchanging i left)
    {k : Nat} (hk : k ∈ t.keys) : k < t.number := by
  obtain hlt | ⟨-, i, hbusy⟩ := h.sent hk
  · exact hlt
  · exact absurd hbusy (hphase i [])

/-- In an exchange only its connection holds anything of the call. -/
theorem sole (h : t.Sound p state) {i j : Nat} {left : Bytes}
    (hphase : t.phase = .exchanging i left) (hj : t.Holds j t.number) : j = i := by
  obtain hlt | ⟨-, _, hbusy⟩ := h.begun hj
  · exact absurd hlt (Nat.lt_irrefl _)
  · exact (Phase.exchanging.inj (hbusy.symm.trans hphase)).1

theorem begin (h : t.Sound p state) {kept : Option Nat} (hphase : t.phase = .idle kept) :
    { t with phase := .calling kept }.Sound p state where
  delivers := h.delivers.mono (.of_wires rfl) rfl rfl
  begun hholds := .inl (h.begun_lt (by simp [hphase]) hholds)
  sent hk := .inl (h.sent_lt (by simp [hphase]) hk)
  empty hopened := h.empty (hphase ▸ hopened)
  awaits hbusy := nomatch hbusy
  answered := h.answered
  own := h.own
  dropped hidle := nomatch hidle

theorem connect (h : t.Sound p state) (hphase : t.phase = .calling none) :
    { t with
      wires := t.wires ++ [Wire.fresh]
      phase := .calling (some t.wires.length) }.Sound p state := by
  have hfewer : Fewer t { t with
      wires := t.wires ++ [Wire.fresh]
      phase := .calling (some t.wires.length) } := by
    intro i w hw
    obtain hlt | hge := Nat.lt_or_ge i t.wires.length
    · exact .inr ⟨w, (List.getElem?_append_left hlt).symm.trans hw, rfl⟩
    · have hfresh := (List.getElem?_append_right hge).symm.trans hw
      obtain rfl := List.mem_singleton.1 (List.mem_of_getElem? hfresh)
      exact .inl rfl
  exact
    { delivers := h.delivers.mono hfewer rfl rfl
      begun := fun hholds => .inl (h.begun_lt (by simp [hphase]) (hholds.of_fewer hfewer))
      sent := fun hk => .inl (h.sent_lt (by simp [hphase]) hk)
      empty := by
        rintro i ⟨⟩
        exact ⟨true, List.getElem?_concat_length⟩
      awaits := fun hbusy => nomatch hbusy
      answered := h.answered
      own := h.own
      dropped := fun hidle => nomatch hidle }

theorem frame (h : t.Sound p state) {i : Nat} (hphase : t.phase = .calling (some i))
    {bytes : Bytes} (hbytes : p.Sends t.number bytes) :
    { t with phase := .exchanging i bytes }.Sound p state where
  delivers := h.delivers.mono (.of_wires rfl) rfl rfl
  begun hholds := .inl (h.begun_lt (by simp [hphase]) hholds)
  sent hk := .inl (h.sent_lt (by simp [hphase]) hk)
  empty hopened := nomatch hopened
  awaits := by
    rintro i _ ⟨⟩
    obtain ⟨served, hw⟩ := h.empty (by rw [hphase]; rfl)
    have hnew : t.number ∉ t.keys :=
      fun hk => Nat.lt_irrefl _ (h.sent_lt (by simp [hphase]) hk)
    have hnothing : p.Sends t.number ([] ++ bytes) := hbytes
    cases served with
    | true => exact ⟨_, hw, .sent hnothing hnew⟩
    | false => exact ⟨_, hw, .lost⟩
  answered := h.answered
  own := h.own
  dropped hidle := nomatch hidle

/-- A call ends. If it ends with an answer, it was handled and its connection is empty. -/
theorem finish (h : t.Sound p state) {i : Nat} {result : Except Error Ack}
    (hresult : ∀ a, result = .ok a →
      (t.number, a) ∈ t.handled ∧ ∃ served, t.wires[i]? = some ⟨[], [], served⟩) :
    (t.finish i result).Sound p state := by
  have hnumber : (t.finish i result).number = t.number + 1 := List.length_append
  exact
    { delivers := h.delivers.mono (.of_wires rfl) rfl rfl
      begun := by
        intro j k hholds
        have hle : k ≤ t.number := (h.begun hholds).elim Nat.le_of_lt fun hk => Nat.le_of_eq hk.1
        exact .inl (hnumber ▸ Nat.lt_succ_of_le hle)
      sent := by
        intro k hk
        have hle : k ≤ t.number := (h.sent hk).elim Nat.le_of_lt fun hk => Nat.le_of_eq hk.1
        exact .inl (hnumber ▸ Nat.lt_succ_of_le hle)
      empty := by
        cases result with
        | error e => exact fun hopened => nomatch hopened
        | ok a =>
            rintro j ⟨⟩
            exact (hresult a rfl).2
      awaits := fun hbusy => nomatch hbusy
      answered := by
        intro k a hk
        obtain hlt | hge := Nat.lt_or_ge k t.outcomes.length
        · exact h.answered ((List.getElem?_append_left hlt).symm.trans hk)
        · have hlast := (List.getElem?_append_right hge).symm.trans hk
          obtain rfl := List.mem_singleton.1 (List.mem_of_getElem? hlast)
          have hzero : k - t.outcomes.length < 1 := (List.getElem?_eq_some_iff.1 hlast).1
          have hk : k = t.number := by
            unfold number
            omega
          exact hk ▸ (hresult a rfl).1
      own := h.own
      dropped := by
        intro kept e hidle hlast
        obtain rfl := Option.some.inj (List.getLast?_concat.symm.trans hlast)
        exact (Phase.idle.inj hidle).symm }

/-- A change to a connection that leaves it empty, or as its call can find it. -/
theorem change (h : t.Sound p state) {i : Nat} {f : Wire → Wire}
    (hrequests : ∀ w, (f w).requests = [] ∨ (f w).requests = w.requests)
    (hempty : ∀ served, ∃ served', f ⟨[], [], served⟩ = ⟨[], [], served'⟩)
    (hawaits : ∀ left w, p.Awaits t.handled t.number left w →
      p.Awaits t.handled t.number left (f w)) :
    (t.change i f).Sound p state := by
  have hfewer : Fewer t (t.change i f) := .of_change (fun w _ => hrequests w) rfl
  exact
    { delivers := h.delivers.mono hfewer rfl rfl
      begun := fun hholds => h.begun (hholds.of_fewer hfewer)
      sent := h.sent
      empty := by
        intro j hopened
        obtain ⟨served, hw⟩ := h.empty hopened
        rw [getElem?_change, hw]
        split
        · obtain ⟨served', hf⟩ := hempty served
          exact ⟨served', congrArg some hf⟩
        · exact ⟨served, rfl⟩
      awaits := by
        intro j left hbusy
        obtain ⟨w, hw, hwaits⟩ := h.awaits hbusy
        rw [getElem?_change, hw]
        split
        · exact ⟨f w, rfl, hawaits left w hwaits⟩
        · exact ⟨w, rfl, hwaits⟩
      answered := h.answered
      own := h.own
      dropped := h.dropped }

theorem close (h : t.Sound p state) (i : Nat) (arriving : Wire → Nat) :
    (t.change i fun w => w.close (arriving w)).Sound p state :=
  h.change (fun _ => .inl rfl) (fun _ => ⟨false, by rw [Wire.close, List.take_nil]⟩)
    fun _ w hw => hw.close (arriving w)

/-- The client has read all that is there for it. -/
theorem take (h : t.Sound p state) {i : Nat} {w : Wire} (hphase : t.phase = .exchanging i [])
    (hw : t.wires[i]? = some w) : (t.take i w.answers.length w.answers).Sound p state := by
  have hchange : (t.change i fun w' => { w' with answers := [] }).Sound p state :=
    h.change (fun _ => .inr rfl) (fun served => ⟨served, rfl⟩) fun _ _ hawaits => hawaits.drop
  have htake : t.take i w.answers.length w.answers =
      { t.change i fun w' => { w' with answers := [] } with
        taken := t.taken ++ w.answers.map fun b => (t.number, b.1) } := by
    rw [Traffic.take, List.drop_length, List.take_length]
  rw [htake]
  exact
    { delivers := hchange.delivers.mono (.of_wires rfl) rfl rfl
      begun := hchange.begun
      sent := hchange.sent
      empty := hchange.empty
      awaits := hchange.awaits
      answered := hchange.answered
      own := by
        intro x hx
        obtain hx | hx := List.mem_append.1 hx
        · exact h.own x hx
        · obtain ⟨b, hb, rfl⟩ := List.mem_map.1 hx
          obtain ⟨w', hw', hawaits⟩ := h.awaits hphase
          obtain rfl := Option.some.inj (hw.symm.trans hw')
          exact (hawaits.call_of_answer hb).symm
      dropped := hchange.dropped }

theorem read (h : t.Sound p state) {i : Nat} {w : Wire} (hphase : t.phase = .exchanging i [])
    (hw : t.wires[i]? = some w) : (readWire p t i w).Sound p state := by
  obtain ⟨w', hw', hawaits⟩ := h.awaits hphase
  obtain rfl := Option.some.inj (hw.symm.trans hw')
  have hended : ((t.take i w.answers.length w.answers).finish i
      (Client.readAnswer p.client ⟨w.answers.map Prod.snd, !w.served⟩)).Sound p state := by
    refine (h.take hphase hw).finish fun a hanswer => ?_
    obtain ⟨payload, rest, hread, hdecode⟩ := Client.exists_of_readAnswer hanswer
    obtain ⟨hnone, -, a', ha', rfl⟩ := hawaits.of_frame hread
    obtain rfl := Except.ok.inj ((Ack.decode_encode a').symm.trans hdecode)
    refine ⟨ha', w.served, (getElem?_change_self hw _).trans ?_⟩
    rw [hnone, List.drop_length]
  have hleft : (p.client.read (w.answers.map Prod.snd)).left = [] := by
    cases hread : p.client.read (w.answers.map Prod.snd) with
    | frame payload rest => exact (hawaits.of_frame hread).2.1
    | failed | ended => rfl
  simp only [readWire, hleft, List.length_nil, Nat.sub_zero]
  split
  · exact h
  · exact hended

theorem write (h : t.Sound p state) {i : Nat} {left : Bytes}
    (hphase : t.phase = .exchanging i left) (size : Nat) :
    { t.change i fun w => w.send t.number (left.take size) with
      phase := .exchanging i (left.drop size) }.Sound p state := by
  obtain ⟨w, hw, hawaits⟩ := h.awaits hphase
  exact
    { delivers :=
        (h.delivers.send hw hawaits (h.sole hphase) size).mono (.of_wires rfl) rfl rfl
      begun := by
        intro j k hj
        obtain hold | ⟨rfl, hk, -⟩ := holds_send hw hawaits hj
        · obtain hlt | ⟨hk, _, hbusy⟩ := h.begun hold
          · exact .inl hlt
          · obtain ⟨rfl, -⟩ := Phase.exchanging.inj (hbusy.symm.trans hphase)
            exact .inr ⟨hk, _, rfl⟩
        · exact .inr ⟨hk, _, rfl⟩
      sent := by
        intro k hk
        obtain hlt | ⟨hnow, j, hbusy⟩ := h.sent hk
        · exact .inl hlt
        · obtain ⟨rfl, rfl⟩ := Phase.exchanging.inj (hbusy.symm.trans hphase)
          exact .inr ⟨hnow, j, by rw [List.drop_nil]⟩
      empty := fun hopened => nomatch hopened
      awaits := by
        rintro j _ ⟨⟩
        exact ⟨_, getElem?_change_self hw _, hawaits.send size⟩
      answered := h.answered
      own := h.own
      dropped := fun hidle => nomatch hidle }

theorem handle (h : t.Sound p state) {i k : Nat} {b : UInt8} {w : Wire}
    (hw : t.wires[i]? = some w) (hb : (k, b) ∈ w.requests) {r : Request}
    (hr : p.calls[k]? = some r) (hrequests : w.requests = tagged k (framed r.encode)) :
    (Traffic.handle p t i w.requests.length k r.encode).Sound p state := by
  have hholds : t.Holds i k := ⟨w, b, hw, hb⟩
  have hfewer : Fewer t (Traffic.handle p t i w.requests.length k r.encode) := .handle hw _
  exact
    { delivers := h.delivers.handle hw hb hr
      begun := fun hj => h.begun (hj.of_fewer hfewer)
      sent := by
        intro k' hk'
        obtain hk' | rfl := mem_keys_handle.1 hk'
        · exact h.sent hk'
        · obtain hlt | ⟨rfl, left, hbusy⟩ := h.begun hholds
          · exact .inl hlt
          · obtain ⟨w', hw', hawaits⟩ := h.awaits hbusy
            obtain rfl := Option.some.inj (hw.symm.trans hw')
            obtain rfl := hawaits.left_eq_nil hb hr hrequests
            exact .inr ⟨rfl, i, hbusy⟩
      empty := by
        intro j hopened
        obtain ⟨served, hw'⟩ := h.empty hopened
        refine ⟨served, (getElem?_change t i _ j).trans ?_⟩
        rw [if_neg, hw']
        rintro rfl
        obtain rfl := Option.some.inj (hw.symm.trans hw')
        exact absurd hb List.not_mem_nil
      awaits := by
        intro j left hbusy
        obtain ⟨w', hw', hawaits⟩ := h.awaits hbusy
        by_cases hij : i = j
        · subst hij
          obtain rfl := Option.some.inj (hw.symm.trans hw')
          obtain ⟨rfl, -⟩ := hawaits.call_of_request hb
          obtain rfl := hawaits.left_eq_nil hb hr hrequests
          exact ⟨_, getElem?_change_self hw _, hawaits.reply (List.ne_nil_of_mem hb) _⟩
        · have hother : t.number ≠ k := by
            rintro rfl
            exact hij (h.sole hbusy hholds)
          refine ⟨w', (getElem?_change t i _ j).trans ?_, hawaits.other hother _⟩
          rw [if_neg hij, hw']
      answered := fun hk' => List.mem_append_left _ (h.answered hk')
      own := h.own
      dropped := h.dropped }

theorem serve (h : t.Sound p state) {i : Nat} {w : Wire} (hw : t.wires[i]? = some w) :
    (serveWire p t i w).Sound p state := by
  unfold serveWire
  split
  · next k b more payload rest hcons hread =>
      have hb : (k, b) ∈ w.requests := hcons ▸ List.mem_cons_self
      obtain ⟨r, hr, rfl, rfl, hrequests⟩ := h.delivers.of_frame hw hb hread
      exact h.handle hw hb hr hrequests
  · exact h.close i fun w => w.answers.length
  · exact h

/-- Every move keeps what is so. -/
theorem step (h : t.Sound p state) (m : Move) : (t.step p m).Sound p state := by
  cases m with
  | begin =>
      simp only [Traffic.step]
      split
      · next hphase =>
          split
          · exact h.begin hphase
          · exact h
      · exact h
  | connect =>
      simp only [Traffic.step]
      split
      · next hphase => exact h.connect hphase
      · exact h
  | frame =>
      simp only [Traffic.step]
      split
      · next r hphase hr =>
          split
          · next hframe => exact h.frame hphase ⟨r, hr, hframe⟩
          · exact h.finish fun _ hok => nomatch hok
      · exact h
  | write size =>
      simp only [Traffic.step]
      split
      · next hphase => exact h.write hphase size
      · exact h
  | read =>
      simp only [Traffic.step]
      split
      · next hphase =>
          split
          · next hw => exact h.read hphase hw
          · exact h
      · exact h
  | serve i =>
      simp only [Traffic.step]
      split
      · next hw => exact h.serve hw
      · exact h
  | close i arriving => exact h.close i fun _ => arriving
  | fail e =>
      simp only [Traffic.step]
      split
      · exact h
      all_goals exact h.finish fun _ hok => nomatch hok

end Sound

theorem sound_run (p : Endpoints σ) (state : σ) (moves : List Move) :
    (run p state moves).Sound p state := by
  have hmoves : ∀ t : Traffic σ, t.Sound p state → (moves.foldl (step p) t).Sound p state := by
    induction moves with
    | nil => exact fun t h => h
    | cons m moves ih => exact fun t h => ih _ (h.step m)
  exact hmoves _ (sound_start p state)

/-- Every answer belongs to its request. Whatever the client, the server and the network do, in
any order, and wherever calls fail: the server handles no call twice; a call that ends with an
answer has the one that the server gave to the request of that call, in the state that the
calls handled before it had left, and every byte that the client has read during a call is of
the answer to that call; between two calls nothing is on its way on the connection that the
client keeps, and after a call that failed it keeps none. -/
theorem answers_belong (p : Endpoints σ) (state : σ) (moves : List Move) :
    let t := run p state moves
    (p.Handles state t.handled t.state ∧ (t.handled.map Prod.fst).Nodup) ∧
      (∀ k a, t.outcomes[k]? = some (.ok a) → (k, a) ∈ t.handled ∧
        ∃ before s r, before ++ [(k, a)] <+: t.handled ∧ p.Handles state before s ∧
          p.calls[k]? = some r ∧ (p.handle s r).2 = a) ∧
      (∀ x ∈ t.taken, x.1 = x.2) ∧
      ∀ kept, t.phase = .idle kept →
        (∀ i, kept = some i → ∃ served, t.wires[i]? = some ⟨[], [], served⟩) ∧
        ∀ e, t.outcomes.getLast? = some (.error e) → kept = none := by
  intro t
  have h : t.Sound p state := sound_run p state moves
  refine ⟨⟨h.delivers.handles, h.delivers.once⟩, ?_, h.own, ?_⟩
  · intro k a hk
    have hmem := h.answered hk
    exact ⟨hmem, h.delivers.handles.exists_of_mem hmem⟩
  · intro kept hidle
    refine ⟨?_, fun e => h.dropped hidle⟩
    rintro i rfl
    exact h.empty (by rw [hidle]; rfl)

/-- A call times out and is handled after the next one was sent. Its answer comes too late for
either of them. -/
example :
    let p : Endpoints Nat := ⟨.standard, .standard,
      fun n _ => (n + 1, ⟨if n = 0 then .ok else .serving⟩), [.healthCheck, .healthCheck]⟩
    let t := run p 0 [.begin, .connect, .frame, .write 30, .fail .timeout, .begin, .connect,
      .frame, .write 30, .serve 0, .serve 1, .read]
    t.handled = [(0, ⟨.ok⟩), (1, ⟨.serving⟩)] ∧
      t.outcomes.map Except.toOption = [none, some ⟨.serving⟩] := by
  decide +kernel

end Traffic

end TopicWatch.Bridge
