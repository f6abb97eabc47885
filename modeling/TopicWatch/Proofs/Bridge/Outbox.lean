import TopicWatch.Bridge.Outbox
import TopicWatch.Proofs.Bridge.Order

/-!
# Every request is forwarded at most once

A forwarder with calls that fail in any way is a client that had all its calls before it from
the beginning, so what is known of calls is known of forwarded requests. No request is lost
before it was attempted, and none is attempted twice.
-/

namespace TopicWatch.Bridge

variable {σ : Type}

/-- The state after a log is that of handling its requests one after the other. -/
theorem Endpoints.Handles.state_eq {p : Endpoints σ} {state s : σ} {log : List (Nat × Ack)}
    (h : p.Handles state log s) :
    s = (log.filterMap fun x => p.calls[x.1]?).foldl (fun s r => (p.handle s r).1) state := by
  induction h with
  | nothing => rfl
  | @next log s call r _ hr ih =>
      have hlast : [(call, (p.handle s r).2)].filterMap (fun x => p.calls[x.1]?) = [r] :=
        List.filterMap_cons_some hr
      rw [List.filterMap_append, hlast, List.foldl_append, ← ih]
      rfl

namespace Outbox

/-- The requests that were emitted, in order. -/
def emitted (moves : List Move) : List Request :=
  moves.filterMap fun
    | .emit r => some r
    | _ => none

/-- The requests that the server has handled, in order. -/
def handled (o : Outbox σ) : List Request :=
  o.traffic.handled.filterMap fun x => o.attempted[x.1]?

/-- What is so of a forwarder that was given requests: each of them waits or was taken up, in
order, for one call, and its traffic could be that of a client with all these calls. -/
structure Accounts (p : Endpoints σ) (state : σ) (given : List Request) (o : Outbox σ) : Prop where
  conserved : o.attempted ++ o.waiting = .healthCheck :: given
  paced : o.attempted.length = o.traffic.begun
  reached : ∃ moves, o.traffic = Traffic.run p state moves

namespace Accounts

variable {p : Endpoints σ} {state : σ} {given : List Request} {o : Outbox σ}

theorem reached_step (h : o.Accounts p state given) (m : Bridge.Move) :
    ∃ moves, o.traffic.step p m = Traffic.run p state moves := by
  obtain ⟨moves, hmoves⟩ := h.reached
  refine ⟨moves ++ [m], ?_⟩
  rw [hmoves, Traffic.run, Traffic.run, List.foldl_append]
  rfl

/-- Without a further request there is nothing to begin, and a call is looked up among those
that were taken up. -/
theorem step_ends (h : o.Accounts p state given) (hcalls : .healthCheck :: given <+: p.calls)
    (m : Bridge.Move) :
    o.traffic.step (o.ends p.client p.server p.handle) m =
      if m = .begin then o.traffic else o.traffic.step p m := by
  cases m with
  | begin =>
      rw [if_pos rfl, Traffic.step]
      split
      · next hphase =>
          have hnone : ¬o.traffic.number < o.attempted.length := by
            rw [h.paced, Traffic.begun, hphase]
            exact Nat.lt_irrefl _
          exact if_neg hnone
      · rfl
  | frame =>
      rw [if_neg (by decide)]
      cases hphase : o.traffic.phase with
      | idle | exchanging => simp only [Traffic.step, hphase]
      | calling opened =>
          have hlt : o.traffic.number < o.attempted.length := by
            rw [h.paced, Traffic.begun, hphase]
            exact Nat.lt_succ_self _
          have hprefix : o.attempted <+: p.calls :=
            (h.conserved ▸ List.prefix_append o.attempted o.waiting).trans hcalls
          have hsame : p.calls[o.traffic.number]? = o.attempted[o.traffic.number]? := by
            obtain ⟨later, hlater⟩ := hprefix
            rw [← hlater, List.getElem?_append_left hlt]
          simp only [Traffic.step, ends, hsame]
  | _ => rfl

theorem emit (h : o.Accounts p state given) (r : Request) :
    (o.step p.client p.server p.handle (.emit r)).Accounts p state (given ++ [r]) where
  conserved := by
    rw [← List.cons_append, ← h.conserved, List.append_assoc]
    rfl
  paced := h.paced
  reached := h.reached

theorem take (h : o.Accounts p state given) (hcalls : .healthCheck :: given <+: p.calls) :
    (o.step p.client p.server p.handle .take).Accounts p state given := by
  simp only [step]
  split
  · next kept r later hphase hwaiting =>
      have hnumber : o.traffic.number = o.attempted.length := by
        rw [h.paced, Traffic.begun, hphase]
        rfl
      have htaken : o.traffic.number < (o.attempted ++ [r]).length := by
        rw [hnumber, List.length_append]
        exact Nat.lt_succ_self _
      have hall : o.attempted ++ [r] ++ later = .healthCheck :: given := by
        rw [List.append_assoc, ← h.conserved, hwaiting]
        rfl
      have hbegins : o.traffic.number < p.calls.length :=
        Nat.lt_of_lt_of_le htaken
          ((hall ▸ List.prefix_append (o.attempted ++ [r]) later).trans hcalls).length_le
      refine ⟨hall, ?_, ?_⟩
      · simp only [Traffic.step, ends, hphase, htaken, if_true]
        rw [List.length_append, ← hnumber]
        rfl
      · have hsame : o.traffic.step ⟨p.client, p.server, p.handle, o.attempted ++ [r]⟩ .begin =
            o.traffic.step p .begin := by
          simp only [Traffic.step, hphase, htaken, hbegins, if_true]
        obtain ⟨moves, hmoves⟩ := h.reached_step .begin
        exact ⟨moves, hsame.trans hmoves⟩
  · exact h

theorem pass (h : o.Accounts p state given) (hcalls : .healthCheck :: given <+: p.calls)
    (m : Bridge.Move) : (o.step p.client p.server p.handle (.pass m)).Accounts p state given := by
  simp only [step, h.step_ends hcalls m]
  split
  · exact h
  · next hm => exact ⟨h.conserved, h.paced.trans (Traffic.begun_step hm).symm, h.reached_step m⟩

end Accounts

theorem accounts_run (p : Endpoints σ) (state : σ) (moves : List Move)
    (hcalls : .healthCheck :: emitted moves <+: p.calls) :
    (run p.client p.server p.handle state moves).Accounts p state (emitted moves) := by
  induction moves using List.reverseRecOn with
  | nil => exact ⟨rfl, rfl, [], rfl⟩
  | append_singleton moves m ih =>
      have hmore : emitted (moves ++ [m]) = emitted moves ++ emitted [m] := List.filterMap_append
      have hbefore : .healthCheck :: emitted moves <+: p.calls := by
        rw [hmore] at hcalls
        exact (List.prefix_append (.healthCheck :: emitted moves) _).trans hcalls
      have h := ih hbefore
      rw [run, List.foldl_append, hmore]
      cases m with
      | emit r => exact h.emit r
      | take => exact (List.append_nil (emitted moves)).symm ▸ h.take hbefore
      | pass m => exact (List.append_nil (emitted moves)).symm ▸ h.pass hbefore m

/-- The first entries of a list are those found under the first numbers. -/
theorem filterMap_range_getElem? {α : Type} (l : List α) (n : Nat) :
    (List.range n).filterMap (fun k => l[k]?) = l.take n := by
  induction n with
  | zero => simp
  | succ n ih =>
      rw [List.range_succ, List.filterMap_append, ih, List.take_add_one]
      cases h : l[n]? with
      | none => simp [h]
      | some a => simp [h]

/-- Entries looked up under numbers that are all different are some of the list. -/
theorem filterMap_getElem?_subperm {α : Type} (l : List α) {keys : List Nat} (h : keys.Nodup)
    (hlt : ∀ k ∈ keys, k < l.length) : (keys.filterMap fun k => l[k]?).Subperm l := by
  have hrange : keys.Subperm (List.range l.length) :=
    List.subperm_of_subset h fun k hk => List.mem_range.2 (hlt k hk)
  obtain ⟨chosen, hperm, hsub⟩ := hrange
  refine ⟨chosen.filterMap fun k => l[k]?, hperm.filterMap _, ?_⟩
  have hall := hsub.filterMap fun k => l[k]?
  rwa [filterMap_range_getElem?, List.take_length] at hall

theorem handled_eq (o : Outbox σ) :
    o.handled = o.traffic.keys.filterMap fun k => o.attempted[k]? :=
  (List.filterMap_map ..).symm

/-- A call fails, unless there is none, and the forwarder takes up the next request. -/
def failing (e : Error) : List Move := [.pass (.fail e), .take]

theorem idle_of_fail (p : Endpoints σ) (t : Traffic σ) (e : Error) :
    ∃ kept, (t.step p (.fail e)).phase = .idle kept := by
  simp only [Traffic.step]
  split
  · next kept hphase => exact ⟨kept, hphase⟩
  · exact ⟨none, rfl⟩
  · exact ⟨none, rfl⟩

/-- However calls fail, each time the next request is attempted. -/
theorem foldl_failing (client server : Framing) (handle : Handler σ) (es : List Error)
    (o : Outbox σ) :
    let after := (es.flatMap failing).foldl (step client server handle) o
    after.attempted = o.attempted ++ o.waiting.take es.length ∧
      after.waiting = o.waiting.drop es.length := by
  induction es generalizing o with
  | nil => simp
  | cons e es ih =>
      intro after
      let failed : Outbox σ := o.step client server handle (.pass (.fail e))
      obtain ⟨kept, hidle⟩ := idle_of_fail (o.ends client server handle) o.traffic e
      have htaken : (failed.step client server handle .take).attempted =
            o.attempted ++ o.waiting.take 1 ∧
          (failed.step client server handle .take).waiting = o.waiting.drop 1 := by
        have hphase : failed.traffic.phase = .idle kept := hidle
        cases hwaiting : o.waiting with
        | nil =>
            have hnone : failed.waiting = [] := hwaiting
            simp only [step, hphase, hnone]
            exact ⟨(List.append_nil _).symm, rfl⟩
        | cons r later =>
            have hsome : failed.waiting = r :: later := hwaiting
            simp only [step, hphase, hsome]
            exact ⟨rfl, rfl⟩
      obtain ⟨hattempted, hwaiting⟩ := ih (failed.step client server handle .take)
      rw [htaken.1, htaken.2] at hattempted
      rw [htaken.2] at hwaiting
      refine ⟨?_, ?_⟩
      · rw [List.length_cons, Nat.add_comm, List.take_add, ← List.append_assoc]
        exact hattempted
      · rw [List.length_cons, Nat.add_comm, ← List.drop_drop]
        exact hwaiting

namespace Accounts

variable {p : Endpoints σ} {state : σ} {given : List Request} {o : Outbox σ}

theorem sound (h : o.Accounts p state given) : o.traffic.Sound p state := by
  obtain ⟨moves, hmoves⟩ := h.reached
  exact hmoves ▸ Traffic.sound_run p state moves

theorem inOrder (h : o.Accounts p state given) : o.traffic.InOrder := by
  obtain ⟨moves, hmoves⟩ := h.reached
  exact hmoves ▸ Traffic.inOrder_run p state moves

theorem lt_attempted (h : o.Accounts p state given) {k : Nat} (hk : k ∈ o.traffic.keys) :
    k < o.attempted.length :=
  h.paced ▸ h.sound.lt_begun hk

theorem attempted_prefix (h : o.Accounts p state given) : o.attempted <+: .healthCheck :: given :=
  h.conserved ▸ List.prefix_append o.attempted o.waiting

/-- The requests handled are those of the calls handled. -/
theorem handled_eq_calls (h : o.Accounts p state given)
    (hcalls : .healthCheck :: given <+: p.calls) :
    o.handled = o.traffic.handled.filterMap fun x => p.calls[x.1]? := by
  refine List.filterMap_congr fun x hx => ?_
  obtain ⟨later, hlater⟩ := h.attempted_prefix.trans hcalls
  rw [← hlater, List.getElem?_append_left (h.lt_attempted (List.mem_map_of_mem hx))]

theorem handled_subperm (h : o.Accounts p state given) :
    o.handled.Subperm (.healthCheck :: given) := by
  rw [handled_eq]
  exact (filterMap_getElem?_subperm o.attempted h.sound.delivers.once
    fun _ => h.lt_attempted).trans h.attempted_prefix.sublist.subperm

/-- If no call has failed, the requests are handled in the order in which they were emitted, and
none is left out. -/
theorem handled_prefix (h : o.Accounts p state given)
    (hok : ∀ e, .error e ∉ o.traffic.outcomes) :
    o.handled <+: .healthCheck :: given ∧
      ((∃ kept, o.traffic.phase = .idle kept) → o.waiting = [] →
        o.handled = .healthCheck :: given) := by
  obtain ⟨n, hkeys, -, hall⟩ := h.inOrder.keys_eq_range h.sound hok
  have hhandled : o.handled = o.attempted.take n := by
    rw [handled_eq, hkeys, filterMap_range_getElem?]
  rw [hhandled]
  refine ⟨(List.take_prefix n _).trans h.attempted_prefix, ?_⟩
  rintro ⟨kept, hidle⟩ hwaiting
  have hended : n = o.attempted.length := by
    rw [hall kept hidle, h.paced, Traffic.begun, hidle]
    rfl
  rw [hended, List.take_length, ← h.conserved, hwaiting, List.append_nil]

end Accounts

/-- Requests are forwarded at most once, and in order as far as they are answered. Whatever is
emitted, however calls fail, and in whatever order the server reads its connections: the server
handles nothing but the requests that were given to the forwarder, and none of them twice; one
whose call was answered was handled exactly once; of two such requests the one that was emitted
first was handled first; each request that was given waits or is attempted by one call, in
order, and a call that fails is followed by the next one, however often calls fail; and if no
call fails, what is handled is what was given, from the first on and, once the forwarder has
nothing to do, up to the last. -/
theorem forwarded_at_most_once (client server : Framing) (handle : Handler σ) (state : σ)
    (moves : List Move) :
    let o := run client server handle state moves
    let t := o.traffic
    let given := .healthCheck :: emitted moves
    ((∀ k ∈ t.keys, o.attempted[k]? = given[k]? ∧ k < given.length) ∧ t.keys.Nodup ∧
        o.handled.Subperm given ∧
        t.state = o.handled.foldl (fun s r => (handle s r).1) state) ∧
      (∀ k a, t.outcomes[k]? = some (.ok a) → (k, a) ∈ t.handled ∧ t.keys.count k = 1) ∧
      (∀ i j, i < j → t.Answered i → t.Answered j → [i, j].Sublist t.keys) ∧
      (o.attempted ++ o.waiting = given ∧
        o.attempted.length = t.outcomes.length + t.phase.underWay ∧
        ∀ es : List Error,
          let after := run client server handle state (moves ++ es.flatMap failing)
          after.attempted = o.attempted ++ o.waiting.take es.length ∧
            after.waiting = o.waiting.drop es.length) ∧
      ((∀ e, .error e ∉ t.outcomes) → o.handled <+: given ∧
        ((∃ kept, t.phase = .idle kept) → o.waiting = [] → o.handled = given)) := by
  intro o t given
  let p : Endpoints σ := ⟨client, server, handle, given⟩
  have hcalls : given <+: p.calls := List.prefix_refl _
  have h : o.Accounts p state (emitted moves) := accounts_run p state moves hcalls
  have honce : t.keys.Nodup := h.sound.delivers.once
  refine ⟨⟨?_, honce, h.handled_subperm, ?_⟩, ?_, ?_, ⟨h.conserved, h.paced, ?_⟩, h.handled_prefix⟩
  · intro k hk
    have hlt : k < o.attempted.length := h.lt_attempted hk
    obtain ⟨later, hlater⟩ := h.attempted_prefix
    refine ⟨?_, Nat.lt_of_lt_of_le hlt h.attempted_prefix.length_le⟩
    rw [show given = o.attempted ++ later from hlater.symm, List.getElem?_append_left hlt]
  · rw [h.handled_eq_calls hcalls]
    exact h.sound.delivers.handles.state_eq
  · intro k a hk
    have hmem := h.sound.answered hk
    exact ⟨hmem, List.count_eq_one_of_mem honce (List.mem_map.2 ⟨_, hmem, rfl⟩)⟩
  · exact fun i j hlt hi hj => h.inOrder.pair_sublist h.sound hlt hi hj
  · intro es after
    have hafter : after = (es.flatMap failing).foldl (step client server handle) o := by
      simp only [after, o, run, List.foldl_append]
    rw [hafter]
    exact foldl_failing client server handle es o

/-- The first call times out and is handled after the next one, which was emitted meanwhile, was
answered. -/
example :
    let o := run .standard .standard (fun n _ => (n + 1, ⟨.ok⟩)) 0
      [.take, .pass .connect, .pass .frame, .emit .healthCheck, .pass (.write 30),
        .pass (.fail .timeout), .take, .pass .connect, .pass .frame, .pass (.write 30),
        .pass (.serve 1), .pass .read, .pass (.serve 0)]
    o.traffic.keys = [1, 0] ∧ o.traffic.outcomes.map Except.toOption = [none, some ⟨.ok⟩] := by
  decide +kernel

/-- Both calls are answered, the second one over the connection of the first, and all that was given
is handled. -/
example :
    let commit : Request := .committed ⟨"a", "orders", 0, 5, ""⟩
    let o := run .standard .standard (fun n _ => (n + 1, ⟨.ok⟩)) 0
      [.take, .pass .connect, .emit commit, .pass .frame, .pass (.write 30), .pass (.serve 0),
        .pass .read, .take, .pass .frame, .pass (.write 200), .pass (.serve 0), .pass .read]
    o.traffic.outcomes.map Except.toOption = [some ⟨.ok⟩, some ⟨.ok⟩] ∧
      o.traffic.phase = .idle (some 0) ∧ o.waiting = [] ∧ o.handled = [.healthCheck, commit] := by
  decide +kernel

end Outbox

end TopicWatch.Bridge
