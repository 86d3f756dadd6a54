import Telemetry.Proofs.Relay.Closing
import Telemetry.Relay.Schedule
/-!
Who waits for whom when a relay is closed.

Only a call that closes the relay ever waits, at most one at a time, and it waits for the worker
alone. If it does not hold on to the entrance, all other calls can come to their ends and then the
worker to its own, so the wait can end. A call that closes the relay out of the callback of its own
refused event still holds on to the entrance, and the worker cannot end before it lets go: such a
call waits for ever, unless the worker is taken down. `waiting_returns` says all of this.
-/

namespace Telemetry
namespace Threads

/-! ## Who waits -/

/-- A thread in a call goes on without waiting, unless it waits for the worker. -/
theorem thread_moves {t : Threads} {i : Nat} {p : Point} (hp : t.points[i]? = some p)
    (hj : p.isJoining = false) : ∃ m t', m.thread? = some i ∧ t.step m = some t' := by
  cases p with
  | outside => exact ⟨.close i, _, rfl, by simp only [step, hp]; rfl⟩
  | loaded e holds => exact ⟨.send i, _, rfl, by simp only [step, hp]; rfl⟩
  | emptied holds => exact ⟨.claim i, _, rfl, by simp only [step, hp]; rfl⟩
  | joining holds => cases hj
  | leaving holds => exact ⟨.leave i, _, rfl, by simp only [step, hp]; rfl⟩

/-- The move turns an event away, and the callback closes the relay, while the thread holds on to
the entrance. -/
def Entangles : Threads × Move → Prop
  | (t, .send i) => ∃ e, t.points[i]? = some (.loaded e true) ∧ t.relay.accepts = false ∧
      t.relay.reporter.reaction.closes = true
  | _ => False

/-- What is known of the threads while some of them close the relay. -/
structure Waits (t : Threads) : Prop where
  emptied : ∀ (i : Nat) (holds : Bool), t.points[i]? = some (.emptied holds) → t.relay.isOpen = false
  taken : t.joinable = false → t.relay.isOpen = false
  joining : ∀ (i : Nat) (holds : Bool), t.points[i]? = some (.joining holds) → t.joinable = false
  alone : ∀ (i j : Nat) (holds holds' : Bool), t.points[i]? = some (.joining holds) →
    t.points[j]? = some (.joining holds') → i = j
  idle : t.phase ≠ .waiting → t.relay.stage = .idle

theorem points_start {r : Relay} {count i : Nat} {p : Point}
    (h : (start r count).points[i]? = some p) : p = .outside := by
  obtain ⟨hi, hp⟩ := List.getElem?_eq_some_iff.1 h
  rw [← hp]
  exact List.getElem_replicate _

theorem waits_start (r : Relay) (count : Nat) (h : r.stage = .idle) : (start r count).Waits := by
  refine ⟨fun i holds hp => ?_, nofun, fun i holds hp => ?_, fun i j holds holds' hp hq => ?_,
    fun _ => h⟩
  · exact nomatch points_start hp
  · exact nomatch points_start hp
  · exact nomatch points_start hp

/-- After a callback that closes, the entrance is empty. -/
theorem isOpen_refused {r r' : Relay} {e : Event} (hr : r' = r.refuseFull e ∨ r' = r.refuseClosed e)
    (hc : r.reporter.reaction.closes = true) : r'.isOpen = false := by
  have hf : (r.isOpen && !r.reporter.reaction.closes) = false := by
    rw [hc]
    exact Bool.and_false _
  rcases hr with rfl | rfl
  · exact hf
  · exact hf

/-- A point that a thread gets to by the move, or one of another thread. -/
theorem points_set {ps : List Point} {i j : Nat} {p q : Point} (h : (ps.set i q)[j]? = some p) :
    j = i ∧ p = q ∨ j ≠ i ∧ ps[j]? = some p := by
  by_cases hij : i = j
  · subst hij
    obtain ⟨hl, hp⟩ := List.getElem?_eq_some_iff.1 h
    rw [List.getElem_set_self] at hp
    exact .inl ⟨rfl, hp.symm⟩
  · rw [List.getElem?_set_ne hij] at h
    exact .inr ⟨fun he => hij he.symm, h⟩

theorem Waits.congr {t t' : Threads} (h : t.Waits) (hp : t'.points = t.points)
    (hj : t'.joinable = t.joinable) (ho : t.relay.isOpen = false → t'.relay.isOpen = false)
    (hi : t'.phase ≠ .waiting → t'.relay.stage = .idle) : t'.Waits where
  emptied := fun i holds hq => ho (h.emptied i holds (hp ▸ hq))
  taken := fun hq => ho (h.taken (hj ▸ hq))
  joining := fun i holds hq => hj ▸ h.joining i holds (hp ▸ hq)
  alone := fun i j holds holds' hq hr => h.alone i j holds holds' (hp ▸ hq) (hp ▸ hr)
  idle := hi

/-- One thread goes on to a point where it does not wait. -/
theorem Waits.move {t t' : Threads} {i : Nat} {q : Point} (h : t.Waits)
    (hp : t'.points = t.points.set i q) (hj : t'.joinable = t.joinable)
    (ho : t.relay.isOpen = false → t'.relay.isOpen = false)
    (hi : t'.phase ≠ .waiting → t'.relay.stage = .idle) (hq : q.isJoining = false)
    (he : ∀ holds, q = .emptied holds → t'.relay.isOpen = false) : t'.Waits where
  emptied := fun j holds hx => by
    rw [hp] at hx
    rcases points_set hx with ⟨-, hx⟩ | ⟨-, hx⟩
    · exact he holds hx.symm
    · exact ho (h.emptied j holds hx)
  taken := fun hx => ho (h.taken (hj ▸ hx))
  joining := fun j holds hx => by
    rw [hp] at hx
    rcases points_set hx with ⟨-, hx⟩ | ⟨-, hx⟩
    · rw [← hx] at hq
      exact nomatch hq
    · exact hj ▸ h.joining j holds hx
  alone := fun j k holds holds' hx hy => by
    rw [hp] at hx hy
    rcases points_set hx with ⟨-, hx⟩ | ⟨-, hx⟩
    · rw [← hx] at hq
      exact nomatch hq
    · rcases points_set hy with ⟨-, hy⟩ | ⟨-, hy⟩
      · rw [← hy] at hq
        exact nomatch hq
      · exact h.alone j k holds holds' hx hy
  idle := hi

/-- The first thread that takes it on to wait is the only one. -/
theorem Waits.claim {t : Threads} {i : Nat} {holds : Bool} (h : t.Waits)
    (hp : t.points[i]? = some (.emptied holds)) : (t.claim i holds).Waits := by
  unfold Threads.claim
  by_cases hj : t.joinable = true
  · rw [if_pos hj]
    have none (j : Nat) (holds' : Bool) : t.points[j]? ≠ some (.joining holds') := by
      intro hx
      exact Bool.false_ne_true ((h.joining j holds' hx).symm.trans hj)
    refine ⟨fun j holds' hx => ?_, fun _ => h.emptied i holds hp, fun j holds' hx => rfl,
      fun j k holds' holds'' hx hy => ?_, h.idle⟩
    · rcases points_set hx with ⟨-, hx⟩ | ⟨-, hx⟩
      · exact nomatch hx
      · exact h.emptied j holds' hx
    · rcases points_set hx with ⟨rfl, -⟩ | ⟨-, hx⟩
      · rcases points_set hy with ⟨rfl, -⟩ | ⟨-, hy⟩
        · rfl
        · exact absurd hy (none k holds'')
      · exact absurd hx (none j holds')
  · rw [if_neg hj]
    exact h.move rfl rfl id h.idle rfl nofun

theorem step_waits {t t' : Threads} {m : Move} (h : t.Waits) (hs : t.step m = some t') :
    t'.Waits := by
  have ho := step_isOpen hs
  cases step_cases hs with
  | load i e point => exact h.move rfl rfl ho h.idle rfl nofun
  | send i e holds point =>
      rcases t.send_cases i e holds with ⟨-, -, hr⟩ | ⟨-, r, hr, heq⟩
      · rw [hr] at ho ⊢
        exact h.move rfl rfl ho h.idle rfl nofun
      · have hidle : t.phase ≠ .waiting → r.stage = .idle := by
          rcases hr with rfl | rfl
          · exact h.idle
          · exact h.idle
        rw [heq] at ho ⊢
        cases hc : t.relay.reporter.reaction.closes with
        | false => exact h.move rfl rfl ho hidle rfl nofun
        | true => exact h.move rfl rfl ho hidle rfl fun _ _ => isOpen_refused hr hc
  | close i point => exact h.move rfl rfl ho h.idle rfl fun _ _ => rfl
  | claim i holds point => exact h.claim point
  | joined i holds point gone => exact h.move rfl rfl ho h.idle rfl nofun
  | leave i holds point => exact h.move rfl rfl ho h.idle rfl nofun
  | begin => exact h.congr rfl rfl ho (absurd rfl)
  | take relay phase taken => exact h.congr rfl rfl ho fun hn => absurd phase hn
  | handle relay handled =>
      obtain ⟨e, he⟩ := Relay.holding_of_handle handled
      exact h.congr rfl rfl ho fun hn => nomatch (h.idle hn).symm.trans he
  | expire phase idle => exact h.congr rfl rfl ho fun _ => (Relay.isIdle_eq idle).1
  | tick => exact h.congr rfl rfl ho (absurd rfl)
  | finish phase => exact h.congr rfl rfl ho fun hn => absurd phase hn
  | wait => exact h.congr rfl rfl ho h.idle

theorem run_waits {t u : Threads} {future : List (Threads × Move)} (h : Run step t future u)
    (hw : t.Waits) : u.Waits := by
  induction h with
  | start => exact hw
  | next before enabled ih => exact step_waits ih enabled

/-! ## A wait that cannot end -/

/-- A worker that has not ended ends by the one move that asks for it, or is taken down. -/
theorem step_isServing {t t' : Threads} {m : Move} (h : t.step m = some t')
    (hs : t.relay.isServing = true) :
    t'.relay.isServing = true ∨ t'.relay.stage = .crashed ∨ m = .finish := by
  have works {r r' : Relay} (w : Relay.Works r r') (hr : r.isServing = true) :
      r'.isServing = true ∨ r'.stage = .crashed ∨ m = .finish := by
    rcases w.queue with ⟨hk, -⟩ | ⟨hc, -⟩
    · rw [Relay.isServing_congr hk]
      exact .inl hr
    · exact .inr (.inl hc)
  cases step_cases h with
  | begin => exact works (Relay.works_schedule _) hs
  | tick => exact works (Relay.works_flushDue _) hs
  | handle relay handled =>
      obtain ⟨e, he⟩ := Relay.holding_of_handle handled
      exact works (Relay.works_handle he handled) rfl
  | finish => exact .inr (.inr rfl)
  | send i e holds point =>
      rw [Relay.isServing_congr (t.stage_send i e holds)]
      exact .inl hs
  | take relay phase taken =>
      obtain ⟨e, queue, -, -, rfl⟩ := Relay.take?_eq_some taken
      exact .inl rfl
  | claim i holds point =>
      rw [relay_claim]
      exact .inl hs
  | load => exact .inl hs
  | close => exact .inl hs
  | joined => exact .inl hs
  | leave => exact .inl hs
  | expire => exact .inl hs
  | wait => exact .inl hs

theorem step_crashed {t t' : Threads} {m : Move} (h : t.step m = some t')
    (hc : t.relay.stage = .crashed) : t'.relay.stage = .crashed :=
  ((step_change h).down hc).1

theorem run_crashed {t u : Threads} {future : List (Threads × Move)} (h : Run step t future u)
    (hc : t.relay.stage = .crashed) : u.relay.stage = .crashed := by
  induction h with
  | start => exact hc
  | next before enabled ih => exact step_crashed enabled ih

/-- A thread that waits stays where it is as long as the worker serves. -/
theorem step_joining {t t' : Threads} {m : Move} {i : Nat} {holds : Bool}
    (h : t.step m = some t') (hp : t.points[i]? = some (.joining holds))
    (hs : t.relay.isServing = true) : t'.points[i]? = some (.joining holds) := by
  rcases step_points h with hk | ⟨j, p, q, hk, hj, hq⟩
  · rw [hk]
    exact hp
  · by_cases hij : j = i
    · rw [hij, hp] at hj
      cases hj
      cases hk
      exact absurd ((joined_gone h).symm.trans hs) Bool.false_ne_true
    · rw [hq, List.getElem?_set_ne hij]
      exact hp

/-- A thread that waits and holds on to the entrance keeps the worker from its end. -/
theorem run_joining {t u : Threads} {future : List (Threads × Move)} {i : Nat}
    (h : Run step t future u) (hp : t.points[i]? = some (.joining true))
    (hs : t.relay.stage = .crashed ∨ t.relay.isServing = true) :
    u.relay.stage = .crashed ∨
      u.relay.isServing = true ∧ u.points[i]? = some (.joining true) := by
  induction h with
  | start => exact hs.imp_right fun hs => ⟨hs, hp⟩
  | @next past v w m before enabled ih =>
      rcases ih with hc | ⟨hv, hq⟩
      · exact .inl (step_crashed enabled hc)
      · rcases step_isServing enabled hv with hw | hc | hm
        · exact .inr ⟨hw, step_joining enabled hq hv⟩
        · exact .inl hc
        · -- The worker ends only when nobody holds on to the entrance.
          rw [hm] at enabled
          obtain ⟨-, -, hd⟩ := finish_disconnected enabled
          exact nomatch hd.holds _ (List.mem_of_getElem? hq)

theorem joined_crashed {t u u' : Threads} {future : List (Threads × Move)} {i : Nat}
    (h : Run step t future u) (hp : t.points[i]? = some (.joining true))
    (hs : t.relay.stage ≠ .ended) (hj : u.step (.joined i) = some u') :
    u.relay.stage = .crashed := by
  have hv : t.relay.stage = .crashed ∨ t.relay.isServing = true := by
    cases hg : t.relay.isServing with
    | true => exact .inr rfl
    | false => exact .inl ((Relay.stage_of_gone hg).resolve_left hs)
  rcases run_joining h hp hv with hc | ⟨hw, -⟩
  · exact hc
  · exact absurd ((joined_gone hj).symm.trans hw) Bool.false_ne_true

/-! ## A wait that can end -/

/-- How many moves a thread has left in its call, where an event that it may still put into the
queue counts for the two moves that the worker makes with it. -/
def pointEffort : Point → Nat
  | .outside => 0
  | .loaded _ _ => 5
  | .emptied _ => 2
  | .joining _ => 0
  | .leaving _ => 1

def stageEffort : Stage → Nat
  | .idle => 1
  | .holding _ => 2
  | .ended => 0
  | .crashed => 0

def phaseEffort : Phase → Nat
  | .starting => 1
  | .waiting => 0
  | .expired => 1

def pointsEffort : List Point → Nat
  | [] => 0
  | p :: ps => pointEffort p + pointsEffort ps

/-- A bound on the moves that it takes until all calls are over and the worker has ended. -/
def effort (t : Threads) : Nat :=
  pointsEffort t.points + 2 * t.relay.queue.length + stageEffort t.relay.stage +
    phaseEffort t.phase

theorem pointsEffort_set {ps : List Point} {j : Nat} {p : Point} (q : Point)
    (h : ps[j]? = some p) :
    pointsEffort (ps.set j q) + pointEffort p = pointsEffort ps + pointEffort q := by
  induction ps generalizing j with
  | nil => exact nomatch h
  | cons x ps ih =>
      cases j with
      | zero =>
          cases h
          simp only [List.set_cons_zero, pointsEffort]
          omega
      | succ j =>
          have hs := ih h
          simp only [List.set_cons_succ, pointsEffort]
          omega

theorem effort_works {r r' : Relay} (h : Relay.Works r r') :
    stageEffort r'.stage ≤ stageEffort r.stage ∧ r'.queue.length ≤ r.queue.length := by
  rcases h.queue with ⟨hs, hq⟩ | ⟨hs, hq, -⟩
  · rw [hs, hq]
    exact ⟨Nat.le_refl _, Nat.le_refl _⟩
  · rw [hs, hq]
    exact ⟨Nat.zero_le _, Nat.zero_le _⟩

theorem effort_windUp {r : Relay} (h : r.stage = .idle) :
    stageEffort r.windUp.stage = 0 ∧ r.windUp.queue.length ≤ r.queue.length := by
  have hq := (effort_works (Relay.works_finalFlush r)).2
  rcases Relay.windUp_cases h with ⟨hs, hw⟩ | ⟨hs, hw⟩
  · rw [hw, hs]
    exact ⟨rfl, hq⟩
  · rw [hw]
    refine ⟨rfl, ?_⟩
    show r.finalFlush.discardRest.queue.length ≤ _
    rw [Relay.queue_discardRest]
    exact hq

/-- A call that is under way, and does not wait, has a move that brings it nearer to its end. -/
theorem thread_advances {t : Threads} {j : Nat} {p : Point} (hp : t.points[j]? = some p)
    (hj : t.joinable = false) (h : 0 < pointEffort p) :
    ∃ m t', t.step m = some t' ∧ t'.effort < t.effort := by
  cases p with
  | outside => exact absurd h (Nat.lt_irrefl 0)
  | joining holds => exact absurd h (Nat.lt_irrefl 0)
  | loaded e holds =>
      refine ⟨.send j, t.send j e holds, by simp only [step, hp], ?_⟩
      rcases t.send_cases j e holds with ⟨-, -, hr⟩ | ⟨-, r, hr, heq⟩
      · have hs := pointsEffort_set (.leaving holds) hp
        rw [hr]
        simp only [effort, moveTo, Relay.accept, Relay.count, List.length_append,
          List.length_singleton, pointEffort] at hs ⊢
        omega
      · have hk : r.stage = t.relay.stage ∧ r.queue = t.relay.queue := by
          rcases hr with rfl | rfl
          · exact ⟨rfl, rfl⟩
          · exact ⟨rfl, rfl⟩
        rw [heq]
        cases t.relay.reporter.reaction.closes with
        | false =>
            have hs := pointsEffort_set (.leaving holds) hp
            simp only [effort, moveTo, hk, Bool.false_eq_true, if_false, pointEffort] at hs ⊢
            omega
        | true =>
            have hs := pointsEffort_set (.emptied holds) hp
            simp only [effort, moveTo, hk, if_true, pointEffort] at hs ⊢
            omega
  | emptied holds =>
      have hs := pointsEffort_set (.leaving holds) hp
      refine ⟨.claim j, t.claim j holds, by simp only [step, hp], ?_⟩
      unfold claim
      rw [hj, if_neg Bool.false_ne_true]
      simp only [effort, moveTo, pointEffort] at hs ⊢
      omega
  | leaving holds =>
      have hs := pointsEffort_set .outside hp
      refine ⟨.leave j, t.moveTo j .outside, by simp only [step, hp], ?_⟩
      simp only [effort, moveTo, pointEffort] at hs ⊢
      omega

/-- A worker that serves has a move that brings it nearer to its end, once nobody can reach the
queue. -/
theorem worker_advances {t : Threads} (hw : t.Waits) (hs : t.relay.isServing = true)
    (hc : t.isConnected = false) : ∃ m t', t.step m = some t' ∧ t'.effort < t.effort := by
  cases hp : t.phase with
  | starting =>
      have hi : t.relay.stage = .idle := hw.idle (by simp [hp])
      have he := effort_works (Relay.works_schedule t.relay)
      refine ⟨.begin, _, by simp only [step, hp, hi]; rfl, ?_⟩
      simp only [effort, hp, phaseEffort]
      omega
  | expired =>
      have hi : t.relay.stage = .idle := hw.idle (by simp [hp])
      have he := effort_works (Relay.works_flushDue t.relay)
      refine ⟨.tick, _, by simp only [step, hp, hi]; rfl, ?_⟩
      simp only [effort, hp, phaseEffort]
      omega
  | waiting =>
      cases hi : t.relay.stage with
      | holding e =>
          obtain ⟨r, hr⟩ : ∃ r, t.relay.handle? = some r := ⟨_, Relay.handle?_holding hi⟩
          have he := effort_works (Relay.works_handle hi hr)
          refine ⟨.handle, { t with relay := r }, by simp only [step, onRelay, hr]; rfl, ?_⟩
          simp only [effort, hp, hi, stageEffort] at he ⊢
          omega
      | idle =>
          cases hq : t.relay.queue with
          | cons e queue =>
              refine ⟨.take, { t with relay := { t.relay with stage := .holding e, queue } }, ?_, ?_⟩
              · simp only [step, hp, onRelay, Relay.take?, hi, hq]
                rfl
              · simp only [effort, hp, hi, hq, stageEffort, List.length_cons]
                omega
          | nil =>
              have he := effort_windUp hi
              have hd : t.relay.isIdle = true := by
                unfold Relay.isIdle
                rw [hi, hq]
                rfl
              refine ⟨.finish, { t with relay := t.relay.windUp }, ?_, ?_⟩
              · simp only [step, hp, hd, hc]
                rfl
              · simp only [effort, hp, hi, hq, stageEffort] at he ⊢
                omega
      | ended =>
          exact absurd ((Relay.isServing_ended hi).symm.trans hs) Bool.false_ne_true
      | crashed =>
          exact absurd ((Relay.isServing_crashed hi).symm.trans hs) Bool.false_ne_true

/-- As long as a thread waits without holding on to the entrance, some other move brings the
worker's end nearer. -/
theorem joining_advances {t : Threads} {i : Nat} (hw : t.Waits)
    (hp : t.points[i]? = some (.joining false)) (hs : t.relay.isServing = true) :
    ∃ m t', t.step m = some t' ∧ t'.effort < t.effort := by
  have hj := hw.joining i false hp
  by_cases hall : ∀ p ∈ t.points, pointEffort p = 0
  · refine worker_advances hw hs ?_
    unfold isConnected
    rw [hw.taken hj, Bool.false_or, List.any_eq_false]
    intro p hm
    -- Whoever is in a call waits, so it is this thread.
    have h0 := hall p hm
    cases p with
    | outside => exact Bool.false_ne_true
    | joining holds =>
        obtain ⟨k, hk⟩ := List.mem_iff_getElem?.1 hm
        rw [hw.alone k i holds false hk hp, hp] at hk
        cases hk
        exact Bool.false_ne_true
    | loaded e holds => exact nomatch h0
    | emptied holds => exact nomatch h0
    | leaving holds => exact nomatch h0
  · obtain ⟨p, hm, h0⟩ : ∃ p, p ∈ t.points ∧ pointEffort p ≠ 0 := by
      simpa using hall
    obtain ⟨j, hk⟩ := List.mem_iff_getElem?.1 hm
    exact thread_advances hk hj (Nat.pos_of_ne_zero h0)

/-- Whoever waits without holding on to the entrance can wait until the worker is gone. -/
theorem joining_returns {t : Threads} {i : Nat} (hw : t.Waits)
    (hp : t.points[i]? = some (.joining false)) :
    ∃ future u u', Run step t future u ∧ u.step (.joined i) = some u' := by
  induction hn : t.effort using Nat.strongRecOn generalizing t with
  | _ n ih =>
    cases hs : t.relay.isServing with
    | false =>
        exact ⟨[], t, t.moveTo i (.leaving false), .start, by simp only [step, hp, hs]; rfl⟩
    | true =>
        obtain ⟨m, t', ht, he⟩ := joining_advances hw hp hs
        obtain ⟨future, u, u', hu, hj⟩ :=
          ih t'.effort (hn ▸ he) (step_waits hw ht) (step_joining ht hp hs) rfl
        exact ⟨[(t, m)] ++ future, u, u', (Run.start.next ht).trans hu, hj⟩

/-! ## Whole runs -/

/-- A thread that closes the relay and still holds on to the entrance comes out of the callback of
its own refused event. -/
theorem step_entangled {t t' : Threads} {m : Move} {i : Nat} (h : t.step m = some t')
    (hp : t'.points[i]? = some (.emptied true) ∨ t'.points[i]? = some (.joining true)) :
    m = .send i ∧ Entangles (t, m) ∨
      t.points[i]? = some (.emptied true) ∨ t.points[i]? = some (.joining true) := by
  have old {j : Nat} {q : Point} (hs : t'.points = t.points.set j q) (hq : q ≠ .emptied true)
      (hr : q ≠ .joining true) :
      t.points[i]? = some (.emptied true) ∨ t.points[i]? = some (.joining true) := by
    rw [hs] at hp
    rcases hp with hp | hp
    · rcases points_set hp with ⟨-, hx⟩ | ⟨-, hx⟩
      · exact absurd hx.symm hq
      · exact .inl hx
    · rcases points_set hp with ⟨-, hx⟩ | ⟨-, hx⟩
      · exact absurd hx.symm hr
      · exact .inr hx
  cases step_cases h with
  | load j e point => exact .inr (old rfl nofun nofun)
  | send j e holds point =>
      rcases t.send_cases j e holds with ⟨-, -, hr⟩ | ⟨ha, r, -, hr⟩
      · rw [hr] at old
        exact .inr (old rfl nofun nofun)
      · rw [hr] at old
        cases hc : t.relay.reporter.reaction.closes with
        | false =>
            rw [hc] at old
            exact .inr (old rfl nofun nofun)
        | true =>
            rw [hc] at old
            cases holds with
            | false => exact .inr (old rfl nofun nofun)
            | true =>
                by_cases hij : j = i
                · subst hij
                  exact .inl ⟨rfl, e, point, ha, hc⟩
                · rw [hr, hc] at hp
                  rw [← List.getElem?_set_ne hij]
                  exact .inr hp
  | close j point => exact .inr (old rfl nofun nofun)
  | claim j holds point =>
      unfold claim at old hp
      by_cases hj : t.joinable = true
      · rw [if_pos hj] at old hp
        cases holds with
        | false => exact .inr (old rfl nofun nofun)
        | true =>
            by_cases hij : j = i
            · subst hij
              exact .inr (.inl point)
            · rw [← List.getElem?_set_ne hij]
              exact .inr hp
      · rw [if_neg hj] at old
        exact .inr (old rfl nofun nofun)
  | joined j holds point gone => exact .inr (old rfl nofun nofun)
  | leave j holds point => exact .inr (old rfl nofun nofun)
  | begin => exact .inr hp
  | take => exact .inr hp
  | handle => exact .inr hp
  | expire => exact .inr hp
  | tick => exact .inr hp
  | finish => exact .inr hp
  | wait => exact .inr hp

/-- Once the worker has ended, nobody holds on to the entrance. -/
theorem ended_disconnected {t u : Threads} {past : List (Threads × Move)} (h : Run step t past u)
    (ht : t.relay.stage ≠ .ended) (he : u.relay.stage = .ended) : u.Disconnected := by
  induction h with
  | start => exact absurd he ht
  | @next past v w m before enabled ih =>
      by_cases hv : v.relay.stage = .ended
      · exact (ih hv).kept enabled
      · cases hs : v.relay.isServing with
        | false =>
            have hc := (Relay.stage_of_gone hs).resolve_left hv
            exact nomatch he.symm.trans (step_crashed enabled hc)
        | true =>
            rcases step_isServing enabled hs with hw | hc | hm
            · exact absurd ((Relay.isServing_ended he).symm.trans hw) Bool.false_ne_true
            · exact nomatch he.symm.trans hc
            · have hd := (finish_disconnected (hm ▸ enabled)).2.2
              exact hd.kept enabled

variable {s : Settings} {reactions : List Reaction} {answers : List DialAnswer} {clock : Clock}
  {count : Nat} {past : List (Threads × Move)} {t : Threads}

theorem run_entangled {i : Nat} {r : Relay} (h : Run step (start r count) past t)
    (hp : t.points[i]? = some (.emptied true) ∨ t.points[i]? = some (.joining true)) :
    ∃ x ∈ past, x.2 = .send i ∧ Entangles x := by
  induction h with
  | start =>
      rcases hp with hp | hp
      · exact nomatch points_start hp
      · exact nomatch points_start hp
  | @next past u v m before enabled ih =>
      rcases step_entangled enabled hp with ⟨hm, he⟩ | hq
      · exact ⟨(u, m), List.mem_append_right _ (List.mem_singleton_self _), hm, he⟩
      · obtain ⟨x, hx, hy⟩ := ih hq
        exact ⟨x, List.mem_append_left _ hx, hy⟩

/-- A call that submits an event to a relay in such a state comes to wait for itself by its own
moves. -/
theorem selfWaits_joining {i : Nat} (hw : t.Waits) (hp : t.points[i]? = some .outside)
    (hs : t.relay.selfWaits = true) (e : Event) :
    ∃ u v w, t.step (.load i e) = some u ∧ u.step (.send i) = some v ∧
      v.step (.claim i) = some w ∧ w.points[i]? = some (.joining true) ∧
      w.relay.isServing = true := by
  unfold Relay.selfWaits at hs
  simp only [Bool.and_eq_true] at hs
  obtain ⟨⟨⟨ho, hv⟩, hf⟩, hc⟩ := hs
  have hl : i < t.points.length := (List.getElem?_eq_some_iff.1 hp).1
  have hj : t.joinable = true := by
    cases hj : t.joinable with
    | true => rfl
    | false => exact nomatch (hw.taken hj).symm.trans ho
  have ha : t.relay.accepts = false := by
    rw [Relay.accepts, hv, hf]
    rfl
  -- The call finds the entrance, its event is refused, and its callback leads it into closing.
  have hload : (t.load i e).points[i]? = some (.loaded e true) := by
    rw [load, ho]
    exact List.getElem?_set_self hl
  obtain ⟨v, hsend, hpoint, hjoin, hserve⟩ : ∃ v, (t.load i e).step (.send i) = some v ∧
      v.points[i]? = some (.emptied true) ∧ v.joinable = true ∧ v.relay.isServing = true := by
    refine ⟨(t.load i e).send i e true, by simp only [step, hload], ?_⟩
    rcases (t.load i e).send_cases i e true with ⟨-, hn, -⟩ | ⟨-, r, hr, heq⟩
    · exact absurd (ha.symm.trans hn) Bool.false_ne_true
    · have hs : r.isServing = t.relay.isServing := by
        rcases hr with rfl | rfl
        · rfl
        · rfl
      have hc : (t.load i e).relay.reporter.reaction.closes = true := hc
      rw [heq, hc]
      refine ⟨List.getElem?_set_self ?_, hj, hs.trans hv⟩
      rw [load, moveTo, List.length_set]
      exact hl
  refine ⟨t.load i e, v, v.claim i true, by simp only [step, hp], hsend,
    by simp only [step, hpoint], ?_⟩
  rw [claim, if_pos hjoin]
  exact ⟨List.getElem?_set_self (List.getElem?_eq_some_iff.1 hpoint).1, hserve⟩

theorem run_waits_start
    (h : Run step (start (.unscheduled s.withDefaults reactions answers clock) count) past t) :
    t.Waits :=
  run_waits h (waits_start _ _ rfl)

/-- Whatever the order in which threads submit events to a relay and close it, and wherever the
callback closes it: a call goes on without waiting, except for one that waits for the worker; the
worker itself waits for nobody, and nothing that it does makes a thread wait. A thread that waits
without holding on to the entrance can return. One that waits and holds on to it closed the relay
out of the callback of its own refused event, and does not return unless the worker is taken down;
and every call that finds the queue full and a callback that closes can come to this. -/
theorem waiting_returns
    (h : Run step (start (.unscheduled s.withDefaults reactions answers clock) count) past t) :
    (∀ i p, t.points[i]? = some p → p.isJoining = false →
      ∃ m t', m.thread? = some i ∧ t.step m = some t') ∧
    (∀ m t', m.thread? = none → t.step m = some t' →
      t'.points = t.points ∧ t'.joinable = t.joinable) ∧
    (∀ i, t.points[i]? = some (.joining false) →
      ∃ future u u', Run step t future u ∧ u.step (.joined i) = some u') ∧
    (∀ i, t.points[i]? = some (.joining true) →
      (∃ x ∈ past, x.2 = .send i ∧ Entangles x) ∧
      ∀ future u u', Run step t future u → u.step (.joined i) = some u' →
        u.relay.stage = .crashed) ∧
    (∀ i e, t.points[i]? = some Point.outside → t.relay.selfWaits = true →
      ∃ u v w, t.step (.load i e) = some u ∧ u.step (.send i) = some v ∧
        v.step (.claim i) = some w ∧ w.points[i]? = some (.joining true) ∧
        w.relay.isServing = true) := by
  have hw := run_waits_start h
  refine ⟨fun i p hp hj => ?_, fun m t' hm hs => ?_, fun i hp => joining_returns hw hp,
    fun i hp => ⟨run_entangled h (.inr hp), fun future u u' hu hj => ?_⟩,
    fun i e hp hs => selfWaits_joining hw hp hs e⟩
  · exact thread_moves hp hj
  · exact worker_moves hm hs
  · refine joined_crashed hu hp (fun he => ?_) hj
    exact nomatch (ended_disconnected h nofun he).holds _ (List.mem_of_getElem? hp)

/-- Whether the thread holds on to the entrance, if it waits. -/
def waiting? (t : Threads) (i : Nat) : Option Bool :=
  match t.points[i]? with
  | some (.joining holds) => some holds
  | _ => none

theorem joining_of_waiting {t : Threads} {i : Nat} {holds : Bool} (h : t.waiting? i = some holds) :
    t.points[i]? = some (.joining holds) := by
  unfold waiting? at h
  split at h
  · next hp =>
    cases h
    exact hp
  · exact nomatch h

/-- One thread finds the entrance and keeps it, another one closes the relay and waits. -/
def overtaken : Option (List (Threads × Move) × Threads) :=
  Run.follow step (start (.unscheduled Relay.cramped.withDefaults [] [] ⟨0, []⟩) 2)
    [.load 0 Relay.sample, .close 1, .claim 1]

theorem waiting_returns_overtaken : ∃ past t future u u',
    Run step (start (.unscheduled Relay.cramped.withDefaults [] [] ⟨0, []⟩) 2) past t ∧
    t.points[1]? = some (.joining false) ∧ t.isConnected = true ∧
    Run step t future u ∧ u.step (.joined 1) = some u' := by
  have hsome : overtaken.isSome = true := by decide +kernel
  have hend : overtaken.map (fun run => (run.2.waiting? 1, run.2.isConnected)) =
      some (some false, true) := by decide +kernel
  obtain ⟨⟨past, t⟩, hr⟩ := Option.isSome_iff_exists.1 hsome
  rw [hr] at hend
  have he := Option.some.inj hend
  have h := Run.of_follow hr
  have hp : t.points[1]? = some (.joining false) := joining_of_waiting (congrArg (·.1) he)
  obtain ⟨-, -, hreturns, -⟩ := waiting_returns h
  obtain ⟨future, u, u', hu, hj⟩ := hreturns 1 hp
  exact ⟨past, t, future, u, u', h, hp, congrArg (·.2) he, hu, hj⟩

/-- Room for one event beside the one that the worker has in hand, and a callback that closes the
relay: the third event is refused, and its call waits. -/
def entanglement : Option (List (Threads × Move) × Threads) :=
  Run.follow step (start (.unscheduled Relay.cramped.withDefaults [⟨true, none⟩] [] ⟨0, []⟩) 1)
    [.begin, .load 0 Relay.sample, .send 0, .leave 0, .take, .load 0 Relay.sample, .send 0, .leave 0,
      .load 0 Relay.sample, .send 0, .claim 0]

theorem entangled_for_ever : ∃ past t,
    Run step (start (.unscheduled Relay.cramped.withDefaults [⟨true, none⟩] [] ⟨0, []⟩) 1) past t ∧
    (∀ e, Relay.cramped.codec e ≠ .crashed) ∧ t.points[0]? = some (.joining true) ∧
    ∀ future u, Run step t future u → u.relay.stage = .crashed ∨
      u.relay.isServing = true ∧ u.points[0]? = some (.joining true) := by
  have hsome : entanglement.isSome = true := by decide +kernel
  have hend : entanglement.map (fun run => (run.2.waiting? 0, run.2.relay.isServing)) =
      some (some true, true) := by decide +kernel
  obtain ⟨⟨past, t⟩, hr⟩ := Option.isSome_iff_exists.1 hsome
  rw [hr] at hend
  have he := Option.some.inj hend
  have hp : t.points[0]? = some (.joining true) := joining_of_waiting (congrArg (·.1) he)
  exact ⟨past, t, Run.of_follow hr, fun _ => nofun, hp,
    fun future u hu => run_joining hu hp (.inr (congrArg (·.2) he))⟩

end Threads
end Telemetry
