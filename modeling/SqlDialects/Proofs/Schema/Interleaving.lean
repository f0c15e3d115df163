/-
Threads that share one administration and clear the SQL mode at the same time.

A thread goes through an attempt step by step, and any thread may take the next step. Between `acquiring` and
`releasing` it holds the lock; it gives it back also after a statement that failed, and reports only then.

- `System`, `step`, `run`: the threads, one step of one of them, and the steps of a whole schedule.
- `inOrder_step`, `inOrder_run`: at any moment, the attempts that gave the lock back did what they do one after another,
  and the one that holds it is somewhere in between.
- `serial_run`: no two threads hold the lock, the mode is cleared once at most, and when all attempts have ended
  nothing tells them from attempts made in the order in which they got the lock.
-/
import Mathlib.Data.List.Perm.Subperm
import Mathlib.Logic.Function.Basic
import SqlDialects.Proofs.Schema.Turns

namespace SqlDialects

namespace Admin

/-! ## Threads -/

/-- where a thread stands in an attempt -/
inductive Stage where
  | idle
  | acquiring
  /-- about to look at the flag and at the strictness of the session -/
  | testing
  /-- about to issue the statement -/
  | clearing
  /-- about to raise the flag -/
  | noting
  | releasing (outcome : Except StatementFailed Bool)
  | reporting (outcome : Except StatementFailed Bool)

namespace Stage

/-- the thread holds the lock -/
def inside : Stage → Bool
  | testing => true
  | clearing => true
  | noting => true
  | releasing _ => true
  | _ => false

/-- the thread waits for the lock -/
def waiting : Stage → Nat
  | acquiring => 1
  | _ => 0

/-- what the thread is about to report -/
def owed : Stage → List (Except StatementFailed Bool)
  | reporting outcome => [outcome]
  | _ => []

/-- one step inside the lock: the administration after it, what it did, and where the thread stands then -/
def advance (admin : Admin) (connection : Connection) : Stage → Admin × List Event × Stage
  | testing =>
    if admin.strictModeDisabled then (admin, [], releasing (.ok false))
    else
      let strict : Traced StatementFailed Bool := admin.isStrict connection
      match strict.outcome with
      | .ok true => (admin, strict.events, clearing)
      | outcome => (admin, strict.events, releasing outcome)
  | clearing =>
    let statement := connection.execute clearMode
    match statement.outcome with
    | .ok _ => (admin, statement.events, noting)
    | .error e => (admin, statement.events, releasing (.error e))
  | noting => (admin.noting (.ok true), [], releasing (.ok true))
  | stage => (admin, [], stage)

theorem inside_advance (admin : Admin) (connection : Connection) (stage : Stage) :
    (stage.advance admin connection).2.2.inside = stage.inside := by
  cases stage with
  | testing =>
    cases hflag : admin.strictModeDisabled with
    | true => simp [advance, hflag, inside]
    | false => cases hstrict : admin.configuredStrict connection <;> simp [advance, hflag, isStrict_eq, hstrict, inside]
  | clearing =>
    cases hfails : connection.fails clearMode <;>
      simp [advance, Connection.execute, Connection.call_eq, hfails, inside]
  | _ => rfl

theorem waiting_of_inside {stage : Stage} (h : stage.inside = true) : stage.waiting = 0 := by
  cases stage <;> first | rfl | cases h

theorem owed_of_inside {stage : Stage} (h : stage.inside = true) : stage.owed = [] := by
  cases stage <;> first | rfl | cases h

end Stage

/-- the record that an attempt leaves when it has given the lock back -/
def report : Except StatementFailed Bool → List Event
  | .ok true => [clearedRecord]
  | _ => []

/-- threads that share an administration -/
structure System (Thread : Type) where
  admin : Admin
  /-- the thread that holds the lock -/
  lock : Option Thread
  events : List Event
  stage : Thread → Stage
  /-- how many attempts each thread has still to begin -/
  pending : Thread → Nat
  /-- who got the lock, in that order -/
  acquired : List Thread
  /-- what was reported, in that order -/
  reported : List (Thread × Except StatementFailed Bool)

/-- an administration that was just built, and the attempts that each thread will make -/
def System.start {Thread : Type} (admin : Admin) (attempts : Thread → Nat) : System Thread :=
  ⟨admin, none, [], fun _ => .idle, attempts, [], []⟩

/-- every attempt has ended -/
def System.Ended {Thread : Type} (s : System Thread) : Prop := ∀ t, s.pending t = 0 ∧ s.stage t = .idle

/-- what a thread reported, in that order -/
def outcomesOf {Thread : Type} [DecidableEq Thread] (t : Thread) (reported : List (Thread × Except StatementFailed Bool)) :
    List (Except StatementFailed Bool) := (reported.filter fun report => report.1 == t).map Prod.snd

variable {Thread : Type} [DecidableEq Thread] {connection : Nat → Connection} {admin : Admin}

theorem outcomesOf_append (t u : Thread) (reported : List (Thread × Except StatementFailed Bool))
    (outcome : Except StatementFailed Bool) : outcomesOf u (reported ++ [(t, outcome)]) =
      outcomesOf u reported ++ if t = u then [outcome] else [] := by
  rw [outcomesOf, List.filter_append, List.map_append]
  by_cases h : t = u <;> simp [outcomesOf, h]

namespace System

/-- a thread takes its next step, if it can: without the lock it waits where another holds it -/
def step (connection : Nat → Connection) (s : System Thread) (t : Thread) : System Thread :=
  match s.stage t with
  | .idle =>
    if s.pending t = 0 then s
    else
      { s with
        pending := Function.update s.pending t (s.pending t - 1)
        stage := Function.update s.stage t (if s.admin.active then .acquiring else .reporting (.ok false)) }
  | .acquiring =>
    match s.lock with
    | none => { s with lock := some t, acquired := s.acquired ++ [t], stage := Function.update s.stage t .testing }
    | some _ => s
  | .releasing outcome => { s with lock := none, stage := Function.update s.stage t (.reporting outcome) }
  | .reporting outcome =>
    { s with
      reported := s.reported ++ [(t, outcome)]
      events := s.events ++ report outcome
      stage := Function.update s.stage t .idle }
  | stage =>
    let (admin, events, next) := stage.advance s.admin (connection (issued s.events))
    { s with admin, events := s.events ++ events, stage := Function.update s.stage t next }

/-- the steps of a schedule, which names the thread that takes each of them -/
def run (connection : Nat → Connection) (s : System Thread) (schedule : List Thread) : System Thread :=
  schedule.foldl (step connection) s

end System

/-! ## The holder of the lock -/

/-- how far the holder of the lock has come with the next turn, if there is one: from what the turns before it left
behind to the administration and the calls of the connection that there are now -/
inductive Reached (connection : Nat → Connection) (turns : Turns) : Admin → List Event → Option Stage → Prop
  | free : Reached connection turns turns.admin (connectionCalls turns.events) none
  | testing : Reached connection turns turns.admin (connectionCalls turns.events) (some .testing)
  | clearing : turns.admin.strictModeDisabled = false →
      turns.admin.configuredStrict (connection (issued turns.events)) = true →
      Reached connection turns turns.admin (connectionCalls turns.events ++ turns.admin.questions) (some .clearing)
  | noting : turns.admin.strictModeDisabled = false →
      turns.admin.configuredStrict (connection (issued turns.events)) = true →
      (connection (issued turns.events)).fails clearMode = false →
      Reached connection turns turns.admin
        (connectionCalls turns.events ++ turns.admin.questions ++ [.statement clearMode]) (some .noting)
  | releasing : Reached connection turns (turn connection turns).admin (connectionCalls (turn connection turns).events)
      (some (.releasing (turns.next connection).2.outcome))

/-- where the holder stands when it is done with what the turn comes to -/
theorem Reached.of_attempt {turns : Turns} {attempt : Traced StatementFailed Bool}
    (h : Attempt turns.admin (connection (issued turns.events)) attempt) :
    Reached connection turns (turns.admin.noting attempt.outcome)
      (connectionCalls turns.events ++ connectionCalls attempt.events) (some (.releasing attempt.outcome)) := by
  have hdone : Reached connection turns _ _ (some (.releasing (turns.next connection).2.outcome)) := .releasing
  rwa [turn, Turns.next, disableStrictMode, h.eq, connectionCalls_append] at hdone

/-- a step of the holder takes it further in the same turn -/
theorem reached_advance {turns : Turns} (hactive : turns.admin.active = true) {events : List Event} {stage : Stage}
    (h : Reached connection turns admin (connectionCalls events) (some stage)) :
    Reached connection turns (stage.advance admin (connection (issued events))).1
      (connectionCalls (events ++ (stage.advance admin (connection (issued events))).2.1))
      (some (stage.advance admin (connection (issued events))).2.2) := by
  rw [connectionCalls_append]
  generalize hcalls : connectionCalls events = calls at *
  cases h with
  | testing =>
    rw [← issued_connectionCalls, hcalls, issued_connectionCalls]
    cases hflag : turns.admin.strictModeDisabled with
    | true => simpa [Stage.advance, hflag] using Reached.of_attempt (.needless (Or.inr hflag))
    | false =>
      cases hstrict : turns.admin.configuredStrict (connection (issued turns.events)) with
      | true =>
        simpa [Stage.advance, hflag, isStrict_eq, hstrict, connectionCalls_questions]
          using Reached.clearing hflag hstrict
      | false =>
        simpa [Stage.advance, hflag, isStrict_eq, hstrict] using Reached.of_attempt (.lax hactive hflag hstrict)
  | clearing hflag hstrict =>
    have hissued : issued events = issued turns.events := by
      rw [← issued_connectionCalls, hcalls]
      simp [issued, statements_questions, statements_connectionCalls]
    rw [hissued]
    cases hfails : (connection (issued turns.events)).fails clearMode with
    | true =>
      simpa [Stage.advance, Connection.execute, Connection.call_eq, hfails, connectionCalls_questions]
        using Reached.of_attempt (.failed hactive hflag hstrict hfails)
    | false =>
      simpa [Stage.advance, Connection.execute, Connection.call_eq, hfails]
        using Reached.noting hflag hstrict hfails
  | noting hflag hstrict hfails =>
    have hdone := Reached.of_attempt (.cleared hactive hflag hstrict hfails)
    simpa [Stage.advance, connectionCalls_questions, clearedRecord] using hdone
  | releasing => simpa [Stage.advance] using Reached.releasing

theorem reached_none_iff {turns : Turns} {calls : List Event} :
    Reached connection turns admin calls none ↔ admin = turns.admin ∧ calls = connectionCalls turns.events := by
  refine ⟨fun h => ?_, ?_⟩
  · cases h; exact ⟨rfl, rfl⟩
  · rintro ⟨rfl, rfl⟩; exact .free

theorem reached_releasing_iff {turns : Turns} {calls : List Event} {outcome : Except StatementFailed Bool} :
    Reached connection turns admin calls (some (.releasing outcome)) ↔
      admin = (turn connection turns).admin ∧ calls = connectionCalls (turn connection turns).events ∧
        outcome = (turns.next connection).2.outcome := by
  refine ⟨fun h => ?_, ?_⟩
  · cases h; exact ⟨rfl, rfl, rfl⟩
  · rintro ⟨rfl, rfl, rfl⟩; exact .releasing

theorem Reached.active {turns : Turns} (hactive : turns.admin.active = true) {events : List Event}
    {stage : Option Stage} (h : Reached connection turns admin events stage) : admin.active = true := by
  cases h with
  | releasing => rw [turn, Turns.next, disableStrictMode, active, translator_noting]; exact hactive
  | _ => exact hactive

/-! ## Every moment of a run -/

/-- what the turns of a thread came to, where the turns were had in that order -/
def turnsOf (connection : Nat → Connection) (admin : Admin) (order : List Thread) (t : Thread) :
    List (Except StatementFailed Bool) :=
  outcomesOf t (order.zip (inTurn connection admin order.length).outcomes)

/-- what is to be said of each thread -/
structure Accounted (connection : Nat → Connection) (admin : Admin) (attempts : Nat) (s : System Thread)
    (finished : List Thread) (t : Thread) : Prop where
  inside : (s.stage t).inside = true ↔ s.lock = some t
  /-- it reports what its turns came to -/
  reports : outcomesOf t s.reported ++ (s.stage t).owed = turnsOf connection admin finished t
  counted : s.acquired.count t + (s.stage t).waiting + s.pending t = attempts

/-- what a moment of a run looks like: the attempts that gave the lock back had their turns -/
structure InOrder (connection : Nat → Connection) (admin : Admin) (attempts : Thread → Nat) (s : System Thread)
    (finished : List Thread) : Prop where
  acquired : s.acquired = finished ++ s.lock.toList
  reached : Reached connection (inTurn connection admin finished.length) s.admin (connectionCalls s.events)
    (s.lock.map s.stage)
  threads : ∀ t, Accounted connection admin (attempts t) s finished t

theorem turnsOf_append (order : List Thread) (t u : Thread) :
    turnsOf connection admin (order ++ [t]) u = turnsOf connection admin order u ++
      if t = u then [((inTurn connection admin order.length).next connection).2.outcome] else [] := by
  rw [turnsOf, List.length_append, List.length_singleton, inTurn, turn,
    List.zip_append (length_outcomes_inTurn _).symm, List.zip_cons_cons, List.zip_nil_left, outcomesOf_append]
  rfl

theorem inOrder_start (connection : Nat → Connection) (admin : Admin) (attempts : Thread → Nat) :
    InOrder connection admin attempts (.start admin attempts) [] := by
  refine ⟨rfl, .free, fun t => ⟨?_, rfl, ?_⟩⟩
  · simp [System.start, Stage.inside]
  · simp [System.start, Stage.waiting]

section Step

variable {attempts : Thread → Nat} {s s' : System Thread} {finished finished' : List Thread} {t : Thread}

/-- a step leaves the other threads as they are -/
theorem Accounted.frame {u : Thread} {n : Nat} (h : Accounted connection admin n s finished u)
    (hstage : s'.stage u = s.stage u) (hpending : s'.pending u = s.pending u)
    (hlock : s'.lock = some u ↔ s.lock = some u) (hreported : outcomesOf u s'.reported = outcomesOf u s.reported)
    (hacquired : s'.acquired.count u = s.acquired.count u)
    (hturns : turnsOf connection admin finished' u = turnsOf connection admin finished u) :
    Accounted connection admin n s' finished' u := by
  refine ⟨?_, ?_, ?_⟩
  · rw [hstage, hlock, h.inside]
  · rw [hreported, hstage, h.reports, hturns]
  · rw [hacquired, hstage, hpending, h.counted]

/-- the holder of the lock is not affected by what happens outside of it -/
theorem InOrder.lock_map (h : InOrder connection admin attempts s finished) (hout : (s.stage t).inside = false)
    (next : Stage) : s.lock.map (Function.update s.stage t next) = s.lock.map s.stage := by
  have hne : s.lock ≠ some t := by
    rw [ne_eq, ← (h.threads t).inside, hout]; exact Bool.false_ne_true
  cases hlock : s.lock with
  | none => rfl
  | some u =>
    have hu : u ≠ t := by rintro rfl; exact hne hlock
    rw [Option.map_some, Function.update_of_ne hu, Option.map_some]

theorem inOrder_idle (hactive : s.admin.active = true) (h : InOrder connection admin attempts s finished)
    (hstage : s.stage t = .idle) : InOrder connection admin attempts (s.step connection t) finished := by
  rw [System.step, hstage]
  by_cases hpending : s.pending t = 0
  · rw [if_pos hpending]; exact h
  rw [if_neg hpending, hactive, if_pos rfl]
  refine ⟨h.acquired, ?_, fun u => ?_⟩
  · rw [h.lock_map (by rw [hstage]; rfl)]; exact h.reached
  · by_cases hu : u = t
    · subst hu
      obtain ⟨hinside, hreports, hcounted⟩ := h.threads u
      rw [hstage] at hinside hreports hcounted
      refine ⟨?_, ?_, ?_⟩
      · simpa [Stage.inside] using hinside
      · simpa [Stage.owed] using hreports
      · simp only [Function.update_self, Stage.waiting] at hcounted ⊢
        omega
    · exact (h.threads u).frame (Function.update_of_ne hu ..) (Function.update_of_ne hu ..) Iff.rfl rfl rfl rfl

theorem inOrder_acquiring (h : InOrder connection admin attempts s finished) (hstage : s.stage t = .acquiring) :
    InOrder connection admin attempts (s.step connection t) finished := by
  rw [System.step, hstage]
  cases hlock : s.lock with
  | some holder => exact h
  | none =>
    have hacquired := h.acquired
    rw [hlock, Option.toList_none, List.append_nil] at hacquired
    refine ⟨by rw [hacquired]; rfl, ?_, fun u => ?_⟩
    · have hreached := h.reached
      rw [hlock, Option.map_none] at hreached
      simp only [Option.map_some, Function.update_self]
      rw [reached_none_iff] at hreached
      rw [hreached.1, hreached.2]
      exact .testing
    · by_cases hu : u = t
      · subst hu
        obtain ⟨_, hreports, hcounted⟩ := h.threads u
        rw [hstage] at hreports hcounted
        refine ⟨?_, ?_, ?_⟩
        · simp [Stage.inside]
        · simpa [Stage.owed] using hreports
        · simpa [Stage.waiting] using hcounted
      · refine (h.threads u).frame (Function.update_of_ne hu ..) rfl ?_ rfl ?_ rfl
        · simp [hlock, Ne.symm hu]
        · simp [List.count_append, Ne.symm hu]

theorem inOrder_advance (hactive : admin.active = true) (hdown : admin.strictModeDisabled = false)
    (h : InOrder connection admin attempts s finished) (hin : (s.stage t).inside = true) :
    InOrder connection admin attempts
      { s with
        admin := ((s.stage t).advance s.admin (connection (issued s.events))).1
        events := s.events ++ ((s.stage t).advance s.admin (connection (issued s.events))).2.1
        stage := Function.update s.stage t ((s.stage t).advance s.admin (connection (issued s.events))).2.2 }
      finished := by
  have hlock := (h.threads t).inside.1 hin
  have hnext := Stage.inside_advance s.admin (connection (issued s.events)) (s.stage t)
  rw [hin] at hnext
  refine ⟨h.acquired, ?_, fun u => ?_⟩
  · have hreached := h.reached
    rw [hlock, Option.map_some] at hreached
    simp only [hlock, Option.map_some, Function.update_self]
    exact reached_advance (once_inTurn connection hactive hdown finished.length).active hreached
  · by_cases hu : u = t
    · subst hu
      obtain ⟨_, hreports, hcounted⟩ := h.threads u
      rw [Stage.owed_of_inside hin] at hreports
      rw [Stage.waiting_of_inside hin] at hcounted
      refine ⟨?_, ?_, ?_⟩
      · simp [hnext, hlock]
      · simpa [Stage.owed_of_inside hnext] using hreports
      · simpa [Stage.waiting_of_inside hnext] using hcounted
    · exact (h.threads u).frame (Function.update_of_ne hu ..) rfl Iff.rfl rfl rfl rfl

/-- the holder gives the lock back: its turn has ended -/
theorem inOrder_releasing (h : InOrder connection admin attempts s finished) {outcome : Except StatementFailed Bool}
    (hstage : s.stage t = .releasing outcome) :
    InOrder connection admin attempts (s.step connection t) (finished ++ [t]) := by
  have hlock : s.lock = some t := (h.threads t).inside.1 (by rw [hstage]; rfl)
  have hacquired := h.acquired
  have hreached := h.reached
  rw [hlock, Option.map_some, hstage] at hreached
  obtain ⟨hadmin, hcalls, houtcome⟩ := reached_releasing_iff.1 hreached
  rw [System.step, hstage]
  refine ⟨?_, ?_, fun u => ?_⟩
  · simpa [hlock] using hacquired
  · simp only [hcalls, hadmin, List.length_append, List.length_singleton, inTurn]
    exact .free
  · by_cases hu : u = t
    · subst hu
      obtain ⟨_, hreports, hcounted⟩ := h.threads u
      rw [hstage] at hreports hcounted
      refine ⟨?_, ?_, ?_⟩
      · simp [Stage.inside]
      · rw [turnsOf_append, ← hreports]
        simp [Stage.owed, houtcome]
      · simpa [Stage.waiting] using hcounted
    · refine (h.threads u).frame (Function.update_of_ne hu ..) rfl ?_ rfl rfl ?_
      · simp [hlock, Ne.symm hu]
      · simp [turnsOf_append, Ne.symm hu]

theorem connectionCalls_report (outcome : Except StatementFailed Bool) : connectionCalls (report outcome) = [] := by
  unfold report
  split <;> rfl

theorem inOrder_reporting (h : InOrder connection admin attempts s finished) {outcome : Except StatementFailed Bool}
    (hstage : s.stage t = .reporting outcome) : InOrder connection admin attempts (s.step connection t) finished := by
  rw [System.step, hstage]
  refine ⟨h.acquired, ?_, fun u => ?_⟩
  · rw [h.lock_map (by rw [hstage]; rfl), connectionCalls_append, connectionCalls_report, List.append_nil]
    exact h.reached
  · by_cases hu : u = t
    · subst hu
      obtain ⟨hinside, hreports, hcounted⟩ := h.threads u
      rw [hstage] at hinside hreports hcounted
      refine ⟨?_, ?_, ?_⟩
      · simpa [Stage.inside] using hinside
      · simpa [Stage.owed, outcomesOf_append] using hreports
      · simpa [Stage.waiting] using hcounted
    · refine (h.threads u).frame (Function.update_of_ne hu ..) rfl Iff.rfl ?_ rfl rfl
      simp [outcomesOf_append, Ne.symm hu]

/-- **One step of any thread keeps the order.** -/
theorem inOrder_step (hactive : admin.active = true) (hdown : admin.strictModeDisabled = false)
    (h : InOrder connection admin attempts s finished) (t : Thread) :
    ∃ finished, InOrder connection admin attempts (s.step connection t) finished := by
  have hbase := (once_inTurn connection hactive hdown finished.length).active
  cases hstage : s.stage t with
  | idle => exact ⟨_, inOrder_idle (h.reached.active hbase) h hstage⟩
  | acquiring => exact ⟨_, inOrder_acquiring h hstage⟩
  | releasing outcome => exact ⟨_, inOrder_releasing h hstage⟩
  | reporting outcome => exact ⟨_, inOrder_reporting h hstage⟩
  | testing | clearing | noting =>
    have hnext := inOrder_advance hactive hdown h (t := t) (by rw [hstage]; rfl)
    rw [hstage] at hnext
    rw [System.step, hstage]
    exact ⟨_, hnext⟩

end Step

/-- **At every moment of every schedule**, the attempts that gave the lock back had their turns in that order. -/
theorem inOrder_run (connection : Nat → Connection) (hactive : admin.active = true) (hdown : admin.strictModeDisabled = false)
    (attempts : Thread → Nat) (schedule : List Thread) :
    ∃ finished, InOrder connection admin attempts ((System.start admin attempts).run connection schedule) finished := by
  suffices h : ∀ (s : System Thread) (finished : List Thread), InOrder connection admin attempts s finished →
      ∃ finished, InOrder connection admin attempts (s.run connection schedule) finished from
    h _ [] (inOrder_start connection admin attempts)
  induction schedule with
  | nil => exact fun s finished h => ⟨finished, h⟩
  | cons t schedule ih =>
    intro s finished h
    obtain ⟨finished, h⟩ := inOrder_step hactive hdown h t
    exact ih _ finished h

/-! ## What the moments have in common -/

theorem Reached.successes_le {turns : Turns} (honce : turns.Once connection) {events : List Event}
    {stage : Option Stage} (h : Reached connection turns admin (connectionCalls events) stage) :
    successes connection events ≤ 1 := by
  have hturns := honce.successes
  rw [← successes_connectionCalls] at hturns ⊢
  generalize connectionCalls events = calls at *
  cases h with
  | free => rw [hturns]; exact Bool.toNat_le _
  | testing => rw [hturns]; exact Bool.toNat_le _
  | clearing => rw [successes_append, hturns, statements_questions]; exact Bool.toNat_le _
  | noting hflag _ hfails =>
    rw [hflag] at hturns
    simp [successes_append, hturns, statements_questions, hfails]
  | releasing => rw [successes_connectionCalls, (once_turn honce).successes]; exact Bool.toNat_le _

omit [DecidableEq Thread] in
theorem countP_turns (order : List Thread) :
    (order.zip (inTurn connection admin order.length).outcomes).countP (fun report => clears report.2) =
      (inTurn connection admin order.length).outcomes.countP clears := by
  have hlength : (inTurn connection admin order.length).outcomes.length = order.length := length_outcomes_inTurn _
  have hzip := List.map_snd_zip (Nat.le_of_eq hlength)
  conv_rhs => rw [← hzip, List.countP_map]
  rfl

theorem count_outcomesOf [DecidableEq (Except StatementFailed Bool)] (t : Thread) (outcome : Except StatementFailed Bool)
    (reported : List (Thread × Except StatementFailed Bool)) :
    (outcomesOf t reported).count outcome = reported.count (t, outcome) := by
  induction reported with
  | nil => rfl
  | cons first reported ih =>
    obtain ⟨u, other⟩ := first
    rw [outcomesOf] at ih
    by_cases hu : u = t
    · simp [outcomesOf, List.count_cons, hu, ih]
    · simp [outcomesOf, hu, ih]

/-- reports are a part of others if those of each thread are -/
theorem countP_le_of_outcomesOf {reported others : List (Thread × Except StatementFailed Bool)}
    (h : ∀ t, (outcomesOf t reported).Sublist (outcomesOf t others)) (p : Thread × Except StatementFailed Bool → Bool) :
    reported.countP p ≤ others.countP p := by
  classical
  have hpart : reported.Subperm others := by
    rw [List.subperm_ext_iff]
    rintro ⟨t, outcome⟩ _
    rw [← count_outcomesOf, ← count_outcomesOf]
    exact (h t).count_le outcome
  exact hpart.countP_le p

/-- what is left when every attempt has ended -/
structure EndedInOrder (connection : Nat → Connection) (admin : Admin) (attempts : Thread → Nat) (s : System Thread) :
    Prop where
  lock : s.lock = none
  flag : s.admin.strictModeDisabled = true ↔ s.reported.countP (fun report => clears report.2) = 1
  acquired : ∀ t, s.acquired.count t = attempts t
  /-- the connection was called as by attempts one after another, in the order in which they got the lock -/
  calls : connectionCalls s.events = connectionCalls (inTurn connection admin s.acquired.length).events
  /-- and they answered the same -/
  reports : ∀ t, outcomesOf t s.reported = turnsOf connection admin s.acquired t

/-- what may be said of every moment -/
structure Serial (connection : Nat → Connection) (admin : Admin) (attempts : Thread → Nat) (s : System Thread) :
    Prop where
  alone : ∀ t u, (s.stage t).inside = true → (s.stage u).inside = true → t = u
  successes_le : successes connection s.events ≤ 1
  cleared_le : s.reported.countP (fun report => clears report.2) ≤ 1
  ended : s.Ended → EndedInOrder connection admin attempts s

theorem InOrder.endedInOrder {attempts : Thread → Nat} {s : System Thread} {finished : List Thread}
    (h : InOrder connection admin attempts s finished) (hended : s.Ended)
    (honce : (inTurn connection admin finished.length).Once connection) :
    EndedInOrder connection admin attempts s := by
  have hlock : s.lock = none := by
    cases hlock : s.lock with
    | none => rfl
    | some t =>
      have hinside := (h.threads t).inside.2 hlock
      rw [(hended t).2] at hinside; cases hinside
  have hacquired := h.acquired
  rw [hlock, Option.toList_none, List.append_nil] at hacquired
  have hreached := h.reached
  rw [hlock, Option.map_none, reached_none_iff, ← hacquired] at hreached
  have hreports (t : Thread) : outcomesOf t s.reported = turnsOf connection admin s.acquired t := by
    have hreports := (h.threads t).reports
    rw [(hended t).2, ← hacquired] at hreports
    simpa [Stage.owed] using hreports
  refine ⟨hlock, ?_, ?_, hreached.2, hreports⟩
  · have hcount : s.reported.countP (fun report => clears report.2) = s.admin.strictModeDisabled.toNat := by
      rw [hreached.1, hacquired, ← honce.cleared, ← countP_turns, ← hacquired]
      refine Nat.le_antisymm (countP_le_of_outcomesOf (fun t => ?_) _) (countP_le_of_outcomesOf (fun t => ?_) _)
      · rw [hreports t]; exact List.Sublist.refl _
      · rw [hreports t]; exact List.Sublist.refl _
    rw [hcount]
    cases s.admin.strictModeDisabled <;> simp
  · intro t
    have hcounted := (h.threads t).counted
    rwa [(hended t).1, (hended t).2] at hcounted

/-- **Threads that clear the SQL mode at the same time act as if they did so one after another**, in the order in which
they get the lock: whatever the schedule, and whichever statements fail. -/
theorem serial_run (connection : Nat → Connection) (translator : Translator) (strict : Option Bool)
    (attempts : Thread → Nat) (schedule : List Thread) (h : translator.driver = .reference) :
    Serial connection { translator, strict } attempts
      ((System.start { translator, strict } attempts).run connection schedule) := by
  have hactive : ({ translator, strict } : Admin).active = true := by rw [active, h]; rfl
  obtain ⟨finished, hmoment⟩ := inOrder_run connection hactive rfl attempts schedule
  have honce := once_inTurn connection hactive rfl finished.length
  refine ⟨fun t u ht hu => ?_, hmoment.reached.successes_le honce, ?_, fun hended => hmoment.endedInOrder hended honce⟩
  · rw [(hmoment.threads t).inside] at ht
    rw [(hmoment.threads u).inside, ht] at hu
    exact Option.some.inj hu
  · calc _ ≤ (finished.zip (inTurn connection { translator, strict } finished.length).outcomes).countP
          fun report => clears report.2 := by
          refine countP_le_of_outcomesOf (fun t => ?_) _
          rw [← turnsOf, ← (hmoment.threads t).reports]
          exact List.sublist_append_left ..
      _ = _ := by rw [countP_turns, honce.cleared]
      _ ≤ 1 := Bool.toNat_le _

/-- two threads, of which the first one to get the lock fails: while it holds the lock the other one waits -/
theorem serial_two_threads :
    let connection : Nat → Connection := fun before => ⟨fun _ => .null, fun _ => before == 0⟩
    let schedule := [true, false, true, false, true, false, true, true, true, false, false, false, false, false, false]
    let s := (System.start { translator := ⟨Dialect.mysql, "", [], true⟩, strict := none } fun _ : Bool => 1).run
      connection schedule
    s.Ended ∧ s.acquired = [true, false] ∧ Serial connection
      { translator := ⟨Dialect.mysql, "", [], true⟩, strict := none } (fun _ : Bool => 1) s := by
  refine ⟨?_, rfl, serial_run _ _ _ _ _ rfl⟩
  intro t
  cases t <;> exact ⟨rfl, rfl⟩

end Admin

end SqlDialects
