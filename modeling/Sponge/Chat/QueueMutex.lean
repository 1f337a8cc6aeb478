/-
# The queue of responses and its mutex

Two threads of the chat client share `msg_queue` under `queue_mutex`: the
receive thread puts responses in, and the main thread takes them out in
`process_sync_response`, on its own or from `wait_for_sync_response`. The
mutex cannot be locked twice. `wait_for_sync_response` looks at the queue a
second time after a pause, with the mutex locked, and calls
`process_sync_response` from there, which locks it again. So the main thread
locks itself out exactly when a response came in during the pause
(`selfLock_iff`), and then neither thread gets any further (`selfLock_stuck`).

Key definitions: `QueueMutex.State`, `QueueMutex.step`, `QueueMutex.SelfLock`,
`QueueMutex.SecondCheckEmpty`.
Key theorems: `QueueMutex.step_inv`, `QueueMutex.selfLock_iff`, `QueueMutex.selfLock_stuck`.
-/
import Sponge.Chat.Framing
import Sponge.Lib.Runs

namespace Chat
namespace QueueMutex

inductive Thread where
  | main
  | receiver
  deriving DecidableEq

/-- Where `process_sync_response` returns to: a caller that holds nothing, the
pause of `wait_for_sync_response`, or the block of the second check. -/
inductive Return where
  | caller
  | pause
  | secondCheck
  deriving DecidableEq

/-- Where the main thread is. `processLock`, `waitLock` and `secondLock` are
before a `lock_guard`, `leave` is before the end of the block of the last one. -/
inductive Main where
  | idle
  | processLock (ret : Return)
  | drain (ret : Return) (pending : List Packet)
  | print (ret : Return) (pending : List Packet)
  | waitLock (attempt : ℕ)
  | waitCheck (attempt : ℕ)
  | sleepLong (attempt : ℕ)
  | sleepShort
  | secondLock
  | secondCheck
  | leave
  deriving DecidableEq

/-- Where the receive thread is. -/
inductive Receiver where
  | receiving
  | queueLock (m : Packet)
  | queueing (m : Packet)
  | ended
  deriving DecidableEq

/-- `shown` is the responses that were printed. -/
structure State where
  main : Main
  receiver : Receiver
  msgQueue : List Packet
  mutex : Option Thread
  shown : List Packet
  deriving DecidableEq

def init : State := ⟨.idle, .receiving, [], none, []⟩

/-- A thread gets the mutex if nobody has it, the thread itself included. -/
def lock (s : State) (t : Thread) : Option State :=
  match s.mutex with
  | none => some { s with mutex := some t }
  | some _ => none

/-- The next step of the main thread. -/
def mainStep (s : State) : Option State :=
  match s.main with
  | .idle => none
  -- process_sync_response
  | .processLock ret => (lock s .main).map fun s => { s with main := .drain ret [] }
  | .drain ret pending =>
    match s.msgQueue with
    | m :: rest => some { s with msgQueue := rest, main := .drain ret (pending ++ [m]) }
    | [] => some { s with mutex := none, main := .print ret pending }
  | .print ret (m :: pending) => some { s with shown := s.shown ++ [m], main := .print ret pending }
  | .print .caller [] => some { s with main := .idle }
  | .print .pause [] => some { s with main := .sleepShort }
  | .print .secondCheck [] => some { s with main := .leave }
  -- wait_for_sync_response
  | .waitLock attempt => (lock s .main).map fun s => { s with main := .waitCheck attempt }
  | .waitCheck attempt =>
    some { s with mutex := none, main := if s.msgQueue = [] then .sleepLong attempt else .processLock .pause }
  | .sleepLong attempt => some { s with main := if attempt + 1 < 50 then .waitLock (attempt + 1) else .idle }
  | .sleepShort => some { s with main := .secondLock }
  | .secondLock => (lock s .main).map fun s => { s with main := .secondCheck }
  | .secondCheck =>
    if s.msgQueue = [] then some { s with mutex := none, main := .idle }
    else some { s with main := .processLock .secondCheck }
  | .leave => some { s with mutex := none, main := .idle }

/-- The next step of the receive thread once it has a response. -/
def receiverStep (s : State) : Option State :=
  match s.receiver with
  | .receiving | .ended => none
  | .queueLock m => (lock s .receiver).map fun s => { s with receiver := .queueing m }
  | .queueing m => some { s with msgQueue := s.msgQueue ++ [m], mutex := none, receiver := .receiving }

/-- The main thread makes a call or moves on; the receive thread receives a
packet, moves on, or ends. -/
inductive Op where
  | process
  | wait
  | main
  | packet (m : Packet)
  | receiver
  | hangUp
  deriving DecidableEq

/-- `none` is a move that the thread cannot make where it is. -/
def step (s : State) : Op → Option State
  | .process => if s.main = .idle then some { s with main := .processLock .caller } else none
  | .wait => if s.main = .idle then some { s with main := .waitLock 0 } else none
  | .main => mainStep s
  | .packet m =>
    if s.receiver = .receiving then
      -- a message is printed at once, everything else is queued
      some { s with receiver := if m.type = 13 then .receiving else .queueLock m }
    else none
  | .receiver => receiverStep s
  | .hangUp => if s.receiver = .receiving then some { s with receiver := .ended } else none

/-- The next step of the main thread is to lock the mutex. -/
def Main.locking : Main → Bool
  | .processLock _ | .waitLock _ | .secondLock => true
  | _ => false

/-- And that of the receive thread. -/
def Receiver.locking : Receiver → Bool
  | .queueLock _ => true
  | _ => false

/-- A thread is to lock the mutex that it has. -/
def SelfLock (s : State) : Prop :=
  (s.main.locking = true ∧ s.mutex = some .main) ∨ (s.receiver.locking = true ∧ s.mutex = some .receiver)

instance (s : State) : Decidable (SelfLock s) := inferInstanceAs (Decidable (_ ∨ _))

/-- The second check finds the queue empty. -/
def SecondCheckEmpty (s : State) : Op → Prop
  | .main => s.main = .secondCheck → s.msgQueue = []
  | _ => True

/-! ### Who has the mutex -/

/-- Where the main thread has the mutex. -/
def Main.holding : Main → Bool
  | .processLock ret => ret = .secondCheck
  | .drain _ _ | .waitCheck _ | .secondCheck | .leave => true
  | _ => false

def Receiver.holding : Receiver → Bool
  | .queueing _ => true
  | _ => false

/-- The call from the second check got past its `lock_guard`. -/
def Main.nested : Main → Bool
  | .drain ret _ | .print ret _ => ret = .secondCheck
  | .leave => true
  | _ => false

structure Inv (s : State) : Prop where
  main : s.mutex = some .main ↔ s.main.holding = true
  receiver : s.mutex = some .receiver ↔ s.receiver.holding = true
  nested : s.main.nested = false

theorem init_inv : Inv init := ⟨by decide, by decide, rfl⟩

theorem lock_eq_some {s s' : State} {t : Thread} :
    lock s t = some s' ↔ s.mutex = none ∧ s' = { s with mutex := some t } := by
  unfold lock
  cases h : s.mutex with
  | none => simp [eq_comm]
  | some t' => simp

/-- What a step of a thread does to the mutex: it takes it, it keeps to what
it has, or it gives it back. -/
inductive Moves (t : Thread) (mutex mutex' : Option Thread) (holds holds' : Bool) : Prop
  | takes (h : mutex = none) (h' : mutex' = some t) (hold : holds' = true)
  | keeps (h : mutex' = mutex) (hold : holds' = holds)
  | gives (h : holds = true) (h' : mutex' = none) (hold : holds' = false)

/-- A step of the main thread: it does not get past the nested lock, and comes
to it from a second check that finds something. -/
theorem mainStep_moves {s s' : State} (h : Inv s) (hs : mainStep s = some s') :
    s'.receiver = s.receiver ∧ s'.main.nested = false ∧
      (s'.main = .processLock .secondCheck ↔ s.main = .secondCheck ∧ s.msgQueue ≠ []) ∧
        Moves .main s.mutex s'.mutex s.main.holding s'.main.holding := by
  obtain ⟨main, receiver, msgQueue, mutex, shown⟩ := s
  have hn := h.nested
  cases main with
  | idle => cases hs
  | processLock ret =>
    obtain ⟨s₁, h1, rfl⟩ := Option.map_eq_some_iff.mp hs
    obtain ⟨hfree, rfl⟩ := lock_eq_some.mp h1
    cases ret with
    | caller => exact ⟨rfl, rfl, by simp, .takes hfree rfl rfl⟩
    | pause => exact ⟨rfl, rfl, by simp, .takes hfree rfl rfl⟩
    | secondCheck => cases (h.main.mpr rfl).symm.trans hfree
  | drain ret pending =>
    cases msgQueue with
    | nil =>
      obtain rfl := Option.some.inj hs
      cases ret with
      | caller => exact ⟨rfl, rfl, by simp, .gives rfl rfl rfl⟩
      | pause => exact ⟨rfl, rfl, by simp, .gives rfl rfl rfl⟩
      | secondCheck => cases hn
    | cons m rest =>
      obtain rfl := Option.some.inj hs
      exact ⟨rfl, hn, by simp, .keeps rfl rfl⟩
  | print ret pending =>
    cases pending with
    | cons m pending =>
      obtain rfl := Option.some.inj hs
      exact ⟨rfl, hn, by simp, .keeps rfl rfl⟩
    | nil =>
      cases ret with
      | secondCheck => cases hn
      | _ =>
        obtain rfl := Option.some.inj hs
        exact ⟨rfl, rfl, by simp, .keeps rfl rfl⟩
  | waitLock attempt =>
    obtain ⟨s₁, h1, rfl⟩ := Option.map_eq_some_iff.mp hs
    obtain ⟨hfree, rfl⟩ := lock_eq_some.mp h1
    exact ⟨rfl, rfl, by simp, .takes hfree rfl rfl⟩
  | waitCheck attempt =>
    obtain rfl := Option.some.inj hs
    cases msgQueue with
    | nil => exact ⟨rfl, rfl, by simp, .gives rfl rfl rfl⟩
    | cons m rest => exact ⟨rfl, rfl, by simp, .gives rfl rfl rfl⟩
  | sleepLong attempt =>
    obtain rfl := Option.some.inj hs
    dsimp only
    split
    · exact ⟨rfl, rfl, by simp, .keeps rfl rfl⟩
    · exact ⟨rfl, rfl, by simp, .keeps rfl rfl⟩
  | sleepShort =>
    obtain rfl := Option.some.inj hs
    exact ⟨rfl, rfl, by simp, .keeps rfl rfl⟩
  | secondLock =>
    obtain ⟨s₁, h1, rfl⟩ := Option.map_eq_some_iff.mp hs
    obtain ⟨hfree, rfl⟩ := lock_eq_some.mp h1
    exact ⟨rfl, rfl, by simp, .takes hfree rfl rfl⟩
  | secondCheck =>
    cases msgQueue with
    | nil =>
      obtain rfl := Option.some.inj hs
      exact ⟨rfl, rfl, by simp, .gives rfl rfl rfl⟩
    | cons m rest =>
      obtain rfl := Option.some.inj hs
      exact ⟨rfl, rfl, by simp, .keeps rfl rfl⟩
  | leave => cases hn

theorem receiverStep_moves {s s' : State} (hs : receiverStep s = some s') :
    s'.main = s.main ∧ Moves .receiver s.mutex s'.mutex s.receiver.holding s'.receiver.holding := by
  obtain ⟨main, receiver, msgQueue, mutex, shown⟩ := s
  cases receiver with
  | receiving => cases hs
  | queueLock m =>
    obtain ⟨s₁, h1, rfl⟩ := Option.map_eq_some_iff.mp hs
    obtain ⟨hfree, rfl⟩ := lock_eq_some.mp h1
    exact ⟨rfl, .takes hfree rfl rfl⟩
  | queueing m =>
    obtain rfl := Option.some.inj hs
    exact ⟨rfl, .gives rfl rfl rfl⟩
  | ended => cases hs

/-- A move keeps it so that the thread has the mutex where it holds it, and
another thread does where that one holds it. -/
theorem Moves.owners {t u : Thread} {mutex mutex' : Option Thread} {holds holds' other : Bool} (hne : t ≠ u)
    (hm : Moves t mutex mutex' holds holds') (ht : mutex = some t ↔ holds = true)
    (hu : mutex = some u ↔ other = true) :
    (mutex' = some t ↔ holds' = true) ∧ (mutex' = some u ↔ other = true) := by
  cases hm with
  | takes h h' hold =>
    have hother : other = false := by
      rw [h] at hu
      simpa using hu
    rw [h', hold, hother]
    exact ⟨by simp, by simpa using hne⟩
  | keeps h hold =>
    rw [h, hold]
    exact ⟨ht, hu⟩
  | gives h h' hold =>
    have hother : other = false := by
      rw [ht.mpr h] at hu
      simpa [hne] using hu
    rw [h', hold, hother]
    exact ⟨by simp, by simp⟩

/-- The main thread starts a call. -/
theorem Inv.start {s : State} (h : Inv s) (hidle : s.main = .idle) {m : Main} (hhold : m.holding = false)
    (hn : m.nested = false) : Inv { s with main := m } := by
  refine ⟨?_, h.receiver, hn⟩
  rw [hhold]
  have hmain := h.main
  rwa [hidle] at hmain

/-- The receive thread goes on, and does not have the mutex yet. -/
theorem Inv.receive {s : State} (h : Inv s) (hrec : s.receiver = .receiving) {r : Receiver}
    (hhold : r.holding = false) : Inv { s with receiver := r } := by
  refine ⟨h.main, ?_, h.nested⟩
  rw [hhold]
  have hreceiver := h.receiver
  rwa [hrec] at hreceiver

/-- Every move keeps the owner of the mutex right. -/
theorem step_inv {s s' : State} {op : Op} (h : Inv s) (hs : step s op = some s') : Inv s' := by
  cases op with
  | process =>
    obtain ⟨hidle, rfl⟩ := Option.ite_some_none_eq_some.mp hs
    exact h.start hidle rfl rfl
  | wait =>
    obtain ⟨hidle, rfl⟩ := Option.ite_some_none_eq_some.mp hs
    exact h.start hidle rfl rfl
  | main =>
    obtain ⟨hrec, hn, -, hm⟩ := mainStep_moves h hs
    obtain ⟨h1, h2⟩ := hm.owners (by decide) h.main h.receiver
    exact ⟨h1, hrec ▸ h2, hn⟩
  | packet m =>
    obtain ⟨hrec, rfl⟩ := Option.ite_some_none_eq_some.mp hs
    apply h.receive hrec
    split
    · rfl
    · rfl
  | receiver =>
    obtain ⟨hmain, hm⟩ := receiverStep_moves hs
    obtain ⟨h1, h2⟩ := hm.owners (by decide) h.receiver h.main
    exact ⟨hmain ▸ h2, h1, hmain ▸ h.nested⟩
  | hangUp =>
    obtain ⟨hrec, rfl⟩ := Option.ite_some_none_eq_some.mp hs
    exact h.receive hrec rfl

/-! ### The thread that locks itself out -/

theorem Main.locking_holding {m : Main} (hlock : m.locking = true) (hhold : m.holding = true) :
    m = .processLock .secondCheck := by
  cases m with
  | processLock ret => rw [of_decide_eq_true hhold]
  | waitLock attempt => cases hhold
  | secondLock => cases hhold
  | _ => cases hlock

theorem Receiver.locking_not_holding {r : Receiver} (hlock : r.locking = true) : ¬ r.holding = true := by
  cases r with
  | queueLock m => exact Bool.false_ne_true
  | _ => cases hlock

/-- It is the main thread in the call from the second check. -/
theorem selfLock_eq {s : State} (h : Inv s) : SelfLock s ↔ s.main = .processLock .secondCheck := by
  constructor
  · rintro (⟨hlock, hmutex⟩ | ⟨hlock, hmutex⟩)
    · exact Main.locking_holding hlock (h.main.mp hmutex)
    · exact absurd (h.receiver.mp hmutex) (Receiver.locking_not_holding hlock)
  · intro hmain
    exact Or.inl ⟨by rw [hmain]; rfl, h.main.mpr (by rw [hmain]; rfl)⟩

/-- A move that is not the main thread's next step leaves it where it is, or
starts a call. -/
theorem step_other {s s' : State} {op : Op} (hop : op ≠ .main) (hs : step s op = some s') :
    s'.main = s.main ∨ s'.main = .processLock .caller ∨ s'.main = .waitLock 0 := by
  cases op with
  | process =>
    obtain ⟨-, rfl⟩ := Option.ite_some_none_eq_some.mp hs
    exact Or.inr (Or.inl rfl)
  | wait =>
    obtain ⟨-, rfl⟩ := Option.ite_some_none_eq_some.mp hs
    exact Or.inr (Or.inr rfl)
  | main => exact absurd rfl hop
  | packet m =>
    obtain ⟨-, rfl⟩ := Option.ite_some_none_eq_some.mp hs
    exact Or.inl rfl
  | receiver => exact Or.inl (receiverStep_moves hs).1
  | hangUp =>
    obtain ⟨-, rfl⟩ := Option.ite_some_none_eq_some.mp hs
    exact Or.inl rfl

/-- A move ends there iff it is the second check on a queue that is not empty. -/
theorem step_selfLock {s : State} (op : Op) (h : Inv s) (hno : ¬ SelfLock s) :
    (∀ s', step s op = some s' → ¬ SelfLock s') ↔ SecondCheckEmpty s op := by
  have hmain : s.main ≠ .processLock .secondCheck := fun hc => hno ((selfLock_eq h).mpr hc)
  have hiff : (∀ s', step s op = some s' → ¬ SelfLock s') ↔
      ∀ s', step s op = some s' → s'.main ≠ .processLock .secondCheck := by
    refine forall_congr' fun s' => forall_congr' fun hs => ?_
    rw [selfLock_eq (step_inv h hs)]
  rw [hiff]
  by_cases hop : op = .main
  · subst hop
    constructor
    · intro hall hsecond
      by_contra hne
      refine hall { s with main := .processLock .secondCheck } ?_ rfl
      rw [step, mainStep, hsecond, if_neg hne]
    · intro hempty s' hs hc
      obtain ⟨hsecond, hne⟩ := (mainStep_moves h hs).2.2.1.mp hc
      exact hne (hempty hsecond)
  · have hany : SecondCheckEmpty s op := by
      cases op with
      | main => exact absurd rfl hop
      | _ => trivial
    refine iff_of_true (fun s' hs => ?_) hany
    rcases step_other hop hs with h1 | h1 | h1
    · rw [h1]
      exact hmain
    · simp [h1]
    · simp [h1]

/-- **The main thread locks itself out iff a response came in during the
pause.** For any order of the moves of the two threads: in no state on the way
a thread is to lock the mutex that it has, iff the second check always finds
the queue empty. -/
theorem selfLock_iff (ops : List Op) :
    (∀ es₁ s₁, es₁ <+: ops → Runs.run step init es₁ = some s₁ → ¬ SelfLock s₁) ↔
      Runs.Along step SecondCheckEmpty init ops := by
  rw [Runs.forall_prefix_iff_along, and_iff_right (by decide)]
  refine Runs.along_congr (I := fun s => Inv s ∧ ¬ SelfLock s) ?_ ?_ ⟨init_inv, by decide⟩
  · rintro s op ⟨h, hno⟩
    exact step_selfLock op h hno
  · rintro s op s' ⟨h, -⟩ hno hs
    exact ⟨step_inv h hs, hno s' hs⟩

/-- The client asks for the time, the answer is printed, and during the pause
the name of the server comes in. -/
def twoAnswers : List Op :=
  [.wait, .packet ⟨10, [49]⟩, .receiver, .receiver, .main, .main, .main, .main, .main, .main, .main,
    .packet ⟨11, [50]⟩, .receiver, .receiver, .main, .main, .main]

/-- The main thread has the mutex and is to lock it. -/
theorem twoAnswers_selfLock : ¬ ∀ ops s, Runs.run step init ops = some s → ¬ SelfLock s := by
  intro h
  have hrun : Runs.run step init twoAnswers =
      some ⟨.processLock .secondCheck, .receiving, [⟨11, [50]⟩], some .main, [⟨10, [49]⟩]⟩ := by decide
  exact h twoAnswers _ hrun (by decide)

/-- Once a thread has locked itself out, no response is queued or printed any more. -/
theorem selfLock_stuck {s s' : State} {ops : List Op} (h : Inv s) (hself : SelfLock s)
    (hr : Runs.run step s ops = some s') : SelfLock s' ∧ s'.msgQueue = s.msgQueue ∧ s'.shown = s.shown := by
  refine (Runs.run_invariant (I := fun t => Inv t ∧ SelfLock t ∧ t.msgQueue = s.msgQueue ∧ t.shown = s.shown)
    ?_ ⟨h, hself, rfl, rfl⟩ hr).2
  rintro t op t' ⟨ht, hlocked, hqueue, hshown⟩ hs
  have ht' := step_inv ht hs
  have hmain := (selfLock_eq ht).mp hlocked
  have hmutex : t.mutex = some .main := ht.main.mpr (by rw [hmain]; rfl)
  suffices hkeeps : t'.main = t.main ∧ t'.msgQueue = t.msgQueue ∧ t'.shown = t.shown by
    obtain ⟨h1, h2, h3⟩ := hkeeps
    exact ⟨ht', (selfLock_eq ht').mpr (h1.trans hmain), h2.trans hqueue, h3.trans hshown⟩
  cases op with
  | process =>
    obtain ⟨hidle, -⟩ := Option.ite_some_none_eq_some.mp hs
    cases hmain.symm.trans hidle
  | wait =>
    obtain ⟨hidle, -⟩ := Option.ite_some_none_eq_some.mp hs
    cases hmain.symm.trans hidle
  | main =>
    rw [step, mainStep, hmain, lock, hmutex] at hs
    cases hs
  | packet m =>
    obtain ⟨-, rfl⟩ := Option.ite_some_none_eq_some.mp hs
    exact ⟨rfl, rfl, rfl⟩
  | receiver =>
    rw [step, receiverStep] at hs
    cases hrec : t.receiver with
    | queueLock m =>
      rw [hrec, lock, hmutex] at hs
      cases hs
    | queueing m =>
      have howner := ht.receiver.mpr (by rw [hrec]; rfl)
      cases hmutex.symm.trans howner
    | _ =>
      rw [hrec] at hs
      cases hs
  | hangUp =>
    obtain ⟨-, rfl⟩ := Option.ite_some_none_eq_some.mp hs
    exact ⟨rfl, rfl, rfl⟩

end QueueMutex
end Chat
