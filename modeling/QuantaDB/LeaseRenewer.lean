import QuantaDB.LogCabinStorage
import Mathlib.Data.List.Chain

/-!
The lease renewer of `LogCabinStorage` (LogCabinStorage.cc): the thread
`leaseRenewerMain` that `becomeLeader` starts, and `renewLease`, which rewrites
`keepAliveKey` with a timeout running to the lease's deadline. A `TimePoint`
is its count of nanoseconds; every `Clock::now()`, every `Cycles::rdtsc()` and
every answer of the tree is an input. On a clock that does not run backwards
within one pass of the loop, every renewal's timeout is positive and at most
`expireLeaseIntervalMs - renewLeaseIntervalMs`, and the deadlines of successive
renewals lie at least `renewLeaseIntervalMs` apart. Times are unbounded
integers here; the source's `std::chrono` arithmetic is on `int64_t`
nanoseconds, so the model is the code's only while times and intervals stay
below about `2^63` ns (some 292 years).
-/

set_option autoImplicit false

namespace QuantaDB.LogCabin

open QuantaDB

/-- `milliseconds(n)` in nanoseconds. -/
def ms (n : UInt64) : Int := n.toNat * 1000000

/-- The timeout `renewLease` sets: 1 ns once `deadline <= now` (0 would mean no
timeout at all), otherwise what is left until the deadline. -/
def leaseTimeoutNs (deadline now : Int) : Int := if deadline ≤ now then 1 else deadline - now

/-- `format("%lu", Cycles::rdtsc())`, the keep-alive value. -/
def keepAliveContents (tsc : UInt64) : List UInt8 := ascii (Nat.repr tsc.toNat)

/-- How `renewLease` ends on the answer to the write of `keepAliveKey`. -/
def renewLease (s : Status) : Outcome Unit :=
  match s with
  | .ok => .returns ()
  | .timeout | .conditionNotMet => .throws
  | _ => .dies

/-- One write of `keepAliveKey` by `renewLease`: the deadline it was given, the
timeout it set, the value and the tree's answer. -/
structure Renewal where
  deadline : Int
  timeoutNs : Int
  contents : List UInt8
  status : Status
  deriving DecidableEq, Repr

/-- What one pass of the loop reads: `isExiting`, the `Clock::now()` compared
with `renewAt`, and, when it renews, the `Clock::now()` that becomes `start`,
the one in `renewLease`, `Cycles::rdtsc()` and the answer to the write. -/
structure Tick where
  isExiting : Bool
  now : Int
  startNow : Int
  leaseNow : Int
  tsc : UInt64
  status : Status
  deriving DecidableEq, Repr

/-- The clock does not run backwards within the pass. -/
def Tick.Monotone (t : Tick) : Prop := t.now ≤ t.startNow ∧ t.startNow ≤ t.leaseNow

instance : DecidablePred Tick.Monotone := fun _ => inferInstanceAs (Decidable (_ ∧ _))

/-- The renewer thread: running, or how it ended, `start`, and its renewals,
newest first. -/
structure Renewer where
  pc : Option (Outcome Unit)
  start : Int
  renewals : List Renewal
  deriving DecidableEq, Repr

section

variable (renewLeaseIntervalMs expireLeaseIntervalMs : UInt64)

/-- One pass of the `while (!isExiting)` loop of `leaseRenewerMain`; a pass
that finds `renewAt` still ahead waits, and changes nothing. -/
def renewerStep (st : Renewer) (t : Tick) : Renewer :=
  match st.pc with
  | none =>
    if t.isExiting then { st with pc := some (.returns ()) }
    else if t.now < st.start + ms renewLeaseIntervalMs then st
    else
      let deadline := st.start + ms expireLeaseIntervalMs
      let r : Renewal :=
        ⟨deadline, leaseTimeoutNs deadline t.leaseNow, keepAliveContents t.tsc, t.status⟩
      let st := { st with start := t.startNow, renewals := r :: st.renewals }
      match renewLease t.status with
      | .returns () => st
      | .throws => { st with pc := some .throws }
      | .dies => { st with pc := some .dies }
  | some _ => st

/-- `leaseRenewerMain(start)` over a run of passes. -/
def renewerRun (st : Renewer) (ticks : List Tick) : Renewer :=
  ticks.foldl (renewerStep renewLeaseIntervalMs expireLeaseIntervalMs) st

/-- The timeout of a renewal is positive and at most what is left of the lease
when renewing is due. -/
def TimeoutBounded (r : Renewal) : Prop :=
  1 ≤ r.timeoutNs ∧ r.timeoutNs ≤ max 1 (ms expireLeaseIntervalMs - ms renewLeaseIntervalMs)

/-- What holds of the renewer after every pass: every timeout is bounded,
successive deadlines lie a renewal interval apart, and the next deadline,
`start + expireLeaseIntervalMs`, a renewal interval after the last one. -/
def RenewerInv (st : Renewer) : Prop :=
  (∀ r ∈ st.renewals, TimeoutBounded renewLeaseIntervalMs expireLeaseIntervalMs r) ∧
  st.renewals.Chain' (fun newer older => older.deadline + ms renewLeaseIntervalMs ≤ newer.deadline) ∧
  ∀ r ∈ st.renewals.head?, r.deadline + ms renewLeaseIntervalMs ≤ st.start + ms expireLeaseIntervalMs

variable {renewLeaseIntervalMs expireLeaseIntervalMs}

/-- A renewal made once `now` has reached `start + renewLeaseIntervalMs`, with
the clock read again later in `renewLease`, gets a bounded timeout. -/
theorem leaseTimeoutNs_bounded (start now leaseNow : Int)
    (hdue : start + ms renewLeaseIntervalMs ≤ now) (hmono : now ≤ leaseNow) :
    1 ≤ leaseTimeoutNs (start + ms expireLeaseIntervalMs) leaseNow ∧
      leaseTimeoutNs (start + ms expireLeaseIntervalMs) leaseNow ≤
        max 1 (ms expireLeaseIntervalMs - ms renewLeaseIntervalMs) := by
  unfold leaseTimeoutNs
  split_ifs <;> omega

theorem renewerInv_step (st : Renewer) (t : Tick) (ht : t.Monotone)
    (h : RenewerInv renewLeaseIntervalMs expireLeaseIntervalMs st) :
    RenewerInv renewLeaseIntervalMs expireLeaseIntervalMs
      (renewerStep renewLeaseIntervalMs expireLeaseIntervalMs st t) := by
  obtain ⟨hb, hc, hh⟩ := h
  unfold renewerStep
  rcases st.pc with _ | o
  · dsimp only
    split_ifs with hx hw
    · exact ⟨hb, hc, hh⟩
    · exact ⟨hb, hc, hh⟩
    · -- the pass renews: the new renewal heads the list
      have hnew : RenewerInv renewLeaseIntervalMs expireLeaseIntervalMs
          { st with start := t.startNow, renewals :=
              ⟨st.start + ms expireLeaseIntervalMs,
                leaseTimeoutNs (st.start + ms expireLeaseIntervalMs) t.leaseNow,
                keepAliveContents t.tsc, t.status⟩ :: st.renewals } := by
        refine ⟨?_, ?_, ?_⟩
        · simp only [List.mem_cons, forall_eq_or_imp]
          exact ⟨leaseTimeoutNs_bounded st.start t.now t.leaseNow (by omega) (ht.1.trans ht.2), hb⟩
        · refine List.Chain'.cons' hc ?_
          intro r hr
          have := hh r hr
          simp only
          omega
        · simp only [List.head?_cons, Option.mem_def, Option.some.injEq, forall_eq']
          have := ht.1
          omega
      cases renewLease t.status <;> exact hnew
  · exact ⟨hb, hc, hh⟩

theorem renewerInv_run (ticks : List Tick) (hmono : ∀ t ∈ ticks, t.Monotone) (st : Renewer)
    (h : RenewerInv renewLeaseIntervalMs expireLeaseIntervalMs st) :
    RenewerInv renewLeaseIntervalMs expireLeaseIntervalMs
      (renewerRun renewLeaseIntervalMs expireLeaseIntervalMs st ticks) := by
  induction ticks generalizing st with
  | nil => exact h
  | cons t ticks ih =>
    exact ih (fun t' ht' => hmono t' (List.mem_cons_of_mem t ht'))
      _ (renewerInv_step st t (hmono t (List.mem_cons_self t ticks)) h)

end

/-- On a clock that does not run backwards within a pass, every write of
`keepAliveKey` by the lease renewer is given a timeout of at least 1 ns and at
most `expireLeaseIntervalMs - renewLeaseIntervalMs` (or 1 ns, when that is not
positive), and each renewal's deadline lies at least `renewLeaseIntervalMs`
after the one before. -/
theorem leaseRenewer_timeouts_bounded (renewLeaseIntervalMs expireLeaseIntervalMs : UInt64)
    (start : Int) (ticks : List Tick) (hmono : ∀ t ∈ ticks, t.Monotone) :
    (∀ r ∈ (renewerRun renewLeaseIntervalMs expireLeaseIntervalMs ⟨none, start, []⟩ ticks).renewals,
        1 ≤ r.timeoutNs ∧
          r.timeoutNs ≤ max 1 (ms expireLeaseIntervalMs - ms renewLeaseIntervalMs)) ∧
      (renewerRun renewLeaseIntervalMs expireLeaseIntervalMs ⟨none, start, []⟩ ticks).renewals.Chain'
        (fun newer older => older.deadline + ms renewLeaseIntervalMs ≤ newer.deadline) := by
  obtain ⟨hb, hc, -⟩ := renewerInv_run ticks hmono _
    (show RenewerInv renewLeaseIntervalMs expireLeaseIntervalMs ⟨none, start, []⟩ by
      simp [RenewerInv])
  exact ⟨hb, hc⟩

/-- With the constructor's intervals, 500 ms and 750 ms: a pass that waits, then
one that renews. -/
theorem leaseRenewer_timeouts_bounded_default :
    (∀ t ∈ [⟨false, 100, 100, 100, 7, .ok⟩, ⟨false, 500000000, 500000000, 500000002, 8, .ok⟩],
        Tick.Monotone t) ∧
      (∀ r ∈ (renewerRun 500 750 ⟨none, 0, []⟩
          [⟨false, 100, 100, 100, 7, .ok⟩, ⟨false, 500000000, 500000000, 500000002, 8, .ok⟩]).renewals,
        1 ≤ r.timeoutNs ∧ r.timeoutNs ≤ max 1 (ms 750 - ms 500)) ∧
      (renewerRun 500 750 ⟨none, 0, []⟩
          [⟨false, 100, 100, 100, 7, .ok⟩, ⟨false, 500000000, 500000000, 500000002, 8, .ok⟩]).renewals.Chain'
        (fun newer older => older.deadline + ms 500 ≤ newer.deadline) :=
  ⟨by decide, leaseRenewer_timeouts_bounded 500 750 0 _ (by decide)⟩

end QuantaDB.LogCabin
