import QuantaDB.LogCabinStorage

/-!
`LogCabinStorage::becomeLeader` (LogCabinStorage.cc), its `goto`s made an
explicit program counter. Each step makes one tree call and takes the tree's
answer from the input; the answers are arbitrary, which covers every
interleaving with other contenders. The state keeps the trace of calls, newest
first, and the theorem is that every write of `ownerKey` in it is justified by
the calls since the last pass through `top`.
-/

set_option autoImplicit false

namespace QuantaDB.LogCabin

open QuantaDB

/-- Where `becomeLeader` is: its labels `top`, `sleep` and `takeover`, the read
of `keepAliveKey` after `top`, the `makeParents` retry of a write, and the
three ways out. -/
inductive Pc where
  | top
  | keepAlive
  | sleep
  | takeover
  | makeParents
  | returned
  | died
  | thrown
  deriving DecidableEq, Repr

/-- A call in the trace; `top` marks a pass through the label `top`. -/
inductive Event where
  | top
  | read (key : List UInt8) (status : Status) (contents : List UInt8)
  | sleep
  | write (key value : List UInt8) (status : Status)
  | makeDirectory (path : List UInt8) (status : Status)
  deriving DecidableEq, Repr

/-- What one step receives: the tree's reply to its call, and at `takeover` the
value `generateRandom()` draws. -/
structure Input where
  reply : Reply
  nonce : UInt64
  deriving DecidableEq, Repr

/-- The locals and members `becomeLeader` uses, and the trace of its calls. -/
structure Leader where
  pc : Pc
  contents : List UInt8
  condition : List UInt8 × List UInt8
  leaseRenewer : Bool
  trace : List Event
  deriving DecidableEq, Repr

/-- `keepAliveKey = ownerKey + "-keepalive"`. -/
def keepAliveKey (ownerKey : List UInt8) : List UInt8 := ownerKey ++ ascii "-keepalive"

/-- The state on entry: a fresh tree has no condition. -/
def Leader.start : Leader := ⟨.top, [], ([], []), false, []⟩

section

variable (ownerKey leaderInfo : List UInt8) (renewLeaseIntervalMs : UInt64)

/-- One step of `becomeLeader`. The reply's contents are what `tree.read` left in
`contents` or `newContents`. -/
def step (l : Leader) (i : Input) : Leader :=
  let r := i.reply
  match l.pc with
  | .top =>
    let trace := .read ownerKey r.status r.contents :: .top :: l.trace
    match r.status with
    | .ok =>
      { l with pc := .keepAlive, contents := r.contents, condition := (ownerKey, r.contents),
               trace := trace }
    | .lookupError =>
      { l with pc := .takeover, contents := r.contents, condition := (ownerKey, []),
               trace := trace }
    | _ => { l with pc := .died, contents := r.contents, condition := ([], []), trace := trace }
  | .keepAlive =>
    let l := { l with contents := r.contents,
                      trace := .read (keepAliveKey ownerKey) r.status r.contents :: l.trace }
    match r.status with
    | .ok | .lookupError => { l with pc := .sleep }
    | .conditionNotMet => { l with pc := .top }
    | _ => { l with pc := .died }
  | .sleep =>
    let trace := .read (keepAliveKey ownerKey) r.status r.contents :: .sleep :: l.trace
    match r.status with
    | .ok | .lookupError =>
      if r.contents ≠ l.contents then { l with contents := r.contents, trace := trace }
      else { l with pc := .takeover, trace := trace }
    | .conditionNotMet => { l with pc := .top, trace := trace }
    | _ => { l with pc := .died, trace := trace }
  | .takeover =>
    let value := leaderInfoWithNonce i.nonce leaderInfo
    let trace := .write ownerKey value r.status :: l.trace
    match r.status with
    | .ok =>
      { l with pc := .returned, condition := (ownerKey, value),
               leaseRenewer := renewLeaseIntervalMs ≠ 0, trace := trace }
    | .lookupError => { l with pc := .makeParents, trace := trace }
    | .conditionNotMet => { l with pc := .top, trace := trace }
    | _ => { l with pc := .died, trace := trace }
  | .makeParents =>
    let trace := .makeDirectory (ownerKey ++ ascii "/..") r.status :: l.trace
    match r.status with
    | .ok => { l with pc := .takeover, trace := trace }
    | .conditionNotMet => { l with pc := .thrown, trace := trace }
    | _ => { l with pc := .died, trace := trace }
  | .returned | .died | .thrown => l

def run (l : Leader) (inputs : List Input) : Leader :=
  inputs.foldl (step ownerKey leaderInfo renewLeaseIntervalMs) l

end

/-! ## Justified writes -/

/-- A read of `keepAliveKey` that found the key, or found it missing. -/
def Status.settled : Status → Bool
  | .ok | .lookupError => true
  | _ => false

/-- The calls since the last pass through `top`. -/
def sinceTop (trace : List Event) : List Event := trace.takeWhile (· != .top)

/-- Calls since the last pass through `top`, newest first, that allow a write of
`ownerKey`: the read of `ownerKey` found it missing, or two reads of
`keepAliveKey` with a sleep between them both got an answer and the same
contents. -/
def Justified (ownerKey : List UInt8) (seg : List Event) : Prop :=
  (∃ c, Event.read ownerKey .lookupError c ∈ seg) ∨
  ∃ s₁ s₂ c, s₁.settled ∧ s₂.settled ∧
    [Event.read (keepAliveKey ownerKey) s₂ c, .sleep, .read (keepAliveKey ownerKey) s₁ c] <:+: seg

/-- Every write of `ownerKey` in the trace is justified by the calls between the
last pass through `top` before it and the write. -/
def WritesJustified (ownerKey : List UInt8) : List Event → Prop
  | [] => True
  | e :: trace => (∀ v s, e = .write ownerKey v s → Justified ownerKey (sinceTop trace)) ∧
      WritesJustified ownerKey trace

/-- The first call since the last pass through `top` was the read of `ownerKey`,
and the condition is what `top` set from it: `ownerKey` with the contents read,
or with nothing when the key was missing. -/
def TopCondition (ownerKey : List UInt8) (seg : List Event)
    (condition : List UInt8 × List UInt8) : Prop :=
  ∃ st c, seg.getLast? = some (.read ownerKey st c) ∧
    condition = (ownerKey, if st = .ok then c else [])

section

variable {ownerKey : List UInt8} {t seg : List Event}

@[simp] theorem sinceTop_top : sinceTop (.top :: t) = [] := rfl

@[simp] theorem sinceTop_read (k : List UInt8) (s : Status) (c : List UInt8) :
    sinceTop (.read k s c :: t) = .read k s c :: sinceTop t := rfl

@[simp] theorem sinceTop_sleep : sinceTop (.sleep :: t) = .sleep :: sinceTop t := rfl

@[simp] theorem sinceTop_write (k v : List UInt8) (s : Status) :
    sinceTop (.write k v s :: t) = .write k v s :: sinceTop t := rfl

@[simp] theorem sinceTop_makeDirectory (p : List UInt8) (s : Status) :
    sinceTop (.makeDirectory p s :: t) = .makeDirectory p s :: sinceTop t := rfl

theorem Justified.cons (h : Justified ownerKey seg) (e : Event) : Justified ownerKey (e :: seg) := by
  rcases h with ⟨c, hc⟩ | ⟨s₁, s₂, c, h₁, h₂, hi⟩
  · exact .inl ⟨c, List.mem_cons_of_mem e hc⟩
  · exact .inr ⟨s₁, s₂, c, h₁, h₂, hi.trans (List.suffix_cons e seg).isInfix⟩

theorem TopCondition.cons {condition : List UInt8 × List UInt8}
    (h : TopCondition ownerKey seg condition) (e : Event) :
    TopCondition ownerKey (e :: seg) condition := by
  obtain ⟨st, c, hl, hc⟩ := h
  cases seg with
  | nil => cases hl
  | cons b seg => exact ⟨st, c, by rw [List.getLast?_cons_cons]; exact hl, hc⟩

@[simp] theorem writesJustified_top : WritesJustified ownerKey (.top :: t) ↔ WritesJustified ownerKey t := by
  simp [WritesJustified]

@[simp] theorem writesJustified_read (k : List UInt8) (s : Status) (c : List UInt8) :
    WritesJustified ownerKey (.read k s c :: t) ↔ WritesJustified ownerKey t := by
  simp [WritesJustified]

@[simp] theorem writesJustified_sleep :
    WritesJustified ownerKey (.sleep :: t) ↔ WritesJustified ownerKey t := by
  simp [WritesJustified]

@[simp] theorem writesJustified_makeDirectory (p : List UInt8) (s : Status) :
    WritesJustified ownerKey (.makeDirectory p s :: t) ↔ WritesJustified ownerKey t := by
  simp [WritesJustified]

theorem writesJustified_write (v : List UInt8) (s : Status) :
    WritesJustified ownerKey (.write ownerKey v s :: t) ↔
      Justified ownerKey (sinceTop t) ∧ WritesJustified ownerKey t := by
  simp [WritesJustified]

end

/-! ## The invariant -/

section

variable (ownerKey leaderInfo : List UInt8) (renewLeaseIntervalMs : UInt64)

/-- What the trace says at each program counter: between `top` and a write the
condition is the one `top` set; at `takeover` and `makeParents` a write is
justified; at `sleep` the last call was a read of `keepAliveKey` that got an
answer, with the contents in `contents`; on return the last call was a write of
the nonce-prefixed value, and the condition holds it. -/
def AtPc (l : Leader) : Pc → Prop
  | .keepAlive => TopCondition ownerKey (sinceTop l.trace) l.condition
  | .takeover | .makeParents =>
    Justified ownerKey (sinceTop l.trace) ∧ TopCondition ownerKey (sinceTop l.trace) l.condition
  | .sleep => (∃ s, s.settled ∧ l.trace.head? = some (.read (keepAliveKey ownerKey) s l.contents)) ∧
      TopCondition ownerKey (sinceTop l.trace) l.condition
  | .returned => ∃ nonce,
      l.trace.head? = some (.write ownerKey (leaderInfoWithNonce nonce leaderInfo) .ok) ∧
        l.condition = (ownerKey, leaderInfoWithNonce nonce leaderInfo)
  | _ => True

def Inv (l : Leader) : Prop :=
  WritesJustified ownerKey l.trace ∧ AtPc ownerKey leaderInfo l l.pc

variable {ownerKey leaderInfo} {l : Leader} (i : Input)

theorem inv_step_top (hw : WritesJustified ownerKey l.trace) (hpc : l.pc = .top) :
    Inv ownerKey leaderInfo (step ownerKey leaderInfo renewLeaseIntervalMs l i) := by
  simp only [step, hpc]
  cases i.reply.status <;> simp [Inv, AtPc, hw, Justified, TopCondition, and_assoc]

theorem inv_step_keepAlive (hw : WritesJustified ownerKey l.trace) (hpc : l.pc = .keepAlive)
    (hp : AtPc ownerKey leaderInfo l .keepAlive) :
    Inv ownerKey leaderInfo (step ownerKey leaderInfo renewLeaseIntervalMs l i) := by
  simp only [step, hpc]
  cases hs : i.reply.status <;> simp [Inv, AtPc, hw, hs, Status.settled, hp.cons]

theorem inv_step_sleep (hw : WritesJustified ownerKey l.trace) (hpc : l.pc = .sleep)
    (hp : AtPc ownerKey leaderInfo l .sleep) :
    Inv ownerKey leaderInfo (step ownerKey leaderInfo renewLeaseIntervalMs l i) := by
  obtain ⟨⟨s, hs, hh⟩, htc⟩ := hp
  obtain ⟨rest, ht⟩ := List.head?_eq_some_iff.1 hh
  -- the read before the sleep and the read after it found the same contents
  have hj : ∀ st : Status, st.settled → Justified ownerKey
      (.read (keepAliveKey ownerKey) st l.contents :: .sleep :: sinceTop l.trace) := by
    intro st hst
    refine .inr ⟨s, st, l.contents, hs, hst, ?_⟩
    rw [ht, sinceTop_read]
    exact (List.prefix_append _ _).isInfix
  have htc' := fun e => (htc.cons .sleep).cons e
  simp only [step, hpc]
  by_cases hc : i.reply.contents = l.contents <;>
    cases hst : i.reply.status <;> simp [Inv, AtPc, hw, hc, hst, Status.settled, hj, htc']

theorem inv_step_takeover (hw : WritesJustified ownerKey l.trace) (hpc : l.pc = .takeover)
    (hp : AtPc ownerKey leaderInfo l .takeover) :
    Inv ownerKey leaderInfo (step ownerKey leaderInfo renewLeaseIntervalMs l i) := by
  obtain ⟨hj, htc⟩ := hp
  have hw' := fun v s => (writesJustified_write v s).2 ⟨hj, hw⟩
  simp only [step, hpc]
  cases i.reply.status <;> simp [Inv, AtPc, hw', hj.cons, htc.cons]
  exact ⟨i.nonce, rfl⟩

theorem inv_step_makeParents (hw : WritesJustified ownerKey l.trace) (hpc : l.pc = .makeParents)
    (hp : AtPc ownerKey leaderInfo l .makeParents) :
    Inv ownerKey leaderInfo (step ownerKey leaderInfo renewLeaseIntervalMs l i) := by
  obtain ⟨hj, htc⟩ := hp
  simp only [step, hpc]
  cases i.reply.status <;> simp [Inv, AtPc, hw, hj.cons, htc.cons]

theorem inv_step (h : Inv ownerKey leaderInfo l) :
    Inv ownerKey leaderInfo (step ownerKey leaderInfo renewLeaseIntervalMs l i) := by
  obtain ⟨hw, hp⟩ := h
  cases hpc : l.pc <;> rw [hpc] at hp
  case top => exact inv_step_top renewLeaseIntervalMs i hw hpc
  case keepAlive => exact inv_step_keepAlive renewLeaseIntervalMs i hw hpc hp
  case sleep => exact inv_step_sleep renewLeaseIntervalMs i hw hpc hp
  case takeover => exact inv_step_takeover renewLeaseIntervalMs i hw hpc hp
  case makeParents => exact inv_step_makeParents renewLeaseIntervalMs i hw hpc hp
  all_goals simp only [step, hpc]; exact ⟨hw, hpc ▸ hp⟩

theorem inv_run (inputs : List Input) (h : Inv ownerKey leaderInfo l) :
    Inv ownerKey leaderInfo (run ownerKey leaderInfo renewLeaseIntervalMs l inputs) := by
  induction inputs generalizing l with
  | nil => exact h
  | cons i inputs ih => exact ih (inv_step renewLeaseIntervalMs i h)

end

/-- In every run of `becomeLeader`, whatever the tree answers, every write of
`ownerKey` follows, since the last pass through `top`, a read of `ownerKey` that
found it missing or two reads of `keepAliveKey` across a sleep that got an
answer and the same contents; and the call returns only right after such a
write succeeded, with the tree's condition set to `ownerKey` and the value
written. -/
theorem becomeLeader_writes_justified (ownerKey leaderInfo : List UInt8)
    (renewLeaseIntervalMs : UInt64) (inputs : List Input) :
    WritesJustified ownerKey
        (run ownerKey leaderInfo renewLeaseIntervalMs .start inputs).trace ∧
      ((run ownerKey leaderInfo renewLeaseIntervalMs .start inputs).pc = .returned →
        ∃ nonce, (run ownerKey leaderInfo renewLeaseIntervalMs .start inputs).trace.head? =
            some (.write ownerKey (leaderInfoWithNonce nonce leaderInfo) .ok) ∧
          (run ownerKey leaderInfo renewLeaseIntervalMs .start inputs).condition =
            (ownerKey, leaderInfoWithNonce nonce leaderInfo)) := by
  obtain ⟨hw, hp⟩ := inv_run renewLeaseIntervalMs inputs
    (show Inv ownerKey leaderInfo .start from ⟨trivial, trivial⟩)
  exact ⟨hw, fun hr => by rw [hr] at hp; exact hp⟩

/-- In every run of `becomeLeader`, whenever it is about to write `ownerKey`, at
`takeover`, the tree's condition is `ownerKey` with what the read of `ownerKey`
right after the last `top` found, or with nothing when the key was missing: the
write succeeds only if no other contender changed `ownerKey` since. -/
theorem becomeLeader_takeover_conditional (ownerKey leaderInfo : List UInt8)
    (renewLeaseIntervalMs : UInt64) (inputs : List Input)
    (h : (run ownerKey leaderInfo renewLeaseIntervalMs .start inputs).pc = .takeover) :
    TopCondition ownerKey (sinceTop (run ownerKey leaderInfo renewLeaseIntervalMs .start inputs).trace)
      (run ownerKey leaderInfo renewLeaseIntervalMs .start inputs).condition := by
  obtain ⟨-, hp⟩ := inv_run renewLeaseIntervalMs inputs
    (show Inv ownerKey leaderInfo .start from ⟨trivial, trivial⟩)
  rw [h] at hp
  exact hp.2

/-- The read after `top` finds the owner's key with some contents, the two reads
of `keepAliveKey` across the sleep find the same contents: takeover, under the
condition the first read set. -/
theorem becomeLeader_takeover_conditional_stale :
    (run (ascii "/leader") (ascii "node-1") 500 .start
        [⟨⟨.ok, [5]⟩, 0⟩, ⟨⟨.ok, [1]⟩, 0⟩, ⟨⟨.ok, [1]⟩, 0⟩]).pc = .takeover ∧
      TopCondition (ascii "/leader") (sinceTop (run (ascii "/leader") (ascii "node-1") 500 .start
          [⟨⟨.ok, [5]⟩, 0⟩, ⟨⟨.ok, [1]⟩, 0⟩, ⟨⟨.ok, [1]⟩, 0⟩]).trace)
        (run (ascii "/leader") (ascii "node-1") 500 .start
          [⟨⟨.ok, [5]⟩, 0⟩, ⟨⟨.ok, [1]⟩, 0⟩, ⟨⟨.ok, [1]⟩, 0⟩]).condition :=
  ⟨by decide, becomeLeader_takeover_conditional _ _ _ _ (by decide)⟩

/-- The owner's key is missing and the write succeeds: `becomeLeader` returns
right after writing `leaderInfo` under the nonce 7. -/
theorem becomeLeader_writes_justified_missing_owner :
    (run (ascii "/leader") (ascii "node-1") 500 .start
        [⟨⟨.lookupError, []⟩, 0⟩, ⟨⟨.ok, []⟩, 7⟩]).pc = .returned ∧
      ∃ nonce, (run (ascii "/leader") (ascii "node-1") 500 .start
          [⟨⟨.lookupError, []⟩, 0⟩, ⟨⟨.ok, []⟩, 7⟩]).trace.head? =
          some (.write (ascii "/leader") (leaderInfoWithNonce nonce (ascii "node-1")) .ok) ∧
        (run (ascii "/leader") (ascii "node-1") 500 .start
          [⟨⟨.lookupError, []⟩, 0⟩, ⟨⟨.ok, []⟩, 7⟩]).condition =
          (ascii "/leader", leaderInfoWithNonce nonce (ascii "node-1")) :=
  have hr : (run (ascii "/leader") (ascii "node-1") 500 .start
      [⟨⟨.lookupError, []⟩, 0⟩, ⟨⟨.ok, []⟩, 7⟩]).pc = .returned := by decide
  ⟨hr, (becomeLeader_writes_justified _ _ _ _).2 hr⟩

end QuantaDB.LogCabin
