import QuantaDB.BecomeLeader

/-!
The other calls of `LogCabinStorage` (LogCabinStorage.cc) on the tree:
`makeParents`, the retry loop of `set`, `remove` and `getChildren`. As for
`becomeLeader`, every answer of the tree is an input. The theorems say exactly
when `set` and `getChildren` return and what they return: `set` after rounds of
a write that found no parent and a `makeParents` that created it, and
`getChildren` the filtered listing, in order.
-/

set_option autoImplicit false

namespace QuantaDB.LogCabin

open QuantaDB

/-- `makeParents(name)` on the answer to `tree.makeDirectory(name + "/..")`. -/
def makeParents (s : Status) : Outcome Unit :=
  match s with
  | .ok => .returns ()
  | .conditionNotMet => .throws
  | _ => .dies

theorem makeParents_eq_returns (s : Status) : makeParents s = .returns () ↔ s = .ok := by
  cases s <;> simp [makeParents]

/-! ## `set` -/

/-- The string `set` writes: `contents.assign(value)`, up to the terminating zero,
when `valueLength < 0`, and `contents.assign(value, size_t(valueLength))`
otherwise. `value` is the memory from the pointer on. -/
def setContents (value : List UInt8) (valueLength : Int) : List UInt8 :=
  if valueLength < 0 then value.takeWhile (· != 0) else value.take valueLength.toNat

/-- The `while (true)` loop of `set` on the tree's answers, one per call:
`tree.write(name, contents)`, and after a `LOOKUP_ERROR` the `makeDirectory` of
`makeParents` before the next write. The calls made, oldest first, and how the
loop ended; `none` if the answers ran out inside it. -/
def setLoop (name contents : List UInt8) : List Status → List Event × Option (Outcome Unit)
  | [] => ([], none)
  | s :: rest =>
    let w := Event.write name contents s
    match s, rest with
    | .ok, _ => ([w], some (.returns ()))
    | .lookupError, [] => ([w], none)
    | .lookupError, m :: rest =>
      let mk := Event.makeDirectory (name ++ ascii "/..") m
      match makeParents m with
      | .returns () => Prod.map (w :: mk :: ·) id (setLoop name contents rest)
      | .throws => ([w, mk], some .throws)
      | .dies => ([w, mk], some .dies)
    | .conditionNotMet, _ => ([w], some .throws)
    | _, _ => ([w], some .dies)

/-- `set(flavor, name, value, valueLength)`; the hint `flavor` is not used. -/
def set (name value : List UInt8) (valueLength : Int) (answers : List Status) :
    List Event × Option (Outcome Unit) :=
  setLoop name (setContents value valueLength) answers

section

variable {name contents : List UInt8}

/-- The answers of `k` rounds in which the write found no parent and
`makeParents` created it. -/
def parentRounds (k : Nat) : List Status :=
  (List.replicate k [Status.lookupError, .ok]).flatten

/-- The calls of those `k` rounds. -/
def parentRoundCalls (name contents : List UInt8) (k : Nat) : List Event :=
  (List.replicate k [Event.write name contents .lookupError,
    .makeDirectory (name ++ ascii "/..") .ok]).flatten

@[simp] theorem parentRounds_succ (k : Nat) :
    parentRounds (k + 1) = .lookupError :: .ok :: parentRounds k := rfl

@[simp] theorem parentRoundCalls_succ (k : Nat) :
    parentRoundCalls name contents (k + 1) = .write name contents .lookupError ::
      .makeDirectory (name ++ ascii "/..") .ok :: parentRoundCalls name contents k := rfl

/-- Each round in which a missing parent was created costs one more write, and
the loop then goes on from the next answer. -/
theorem setLoop_parentRounds (k : Nat) (rs : List Status) :
    setLoop name contents (parentRounds k ++ rs) =
      Prod.map (parentRoundCalls name contents k ++ ·) id (setLoop name contents rs) := by
  induction k with
  | zero => rfl
  | succ k ih =>
    rw [parentRounds_succ, List.cons_append, List.cons_append]
    simp only [setLoop, makeParents, ih, parentRoundCalls_succ]
    rfl

/-- `set` returns exactly when the tree answers rounds of a write that found no
parent and a `makeParents` that created it, and then a successful write; those
are then all the calls it made, the last one a write of `contents` that
succeeded. -/
theorem setLoop_returns_iff (rs : List Status) :
    (setLoop name contents rs).2 = some (.returns ()) ↔
      ∃ k rest, rs = parentRounds k ++ .ok :: rest ∧
        (setLoop name contents rs).1 = parentRoundCalls name contents k ++
          [.write name contents .ok] := by
  constructor
  · induction rs using setLoop.induct name contents with
    | case1 => simp [setLoop]
    | case2 rest => exact fun _ => ⟨0, rest, rfl, rfl⟩
    | case4 m rest hm ih =>
      rw [makeParents_eq_returns] at hm
      subst hm
      simp only [setLoop, makeParents, Prod.map_snd, id]
      intro h
      obtain ⟨k, rest', hr, hc⟩ := ih h
      refine ⟨k + 1, rest', by rw [hr]; rfl, ?_⟩
      simp only [Prod.map_fst, hc, parentRoundCalls_succ, List.cons_append]
    | _ => simp_all [setLoop]
  · rintro ⟨k, rest, rfl, -⟩
    simp only [setLoop_parentRounds, setLoop, Prod.map_snd, id]

end

/-! ## `remove` -/

/-- `remove(name)` on the answers to `tree.removeFile(name)` and, when that says
the name is a directory, `tree.removeDirectory(name)`. -/
def remove (fileStatus dirStatus : Status) : Outcome Unit :=
  match fileStatus with
  | .ok | .lookupError => .returns ()
  | .conditionNotMet => .throws
  | .typeError =>
    match dirStatus with
    | .ok | .lookupError => .returns ()
    | .conditionNotMet => .throws
    | _ => .dies
  | _ => .dies

/-! ## `getChildren` -/

/-- `ExternalStorage::Object` as `getChildren` builds it: the path, and the
value with its length (a directory's is `NULL` and 0, here empty). -/
structure Object where
  name : List UInt8
  value : List UInt8
  deriving DecidableEq, Repr

/-- `StringUtil::endsWith(childName, "/")`: the child is a directory. -/
def isDirectory (childName : List UInt8) : Bool := (ascii "/").isSuffixOf childName

/-- The `foreach` of `getChildren` over the child names, each with the tree's
answer to `tree.read(childPath, contents)` (asked for files only). -/
def readChildren (pfx : List UInt8) : List (List UInt8 × Reply) → Outcome (List Object)
  | [] => .returns []
  | (c, r) :: rest =>
    if isDirectory c then (readChildren pfx rest).map (⟨pfx ++ c.dropLast, []⟩ :: ·)
    else
      match r.status with
      | .ok => (readChildren pfx rest).map (⟨pfx ++ c, r.contents⟩ :: ·)
      | .lookupError => readChildren pfx rest
      | .conditionNotMet => .throws
      | _ => .dies

/-- `getChildren(name, children)` on the answer to `tree.listDirectory`: its
status, and the child names with the answers to their reads. -/
def getChildren (name : List UInt8) (listing : Status)
    (children : List (List UInt8 × Reply)) : Outcome (List Object) :=
  match listing with
  | .ok => readChildren (name ++ ascii "/") children
  | .lookupError => .returns []
  | .conditionNotMet => .throws
  | _ => .dies

/-- What one listed child contributes once its read is answered: a directory its
path without the trailing slash, a file its path and contents, a file deleted
in the meantime nothing. -/
def childObject (pfx : List UInt8) : List UInt8 × Reply → Option Object
  | (c, r) =>
    if isDirectory c then some ⟨pfx ++ c.dropLast, []⟩
    else if r.status = .ok then some ⟨pfx ++ c, r.contents⟩
    else none

/-- A listed child whose read, if one is made, finds the file or finds it gone. -/
def ChildSettled (p : List UInt8 × Reply) : Prop := isDirectory p.1 = false → p.2.status.settled

@[simp] theorem childSettled_mk (c : List UInt8) (r : Reply) :
    ChildSettled (c, r) ↔ (isDirectory c = false → r.status.settled) := Iff.rfl

section

variable {pfx : List UInt8} {objs : List Object}

theorem Outcome.map_eq_returns {α β : Type} {f : α → β} {o : Outcome α} {b : β} :
    o.map f = .returns b ↔ ∃ a, o = .returns a ∧ f a = b := by
  cases o <;> simp [Outcome.map]

/-- Putting an object in front of what a loop returns. -/
theorem map_cons_returns_iff {o : Outcome (List Object)} {x : Object} {P : Prop}
    {F : List Object} (h : ∀ {objs}, o = .returns objs ↔ P ∧ objs = F) :
    o.map (x :: ·) = .returns objs ↔ P ∧ objs = x :: F := by
  rw [Outcome.map_eq_returns]
  constructor
  · rintro ⟨a, ha, rfl⟩
    obtain ⟨hp, rfl⟩ := h.1 ha
    exact ⟨hp, rfl⟩
  · rintro ⟨hp, rfl⟩
    exact ⟨F, h.2 ⟨hp, rfl⟩, rfl⟩

/-- The loop of `getChildren` returns exactly when every file's read found the
file or found it gone, and then returns the children of the listing in order:
directories without their slash, files with their contents, deleted files
skipped. -/
theorem readChildren_returns_iff (cs : List (List UInt8 × Reply)) :
    readChildren pfx cs = .returns objs ↔
      (∀ p ∈ cs, ChildSettled p) ∧ objs = cs.filterMap (childObject pfx) := by
  induction cs generalizing objs with
  | nil => simp [readChildren, eq_comm]
  | cons p cs ih =>
    obtain ⟨c, r⟩ := p
    simp only [readChildren, List.forall_mem_cons, List.filterMap_cons, childObject,
      childSettled_mk]
    by_cases hd : isDirectory c
    · simp only [hd, if_true, map_cons_returns_iff ih, Bool.true_eq_false, false_imp_iff,
        true_and]
    · simp only [hd, if_false, Bool.false_eq_true, true_imp_iff]
      cases hs : r.status <;> simp [map_cons_returns_iff ih, ih, Status.settled]

/-- `getChildren` returns exactly when the directory is missing (and then
nothing), or when it was listed and every file's read found the file or found it
gone; it then returns the listing's children under `name + "/"`, in order. -/
theorem getChildren_returns_iff (name : List UInt8) (listing : Status)
    (cs : List (List UInt8 × Reply)) :
    getChildren name listing cs = .returns objs ↔
      listing = .lookupError ∧ objs = [] ∨
        listing = .ok ∧ (∀ p ∈ cs, ChildSettled p) ∧
          objs = cs.filterMap (childObject (name ++ ascii "/")) := by
  cases listing <;> simp [getChildren, readChildren_returns_iff, @eq_comm _ [] objs]

/-- Every object `getChildren` returns lies under `name`. -/
theorem getChildren_under_name (name : List UInt8) (listing : Status)
    (cs : List (List UInt8 × Reply)) (h : getChildren name listing cs = .returns objs) :
    ∀ o ∈ objs, name ++ ascii "/" <+: o.name := by
  cases listing <;> simp only [getChildren, reduceCtorEq, Outcome.returns.injEq] at h
  case lookupError => simp [← h]
  case ok =>
    obtain ⟨-, rfl⟩ := (readChildren_returns_iff cs).1 h
    intro o ho
    obtain ⟨⟨c, r⟩, -, hp⟩ := List.mem_filterMap.1 ho
    simp only [childObject] at hp
    split_ifs at hp <;> cases hp <;> exact List.prefix_append _ _

end

/-- A listing of a file, a directory and a file deleted before its read. -/
theorem getChildren_under_name_listing :
    getChildren (ascii "/ws") .ok
        [(ascii "a", ⟨.ok, [1]⟩), (ascii "d/", ⟨.ok, []⟩), (ascii "b", ⟨.lookupError, []⟩)] =
        .returns [⟨ascii "/ws/a", [1]⟩, ⟨ascii "/ws/d", []⟩] ∧
      ∀ o ∈ [(⟨ascii "/ws/a", [1]⟩ : Object), ⟨ascii "/ws/d", []⟩], ascii "/ws" ++ ascii "/" <+: o.name :=
  ⟨by decide, getChildren_under_name _ .ok
    [(ascii "a", ⟨.ok, [1]⟩), (ascii "d/", ⟨.ok, []⟩), (ascii "b", ⟨.lookupError, []⟩)]
    (by decide)⟩

end QuantaDB.LogCabin
