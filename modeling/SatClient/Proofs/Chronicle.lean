import Mathlib.Data.List.Induction
import SatClient.Proofs.Settled

/-!
# What a test has told, and what was called

The chronicle of a test lists what the mock was told and the native calls that were made, in order. By
it alone it can be judged whether all went as expected.

* `Made`, `Deed`: a native call with what it points to; an entry of a chronicle
* `Mock.Expected.Fits`, `Mock.Matched`: calls as they are expected, one by one
* `Fulfilled`: everything that was expected was called, and nothing else
* `MockSession.chronicle`: the chronicle of a test
* `Due`, `InOrder`: a call at its time; a chronicle of such calls
* `Life`: the calls on an instance from its init to its release
* **`inOrder_of_fulfilled`**: if all is fulfilled, each call was made at its time
-/

namespace SatClient

/-! ## Deeds -/

/-- A native call, with what it points to. -/
structure Made where
  /-- The instance on which it is made. Of an init it is the one that it makes, if it makes one. -/
  id : Option Nat
  call : Call
  /-- The name of the option that is passed, empty if there is none. -/
  name : String
  /-- The answers to the polls during the call. -/
  answers : List Int32

/-- Whether the call is made on an instance that stays. -/
def Made.isOperation (c : Made) : Bool :=
  match c.call with
  | .init | .signature | .release _ => false
  | _ => true

/-- What a test does to the mock, or a native call. -/
inductive Deed where
  | told (t : MockStep)
  | made (c : Made)

namespace Deed

def expected? (id : Nat) : Deed → Option Mock.Expected
  | told (.expect j e) => if j = id then some e else none
  | _ => none

def call? (id : Nat) : Deed → Option Made
  | made c => if c.id = some id then some c else none
  | _ => none

def expectsInit : Deed → Bool
  | told (.expectInit _) | told (.expectInitFailure _) => true
  | _ => false

def isInit : Deed → Bool
  | made c => c.call == .init
  | _ => false

def saysSignature : Deed → Bool
  | told (.setSignature ..) => true
  | _ => false

end Deed

/-- All calls expected of an instance, in order. -/
def expectedOf (id : Nat) (ds : List Deed) : List Mock.Expected := ds.filterMap (Deed.expected? id)

/-- All calls on an instance, in order, from the init that makes it. -/
def callsOn (id : Nat) (ds : List Deed) : List Made := ds.filterMap (Deed.call? id)

def operationsOn (id : Nat) (ds : List Deed) : List Made := (callsOn id ds).filter Made.isOperation

/-- The number of init calls that were expected. -/
def initsExpected (ds : List Deed) : Nat := ds.countP Deed.expectsInit

/-- The number of init calls. -/
def initsMade (ds : List Deed) : Nat := ds.countP Deed.isInit

/-! ## Calls as they are expected -/

namespace Mock

/-- Where a call back during a solve goes. -/
def Scene.slot : Scene → Slot
  | poll _ => .terminate
  | offer _ => .exporter

def Scene.poll? : Scene → Option Bool
  | poll expect => some expect
  | offer _ => none

/-- A buffer that is not null holds literals, as many as it is said to. -/
def Holds (buffer : Option Buffer) (length : Int32) (lits : List Int32) : Prop :=
  ∃ b, buffer = some b ∧ 0 ≤ length ∧ b.first length = lits

/-- A call is as expected: the same function with equal arguments, a callback just if one is to be
registered; and for a solve, each call back has a registration, and each poll is answered as expected.
What is registered at the time is given. -/
def Expected.Fits (posted : Slot → Bool) (e : Expected) (c : Made) : Prop :=
  match c.call, e.call with
  | .add _ clause length redundancy, .add clause' redundancy' =>
    Holds clause length clause' ∧ redundancy = redundancy'
  | .solve _ assumptions length, .solve assumptions' _ during =>
    Holds assumptions length assumptions' ∧ (∀ scene ∈ during, posted scene.slot = true) ∧
      c.answers.map (· != 0) = during.filterMap Scene.poll?
  | .val _ lit, .val lit' _ => lit = lit'
  | .failed _ lit, .failed lit' _ => lit = lit'
  | .options _, .options => True
  | .setOption _ _ value index, .setOption name' value' index' =>
    c.name = name' ∧ value = value' ∧ index = index'
  | .setTerminate _ data callback, .setTerminate registers =>
    data.isSome = registers ∧ callback.isSome = registers
  | .setExport _ data length callback, .setExport registers length' =>
    length = length' ∧ data.isSome = registers ∧ callback.isSome = registers
  | _, _ => False

/-- What is registered after a call as expected. A registration stays whatever the call returns; it is
cleared only by a call that succeeds. -/
def Expected.posts (e : Expected) (posted : Slot → Bool) (slot : Slot) : Bool :=
  match e.call, slot with
  | .setTerminate registers, .terminate => registers || (!e.returns.isOk && posted slot)
  | .setExport registers _, .exporter => registers || (!e.returns.isOk && posted slot)
  | _, _ => posted slot

/-- What is registered after calls as expected. -/
def postedAfter (es : List Expected) : Slot → Bool := es.foldl (fun posted e => e.posts posted) fun _ => false

/-- Calls are as expected, one by one and in order. -/
structure Matched (es : List Expected) (cs : List Made) : Prop where
  length : es.length = cs.length
  fits : ∀ (n : Nat) (e : Expected) (c : Made), es[n]? = some e → cs[n]? = some c →
    e.Fits (postedAfter (es.take n)) c

end Mock

open Mock

/-- **All went as expected.** Every init call was expected when it was made, and every init that was
expected was called; every call for the signature was made when there was one to give. Of each instance
either nothing was expected and nothing called, or the calls between its init and its release are those
that were expected of it, one by one, in order and completely, each made when it was expected
already. -/
structure Fulfilled (ds : List Deed) : Prop where
  inits : ∀ before c after, ds = before ++ .made c :: after → c.call = .init →
    initsMade before < initsExpected before
  answered : initsMade ds = initsExpected ds
  signatures : ∀ before c after, ds = before ++ .made c :: after → c.call = .signature →
    before.any Deed.saysSignature = true
  queued : ∀ before c after id, ds = before ++ .made c :: after → c.id = some id → c.isOperation = true →
    (operationsOn id before).length < (expectedOf id before).length
  matched : ∀ id, callsOn id ds = [] ∧ expectedOf id ds = [] ∨
    ∃ init ops release, callsOn id ds = init :: (ops ++ [release]) ∧ init.call = .init ∧
      release.call.entry = .release ∧ Matched (expectedOf id ds) ops

/-! ## The chronicle of a test -/

/-- The option that a call passes. -/
def Call.option? : Call → Option Descriptor
  | .setOption _ option _ _ => option
  | _ => none

/-- The native calls in a trace, which are there when they return; some polls may have been answered
before. What a call points to is read with the functions given. -/
def deedsIn (instanceAt : Handle → Option Nat) (nameAt : Option Descriptor → String) :
    List Int32 → List Event → List Deed
  | _, [] => []
  | _, .called .. :: rest => deedsIn instanceAt nameAt [] rest
  | answers, .answered a :: rest => deedsIn instanceAt nameAt (answers ++ [a]) rest
  | answers, .returned _ c reply :: rest =>
    .made ⟨instanceAt (c.handle?.getD reply.handle), c, nameAt c.option?, answers⟩ ::
      deedsIn instanceAt nameAt [] rest
  | answers, _ :: rest => deedsIn instanceAt nameAt answers rest

namespace MockSession

/-- The deeds of a step: what the mock was told, unless that panicked, or the calls that were made. -/
def deeds (t : MockStep) (s : Session MockHost) : List Deed :=
  let (answer, s') := step t s
  match t.told?, answer with
  | some _, .done _ => [.told t]
  | some _, _ => []
  | none, _ =>
    match (host s').mock with
    | none => []
    | some m => deedsIn m.instanceAt m.nameAt [] (s'.trace.drop s.trace.length)

/-- The deeds of steps one after the other. -/
def chronicle : List MockStep → Session MockHost → List Deed
  | [], _ => []
  | t :: ts, s => deeds t s ++ chronicle ts (step t s).2

end MockSession

/-! ## One more deed -/

section Append

variable (ds ds' : List Deed) (id : Nat)

@[simp] theorem expectedOf_append : expectedOf id (ds ++ ds') = expectedOf id ds ++ expectedOf id ds' :=
  List.filterMap_append

@[simp] theorem callsOn_append : callsOn id (ds ++ ds') = callsOn id ds ++ callsOn id ds' :=
  List.filterMap_append

@[simp] theorem initsExpected_append : initsExpected (ds ++ ds') = initsExpected ds + initsExpected ds' :=
  List.countP_append

@[simp] theorem initsMade_append : initsMade (ds ++ ds') = initsMade ds + initsMade ds' :=
  List.countP_append

theorem expectedOf_cons_made (c : Made) : expectedOf id (.made c :: ds) = expectedOf id ds := rfl

@[simp] theorem initsExpected_made (c : Made) : initsExpected (ds ++ [.made c]) = initsExpected ds :=
  initsExpected_append ds _

theorem initsMade_made {c : Made} (hc : c.call = .init) :
    initsMade (ds ++ [.made c]) = initsMade ds + 1 := by
  simp [initsMade, Deed.isInit, hc]

theorem initsMade_made_of_ne {c : Made} (hc : c.call ≠ .init) :
    initsMade (ds ++ [.made c]) = initsMade ds := by
  simp [initsMade, Deed.isInit, hc]

@[simp] theorem saysSignature_made (c : Made) :
    (ds ++ [Deed.made c]).any Deed.saysSignature = ds.any Deed.saysSignature := by
  rw [List.any_append]
  exact Bool.or_false _

@[simp] theorem expectedOf_made (c : Made) : expectedOf id (ds ++ [.made c]) = expectedOf id ds := by
  rw [expectedOf_append, expectedOf_cons_made]
  exact List.append_nil _

@[simp] theorem callsOn_told (t : MockStep) : callsOn id (ds ++ [.told t]) = callsOn id ds := by
  rw [callsOn_append]
  exact List.append_nil _

variable {id} in
theorem callsOn_made {c : Made} (hc : c.id = some id) : callsOn id (ds ++ [.made c]) = callsOn id ds ++ [c] := by
  simp [callsOn, Deed.call?, hc]

variable {id} in
theorem callsOn_made_of_ne {c : Made} (hc : c.id ≠ some id) :
    callsOn id (ds ++ [.made c]) = callsOn id ds := by
  simp [callsOn, Deed.call?, hc]

variable {id} in
theorem operationsOn_made {c : Made} (hc : c.id = some id) (ho : c.isOperation = true) :
    operationsOn id (ds ++ [.made c]) = operationsOn id ds ++ [c] := by
  rw [operationsOn, callsOn_made ds hc, List.filter_append, List.filter_cons_of_pos ho]
  rfl

variable {id} in
theorem operationsOn_made_of_not {c : Made} (h : ¬ (c.id = some id ∧ c.isOperation = true)) :
    operationsOn id (ds ++ [.made c]) = operationsOn id ds := by
  by_cases hc : c.id = some id
  · rw [operationsOn, callsOn_made ds hc, List.filter_append, List.filter_cons_of_neg fun ho => h ⟨hc, ho⟩]
    exact List.append_nil _
  · rw [operationsOn, callsOn_made_of_ne ds hc, operationsOn]

end Append

namespace Mock

variable {es es' : List Expected} {cs : List Made} {e : Expected} {c : Made}

theorem postedAfter_snoc (es : List Expected) (e : Expected) :
    postedAfter (es ++ [e]) = e.posts (postedAfter es) := by
  simp [postedAfter]

theorem matched_nil : Matched [] [] := ⟨rfl, fun n e c he => by simp at he⟩

theorem Matched.snoc (h : Matched es cs) (hf : e.Fits (postedAfter es) c) :
    Matched (es ++ [e]) (cs ++ [c]) := by
  refine ⟨by simp [h.length], fun n x y hx hy => ?_⟩
  by_cases hn : n < es.length
  · rw [List.getElem?_append_left hn] at hx
    rw [List.getElem?_append_left (h.length ▸ hn)] at hy
    rw [List.take_append_of_le_length (Nat.le_of_lt hn)]
    exact h.fits n x y hx hy
  · obtain ⟨hlt, -⟩ := List.getElem?_eq_some_iff.mp hx
    have heq : n = es.length := by
      rw [List.length_append, List.length_singleton] at hlt
      omega
    subst heq
    rw [List.getElem?_concat_length] at hx
    rw [h.length, List.getElem?_concat_length] at hy
    cases hx
    cases hy
    rw [List.take_left]
    exact hf

/-- What fits is no init, no release and no call for the signature. -/
theorem Expected.Fits.isOperation {posted : Slot → Bool} (h : e.Fits posted c) : c.isOperation = true := by
  obtain ⟨id, call, name, answers⟩ := c
  cases call <;> first | rfl | exact h.elim

theorem Matched.isOperation (h : Matched es cs) : ∀ c ∈ cs, c.isOperation = true := by
  intro c hc
  obtain ⟨n, hn⟩ := List.mem_iff_getElem?.mp hc
  obtain ⟨hlt, -⟩ := List.getElem?_eq_some_iff.mp hn
  have hlt' : n < es.length := h.length ▸ hlt
  exact (h.fits n es[n] c (List.getElem?_eq_getElem hlt') hn).isOperation

end Mock

/-! ## Calls at their time -/

/-- The instance of a call is there and not released. -/
def OnLive (ds : List Deed) (c : Made) (id : Nat) : Prop :=
  c.id = some id ∧ ∀ c' ∈ callsOn id ds, c'.call.entry ≠ .release

/-- A call is made at its time, after what the chronicle says: the next call that was expected, or a
release when nothing more is. -/
def Due (ds : List Deed) (c : Made) : Prop :=
  match c.call with
  | .init => initsMade ds < initsExpected ds
  | .signature => ds.any Deed.saysSignature = true
  | .release _ => ∃ id, OnLive ds c id ∧ (operationsOn id ds).length = (expectedOf id ds).length
  | _ => ∃ id, OnLive ds c id ∧ ∃ e, (expectedOf id ds)[(operationsOn id ds).length]? = some e ∧
    e.Fits (postedAfter ((expectedOf id ds).take (operationsOn id ds).length)) c

theorem due_iff_of_isOperation {ds : List Deed} {c : Made} (hc : c.isOperation = true) :
    Due ds c ↔ ∃ id, OnLive ds c id ∧ ∃ e, (expectedOf id ds)[(operationsOn id ds).length]? = some e ∧
      e.Fits (postedAfter ((expectedOf id ds).take (operationsOn id ds).length)) c := by
  obtain ⟨id, call, name, answers⟩ := c
  cases call <;> first | exact Iff.rfl | cases hc

/-- Each call of a chronicle was made at its time. -/
inductive InOrder : List Deed → Prop
  | nil : InOrder []
  | told {ds : List Deed} (t : MockStep) (h : InOrder ds) : InOrder (ds ++ [.told t])
  | made {ds : List Deed} {c : Made} (h : InOrder ds) (hc : Due ds c) : InOrder (ds ++ [.made c])

namespace InOrder

variable {ds : List Deed} {c : Made}

theorem told_iff {t : MockStep} : InOrder (ds ++ [.told t]) ↔ InOrder ds := by
  refine ⟨fun h => ?_, .told t⟩
  generalize hds : ds ++ [.told t] = ds' at h
  cases h with
  | nil => simp at hds
  | told t' h => exact (List.append_inj' hds rfl).1 ▸ h
  | made h hc => cases (List.append_inj' hds rfl).2

theorem made_iff : InOrder (ds ++ [.made c]) ↔ InOrder ds ∧ Due ds c := by
  refine ⟨fun h => ?_, fun h => .made h.1 h.2⟩
  generalize hds : ds ++ [.made c] = ds' at h
  cases h with
  | nil => simp at hds
  | told t' h => cases (List.append_inj' hds rfl).2
  | made h hc =>
    obtain ⟨rfl, hc'⟩ := List.append_inj' hds rfl
    cases hc'
    exact ⟨h, hc⟩

/-- By induction on what came after. -/
theorem before {before after : List Deed} (h : InOrder (before ++ after)) : InOrder before := by
  induction after using List.reverseRecOn with
  | nil => exact List.append_nil before ▸ h
  | append_singleton after d ih =>
    rw [← List.append_assoc] at h
    cases d with
    | told t => exact ih (told_iff.mp h)
    | made c => exact ih (made_iff.mp h).1

theorem due {before after : List Deed} (h : InOrder (before ++ .made c :: after)) : Due before c := by
  rw [List.append_cons] at h
  exact (made_iff.mp h.before).2

/-- No more calls were made on an instance than were expected of it. -/
theorem operations_le (h : InOrder ds) (id : Nat) :
    (operationsOn id ds).length ≤ (expectedOf id ds).length := by
  induction h with
  | nil => exact Nat.le_refl 0
  | told t h ih =>
    rw [operationsOn, callsOn_told, expectedOf_append, List.length_append]
    exact Nat.le_add_right_of_le ih
  | @made ds c h hc ih =>
    rw [expectedOf_made]
    by_cases hone : c.id = some id ∧ c.isOperation = true
    · obtain ⟨id', hlive, e, he, -⟩ := (due_iff_of_isOperation hone.2).mp hc
      cases hlive.1.symm.trans hone.1
      obtain ⟨hlt, -⟩ := List.getElem?_eq_some_iff.mp he
      rw [operationsOn_made ds hone.1 hone.2, List.length_append]
      exact hlt
    · rw [operationsOn_made_of_not ds hone]
      exact ih

end InOrder

/-! ## All in order -/

/-- Each call but those for an instance or the signature is on an instance that is known. -/
def Attributed (ds : List Deed) : Prop :=
  ∀ c, .made c ∈ ds → c.call ≠ .init → c.call ≠ .signature → ∃ id, c.id = some id

theorem Made.isOperation_iff {c : Made} :
    c.isOperation = true ↔ c.call ≠ .init ∧ c.call ≠ .signature ∧ c.call.entry ≠ .release := by
  obtain ⟨id, call, name, answers⟩ := c
  cases call <;> simp [isOperation, Call.entry]

/-- The calls on an instance from its init to its release. -/
structure Life (cs : List Made) (init : Made) (ops : List Made) (release : Made) : Prop where
  eq : cs = init :: (ops ++ [release])
  init : init.call = .init
  release : release.call.entry = .release
  ops : ∀ c ∈ ops, c.isOperation = true

namespace Life

variable {init release c : Made} {ops l r : List Made}

/-- A call is the last one, or one before it. -/
theorem last_or_before {z : Made} (h : l ++ c :: r = ops ++ [z]) :
    ops = l ∧ c = z ∨ ∃ post, ops = l ++ c :: post := by
  rcases List.eq_nil_or_concat r with rfl | ⟨post, y, rfl⟩
  · obtain ⟨hl, hc⟩ := List.append_inj' h rfl
    exact .inl ⟨hl.symm, (List.cons.inj hc).1⟩
  · rw [List.concat_eq_append, ← List.cons_append, ← List.append_assoc] at h
    exact .inr ⟨post, (List.append_inj' h rfl).1.symm⟩

/-- What comes before an operation. -/
theorem before_operation (h : Life (l ++ c :: r) init ops release) (hc : c.isOperation = true) :
    ∃ pre post, l = init :: pre ∧ ops = pre ++ c :: post := by
  cases l with
  | nil =>
    obtain ⟨rfl, -⟩ := List.cons.inj h.eq
    exact absurd h.init (Made.isOperation_iff.mp hc).1
  | cons a pre =>
    obtain ⟨rfl, hrest⟩ := List.cons.inj h.eq
    rcases last_or_before hrest with ⟨-, rfl⟩ | ⟨post, hops⟩
    · exact absurd h.release (Made.isOperation_iff.mp hc).2.2
    · exact ⟨pre, post, rfl, hops⟩

/-- What comes before the release. -/
theorem before_release (h : Life (l ++ c :: r) init ops release) (hc : c.call.entry = .release) :
    l = init :: ops := by
  cases l with
  | nil =>
    obtain ⟨rfl, -⟩ := List.cons.inj h.eq
    rw [h.init] at hc
    cases hc
  | cons a pre =>
    obtain ⟨rfl, hrest⟩ := List.cons.inj h.eq
    rcases last_or_before hrest with ⟨hops, -⟩ | ⟨post, hops⟩
    · rw [hops]
    · have hop : c.isOperation = true := h.ops c (hops ▸ List.mem_append_right _ List.mem_cons_self)
      exact absurd hc (Made.isOperation_iff.mp hop).2.2

/-- A beginning of such calls without the release. -/
theorem filter_operations (hi : init.call = .init) (ho : ∀ c ∈ ops, c.isOperation = true) :
    (init :: ops).filter Made.isOperation = ops := by
  have hnot : ¬ init.isOperation = true := fun h => (Made.isOperation_iff.mp h).1 hi
  rw [List.filter_cons_of_neg hnot, List.filter_eq_self.mpr ho]

theorem not_release (hi : init.call = .init) (ho : ∀ c ∈ ops, c.isOperation = true) :
    ∀ c ∈ init :: ops, c.call.entry ≠ .release := by
  intro c hc he
  rcases List.mem_cons.mp hc with rfl | hc
  · rw [hi] at he
    cases he
  · exact (Made.isOperation_iff.mp (ho c hc)).2.2 he

end Life

namespace Fulfilled

variable {ds before after : List Deed} {c : Made} {id : Nat}

/-- The life of an instance that is called. -/
theorem life (h : Fulfilled ds) (hds : ds = before ++ .made c :: after) (hid : c.id = some id) :
    ∃ init ops release, Life (callsOn id before ++ c :: callsOn id after) init ops release ∧
      Matched (expectedOf id ds) ops := by
  have hcalls : callsOn id ds = callsOn id before ++ c :: callsOn id after := by
    rw [hds, List.append_cons, callsOn_append, callsOn_made before hid, List.append_assoc]
    rfl
  rcases h.matched id with ⟨hnil, -⟩ | ⟨init, ops, release, heq, hinit, hrelease, hm⟩
  · rw [hcalls] at hnil
    cases (List.append_eq_nil_iff.mp hnil).2
  · exact ⟨init, ops, release, ⟨hcalls ▸ heq, hinit, hrelease, hm.isOperation⟩, hm⟩

theorem due_operation (h : Fulfilled ds) (hds : ds = before ++ .made c :: after) (hid : c.id = some id)
    (hc : c.isOperation = true) : Due before c := by
  obtain ⟨init, ops, release, hlife, hm⟩ := h.life hds hid
  obtain ⟨pre, post, hbefore, hops⟩ := hlife.before_operation hc
  have hpre : ∀ c ∈ pre, c.isOperation = true :=
    fun c hc => hlife.ops c (hops ▸ List.mem_append_left _ hc)
  have hdone : operationsOn id before = pre := by
    rw [operationsOn, hbefore, Life.filter_operations hlife.init hpre]
  -- what is expected of it in the end begins with what was expected before
  have hqueued := h.queued before c after id hds hid hc
  rw [hdone] at hqueued
  have hexpected : expectedOf id ds = expectedOf id before ++ expectedOf id after := by
    rw [hds, expectedOf_append, expectedOf_cons_made]
  have hget : ops[pre.length]? = some c := by
    rw [hops, List.getElem?_append_right (Nat.le_refl _), Nat.sub_self, List.getElem?_cons_zero]
  have hfits := hm.fits pre.length (expectedOf id before)[pre.length] c
    (by rw [hexpected, List.getElem?_append_left hqueued, List.getElem?_eq_getElem hqueued]) hget
  rw [hexpected, List.take_append_of_le_length (Nat.le_of_lt hqueued)] at hfits
  refine (due_iff_of_isOperation hc).mpr
    ⟨id, ⟨hid, hbefore ▸ Life.not_release hlife.init hpre⟩, (expectedOf id before)[pre.length], ?_, ?_⟩
  · rw [hdone, List.getElem?_eq_getElem hqueued]
  · rw [hdone]
    exact hfits

theorem due_release (h : Fulfilled ds) (hds : ds = before ++ .made c :: after) (hid : c.id = some id)
    (hc : c.call.entry = .release) (hbefore : InOrder before) : Due before c := by
  obtain ⟨init, ops, release, hlife, hm⟩ := h.life hds hid
  have hcalls := hlife.before_release hc
  have hdone : operationsOn id before = ops := by
    rw [operationsOn, hcalls, Life.filter_operations hlife.init hlife.ops]
  have hle := hbefore.operations_le id
  have hexpected : expectedOf id ds = expectedOf id before ++ expectedOf id after := by
    rw [hds, expectedOf_append, expectedOf_cons_made]
  have hlength := hm.length
  rw [hexpected, List.length_append] at hlength
  rw [hdone] at hle
  have hlive : OnLive before c id := ⟨hid, hcalls ▸ Life.not_release hlife.init hlife.ops⟩
  obtain ⟨i, call, name, answers⟩ := c
  cases call with
  | release handle => exact ⟨id, hlive, by rw [hdone]; omega⟩
  | _ => cases hc

end Fulfilled

/-- **If all went as expected, each call was made at its time.** By induction on what came before. -/
theorem inOrder_of_fulfilled {ds : List Deed} (h : Fulfilled ds) (ha : Attributed ds) : InOrder ds := by
  suffices hb : ∀ before after, ds = before ++ after → InOrder before from
    hb ds [] (List.append_nil ds).symm
  intro before
  induction before using List.reverseRecOn with
  | nil => exact fun _ _ => .nil
  | append_singleton before d ih =>
    intro after hds
    rw [List.append_assoc, List.singleton_append] at hds
    have hbefore := ih _ hds
    cases d with
    | told t => exact .told t hbefore
    | made c =>
      refine .made hbefore ?_
      have hmem : .made c ∈ ds := hds ▸ List.mem_append_right _ List.mem_cons_self
      by_cases hi : c.call = .init
      · rw [Due, hi]
        exact h.inits before c after hds hi
      by_cases hs : c.call = .signature
      · rw [Due, hs]
        exact h.signatures before c after hds hs
      obtain ⟨id, hid⟩ := ha c hmem hi hs
      by_cases hr : c.call.entry = .release
      · exact h.due_release hds hid hr hbefore
      · exact h.due_operation hds hid (Made.isOperation_iff.mpr ⟨hi, hs, hr⟩)

end SatClient
