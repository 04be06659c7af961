import SatClient.Mock.Respond
import SatClient.Proofs.Images
import SatClient.Proofs.Lifetime
import SatClient.Proofs.Scratch
import SatClient.Scripted

/-!
# Literals handed over

However a client keeps its literals, its native solver is handed their integers in one call. If it reads
no more than those, it cannot tell the difference, and neither can the client from the answer.

* `Call.seen`, `Native.ReadsWithin`: what a native solver reads of a call
* `Client.seen`, `Focus.seen`, `Session.seen`: states up to what no native solver reads
* `Dialogue.run_seen`, `World.call_seen`: a call up to that
* `Handover`: a step that hands literals over, with the same step for their integers
* `Handover.literals_seen`, `Handover.literals_calls`: the two steps compared
* `Session.calls_lits`, `Passage.PassesOnce`, `Session.Alike`: one call with the integers, and turns that
  look alike
* **`literals_handed_over`**: clauses and assumptions in every form
-/

namespace SatClient

variable {σ α : Type} {N : Native σ}

/-! ## What a native solver reads -/

/-- The integers within a length, wherever they are. -/
def Buffer.seen (length : Int32) (b : Buffer) : Buffer := ⟨.input, b.first length⟩

/-- A call, up to the places of literals and to what lies behind them. -/
def Call.seen : Call → Call
  | add h clause length redundancy => add h (clause.map (Buffer.seen length)) length redundancy
  | solve h assumptions length => solve h (assumptions.map (Buffer.seen length)) length
  | c => c

def Event.seen : Event → Event
  | called owner a c => called owner a c.seen
  | returned owner c reply => returned owner c.seen reply
  | e => e

/-- A native solver that reads the literals of a call within their length, and minds no more. -/
def Native.ReadsWithin (N : Native σ) : Prop := ∀ a c st, N.respond a c.seen st = N.respond a c st

theorem Buffer.first_seen (length : Int32) (b : Buffer) : (b.seen length).first length = b.first length := by
  rw [first, seen, first, List.take_take, Nat.min_self]

theorem Scripted.readsWithin : Scripted.native.ReadsWithin := by
  intro _ c st
  cases c <;> rfl

namespace Mock

theorem literalsOf_seen (e : EntryPoint) (buffer : Option Buffer) (length : Int32) :
    literalsOf e (buffer.map (Buffer.seen length)) length = literalsOf e buffer length := by
  cases buffer with
  | none => rfl
  | some b => simp only [Option.map_some, literalsOf, Buffer.first_seen]

theorem respondTaken_seen (id : Nat) (c : Call) (e : Expected) (m : Mock) :
    m.respondTaken id c.seen e = m.respondTaken id c e := by
  obtain ⟨expected, returns⟩ := e
  cases c with
  | add h clause length redundancy =>
    cases expected <;> simp only [Call.seen, respondTaken, literalsOf_seen] <;> rfl
  | solve h assumptions length =>
    cases expected <;> simp only [Call.seen, respondTaken, literalsOf_seen] <;> rfl
  | _ => rfl

theorem respondInstance_seen (id : Nat) (c : Call) (m : Mock) :
    m.respondInstance id c.seen = m.respondInstance id c := by
  cases c with
  | add h clause length redundancy =>
    dsimp only [Call.seen, respondInstance, Call.entry]
    cases m.take .add id with
    | error f => rfl
    | ok taken => exact respondTaken_seen id (.add h clause length redundancy) taken.1 taken.2
  | solve h assumptions length =>
    dsimp only [Call.seen, respondInstance, Call.entry]
    cases m.take .solve id with
    | error f => rfl
    | ok taken => exact respondTaken_seen id (.solve h assumptions length) taken.1 taken.2
  | _ => rfl

theorem respond_seen (onThread : Bool) (c : Call) (m : Mock) :
    m.respond onThread c.seen = m.respond onThread c := by
  cases c with
  | add handle clause length redundancy =>
    cases handle with
    | zero => rfl
    | succ n =>
      dsimp only [Call.seen, respond, Call.handle?]
      cases m.handles[n]? with
      | none => rfl
      | some id => exact m.respondInstance_seen id (.add (n + 1) clause length redundancy)
  | solve handle assumptions length =>
    cases handle with
    | zero => rfl
    | succ n =>
      dsimp only [Call.seen, respond, Call.handle?]
      cases m.handles[n]? with
      | none => rfl
      | some id => exact m.respondInstance_seen id (.solve (n + 1) assumptions length)
  | _ => rfl

end Mock

/-- The mock compares the integers within the length. -/
theorem MockHost.readsWithin : MockHost.native.ReadsWithin := by
  intro _ c host
  show respond c.seen host = respond c host
  unfold respond
  cases host.mock with
  | none => rfl
  | some m => exact congrArg (Dialogue.map _) (m.respond_seen host.onThread c)

/-! ## Calls -/

namespace Client

def seen (c : Client) : Client := { c with trace := c.trace.map Event.seen }

theorem note_seen {events : List Event} (h : events.map Event.seen = events) (c : Client) :
    c.seen.note events = (c.note events).seen := by
  simp only [seen, note, List.map_append, h]

/-- Nothing that happens in a visit is a call. -/
theorem visit_seen {i : Nat} {b b' : Bridge} {events : List Event} (h : b.Visit i events b') {e : Event}
    (he : e.seen = e) : (events ++ [e]).map Event.seen = events ++ [e] := by
  rw [List.map_append, List.map_singleton, he]
  cases h <;> rfl

theorem poll_seen (hook : Hook) (c : Client) :
    c.seen.poll hook = ((c.poll hook).1, (c.poll hook).2.seen) := by
  have hb : c.seen.bridges = c.bridges := rfl
  simp only [poll, hb]
  cases hook.callback with
  | foreign => exact Prod.ext rfl (note_seen rfl c)
  | trampoline =>
    cases c.bridges.get? hook.data with
    | none => exact Prod.ext rfl (note_seen rfl c)
    | some b =>
      exact Prod.ext rfl (note_seen (visit_seen (b.poll_visit hook.data) rfl)
        (c.setBridge hook.data (b.poll hook.data).2.1))

theorem offer_seen (hook : Hook) (memory : Option (List Int32)) (c : Client) :
    c.seen.offer hook memory = (c.offer hook memory).seen := by
  have hb : c.seen.bridges = c.bridges := rfl
  simp only [offer, hb]
  cases hook.callback with
  | foreign => exact note_seen rfl c
  | trampoline =>
    cases c.bridges.get? hook.data with
    | none => exact note_seen rfl c
    | some b =>
      exact note_seen (visit_seen (b.offer_visit hook.data (terminated memory)) rfl)
        (c.setBridge hook.data (b.offer hook.data (terminated memory)).1)

end Client

/-- By induction on the dialogue. -/
theorem Dialogue.run_seen (d : Dialogue α) (c : Client) : d.run c.seen = ((d.run c).1, (d.run c).2.seen) := by
  induction d generalizing c with
  | done a => rfl
  | poll hook next ih =>
    simp only [run, Client.poll_seen]
    exact ih _ _
  | offer hook memory next ih =>
    simp only [run, Client.offer_seen]
    exact ih _
  | unregistered slot next ih =>
    rw [run, run, Client.note_seen rfl]
    exact ih _

def World.seen (w : World σ) : World σ := { w with client := w.client.seen }

theorem World.call_seen (hN : N.ReadsWithin) (owner : Option Nat) (a : Address) (c : Call) (w : World σ) :
    w.seen.call N owner a c.seen = ((w.call N owner a c).1, (w.call N owner a c).2.seen) := by
  let begun := w.client.note [.called owner a c]
  have hbegun : w.seen.client.note [.called owner a c.seen] = begun.seen := by
    simp only [begun, seen, Client.seen, Client.note, List.map_append]
    rfl
  have hrun : (N.respond a c.seen w.native).run begun.seen =
      (((N.respond a c w.native).run begun).1, ((N.respond a c w.native).run begun).2.seen) := by
    rw [hN a c, Dialogue.run_seen]
  rw [call, hbegun, show w.seen.native = w.native from rfl, hrun]
  simp only [call, seen, Client.seen, Client.note, List.map_append]
  rfl

/-! ## Operations on integers -/

/-- A state, up to the buffer and to what no native solver reads. -/
def Focus.seen (f : Focus σ) : Focus σ := ⟨f.solver.bare, f.world.seen⟩

theorem Focus.note_seen {events : List Event} (h : events.map Event.seen = events) (f : Focus σ) :
    f.seen.note events = (f.note events).seen :=
  congrArg (fun client => (⟨f.solver.bare, { f.world with client }⟩ : Focus σ))
    (Client.note_seen h f.world.client)

theorem Call.entry_seen (c : Call) : c.seen.entry = c.entry := by
  cases c <;> rfl

theorem Focus.call_seen (hN : N.ReadsWithin) (c : Call) (f : Focus σ) :
    f.seen.call N c.seen = ((f.call N c).1, (f.call N c).2.seen) := by
  have h := World.call_seen hN (some f.solver.identity) (f.solver.symbols c.entry) c f.world
  rw [call, Call.entry_seen]
  show ((f.world.seen.call N (some f.solver.identity) (f.solver.symbols c.entry) c.seen).1,
    (⟨f.solver.bare,
      (f.world.seen.call N (some f.solver.identity) (f.solver.symbols c.entry) c.seen).2⟩ : Focus σ)) = _
  rw [h]
  rfl

/-- A number that is not too long is told as it is. -/
theorem toInt_ofNat_of_le {n : Nat} (h : n ≤ maxLength) : (Int32.ofNat n).toInt = n :=
  Int32.toInt_ofNat_of_lt (by unfold maxLength at h; omega)

/-- The integers in memory, up to their number, are those which a native solver reads. -/
theorem Buffer.Holds.first {b : Buffer} {ns : List Int32} (h : b.Holds ns)
    (hl : ns.length ≤ maxLength) : b.first (Int32.ofNat ns.length) = ns := by
  rw [Buffer.first, toInt_ofNat_of_le hl, Int.toNat_natCast, h.take]

namespace Solver

theorem check_seen (e : EntryPoint) (code : Code) (f : Focus σ) :
    check e code f.seen = ((check e code f).1, (check e code f).2.seen) := by
  rw [check_apply, check_apply]
  split_ifs
  · rfl
  · rw [Focus.note_seen rfl]

theorem check_calls (e : EntryPoint) (code : Code) (f : Focus σ) :
    callsMade (check e code f).2.world.client.trace = callsMade f.world.client.trace := by
  rw [check_apply]
  split_ifs
  · rfl
  · exact callsMade_note rfl

theorem conclude_seen (reply : Reply) (f : Focus σ) :
    conclude reply f.seen = ((conclude reply f).1, (conclude reply f).2.seen) := by
  have hb : f.seen.bridge = f.bridge := rfl
  rw [conclude_apply, conclude_apply, hb]
  cases f.bridge.failure with
  | some p =>
    let g := f.setBridge { f.bridge with failure := none }
    refine Prod.ext rfl ?_
    show (g.seen.note [.resumed f.solver.identity p]).note [.notice .resuming] = _
    rw [Focus.note_seen rfl, Focus.note_seen rfl]
  | none =>
    dsimp only
    split_ifs
    · rw [Focus.note_seen rfl]
    · rw [Focus.note_seen rfl]

theorem conclude_calls (reply : Reply) (f : Focus σ) :
    callsMade (conclude reply f).2.world.client.trace = callsMade f.world.client.trace := by
  rw [conclude_apply]
  cases f.bridge.failure with
  | some p => exact (callsMade_note rfl).trans (callsMade_note rfl)
  | none =>
    dsimp only
    split_ifs <;> exact callsMade_note rfl

end Solver

/-- An operation that hands literals over: it tells of them, calls the native solver, and goes on. -/
structure Handover (σ α : Type) where
  notice : List Int32 → Notice
  call : Handle → Option Buffer → Int32 → Call
  next : Reply → Act (Focus σ) α
  call_seen : ∀ h b n, (call h b n).seen = call h (b.map (Buffer.seen n)) n
  next_seen : ∀ reply f, next reply f.seen = ((next reply f).1, (next reply f).2.seen)
  next_calls : ∀ reply f,
    callsMade (next reply f).2.world.client.trace = callsMade f.world.client.trace

namespace Handover

def adding (redundancy : Redundancy) : Handover σ Unit where
  notice ns := .adding ns redundancy
  call h clause length := .add h clause length redundancy.native
  next reply := Solver.check .add reply.code
  call_seen _ _ _ := rfl
  next_seen reply := Solver.check_seen .add reply.code
  next_calls reply := Solver.check_calls .add reply.code

def solving : Handover σ TriState where
  notice := .solving
  call := .solve
  next := Solver.conclude
  call_seen _ _ _ := rfl
  next_seen := Solver.conclude_seen
  next_calls := Solver.conclude_calls

/-- The call with its notice, for integers in memory. -/
def passing (N : Native σ) (x : Handover σ α) (ns : List Int32) (b : Buffer) : Act (Focus σ) α := fun f =>
  let called := (f.note [.notice (x.notice ns)]).call N
    (x.call f.solver.handle (some b) (Int32.ofNat ns.length))
  x.next called.1 called.2

/-- The operation on integers. -/
def integers (N : Native σ) (x : Handover σ α) (ns : List Int32) : Act (Focus σ) α := fun f =>
  if ns.length ≤ maxLength then x.passing N ns ⟨.input, ns⟩ f
  else (.error (.failure (.tooLong ns.length)), f)

/-- The operation on literals. -/
def literals {L : Type} [Literal L] (N : Native σ) (x : Handover σ α) (given : Given L) :
    Act (Focus σ) α := fun f =>
  match given.view f.solver.buffer with
  | (.error o, buffer) => (.error (.panic o.payload), f.withBuffer buffer)
  | (.ok v, buffer) =>
    if v.natives.toList.length ≤ maxLength then
      x.passing N v.natives.toList (Buffer.ofView v buffer) (f.withBuffer buffer)
    else (.error (.failure (.tooLong v.natives.toList.length)), f.withBuffer buffer)

variable {x : Handover σ α} {ns : List Int32} {b : Buffer}

theorem passing_seen (hN : N.ReadsWithin) (hb : b.first (Int32.ofNat ns.length) = ns) (f : Focus σ) :
    x.passing N ns ⟨.input, ns⟩ f.seen = ((x.passing N ns b f).1, (x.passing N ns b f).2.seen) := by
  let told := f.note [.notice (x.notice ns)]
  have htold : f.seen.note [.notice (x.notice ns)] = told.seen := Focus.note_seen rfl f
  have hcall := Focus.call_seen hN (x.call f.solver.handle (some b) (Int32.ofNat ns.length)) told
  rw [x.call_seen, Option.map_some, Buffer.seen, hb] at hcall
  rw [passing, htold]
  show x.next (told.seen.call N (x.call f.solver.handle _ _)).1
    (told.seen.call N (x.call f.solver.handle _ _)).2 = _
  rw [hcall, x.next_seen]
  rfl

theorem passing_calls (f : Focus σ) :
    callsMade (x.passing N ns b f).2.world.client.trace = callsMade f.world.client.trace ++
      [(some f.solver.identity, x.call f.solver.handle (some b) (Int32.ofNat ns.length))] := by
  refine (x.next_calls _ _).trans ((World.call_callsMade _ _ _ _).trans ?_)
  exact congrArg (· ++ [_]) (callsMade_note rfl)

section Literals

variable {L : Type} [Literal L] {given : Given L}

/-- The form of literals makes no difference beside their integers. -/
theorem literals_seen (hN : N.ReadsWithin) (h : Images given.toList ns) (f : Focus σ) :
    ((x.literals N given f).1, (x.literals N given f).2.seen) = x.integers N ns f.seen := by
  obtain ⟨v, buffer, hv, hn, hb⟩ := given.view_of_images h f.solver.buffer
  rw [literals, hv, integers]
  dsimp only
  rw [hn]
  by_cases hmax : ns.length ≤ maxLength
  · rw [if_pos hmax, if_pos hmax]
    exact (passing_seen hN (hb.first hmax) (f.withBuffer buffer)).symm
  · rw [if_neg hmax, if_neg hmax]
    rfl

/-- The integers of literals are handed over in one call. -/
theorem literals_calls (h : Images given.toList ns) (hmax : ns.length ≤ maxLength) (f : Focus σ) :
    ∃ b : Buffer, b.Holds ns ∧
      callsMade (x.literals N given f).2.world.client.trace = callsMade f.world.client.trace ++
        [(some f.solver.identity, x.call f.solver.handle (some b) (Int32.ofNat ns.length))] := by
  obtain ⟨v, buffer, hv, hn, hb⟩ := given.view_of_images h f.solver.buffer
  refine ⟨_, hb, ?_⟩
  rw [literals, hv]
  dsimp only
  rw [hn, if_pos hmax]
  exact passing_calls (f.withBuffer buffer)

end Literals

end Handover

namespace Solver

variable {L : Type} [Literal L]

theorem addClause_eq (given : Given L) (redundancy : Redundancy) :
    addClause N given redundancy = (Handover.adding redundancy).literals N given := by
  funext f
  rw [addClause_apply, Handover.literals]
  simp only [Handover.passing, Items.length_toList]
  rfl

theorem solveUnder_eq (given : Given L) : solveUnder N given = Handover.solving.literals N given := by
  funext f
  rw [solveUnder_apply, Handover.literals]
  simp only [Handover.passing, Items.length_toList]
  rfl

end Solver

namespace Handover

variable {x : Handover σ α} {ns : List Int32}

/-- The operation on literals in either form. -/
def onLits (N : Native σ) (x : Handover σ α) : Lits → Act (Focus σ) α
  | .integers given => x.literals N given
  | .signed given => x.literals N given

theorem addLits_eq (lits : Lits) (redundancy : Redundancy) :
    Solver.addLits N lits redundancy = (adding redundancy).onLits N lits := by
  cases lits <;> exact Solver.addClause_eq _ _

theorem solveLits_eq (lits : Lits) : Solver.solveLits N lits = solving.onLits N lits := by
  cases lits <;> exact Solver.solveUnder_eq _

theorem onLits_seen (hN : N.ReadsWithin) {lits : Lits} (h : lits.Gives ns) (f : Focus σ) :
    ((x.onLits N lits f).1, (x.onLits N lits f).2.seen) = x.integers N ns f.seen := by
  cases lits <;> exact literals_seen hN h f

theorem onLits_calls {lits : Lits} (h : lits.Gives ns) (hmax : ns.length ≤ maxLength) (f : Focus σ) :
    ∃ b : Buffer, b.Holds ns ∧
      callsMade (x.onLits N lits f).2.world.client.trace = callsMade f.world.client.trace ++
        [(some f.solver.identity, x.call f.solver.handle (some b) (Int32.ofNat ns.length))] := by
  cases lits <;> exact literals_calls h hmax f

end Handover

/-! ## Turns -/

/-- In the turn there is one native call, for the solver `x`. It points to memory that begins with the
integers, and gives their number. -/
def Passage.PassesOnce (p : Passage σ) (x : Solver) (ns : List Int32)
    (call : Option Buffer → Int32 → Call) : Prop :=
  ∃ (b : Buffer) (length : Int32), callsMade p.events = [(some x.identity, call (some b) length)] ∧
    b.first length = ns ∧ length.toInt = ns.length

namespace Session

variable {s : Session σ} {key : Int}

/-- A session, up to the buffers and to what no native solver reads. -/
def seen (s : Session σ) : Session σ := { s.bare with world := s.world.seen }

/-- The same answer, and sessions that differ in nothing that a native solver reads. -/
def Alike (r r' : Answer × Session σ) : Prop := r.1 = r'.1 ∧ r.2.seen = r'.2.seen

theorem alike_runOn {x x' : Act (Focus σ) α} (answer : Except Stop α → Answer)
    (h : ∀ f, ((x f).1, (x f).2.seen) = ((x' f).1, (x' f).2.seen)) :
    Alike (s.runOn key x answer) (s.runOn key x' answer) := by
  unfold runOn onSolver
  cases s.solvers.get? key with
  | none => exact ⟨rfl, rfl⟩
  | some solver =>
    obtain ⟨ha, hs⟩ := Prod.mk.inj (h ⟨solver, s.world⟩)
    let f := (x ⟨solver, s.world⟩).2
    let f' := (x' ⟨solver, s.world⟩).2
    refine ⟨congrArg answer ha, ?_⟩
    show ({ bare { s with world := f.world, solvers := s.solvers.set key f.solver } with
        world := f.seen.world } : Session σ) =
      { bare { s with world := f'.world, solvers := s.solvers.set key f'.solver } with
        world := f'.seen.world }
    rw [bare_set, bare_set]
    exact congrArg (fun g : Focus σ =>
      ({ s.bare with world := g.world, solvers := s.bare.solvers.set key g.solver } : Session σ)) hs

theorem alike_lits (hN : N.ReadsWithin) {x : Handover σ α} {lits lits' : Lits} {ns : List Int32}
    (h : lits.Gives ns) (h' : lits'.Gives ns) (answer : Except Stop α → Answer) :
    Alike (s.runOn key (x.onLits N lits) answer) (s.runOn key (x.onLits N lits') answer) :=
  alike_runOn answer fun f => (Handover.onLits_seen hN h f).trans (Handover.onLits_seen hN h' f).symm

/-- In a turn in which literals are handed over there is one native call, with their integers. -/
theorem calls_lits (hs : s.solvers.keys.Nodup) {solver : Solver} (hk : s.solvers.get? key = some solver)
    {x : Handover σ α} {lits : Lits} {ns : List Int32} (h : lits.Gives ns) (hmax : ns.length ≤ maxLength)
    {answer : Except Stop α → Answer} {t : Turn σ}
    (ht : s.turn N t = s.runOn key (x.onLits N lits) answer) :
    ∃ b : Buffer, b.Holds ns ∧ callsMade (s.passage N t).events =
      [(some solver.identity, x.call solver.handle (some b) (Int32.ofNat ns.length))] := by
  obtain ⟨b, hb, hcalls⟩ := Handover.onLits_calls (N := N) (x := x) h hmax ⟨solver, s.world⟩
  refine ⟨b, hb, ?_⟩
  have htrace := passage_trace (N := N) hs t
  have hafter : (s.turn N t).2.trace = (x.onLits N lits ⟨solver, s.world⟩).2.world.client.trace := by
    rw [ht, runOn_of_get? hk]
    rfl
  rw [← hafter, htrace, callsMade_append] at hcalls
  exact List.append_cancel_left hcalls

theorem passesOnce_lits (hs : s.solvers.keys.Nodup) {solver : Solver}
    (hk : s.solvers.get? key = some solver) {x : Handover σ α} {lits : Lits} {ns : List Int32}
    (h : lits.Gives ns) (hmax : ns.length ≤ maxLength) {answer : Except Stop α → Answer} {t : Turn σ}
    (ht : s.turn N t = s.runOn key (x.onLits N lits) answer) :
    (s.passage N t).PassesOnce solver ns (x.call solver.handle) := by
  obtain ⟨b, hb, hcalls⟩ := calls_lits hs hk h hmax ht
  exact ⟨b, Int32.ofNat ns.length, hcalls, hb.first hmax, toInt_ofNat_of_le hmax⟩

end Session

/-- **The form in which literals are given makes no difference.** In every form that has the integers
`ns` they are handed over in one call; no native solver that reads no more can tell two forms apart, nor
can the client by the answer. What has been left in the buffers makes no difference, then or later. A
set gives its literals in order, each once, and all else gives them as they are. -/
theorem literals_handed_over (N : Native σ) (opening : Session.Opening) (native : σ)
    (turns : List (Turn σ)) :
    let s := (Session.start opening native).2.after N turns
    (∀ key x lits ns, s.solvers.get? key = some x → Lits.Gives lits ns → ns.length ≤ maxLength →
      (∀ redundancy, (s.passage N (.client (.add key lits redundancy))).PassesOnce x ns
        fun clause length => .add x.handle clause length redundancy.native) ∧
      (s.passage N (.client (.assume key lits))).PassesOnce x ns (.solve x.handle)) ∧
    (N.ReadsWithin → ∀ key lits lits' ns, Lits.Gives lits ns → Lits.Gives lits' ns →
      (∀ redundancy, Session.Alike (s.turn N (.client (.add key lits redundancy)))
        (s.turn N (.client (.add key lits' redundancy)))) ∧
      Session.Alike (s.turn N (.client (.assume key lits))) (s.turn N (.client (.assume key lits')))) ∧
    (∀ s' : Session σ, s'.bare = s.bare → ∀ later,
      (s'.course N later).map Passage.report = (s.course N later).map Passage.report) ∧
    (∀ q : Sequence Int32, q.Keeps) ∧ ∀ q : Sequence SignedVar, q.Keeps := by
  intro s
  have hs : s.stage.Sound := Session.sound_after (Session.sound_start opening native) turns
  have hadd (key : Int) (lits : Lits) (redundancy : Redundancy) :
      s.turn N (.client (.add key lits redundancy)) =
        s.runOn key ((Handover.adding redundancy).onLits N lits) .ofUnit := by
    rw [← Handover.addLits_eq]
    rfl
  have hassume (key : Int) (lits : Lits) : s.turn N (.client (.assume key lits)) =
      s.runOn key (Handover.solving.onLits N lits) (.ofResult .state) := by
    rw [← Handover.solveLits_eq]
    rfl
  refine ⟨?_, ?_, fun s' h later => Session.course_reports h later, Sequence.keeps, Sequence.keeps⟩
  · intro key x lits ns hk h hmax
    exact ⟨fun redundancy => Session.passesOnce_lits hs.keys hk h hmax (hadd key lits redundancy),
      Session.passesOnce_lits hs.keys hk h hmax (hassume key lits)⟩
  · intro hN key lits lits' ns h h'
    constructor
    · intro redundancy
      rw [hadd, hadd]
      exact Session.alike_lits hN h h' _
    · rw [hassume, hassume]
      exact Session.alike_lits hN h h' _

/-- A set of integers, and a linked list of signed variables. -/
theorem set_and_list_handed_over :
    let s := (Session.start .known ({} : Scripted)).2.after Scripted.native [.client (.create 0)]
    let s' := { s with solvers := s.solvers.mapValues fun x : Solver => { x with buffer := [3] } }
    let set : Lits := .integers (.sequence ⟨.orderedSet, .listed [1, -2, 1]⟩)
    let list : Lits := .signed (.sequence ⟨.linkedList, .listed [⟨2, false⟩, ⟨1, true⟩]⟩)
    let ns : List Int32 := [-2, 1]
    ∃ x, s.solvers.get? 0 = some x ∧ set.Gives ns ∧ list.Gives ns ∧ ns.length ≤ maxLength ∧
      Scripted.native.ReadsWithin ∧ s'.bare = s.bare ∧
      (s.passage Scripted.native (.client (.add 0 list .none))).PassesOnce x ns
        (fun clause length => .add x.handle clause length Redundancy.none.native) ∧
      Session.Alike (s.turn Scripted.native (.client (.add 0 set .none)))
        (s.turn Scripted.native (.client (.add 0 list .none))) ∧
      (s'.course Scripted.native [.client (.assume 0 set)]).map Passage.report =
        (s.course Scripted.native [.client (.assume 0 set)]).map Passage.report := by
  intro s s' set list ns
  obtain ⟨hcalls, halike, hreports, -⟩ :=
    literals_handed_over Scripted.native .known {} [.client (.create 0)]
  have hset : set.Gives ns := .cons rfl (.cons rfl .nil)
  have hlist : list.Gives ns := .cons rfl (.cons rfl .nil)
  have hbare : s'.bare = s.bare := rfl
  refine ⟨_, rfl, hset, hlist, by decide, Scripted.readsWithin, hbare, ?_, ?_, ?_⟩
  · exact (hcalls 0 _ list ns rfl hlist (by decide)).1 .none
  · exact (halike Scripted.readsWithin 0 set list ns hset hlist).1 .none
  · exact hreports s' hbare _

end SatClient
