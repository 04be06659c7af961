import SatClient.Proofs.Roster

/-!
# What becomes of a panic

A panic of a closure is kept in the cell of its bridge until a solve has returned, and then it goes
on. None is lost, none goes on twice, and none comes in the place of another.

* `raised`, `resumed`, `discarded`: the panics of a solver, as the trace has them
* `Client.Ledger`: the panics raised are those resumed, and then the one in the cell or discarded
  with it; `Stage.Move.ledger`: each move keeps the ledger
-/

namespace SatClient

variable {σ α : Type} {N : Native σ} {es : List EntryPoint} {i : Nat}

/-! ## The panics in a trace -/

def Event.raised? (i : Nat) : Event → Option Payload
  | raised j p => if j = i then some p else none
  | _ => none

def Event.resumed? (i : Nat) : Event → Option Payload
  | resumed j p => if j = i then some p else none
  | _ => none

def Event.discarded? (i : Nat) : Event → Option Payload
  | discarded j p => if j = i then some p else none
  | _ => none

/-- The panics raised in calls back to the bridge of the solver `i`. -/
def raised (i : Nat) (trace : List Event) : List Payload := trace.filterMap (Event.raised? i)

/-- The panics taken from the cell of the solver `i`, to go on. -/
def resumed (i : Nat) (trace : List Event) : List Payload := trace.filterMap (Event.resumed? i)

/-- The panics that went with the bridge of the solver `i`. -/
def discarded (i : Nat) (trace : List Event) : List Payload := trace.filterMap (Event.discarded? i)

@[simp] theorem raised_append (l l' : List Event) : raised i (l ++ l') = raised i l ++ raised i l' :=
  List.filterMap_append

@[simp] theorem resumed_append (l l' : List Event) :
    resumed i (l ++ l') = resumed i l ++ resumed i l' := List.filterMap_append

@[simp] theorem discarded_append (l l' : List Event) :
    discarded i (l ++ l') = discarded i l ++ discarded i l' := List.filterMap_append

/-- Events that say nothing of the panics of the solver `i`. -/
structure Silent (i : Nat) (events : List Event) : Prop where
  raised : raised i events = []
  resumed : resumed i events = []
  discarded : discarded i events = []

theorem silent_of_owner? {events : List Event} (h : ∀ e ∈ events, e.owner? ≠ some i) :
    Silent i events := by
  have hne (j : Nat) (hj : some j ≠ some i) : ¬ j = i := fun h => hj (congrArg some h)
  constructor <;> refine List.filterMap_eq_nil_iff.mpr fun e he => ?_ <;> have := h e he <;>
    cases e <;> first | rfl | exact if_neg (hne _ this)

theorem silent_dropEvents (b : Bridge) (j : Nat) (slot : Slot) : Silent i (b.dropEvents j slot) := by
  obtain ⟨t, e, f, -⟩ := b
  cases slot with
  | terminate => cases t <;> exact ⟨rfl, rfl, rfl⟩
  | exporter => cases e <;> exact ⟨rfl, rfl, rfl⟩

/-! ## Panics of visits -/

/-- In a visit to a bridge its cell is filled with the panic that is raised. -/
theorem Bridge.Visit.panics {b b' : Bridge} {events : List Event} (h : Bridge.Visit i b events b') :
    b.failure.toList ++ raised i events = b'.failure.toList ∧ resumed i events = [] ∧
      discarded i events = [] := by
  cases h with
  | idle => exact ⟨List.append_nil _, rfl, rfl⟩
  | asked hf hc =>
    rw [hf]
    exact ⟨rfl, rfl, rfl⟩
  | askedInVain p hf hc =>
    rw [hf]
    simp [raised, resumed, discarded, Event.raised?, Event.resumed?, Event.discarded?,
      List.filterMap_cons]
  | heard clause hf hl =>
    rw [hf]
    exact ⟨rfl, rfl, rfl⟩
  | heardInVain clause p hf hl =>
    rw [hf]
    simp [raised, resumed, discarded, Event.raised?, Event.resumed?, Event.discarded?,
      List.filterMap_cons]
  | unconverted p hf hl =>
    rw [hf]
    simp [raised, resumed, discarded, Event.raised?, Event.resumed?, Event.discarded?,
      List.filterMap_cons]

/-! ## The ledger -/

/-- The panics of the solver `i`: those raised are those resumed, and then the one that is left. It
is in the cell of the bridge, or was when the bridge went. -/
structure Client.Ledger (i : Nat) (left : Option Payload) (c : Client) : Prop where
  sum : raised i c.trace = resumed i c.trace ++ left.toList
  cell : ∀ b, c.bridges.get? i = some b → b.failure = left ∧ discarded i c.trace = []
  gone : c.bridges.get? i = none → discarded i c.trace = left.toList

namespace Client.Ledger

variable {left : Option Payload} {c : Client}

theorem note {events : List Event} (h : Ledger i left c) (he : Silent i events) :
    Ledger i left (c.note events) := by
  constructor
  · simp only [Client.note, raised_append, resumed_append, he.raised, he.resumed, List.append_nil]
    exact h.sum
  · intro b hb
    obtain ⟨hf, hd⟩ := h.cell b hb
    simp only [Client.note, discarded_append, he.discarded, List.append_nil]
    exact ⟨hf, hd⟩
  · intro hb
    simp only [Client.note, discarded_append, he.discarded, List.append_nil]
    exact h.gone hb

theorem setBridge {j : Nat} (b : Bridge) (h : Ledger i left c) (hj : j ≠ i) :
    Ledger i left (c.setBridge j b) := by
  have hg : (c.setBridge j b).bridges.get? i = c.bridges.get? i := Keyed.get?_set_of_ne _ _ hj
  exact ⟨h.sum, fun b' hb' => h.cell b' (hg ▸ hb'), fun hn => h.gone (hg ▸ hn)⟩

/-- The cell of the bridge is filled or emptied, with the panics raised and resumed in between. -/
theorem change {left' : Option Payload} {b b' : Bridge} {events : List Event} (h : Ledger i left c)
    (hb : c.bridges.get? i = some b)
    (hs : left.toList ++ raised i events = resumed i events ++ left'.toList)
    (hf : b'.failure = left') (hd : discarded i events = []) :
    Ledger i left' ((c.setBridge i b').note events) := by
  have hg : ((c.setBridge i b').note events).bridges.get? i = some b' := Keyed.get?_set_self _ _ _
  have ht : ((c.setBridge i b').note events).trace = c.trace ++ events := rfl
  refine ⟨?_, ?_, ?_⟩
  · rw [ht, raised_append, resumed_append, h.sum, List.append_assoc, List.append_assoc, hs]
  · intro b'' hb''
    rw [hg] at hb''
    cases hb''
    rw [ht, discarded_append, (h.cell b hb).2, hd]
    exact ⟨hf, rfl⟩
  · intro hn
    rw [hg] at hn
    cases hn

theorem settle {b b' : Bridge} {events : List Event} (h : Ledger i left c)
    (hb : c.bridges.get? i = some b) (hf : b'.failure = b.failure) (he : Silent i events) :
    Ledger i left ((c.setBridge i b').note events) := by
  refine h.change hb ?_ (hf.trans (h.cell b hb).1) he.discarded
  rw [he.raised, he.resumed, List.append_nil]
  rfl

end Client.Ledger

theorem Client.Visit.ledger {left : Option Payload} {c c' : Client} (h : Client.Visit c c')
    (hl : Client.Ledger i left c) : ∃ left', Client.Ledger i left' c' := by
  cases h with
  | aside he =>
    refine ⟨left, hl.note (silent_of_owner? ?_)⟩
    intro e hm
    rw [(he e hm).owner?]
    exact nofun
  | @bridge j b b' events e hb hv he =>
    by_cases hj : j = i
    · subst hj
      obtain ⟨hr, hres, hdis⟩ := hv.panics
      have hse : Silent j [e] := silent_of_owner? (by simp [he.owner?])
      refine ⟨b'.failure, hl.change hb ?_ rfl ?_⟩
      · rw [raised_append, resumed_append, hse.raised, hse.resumed, hres, List.append_nil,
          ← (hl.cell b hb).1, hr]
        rfl
      · rw [discarded_append, hdis, hse.discarded]
        rfl
    · have hs : Silent i (events ++ [e]) := by
        refine silent_of_owner? ?_
        intro e' he'
        rcases List.mem_append.mp he' with he' | he'
        · rcases hv.owner? e' he' with ho | ho <;> rw [ho] <;> simp [hj]
        · rw [List.mem_singleton.mp he', he.owner?]
          exact nofun
      exact ⟨left, (hl.setBridge b' hj).note hs⟩

theorem Client.Visits.ledger {left : Option Payload} {c c' : Client} (h : Client.Visits c c')
    (hl : Client.Ledger i left c) : ∃ left', Client.Ledger i left' c' := by
  induction h with
  | refl => exact ⟨left, hl⟩
  | tail _ hv ih =>
    obtain ⟨left', hl'⟩ := ih
    exact hv.ledger hl'

theorem World.call_ledger {left : Option Payload} (owner : Option Nat) (a : Address) (c : Call)
    {w : World σ} (hl : Client.Ledger i left w.client) :
    ∃ left', Client.Ledger i left' (w.call N owner a c).2.client := by
  obtain ⟨client, hv, hc⟩ := World.call_client N owner a c w
  obtain ⟨left', hl'⟩ := hv.ledger (hl.note ⟨rfl, rfl, rfl⟩)
  rw [hc]
  exact ⟨left', hl'.note ⟨rfl, rfl, rfl⟩⟩

theorem Solver.Move.ledger {left : Option Payload} {f f' : Focus σ} (h : Solver.Move N es f f')
    (hb : f.solver.identity ∈ f.world.client.bridges.keys)
    (hl : Client.Ledger i left f.world.client) :
    ∃ left', Client.Ledger i left' f'.world.client := by
  obtain ⟨b, hb⟩ := (Keyed.mem_keys_iff _ _).mp hb
  have hfb : f.bridge = b := by
    rw [Focus.bridge, Client.bridge, hb]
    rfl
  have hsettle (b' : Bridge) (events : List Event) (hf : b'.failure = f.bridge.failure)
      (he : Silent i events) :
      Client.Ledger i left ((f.world.client.setBridge f.solver.identity b').note events) := by
    by_cases hi : f.solver.identity = i
    · rw [hi] at hb ⊢
      exact hl.settle hb (hfb ▸ hf) he
    · exact (hl.setBridge b' hi).note he
  cases h with
  | tell n => exact ⟨left, hl.note ⟨rfl, rfl, rfl⟩⟩
  | buffer buffer => exact ⟨left, hl⟩
  | options he => exact ⟨left, hl⟩
  | call he hc => exact World.call_ledger _ _ _ hl
  | @resume p _ he hp =>
    show ∃ left', Client.Ledger i left' ((f.world.client.setBridge f.solver.identity
      { f.bridge with failure := none }).note [.resumed f.solver.identity p])
    by_cases hi : f.solver.identity = i
    · rw [hi] at hb ⊢
      have hleft : left = some p := by
        rw [← (hl.cell b hb).1, ← hfb, hp]
      refine ⟨none, hl.change hb ?_ rfl rfl⟩
      rw [hleft]
      simp [raised, resumed, Event.raised?, Event.resumed?, List.filterMap_cons]
    · have hs : Silent i [.resumed f.solver.identity p] := by
        refine silent_of_owner? ?_
        simpa [Event.owner?] using hi
      exact ⟨left, (hl.setBridge _ hi).note hs⟩
  | take he => exact ⟨left, hl.note ⟨rfl, rfl, rfl⟩⟩
  | drop he => exact ⟨left, hl.note ⟨rfl, rfl, rfl⟩⟩
  | settleTerminate he =>
    exact ⟨left, hsettle _ _ rfl (silent_dropEvents f.bridge f.solver.identity .terminate)⟩
  | settleExporter he =>
    exact ⟨left, hsettle _ _ rfl (silent_dropEvents f.bridge f.solver.identity .exporter)⟩

theorem World.opened_ledger {left : Option Payload} {w : World σ} (handle : Handle)
    (ho : ∀ e ∈ w.client.trace, ∀ j, e.owner? = some j → j < w.nextIdentity)
    (hl : Client.Ledger i left w.client) : Client.Ledger i left (w.opened handle).client := by
  have he : Silent i [.opened w.nextIdentity handle] := ⟨rfl, rfl, rfl⟩
  by_cases hi : w.nextIdentity = i
  · have hs : Silent i w.client.trace := by
      refine silent_of_owner? ?_
      intro e hm hj
      have := ho e hm i hj
      omega
    have hleft : left = none := by
      have := hl.sum
      rw [hs.raised, hs.resumed] at this
      cases left with
      | none => rfl
      | some p => cases this
    have hg : (w.opened handle).client.bridges.get? i = some {} := by
      rw [← hi]
      exact Keyed.get?_set_self _ _ _
    have ht : (w.opened handle).client.trace = w.client.trace ++ [.opened w.nextIdentity handle] :=
      rfl
    refine ⟨?_, ?_, ?_⟩
    · rw [ht, raised_append, resumed_append, he.raised, he.resumed, hs.raised, hs.resumed, hleft]
      rfl
    · intro b hb
      rw [hg] at hb
      cases hb
      rw [ht, discarded_append, hs.discarded, he.discarded, hleft]
      exact ⟨rfl, rfl⟩
    · intro hn
      rw [hg] at hn
      cases hn
  · exact (hl.setBridge _ hi).note he

/-- What is in the cell at the end of a solver is discarded. -/
theorem Solver.close_ledger {left : Option Payload} {f : Focus σ}
    (hk : f.world.client.bridges.keys.Nodup)
    (hb : f.solver.identity ∈ f.world.client.bridges.keys)
    (hl : Client.Ledger i left f.world.client) : Client.Ledger i left (Solver.close f).client := by
  let b := f.world.client.bridge f.solver.identity
  let events := b.dropEvents f.solver.identity .terminate ++ b.dropEvents f.solver.identity .exporter ++
    b.discardEvents f.solver.identity ++ [.closed f.solver.identity]
  have ht : (Solver.close f).client.trace = f.world.client.trace ++ events := rfl
  have hd₁ := silent_dropEvents (i := i) b f.solver.identity .terminate
  have hd₂ := silent_dropEvents (i := i) b f.solver.identity .exporter
  have hc : Silent i [.closed f.solver.identity] := ⟨rfl, rfl, rfl⟩
  have hr : raised i events = [] ∧ resumed i events = [] ∧
      discarded i events = discarded i (b.discardEvents f.solver.identity) := by
    have hdis : raised i (b.discardEvents f.solver.identity) = [] ∧
        resumed i (b.discardEvents f.solver.identity) = [] := by
      unfold Bridge.discardEvents
      cases b.failure <;> exact ⟨rfl, rfl⟩
    simp [events, hd₁.raised, hd₁.resumed, hd₁.discarded, hd₂.raised, hd₂.resumed, hd₂.discarded,
      hc.raised, hc.resumed, hc.discarded, hdis]
  obtain ⟨hr, hres, hdis⟩ := hr
  have hg : (Solver.close f).client.bridges.get? i =
      if f.solver.identity = i then none else f.world.client.bridges.get? i := Keyed.get?_erase hk _ _
  have hsum : raised i (Solver.close f).client.trace =
      resumed i (Solver.close f).client.trace ++ left.toList := by
    rw [ht, raised_append, resumed_append, hr, hres, List.append_nil, List.append_nil, hl.sum]
  by_cases hi : f.solver.identity = i
  · rw [if_pos hi] at hg
    rw [hi] at hb
    obtain ⟨b', hb'⟩ := (Keyed.mem_keys_iff _ _).mp hb
    have hbb : b = b' := by
      show f.world.client.bridge f.solver.identity = b'
      rw [Client.bridge, hi, hb']
      rfl
    obtain ⟨hf, hd⟩ := hl.cell b' hb'
    refine ⟨hsum, ?_, ?_⟩
    · intro b'' hb''
      rw [hg] at hb''
      cases hb''
    · intro _
      rw [ht, discarded_append, hd, hdis, Bridge.discardEvents, hbb, hf]
      cases left <;> simp [discarded, Event.discarded?, hi]
  · rw [if_neg hi] at hg
    have hd : discarded i (Solver.close f).client.trace = discarded i f.world.client.trace := by
      rw [ht, discarded_append, hdis, Bridge.discardEvents]
      cases b.failure <;> simp [discarded, Event.discarded?, hi]
    refine ⟨hsum, ?_, ?_⟩
    · rw [hg, hd]
      exact hl.cell
    · rw [hg, hd]
      exact hl.gone

/-- **Each move keeps the ledger of every solver.** -/
theorem Stage.Move.ledger {left : Option Payload} {st st' : Stage σ} (h : Stage.Move N es st st')
    (hs : st.Sound) (hl : Client.Ledger i left st.world.client) :
    ∃ left', Client.Ledger i left' st'.world.client := by
  cases h with
  | tell n => exact ⟨left, hl.note ⟨rfl, rfl, rfl⟩⟩
  | unload => exact ⟨left, hl.note ⟨rfl, rfl, rfl⟩⟩
  | ask he hc => exact World.call_ledger _ _ _ hl
  | operate hk h => exact h.ledger (hs.bridge_of_get? hk) hl
  | beget he hn => exact ⟨left, World.opened_ledger _ hs.owners hl⟩
  | keep hn hk => exact ⟨left, hl⟩
  | @finish key solver events he hk ht =>
    let f : Focus σ := ((⟨solver, st.world⟩ : Focus σ).call N (.release solver.handle)).2
    obtain ⟨left', hl'⟩ := World.call_ledger (N := N) (some solver.identity)
      (solver.symbols (Call.release solver.handle).entry) (.release solver.handle) hl
    have hse : Silent i events := by
      refine silent_of_owner? ?_
      intro e he
      obtain ⟨n, rfl⟩ := ht e he
      exact nofun
    have hl'' : Client.Ledger i left' (f.note events).world.client := hl'.note hse
    have hs' := hs.asked (N := N) hk ht
    exact ⟨left', Solver.close_ledger (f := f.note events) hs'.bridges (hs'.bridge_of_get? hk) hl''⟩

end SatClient
