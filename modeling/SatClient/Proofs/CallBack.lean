import SatClient.Proofs.Roster

/-!
# What comes of calls back

A native solver may poll and hand out clauses in any order. What comes of it is said here for the
whole list at once: each call back on its own, as if no panic were raised, and then cut off behind
the first panic.

* `CallBack`, `Dialogue.callBacks`: the calls back of a dialogue, in order, with their answers
* `Upshot`, `Bridge.upshot`: what comes of one call back, given those before it
* `Bridge.heeded`: the upshots up to the first panic, none if the cell is occupied
* **`Dialogue.run_heeds`**: a dialogue runs just these closures, gets just these answers, and leaves
  that panic in the cell
-/

namespace SatClient

variable {σ α : Type} {i : Nat}

/-! ## Calls back -/

/-- A call back of a native solver; a poll with its answer. -/
inductive CallBack where
  | poll (hook : Hook) (answer : Int32)
  | offer (hook : Hook) (memory : Option (List Int32))

/-- The calls back of a dialogue with a client. -/
def Dialogue.callBacks : Dialogue α → Client → List CallBack
  | done _, _ => []
  | poll hook next, c =>
    .poll hook (c.poll hook).1 :: (next (c.poll hook).1).callBacks (c.poll hook).2
  | offer hook memory next, c => .offer hook memory :: next.callBacks (c.offer hook memory)
  | unregistered slot next, c => next.callBacks (c.note [.unregistered slot])

/-- What a native solver wants when it calls back. -/
inductive Signal where
  | poll
  | offer (natives : List Int32)
  deriving DecidableEq

def Signal.isPoll : Signal → Bool
  | poll => true
  | offer _ => false

namespace CallBack

def hook : CallBack → Hook
  | poll hook _ | offer hook _ => hook

def signal : CallBack → Signal
  | poll .. => .poll
  | offer _ memory => .offer (terminated memory)

end CallBack

/-! ## Upshots -/

/-- What comes of a call back to an empty cell. -/
structure Upshot where
  run : Option Event
  answer : Int32
  panic : Option Payload

def Closure.later (n : Nat) (c : Closure) : Closure := { c with runs := c.runs + n }

@[simp] theorem Closure.later_zero (c : Closure) : c.later 0 = c := rfl

theorem Closure.later_succ (c : Closure) (n : Nat) : c.later (n + 1) = c.afterRun.later n := by
  simp only [later, afterRun, Nat.add_assoc, Nat.add_comm 1 n]

def polls (signals : List Signal) : Nat := signals.countP Signal.isPoll

def offers (signals : List Signal) : Nat := signals.countP (!·.isPoll)

theorem polls_poll (l : List Signal) : polls (.poll :: l) = polls l + 1 :=
  List.countP_cons_of_pos rfl

theorem polls_offer (natives : List Int32) (l : List Signal) : polls (.offer natives :: l) = polls l :=
  List.countP_cons_of_neg Bool.false_ne_true

theorem offers_poll (l : List Signal) : offers (.poll :: l) = offers l :=
  List.countP_cons_of_neg Bool.false_ne_true

theorem offers_offer (natives : List Int32) (l : List Signal) :
    offers (.offer natives :: l) = offers l + 1 := List.countP_cons_of_pos rfl

/-- What comes of a call back, when none before it has raised a panic. A closure has then been run by
each call back for its slot. -/
def Bridge.upshot (i : Nat) (b : Bridge) (earlier : List Signal) : Signal → Upshot
  | .poll =>
    match b.terminate with
    | none => ⟨none, 0, none⟩
    | some c =>
      match (c.later (polls earlier)).conduct with
      | .answers stop => ⟨some (.asked i c.tag), if stop then 1 else 0, none⟩
      | .panics p => ⟨some (.asked i c.tag), 1, some p⟩
  | .offer natives =>
    match b.exporter with
    | none => ⟨none, 0, none⟩
    | some l =>
      match l.form.clause natives with
      | .error o => ⟨none, 0, some o.payload⟩
      | .ok clause =>
        match (l.closure.later (offers earlier)).conduct with
        | .answers _ => ⟨some (.heard i l.closure.tag clause), 0, none⟩
        | .panics p => ⟨some (.heard i l.closure.tag clause), 0, some p⟩

/-- What comes of each call back on its own. -/
def Bridge.upshots (i : Nat) (b : Bridge) (signals : List Signal) : List Upshot :=
  signals.mapIdx fun k x => b.upshot i (signals.take k) x

/-- What comes of calls back up to the first panic; nothing comes of any if the cell is occupied. -/
def Bridge.heeded (i : Nat) (b : Bridge) (signals : List Signal) : List Upshot :=
  if b.failure.isSome then []
  else (b.upshots i signals).take ((b.upshots i signals).findIdx (·.panic.isSome) + 1)

/-- The answer to a poll at a position: behind the first panic every poll is to stop. -/
def answerTo (us : List Upshot) (k : Nat) : Int32 :=
  match us[k]? with
  | some u => u.answer
  | none => 1

/-- Whether a closure of the solver `i` is run. -/
def Event.isRun (i : Nat) : Event → Bool
  | asked j _ | heard j _ _ => j == i
  | _ => false

/-! ## One call back -/

/-- The bridge after a call back, with what happened and the answer. -/
def Bridge.after (i : Nat) (b : Bridge) : Signal → Bridge × List Event
  | .poll => (b.poll i).2
  | .offer natives => b.offer i natives

/-- After a first call back the closures are where they are for the next. -/
theorem Bridge.upshot_cons {b : Bridge} {x : Signal} (hf : b.failure = none)
    (hx : (b.upshot i [] x).panic = none) (earlier : List Signal) (y : Signal) :
    b.upshot i (x :: earlier) y = (b.after i x).1.upshot i earlier y := by
  obtain ⟨t, e, f, ls⟩ := b
  cases hf
  cases x with
  | poll =>
    cases t with
    | none => cases y <;> simp only [after, poll, upshot, offers_poll]
    | some c =>
      cases hc : c.conduct with
      | answers stop =>
        cases y <;> simp only [after, poll, upshot, hc, polls_poll, offers_poll, Closure.later_succ]
        rfl
      | panics p =>
        have hx : (upshot i ⟨some c, e, none, ls⟩ [] .poll).panic = none := hx
        simp [upshot, polls, hc] at hx
  | offer natives =>
    cases e with
    | none => cases y <;> simp only [after, offer, upshot, polls_offer]
    | some l =>
      cases hl : l.form.clause natives with
      | error o => simp [upshot, hl] at hx
      | ok clause =>
        cases hc : l.closure.conduct with
        | answers stop =>
          cases y <;> simp only [after, offer, l.form.receive_fst, upshot, hl, hc, polls_offer, offers_offer,
            Closure.later_succ]
          rfl
        | panics p => simp [upshot, offers, hl, hc] at hx

theorem Bridge.after_upshot {b : Bridge} (hf : b.failure = none) (x : Signal) :
    (b.after i x).1.failure = (b.upshot i [] x).panic ∧
      (b.after i x).2.filter (Event.isRun i) = (b.upshot i [] x).run.toList := by
  obtain ⟨t, e, f, ls⟩ := b
  cases hf
  cases x with
  | poll =>
    cases t with
    | none => exact ⟨rfl, rfl⟩
    | some c =>
      cases hc : c.conduct <;> simp [after, poll, upshot, polls, capture, hc, Event.isRun]
  | offer natives =>
    cases e with
    | none => exact ⟨rfl, rfl⟩
    | some l =>
      cases hl : l.form.clause natives with
      | error o => simp [after, offer, l.form.receive_fst, upshot, capture, hl, Event.isRun]
      | ok clause =>
        cases hc : l.closure.conduct <;>
          simp [after, offer, l.form.receive_fst, upshot, offers, capture, hl, hc, Event.isRun]

theorem Bridge.poll_answer {b : Bridge} (hf : b.failure = none) :
    (if (b.poll i).1 then 1 else 0 : Int32) = (b.upshot i [] .poll).answer := by
  obtain ⟨t, e, f, ls⟩ := b
  cases hf
  cases t with
  | none => rfl
  | some c => cases hc : c.conduct <;> simp [poll, upshot, polls, hc]

theorem Bridge.after_occupied {b : Bridge} {p : Payload} (hf : b.failure = some p) (x : Signal) :
    b.after i x = (b, []) ∧ (b.poll i).1 = true := by
  obtain ⟨t, e, f, ls⟩ := b
  cases hf
  cases x <;> exact ⟨rfl, rfl⟩

/-! ## Lists of calls back -/

theorem Bridge.heeded_occupied {b : Bridge} {p : Payload} (hf : b.failure = some p)
    (signals : List Signal) : b.heeded i signals = [] := by
  rw [heeded, hf]
  rfl

theorem Bridge.heeded_cons {b : Bridge} (hf : b.failure = none) (x : Signal) (rest : List Signal) :
    b.heeded i (x :: rest) = b.upshot i [] x :: (b.after i x).1.heeded i rest := by
  have hu : b.upshots i (x :: rest) = b.upshot i [] x ::
      rest.mapIdx fun k y => b.upshot i (x :: rest.take k) y := by
    rw [upshots, List.mapIdx_cons]
    rfl
  have hfail := (b.after_upshot (i := i) hf x).1
  cases hx : (b.upshot i [] x).panic with
  | some p =>
    rw [hx] at hfail
    rw [heeded_occupied hfail, heeded, hf, hu]
    simp [List.findIdx_cons, hx]
  | none =>
    rw [hx] at hfail
    have hrest : (rest.mapIdx fun k y => b.upshot i (x :: rest.take k) y) =
        (b.after i x).1.upshots i rest := by
      rw [upshots]
      congr 1
      funext k y
      exact upshot_cons hf hx _ y
    rw [heeded, heeded, hf, hfail, hu, hrest]
    simp [List.findIdx_cons, hx]

/-! ## Dialogues -/

/-- A client to whom something has happened beside the solver `i`. -/
structure Client.Beside (i : Nat) (c c' : Client) : Prop where
  bridge : c'.bridges.get? i = c.bridges.get? i
  trace : ∃ events, c'.trace = c.trace ++ events ∧ events.filter (Event.isRun i) = []

theorem isRun_of_owner? {e : Event} (h : e.owner? ≠ some i) : e.isRun i = false := by
  cases e with
  | asked j tag => exact beq_false_of_ne fun hj => h (congrArg some hj)
  | heard j tag clause => exact beq_false_of_ne fun hj => h (congrArg some hj)
  | _ => rfl

theorem Client.beside_of_visit {j : Nat} {c : Client} {b b' : Bridge} {events : List Event}
    (hj : j ≠ i) (hv : Bridge.Visit j b events b') {e : Event} (he : e.IsAside) :
    Beside i c ((c.setBridge j b').note (events ++ [e])) := by
  refine ⟨Keyed.get?_set_of_ne _ _ hj, _, rfl, List.filter_eq_nil_iff.mpr ?_⟩
  intro x hx
  refine Bool.not_eq_true _ ▸ isRun_of_owner? ?_
  rcases List.mem_append.mp hx with hx | hx
  · rcases hv.owner? x hx with ho | ho <;> rw [ho] <;> simp [hj]
  · rw [List.mem_singleton.mp hx, he.owner?]
    exact nofun

theorem Client.poll_beside {hook : Hook} (h : hook ≠ .own i) (c : Client) :
    Beside i c (c.poll hook).2 := by
  obtain ⟨callback, j⟩ := hook
  simp only [poll]
  cases callback with
  | foreign => exact ⟨rfl, _, rfl, rfl⟩
  | trampoline =>
    have hj : j ≠ i := fun hj => h (by rw [hj, Hook.own])
    cases hb : c.bridges.get? j with
    | none => exact ⟨rfl, _, rfl, rfl⟩
    | some b => exact beside_of_visit hj (b.poll_visit j) trivial

theorem Client.offer_beside {hook : Hook} (h : hook ≠ .own i) (memory : Option (List Int32))
    (c : Client) : Beside i c (c.offer hook memory) := by
  obtain ⟨callback, j⟩ := hook
  simp only [offer]
  cases callback with
  | foreign => exact ⟨rfl, _, rfl, rfl⟩
  | trampoline =>
    have hj : j ≠ i := fun hj => h (by rw [hj, Hook.own])
    cases hb : c.bridges.get? j with
    | none => exact ⟨rfl, _, rfl, rfl⟩
    | some b => exact beside_of_visit hj (b.offer_visit j _) trivial

/-- The client after a call back to the bridge of the solver `i`. -/
def Client.afterSignal (i : Nat) (b : Bridge) (x : Signal) (end_ : Event) (c : Client) : Client :=
  (c.setBridge i (b.after i x).1).note ((b.after i x).2 ++ [end_])

theorem Client.poll_own {b : Bridge} {c : Client} (hb : c.bridges.get? i = some b) :
    c.poll (.own i) = (if (b.poll i).1 then 1 else 0,
      c.afterSignal i b .poll (.answered (if (b.poll i).1 then 1 else 0))) := by
  simp only [poll, Hook.own, hb]
  rfl

theorem Client.offer_own {b : Bridge} {c : Client} (hb : c.bridges.get? i = some b)
    (memory : Option (List Int32)) :
    c.offer (.own i) memory = c.afterSignal i b (.offer (terminated memory)) .offered := by
  simp only [offer, Hook.own, hb]
  rfl

/-- What has come of calls back to the bridge of the solver `i`, where the client had the bridge `b`
before. -/
structure Heeds (i : Nat) (b : Bridge) (own : List CallBack) (c c' : Client) : Prop where
  /-- The first panic is in the cell. -/
  cell : ∃ b', c'.bridges.get? i = some b' ∧
    b'.failure = b.failure.or ((b.heeded i (own.map CallBack.signal)).findSome? Upshot.panic)
  runs : ∃ events, c'.trace = c.trace ++ events ∧
    events.filter (Event.isRun i) = (b.heeded i (own.map CallBack.signal)).filterMap Upshot.run
  answers : ∀ k hook answer, own[k]? = some (.poll hook answer) →
    answer = answerTo (b.heeded i (own.map CallBack.signal)) k

namespace Heeds

variable {b b' : Bridge} {own : List CallBack} {c c' c'' : Client}

theorem nil (hb : c.bridges.get? i = some b) : Heeds i b [] c c := by
  have hh : b.heeded i [] = [] := by
    rw [Bridge.heeded]
    split_ifs <;> rfl
  refine ⟨⟨b, hb, ?_⟩, ⟨[], by simp, ?_⟩, nofun⟩
  · rw [List.map_nil, hh]
    cases b.failure <;> rfl
  · rw [List.map_nil, hh]
    rfl

theorem beside (h : Client.Beside i c c') (h' : Heeds i b own c' c'') : Heeds i b own c c'' := by
  obtain ⟨events, ht, hn⟩ := h.trace
  obtain ⟨events', ht', hr⟩ := h'.runs
  refine ⟨h'.cell, ⟨events ++ events', ?_, ?_⟩, h'.answers⟩
  · rw [ht', ht, List.append_assoc]
  · rw [List.filter_append, hn, hr, List.nil_append]

theorem cons {x : CallBack} {end_ : Event} (he : end_.IsAside)
    (hx : ∀ hook answer, x = .poll hook answer → answer = if (b.poll i).1 then 1 else 0)
    (h : Heeds i (b.after i x.signal).1 own (c.afterSignal i b x.signal end_) c') :
    Heeds i b (x :: own) c c' := by
  have hend : Event.isRun i end_ = false := isRun_of_owner? (by rw [he.owner?]; exact nofun)
  obtain ⟨events, ht, hr⟩ := h.runs
  have htr : c'.trace = c.trace ++ ((b.after i x.signal).2 ++ [end_] ++ events) := by
    rw [ht]
    exact List.append_assoc _ _ _
  cases hf : b.failure with
  | some p =>
    obtain ⟨hafter, hpoll⟩ := b.after_occupied (i := i) hf x.signal
    rw [hafter] at h htr
    have hnil (l : List Signal) : b.heeded i l = [] := Bridge.heeded_occupied hf l
    obtain ⟨b', hb', hcell⟩ := h.cell
    refine ⟨⟨b', hb', ?_⟩, ⟨_, htr, ?_⟩, ?_⟩
    · rw [hcell, hnil, hnil]
    · rw [hafter, hnil] at hr
      rw [hnil, List.nil_append, List.filter_append, hr, List.filter_cons, hend]
      rfl
    · intro k hook answer hk
      rw [hnil]
      cases k with
      | zero =>
        rw [List.getElem?_cons_zero] at hk
        rw [hx hook answer (Option.some.inj hk), hpoll]
        rfl
      | succ k =>
        rw [List.getElem?_cons_succ] at hk
        have := h.answers k hook answer hk
        rw [hnil] at this
        exact this
  | none =>
    obtain ⟨hfail, hrun⟩ := b.after_upshot (i := i) hf x.signal
    have hcons : b.heeded i ((x :: own).map CallBack.signal) = b.upshot i [] x.signal ::
        (b.after i x.signal).1.heeded i (own.map CallBack.signal) := Bridge.heeded_cons hf _ _
    obtain ⟨b', hb', hcell⟩ := h.cell
    refine ⟨⟨b', hb', ?_⟩, ⟨_, htr, ?_⟩, ?_⟩
    · rw [hcell, hcons, hfail, hf, List.findSome?_cons]
      cases (b.upshot i [] x.signal).panic <;> rfl
    · rw [hcons, List.filter_append, List.filter_append, hrun, hr, List.filter_cons, hend,
        List.filterMap_cons]
      cases (b.upshot i [] x.signal).run <;> simp
    · intro k hook answer hk
      rw [hcons]
      cases k with
      | zero =>
        rw [List.getElem?_cons_zero] at hk
        have hxp := Option.some.inj hk
        rw [hx hook answer hxp, Bridge.poll_answer hf, hxp]
        rfl
      | succ k =>
        rw [List.getElem?_cons_succ] at hk
        exact h.answers k hook answer hk

end Heeds

/-- The calls back to the bridge of the solver `i`. -/
def Dialogue.ownCallBacks (i : Nat) (d : Dialogue α) (c : Client) : List CallBack :=
  (d.callBacks c).filter (·.hook == .own i)

/-- **What comes of a dialogue is what comes of its calls back.** By induction on the dialogue. -/
theorem Dialogue.run_heeds (d : Dialogue α) {b : Bridge} {c : Client}
    (hb : c.bridges.get? i = some b) : Heeds i b (d.ownCallBacks i c) c (d.run c).2 := by
  induction d generalizing b c with
  | done a => exact .nil hb
  | poll hook next ih =>
    by_cases h : hook = .own i
    · subst h
      have hp := Client.poll_own hb
      have hown : (Dialogue.poll (.own i) next).ownCallBacks i c = .poll (.own i) (c.poll (.own i)).1 ::
          (next (c.poll (.own i)).1).ownCallBacks i (c.poll (.own i)).2 := by
        simp [ownCallBacks, callBacks, CallBack.hook]
      have hb' : (c.poll (.own i)).2.bridges.get? i = some (b.after i .poll).1 := by
        rw [hp]
        exact Keyed.get?_set_self _ _ _
      have hrest := ih (c.poll (.own i)).1 hb'
      rw [hown, run]
      rw [hp] at hrest ⊢
      have he : (Event.answered (if (b.poll i).1 then 1 else 0)).IsAside := trivial
      refine .cons he ?_ hrest
      rintro hook answer ⟨⟩
      rfl
    · have hown : (Dialogue.poll hook next).ownCallBacks i c =
          (next (c.poll hook).1).ownCallBacks i (c.poll hook).2 := by
        simp [ownCallBacks, callBacks, CallBack.hook, h]
      have hbeside := Client.poll_beside h c
      rw [hown]
      exact .beside hbeside (ih _ (hbeside.bridge.trans hb))
  | offer hook memory next ih =>
    by_cases h : hook = .own i
    · subst h
      have hp := Client.offer_own hb memory
      have hown : (Dialogue.offer (.own i) memory next).ownCallBacks i c = .offer (.own i) memory ::
          next.ownCallBacks i (c.offer (.own i) memory) := by
        simp [ownCallBacks, callBacks, CallBack.hook]
      have hb' : (c.offer (.own i) memory).bridges.get? i =
          some (b.after i (.offer (terminated memory))).1 := by
        rw [hp]
        exact Keyed.get?_set_self _ _ _
      have hrest := ih hb'
      rw [hown, run]
      rw [hp] at hrest ⊢
      have he : Event.offered.IsAside := trivial
      exact .cons he nofun hrest
    · have hown : (Dialogue.offer hook memory next).ownCallBacks i c =
          next.ownCallBacks i (c.offer hook memory) := by
        simp [ownCallBacks, callBacks, CallBack.hook, h]
      have hbeside := Client.offer_beside h memory c
      rw [hown]
      exact .beside hbeside (ih (hbeside.bridge.trans hb))
  | unregistered slot next ih =>
    have hbeside : Client.Beside i c (c.note [.unregistered slot]) := ⟨rfl, _, rfl, rfl⟩
    exact .beside hbeside (ih hb)

end SatClient
