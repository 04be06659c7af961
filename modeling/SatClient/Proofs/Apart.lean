import SatClient.Proofs.Growth
import SatClient.Proofs.MockAnswer
import SatClient.Proofs.Roster

/-!
# Handles that are kept apart

A native solver keeps its handles apart if what it does with one depends on nothing but the calls
made with that one. Two worlds that agree about a handle then stay in agreement over a call with it,
and neither changes for any other handle.

* `seen`: what happens, but for what the solvers of a client share
* `Dialogue.Matches`: two dialogues that do the same
* `Native.Apart`: a native solver that keeps its handles apart
* `Share`: what belongs to one solver of a client
* `World.Near`, `World.Abreast`: worlds that agree about a share, and are changed in the same way
* **`World.call_abreast`**: a call with a handle, in two worlds that agree about it
-/

namespace SatClient

variable {σ τ ω ρ α β : Type}

/-! ## What is seen -/

/-- A reply, without a table that describes nothing. -/
def Reply.trim (r : Reply) : Reply := { r with table := r.table.filter fun t => !t.described.isEmpty }

/-- A table that describes nothing is as good as none. -/
theorem Discovered.ofTable_trim (i : Nat) (r : Reply) :
    ofTable i r.trim.table = ofTable i r.table := by
  unfold Reply.trim
  cases r.table with
  | none => rfl
  | some t =>
    rw [Option.filter_some]
    split_ifs with h
    · rfl
    · have hd : t.described = [] := by simpa using h
      simp only [ofTable, hd, List.mapIdx_nil]

def Event.trim : Event → Event
  | returned owner call reply => returned owner call reply.trim
  | e => e

/-- What happens, but for the end of the library, which all solvers of a client share. -/
def seen (events : List Event) : List Event := (events.filter (· ≠ .unloaded)).map Event.trim

@[simp] theorem seen_append (l l' : List Event) : seen (l ++ l') = seen l ++ seen l' := by
  simp only [seen, List.filter_append, List.map_append]

/-! ## Dialogues -/

/-- Two dialogues do the same, call back through registrations as described, and end with results
that correspond. -/
def Dialogue.Matches (P : Hook → Prop) (R : α → β → Prop) : Dialogue α → Dialogue β → Prop
  | done a, done b => R a b
  | poll hook next, poll hook' next' =>
    hook = hook' ∧ P hook ∧ ∀ answer, (next answer).Matches P R (next' answer)
  | offer hook memory next, offer hook' memory' next' =>
    hook = hook' ∧ memory = memory' ∧ P hook ∧ next.Matches P R next'
  | unregistered slot next, unregistered slot' next' => slot = slot' ∧ next.Matches P R next'
  | _, _ => False

/-- How a native solver keeps its handles apart. What it knows of all of them together stands in a log,
to which it only adds. -/
structure Native.Apart (N : Native σ) (τ ω ρ : Type) where
  /-- The states that it can be in. -/
  valid : σ → Prop
  /-- What it knows of a handle. -/
  part : Handle → σ → τ
  /-- The registrations in what it knows of a handle. -/
  holds : τ → Hook → Prop
  log : σ → List ω
  /-- What it knows of no handle. -/
  rest : σ → ρ
  /-- A call with a handle changes what is known of the handle. A registration is left by a call for
  it only. -/
  keeps : ∀ a c s, valid s → (N.respond a c s).Ends fun r => valid r.2 ∧
    (∀ h, c.handle? = some h → rest r.2 = rest s ∧ ∀ h', h' ≠ h → part h' r.2 = part h' s) ∧
    ∀ h hook, holds (part h r.2) hook → holds (part h s) hook ∨
      c.handle? = some h ∧ c.registration? = some (some hook.data, some hook.callback)
  /-- What is done in a call depends on what is known of its handle. Nobody else is called back. -/
  agrees : ∀ a c h s s', valid s → valid s' → c.handle? = some h → h ≠ 0 → part h s = part h s' →
    (N.respond a c s).Matches (holds (part h s)) (fun r r' => r.1.trim = r'.1.trim ∧
      part h r.2 = part h r'.2 ∧ ∃ l, log r.2 = log s ++ l ∧ log r'.2 = log s' ++ l)
      (N.respond a c s')

/-- What belongs to a solver of a client: its handle, and the bridges that were ever registered
through it. -/
structure Share where
  identity : Nat
  handle : Handle
  owns : Nat → Prop
  live : handle ≠ 0
  self : owns identity

/-- What happens belongs to a share, or to nobody. -/
def Event.Of (p : Share) (e : Event) : Prop :=
  (∀ i, e.owner? = some i → p.owns i) ∧ ∀ r, e.called? = some r → r.2.handle? = some p.handle

/-- An event that is no call, and of nobody but the owner of a bridge of the share. -/
theorem Event.Of.owned {p : Share} {e : Event} {i : Nat} (hi : p.owns i)
    (h : e.owner? = none ∨ e.owner? = some i) (hc : e.called? = none) : e.Of p := by
  refine ⟨fun j hj => ?_, fun r hr => ?_⟩
  · rcases h with h | h
    · rw [h] at hj
      cases hj
    · rw [h] at hj
      cases hj
      exact hi
  · rw [hc] at hr
    cases hr

/-! ## Clients -/

/-- Two clients agree about bridges. -/
structure Client.Near (owns : Nat → Prop) (c c' : Client) : Prop where
  bridges : ∀ j, owns j → c.bridges.get? j = c'.bridges.get? j
  keys : c.bridges.keys.Nodup
  keys' : c'.bridges.keys.Nodup

/-- Two clients `c` and `c'` that agree about a share have become `d` and `d'` in the same way, and
nothing else has changed. -/
structure Client.Abreast (p : Share) (c c' d d' : Client) : Prop where
  near : Near p.owns d d'
  rest : ∀ j, ¬ p.owns j → d.bridges.get? j = c.bridges.get? j
  rest' : ∀ j, ¬ p.owns j → d'.bridges.get? j = c'.bridges.get? j
  events : ∃ es es', d.trace = c.trace ++ es ∧ d'.trace = c'.trace ++ es' ∧ seen es = seen es' ∧
    (∀ e ∈ es, e.Of p) ∧ ∀ e ∈ es', e.Of p

namespace Client

variable {p : Share} {c c' d d' e e' : Client}

namespace Abreast

/-- No event takes place. -/
theorem of_bridges (h : Near p.owns d d') (ht : d.trace = c.trace) (ht' : d'.trace = c'.trace)
    (hr : ∀ j, ¬ p.owns j → d.bridges.get? j = c.bridges.get? j)
    (hr' : ∀ j, ¬ p.owns j → d'.bridges.get? j = c'.bridges.get? j) : Abreast p c c' d d' :=
  ⟨h, hr, hr', [], [], by simp [ht], by simp [ht'], rfl, by simp, by simp⟩

theorem refl (h : Near p.owns c c') : Abreast p c c' c c' :=
  .of_bridges h rfl rfl (fun _ _ => rfl) fun _ _ => rfl

theorem trans (h : Abreast p c c' d d') (h' : Abreast p d d' e e') : Abreast p c c' e e' := by
  obtain ⟨es, es', ht, ht', hs, ho, ho'⟩ := h.events
  obtain ⟨fs, fs', hu, hu', hs', hq, hq'⟩ := h'.events
  refine ⟨h'.near, fun j hj => (h'.rest j hj).trans (h.rest j hj),
    fun j hj => (h'.rest' j hj).trans (h.rest' j hj), es ++ fs, es' ++ fs', ?_, ?_, ?_, ?_, ?_⟩
  · rw [hu, ht, List.append_assoc]
  · rw [hu', ht', List.append_assoc]
  · rw [seen_append, seen_append, hs, hs']
  · exact fun x hx => (List.mem_append.mp hx).elim (ho x) (hq x)
  · exact fun x hx => (List.mem_append.mp hx).elim (ho' x) (hq' x)

end Abreast

/-- The same is noted, but for what is not seen. -/
theorem abreast_note (h : Near p.owns c c') {es es' : List Event} (hs : seen es = seen es')
    (ho : ∀ e ∈ es, e.Of p) (ho' : ∀ e ∈ es', e.Of p) :
    Abreast p c c' (c.note es) (c'.note es') :=
  ⟨⟨h.bridges, h.keys, h.keys'⟩, fun _ _ => rfl, fun _ _ => rfl, es, es', rfl, rfl, hs, ho, ho'⟩

theorem abreast_setBridge (h : Near p.owns c c') {i : Nat} (hi : p.owns i) (b : Bridge) :
    Abreast p c c' (c.setBridge i b) (c'.setBridge i b) := by
  have hrest (c : Client) (j : Nat) (hj : ¬ p.owns j) :
      (c.setBridge i b).bridges.get? j = c.bridges.get? j :=
    Keyed.get?_set_of_ne _ _ fun he => hj (he ▸ hi)
  refine .of_bridges ⟨fun j hj => ?_, Keyed.nodup_keys_set h.keys _ _,
    Keyed.nodup_keys_set h.keys' _ _⟩ rfl rfl (hrest c) (hrest c')
  simp only [setBridge, Keyed.get?_set, h.bridges j hj]

theorem abreast_erase (h : Near p.owns c c') {i : Nat} (hi : p.owns i) :
    Abreast p c c' { c with bridges := c.bridges.erase i }
      { c' with bridges := c'.bridges.erase i } := by
  have hrest (c : Client) (j : Nat) (hj : ¬ p.owns j) :
      (c.bridges.erase i).get? j = c.bridges.get? j :=
    Keyed.get?_erase_of_ne _ fun he => hj (he ▸ hi)
  refine .of_bridges ⟨fun j hj => ?_, Keyed.nodup_keys_erase h.keys _,
    Keyed.nodup_keys_erase h.keys' _⟩ rfl rfl (hrest c) (hrest c')
  simp only [Keyed.get?_erase h.keys, Keyed.get?_erase h.keys', h.bridges j hj]

/-- A visit to a bridge of the share: what is left of the bridge, and what is noted. -/
theorem abreast_visit (h : Near p.owns c c') {i : Nat} (hi : p.owns i) (b : Bridge)
    {events : List Event} (he : ∀ e ∈ events, (e.owner? = none ∨ e.owner? = some i) ∧ e.called? = none) :
    Abreast p c c' ((c.setBridge i b).note events) ((c'.setBridge i b).note events) := by
  have hset := abreast_setBridge h hi b
  have hof : ∀ e ∈ events, e.Of p := fun e hm => Event.Of.owned hi (he e hm).1 (he e hm).2
  exact hset.trans (abreast_note hset.near rfl hof hof)

/-- Something is noted that is no call and belongs to nobody. -/
theorem abreast_aside (h : Near p.owns c c') {events : List Event}
    (he : ∀ e ∈ events, e.owner? = none ∧ e.called? = none) :
    Abreast p c c' (c.note events) (c'.note events) := by
  have hof : ∀ e ∈ events, e.Of p := fun e hm => Event.Of.owned p.self (.inl (he e hm).1) (he e hm).2
  exact abreast_note h rfl hof hof

/-- No call is made in a visit. -/
theorem visit_called {i : Nat} {b b' : Bridge} {events : List Event} (h : Bridge.Visit i b events b') :
    ∀ e ∈ events, e.called? = none := by
  cases h <;> simp [Event.called?]

/-- A poll through a registration of the share. -/
theorem abreast_poll (h : Near p.owns c c') {hook : Hook}
    (hh : hook.callback = .trampoline → p.owns hook.data) :
    (c.poll hook).1 = (c'.poll hook).1 ∧ Abreast p c c' (c.poll hook).2 (c'.poll hook).2 := by
  simp only [poll]
  cases hc : hook.callback with
  | foreign => exact ⟨rfl, abreast_aside h (by simp [Event.owner?, Event.called?])⟩
  | trampoline =>
    dsimp only
    rw [← h.bridges _ (hh hc)]
    cases c.bridges.get? hook.data with
    | none => exact ⟨rfl, abreast_aside h (by simp [Event.owner?, Event.called?])⟩
    | some b =>
      refine ⟨rfl, abreast_visit h (hh hc) _ fun e he => ?_⟩
      rcases List.mem_append.mp he with he | he
      · exact ⟨(b.poll_visit hook.data).owner? e he, visit_called (b.poll_visit hook.data) e he⟩
      · rw [List.mem_singleton.mp he]
        exact ⟨.inl rfl, rfl⟩

/-- A clause handed out through a registration of the share. -/
theorem abreast_offer (h : Near p.owns c c') {hook : Hook}
    (hh : hook.callback = .trampoline → p.owns hook.data) (memory : Option (List Int32)) :
    Abreast p c c' (c.offer hook memory) (c'.offer hook memory) := by
  simp only [offer]
  cases hc : hook.callback with
  | foreign => exact abreast_aside h (by simp [Event.owner?, Event.called?])
  | trampoline =>
    dsimp only
    rw [← h.bridges _ (hh hc)]
    cases c.bridges.get? hook.data with
    | none => exact abreast_aside h (by simp [Event.owner?, Event.called?])
    | some b =>
      refine abreast_visit h (hh hc) _ fun e he => ?_
      rcases List.mem_append.mp he with he | he
      · have hv := b.offer_visit hook.data (terminated memory)
        exact ⟨hv.owner? e he, visit_called hv e he⟩
      · rw [List.mem_singleton.mp he]
        exact ⟨.inl rfl, rfl⟩

end Client

/-- Dialogues that do the same, with clients that agree. By induction on the first. -/
theorem Dialogue.Matches.run {P : Hook → Prop} {R : α → β → Prop} {p : Share}
    (hP : ∀ hook, P hook → hook.callback = .trampoline → p.owns hook.data) {d : Dialogue α}
    {d' : Dialogue β} (h : d.Matches P R d') {c c' : Client} (hc : Client.Near p.owns c c') :
    R (d.run c).1 (d'.run c').1 ∧ Client.Abreast p c c' (d.run c).2 (d'.run c').2 := by
  induction d generalizing d' c c' with
  | done a =>
    cases d' with
    | done b => exact ⟨h, .refl hc⟩
    | _ => exact h.elim
  | poll hook next ih =>
    cases d' with
    | poll hook' next' =>
      obtain ⟨rfl, hook, hnext⟩ := h
      obtain ⟨ha, hpoll⟩ := Client.abreast_poll hc (hP _ hook)
      obtain ⟨hr, hrun⟩ := ih _ (hnext _) hpoll.near
      rw [Dialogue.run, Dialogue.run]
      dsimp only
      rw [← ha]
      exact ⟨hr, hpoll.trans hrun⟩
    | _ => exact h.elim
  | offer hook memory next ih =>
    cases d' with
    | offer hook' memory' next' =>
      obtain ⟨rfl, rfl, hook, hnext⟩ := h
      have hoffer := Client.abreast_offer hc (hP _ hook) memory
      obtain ⟨hr, hrun⟩ := ih hnext hoffer.near
      exact ⟨hr, hoffer.trans hrun⟩
    | _ => exact h.elim
  | unregistered slot next ih =>
    cases d' with
    | unregistered slot' next' =>
      obtain ⟨rfl, hnext⟩ := h
      have hnote : Client.Abreast p c c' (c.note [.unregistered slot]) (c'.note [.unregistered slot]) :=
        Client.abreast_aside hc (by simp [Event.owner?, Event.called?])
      obtain ⟨hr, hrun⟩ := ih hnext hnote.near
      exact ⟨hr, hnote.trans hrun⟩
    | _ => exact h.elim

/-! ## Worlds -/

namespace World

variable {N : Native σ} {A : N.Apart τ ω ρ} {p : Share}

/-- Two worlds agree about a share. -/
structure Near (A : N.Apart τ ω ρ) (p : Share) (w w' : World σ) : Prop where
  client : Client.Near p.owns w.client w'.client
  valid : A.valid w.native
  valid' : A.valid w'.native
  part : A.part p.handle w.native = A.part p.handle w'.native
  held : ∀ hook, A.holds (A.part p.handle w.native) hook → hook.callback = .trampoline →
    p.owns hook.data

/-- Two worlds `w` and `w'` that agree about a share have become `v` and `v'` in the same way, and
nothing else has changed. -/
structure Abreast (A : N.Apart τ ω ρ) (p : Share) (w w' v v' : World σ) : Prop where
  near : Near A p v v'
  client : Client.Abreast p w.client w'.client v.client v'.client
  parts : ∀ h, h ≠ p.handle → A.part h v.native = A.part h w.native
  parts' : ∀ h, h ≠ p.handle → A.part h v'.native = A.part h w'.native
  rest : A.rest v.native = A.rest w.native
  rest' : A.rest v'.native = A.rest w'.native
  log : ∃ l, A.log v.native = A.log w.native ++ l ∧ A.log v'.native = A.log w'.native ++ l

variable {w w' v v' u u' : World σ}

namespace Abreast

/-- The native solvers do nothing. -/
theorem of_client (h : Near A p w w') {d d' : Client}
    (hc : Client.Abreast p w.client w'.client d d') :
    Abreast A p w w' { w with client := d } { w' with client := d' } :=
  ⟨⟨hc.near, h.valid, h.valid', h.part, h.held⟩, hc, fun _ _ => rfl, fun _ _ => rfl, rfl, rfl,
    [], by simp⟩

theorem refl (h : Near A p w w') : Abreast A p w w' w w' := of_client h (.refl h.client)

theorem trans (h : Abreast A p w w' v v') (h' : Abreast A p v v' u u') : Abreast A p w w' u u' := by
  obtain ⟨l, hl, hl'⟩ := h.log
  obtain ⟨m, hm, hm'⟩ := h'.log
  refine ⟨h'.near, h.client.trans h'.client, fun j hj => (h'.parts j hj).trans (h.parts j hj),
    fun j hj => (h'.parts' j hj).trans (h.parts' j hj), h'.rest.trans h.rest, h'.rest'.trans h.rest',
    l ++ m, ?_, ?_⟩
  · rw [hm, hl, List.append_assoc]
  · rw [hm', hl', List.append_assoc]

end Abreast

theorem abreast_note (h : Near A p w w') {events : List Event} (he : ∀ e ∈ events, e.Of p) :
    Abreast A p w w' (w.note events) (w'.note events) :=
  .of_client h (Client.abreast_note h.client rfl he he)

/-- **A call with the handle of a share.** It is answered in the same way in worlds that agree about
the share, and they stay in agreement. -/
theorem call_abreast (h : Near A p w w') {i : Nat} (hi : p.owns i) (a : Address) {c : Call}
    (hc : c.handle? = some p.handle)
    (hr : ∀ j callback, c.registration? = some (some j, some callback) → p.owns j) :
    (w.call N (some i) a c).1.trim = (w'.call N (some i) a c).1.trim ∧
      Abreast A p w w' (w.call N (some i) a c).2 (w'.call N (some i) a c).2 := by
  have hof (e : Event) (ho : e.owner? = some i) (he : ∀ r, e.called? = some r → r.2 = c) : e.Of p := by
    refine ⟨fun j hj => ?_, fun r hr => he r hr ▸ hc⟩
    cases ho.symm.trans hj
    exact hi
  have hcalled : ∀ e ∈ [Event.called (some i) a c], e.Of p := by
    intro e he
    rw [List.mem_singleton.mp he]
    refine hof _ rfl ?_
    rintro r ⟨⟩
    rfl
  have hreturned (reply : Reply) : ∀ e ∈ [Event.returned (some i) c reply], e.Of p := by
    intro e he
    rw [List.mem_singleton.mp he]
    exact hof _ rfl nofun
  have hcall : Client.Abreast p w.client w'.client (w.client.note [.called (some i) a c])
      (w'.client.note [.called (some i) a c]) := Client.abreast_note h.client rfl hcalled hcalled
  have hkeeps := (A.keeps a c _ h.valid).run (w.client.note [.called (some i) a c])
  have hkeeps' := (A.keeps a c _ h.valid').run (w'.client.note [.called (some i) a c])
  obtain ⟨⟨hreply, hpart, hlog⟩, hrun⟩ :=
    (A.agrees a c _ _ _ h.valid h.valid' hc p.live h.part).run h.held hcall.near
  have hreturn : seen [.returned (some i) c (w.call N (some i) a c).1] =
      seen [.returned (some i) c (w'.call N (some i) a c).1] :=
    congrArg (fun r => [Event.returned (some i) c r]) hreply
  have hclient := (hcall.trans hrun).trans
    (Client.abreast_note hrun.near hreturn (hreturned _) (hreturned _))
  refine ⟨hreply, ⟨hclient.near, hkeeps.1, hkeeps'.1, hpart, fun hook hh ht => ?_⟩, hclient,
    (hkeeps.2.1 _ hc).2, (hkeeps'.2.1 _ hc).2, (hkeeps.2.1 _ hc).1, (hkeeps'.2.1 _ hc).1, hlog⟩
  rcases hkeeps.2.2 p.handle hook hh with hold | ⟨-, hnew⟩
  · exact h.held hook hold ht
  · exact hr _ _ hnew

end World
end SatClient
