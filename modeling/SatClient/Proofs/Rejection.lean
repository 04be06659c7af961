import SatClient.Proofs.Handover
import SatClient.Proofs.Layout

/-!
# Literals that are rejected

Literals that are too many, or of which one has no integer, stop an operation before its native call.
All that is left of the attempt is in the buffer, and there it is never noticed.

* `Given.Rejected`, `Lits.Rejected`: the literals that are rejected, and how that ends
* `Lits.accepted_or_rejected`: all others have integers, which are not too many
* `Handover.onLits_rejected`: an operation on them changes nothing but the buffer
* `Passage.Unnoticed`: a turn that makes no difference to any later one
* **`rejected_literals_unnoticed`**: clauses and assumptions that are rejected
-/

namespace SatClient

variable {σ α : Type} {N : Native σ}

/-! ## Rejected literals -/

section Given

variable {L : Type} [Literal L] {given : Given L} {stop : Stop}

/-- Literals that are rejected before they are handed over, and how that ends. -/
inductive Given.Rejected (given : Given L) : Stop → Prop
  | noInteger {k : Nat} {o : Overflow} {ns : List Int32} (h : StopsAt given.toList k o ns) :
      given.Rejected (.panic o.payload)
  | tooMany {ns : List Int32} (h : Images given.toList ns) (hmax : maxLength < ns.length) :
      given.Rejected (.failure (.tooLong ns.length))

theorem Given.accepted_or_rejected (given : Given L) :
    (∃ ns, Images given.toList ns ∧ ns.length ≤ maxLength) ∨ ∃ stop, given.Rejected stop := by
  rcases h : images given.toList with ⟨ns, _ | o⟩
  · have hns : Images given.toList ns := images_eq_none_iff.mp h
    rcases Nat.lt_or_ge maxLength ns.length with hmax | hmax
    · exact .inr ⟨_, .tooMany hns hmax⟩
    · exact .inl ⟨ns, hns, hmax⟩
  · obtain ⟨k, hk⟩ := images_eq_some_iff.mp h
    exact .inr ⟨_, .noInteger hk⟩

/-- Sequences that are read where they are have integers throughout. -/
theorem Given.view_of_stopsAt {k : Nat} {o : Overflow} {ns : List Int32}
    (h : StopsAt given.toList k o ns) (buffer : List Int32) : given.view buffer = (.error o, ns) := by
  have hstream : viewOfStream given.toList = (.error o, ns) :=
    ((buffered_stream given.toList).broken o ns).mpr ⟨k, h⟩
  cases given with
  | stream xs => exact hstream
  | sequence s =>
    obtain ⟨-, ms, hms, -⟩ | ⟨-, hv⟩ := s.view_eq buffer
    · cases (images_of_images hms).symm.trans (images_eq_some_iff.mpr ⟨k, h⟩)
    · exact hv.trans hstream

theorem Handover.literals_rejected {x : Handover σ α} (h : given.Rejected stop) (f : Focus σ) :
    ∃ buffer, x.literals N given f = (.error stop, f.withBuffer buffer) := by
  cases h with
  | @noInteger k o ns hk =>
    refine ⟨ns, ?_⟩
    rw [literals, given.view_of_stopsAt hk]
  | @tooMany ns hns hmax =>
    obtain ⟨v, buffer, hv, hlist, -⟩ := given.view_of_images hns f.solver.buffer
    refine ⟨buffer, ?_⟩
    rw [literals, hv]
    dsimp only
    rw [hlist, if_neg (Nat.not_le.mpr hmax)]

end Given

/-- Literals in either form that are rejected, and how that ends. -/
def Lits.Rejected (lits : Lits) (stop : Stop) : Prop :=
  match lits with
  | integers given => given.Rejected stop
  | signed given => given.Rejected stop

theorem Lits.accepted_or_rejected (lits : Lits) :
    (∃ ns, lits.Gives ns ∧ ns.length ≤ maxLength) ∨ ∃ stop, lits.Rejected stop := by
  cases lits with
  | integers given => exact given.accepted_or_rejected
  | signed given => exact given.accepted_or_rejected

theorem Handover.onLits_rejected {x : Handover σ α} {lits : Lits} {stop : Stop} (h : lits.Rejected stop)
    (f : Focus σ) : ∃ buffer, x.onLits N lits f = (.error stop, f.withBuffer buffer) := by
  cases lits <;> exact literals_rejected h f

/-! ## Turns -/

/-- The turn ends in this way, and nothing happens in it. The session stays as it is but for the buffer of
the solver `x`, and all later answers and events are those that would have come without the turn. -/
structure Passage.Unnoticed (N : Native σ) (p : Passage σ) (key : Int) (x : Solver) (stop : Stop) :
    Prop where
  answer : p.answer = .stopped stop
  events : p.events = []
  after : ∃ buffer,
    p.after = { p.before with solvers := p.before.solvers.set key { x with buffer } }
  later : ∀ turns, (p.after.course N turns).map Passage.report =
    (p.before.course N turns).map Passage.report

namespace Session

variable {s : Session σ} {key : Int}

theorem turn_add (key : Int) (lits : Lits) (redundancy : Redundancy) (s : Session σ) :
    s.turn N (.client (.add key lits redundancy)) =
      s.runOn key ((Handover.adding redundancy).onLits N lits) .ofUnit := by
  rw [← Handover.addLits_eq]
  rfl

theorem turn_assume (key : Int) (lits : Lits) (s : Session σ) :
    s.turn N (.client (.assume key lits)) =
      s.runOn key (Handover.solving.onLits N lits) (.ofResult .state) := by
  rw [← Handover.solveLits_eq]
  rfl

/-- The buffer of a solver is no part of a bare session. -/
theorem bare_set_buffer {x : Solver} (hk : s.solvers.get? key = some x) (buffer : List Int32) :
    bare { s with solvers := s.solvers.set key { x with buffer } } = s.bare := by
  have hx : s.bare.solvers.get? key = some x.bare := by rw [get?_bare, hk, Option.map_some]
  have hset := bare_set (s := s) key { x with buffer } s.world
  rw [show Solver.bare { x with buffer } = x.bare from rfl, Keyed.set_get?_self hx] at hset
  exact hset

theorem unnoticed_of_buffer {x : Solver} (hk : s.solvers.get? key = some x) {stop : Stop} {t : Turn σ}
    {buffer : List Int32} (ht : s.turn N t =
      (.stopped stop, { s with solvers := s.solvers.set key { x with buffer } })) :
    (s.passage N t).Unnoticed N key x stop := by
  have hafter : (s.passage N t).after = { s with solvers := s.solvers.set key { x with buffer } } :=
    congrArg Prod.snd ht
  refine ⟨congrArg Prod.fst ht, ?_, ⟨buffer, hafter⟩, fun turns => ?_⟩
  · rw [Passage.events, hafter]
    exact List.drop_length
  · rw [hafter]
    exact course_reports (bare_set_buffer hk buffer) turns

theorem unnoticed_lits {x : Solver} (hk : s.solvers.get? key = some x) {h : Handover σ α} {lits : Lits}
    {stop : Stop} (hr : lits.Rejected stop) {g : α → Value} {t : Turn σ}
    (ht : s.turn N t = s.runOn key (h.onLits N lits) (.ofResult g)) :
    (s.passage N t).Unnoticed N key x stop := by
  obtain ⟨buffer, hx⟩ := Handover.onLits_rejected (N := N) (x := h) hr ⟨x, s.world⟩
  rw [runOn_of_get? hk, hx] at ht
  exact unnoticed_of_buffer hk ht

end Session

/-- **Literals that are rejected leave no trace.** Literals are handed over in one call, or they are
rejected: one of them has no integer, which ends in its panic, or they are too many, and their number is
told. Then nothing happens in the turn, nothing is changed but the buffer of the solver, and nothing that
comes later is changed by that. -/
theorem rejected_literals_unnoticed (N : Native σ) (opening : Session.Opening) (native : σ)
    (turns : List (Turn σ)) :
    let s := (Session.start opening native).2.after N turns
    ∀ key x lits, s.solvers.get? key = some x →
      ((∃ ns, Lits.Gives lits ns ∧ ns.length ≤ maxLength) ∨ ∃ stop, lits.Rejected stop) ∧
      (∀ ns, lits.Gives ns → ns.length ≤ maxLength →
        (∀ redundancy, (s.passage N (.client (.add key lits redundancy))).PassesOnce x ns
          fun clause length => .add x.handle clause length redundancy.native) ∧
        (s.passage N (.client (.assume key lits))).PassesOnce x ns (.solve x.handle)) ∧
      ∀ stop, lits.Rejected stop →
        (∀ redundancy, (s.passage N (.client (.add key lits redundancy))).Unnoticed N key x stop) ∧
        (s.passage N (.client (.assume key lits))).Unnoticed N key x stop := by
  intro s key x lits hk
  have hs : s.stage.Sound := Session.sound_after (Session.sound_start opening native) turns
  refine ⟨lits.accepted_or_rejected, fun ns h hmax => ?_, fun stop hr => ?_⟩
  · exact ⟨fun redundancy =>
        Session.passesOnce_lits hs.keys hk h hmax (Session.turn_add key lits redundancy s),
      Session.passesOnce_lits hs.keys hk h hmax (Session.turn_assume key lits s)⟩
  · exact ⟨fun redundancy => Session.unnoticed_lits hk hr (Session.turn_add key lits redundancy s),
      Session.unnoticed_lits hk hr (Session.turn_assume key lits s)⟩

/-- One integer too many times, and literals of which the second has no integer. -/
theorem too_many_and_broken_unnoticed :
    let s := (Session.start .known ({} : Scripted)).2.after Scripted.native [.client (.create 0)]
    let many : Lits := .integers (.sequence ⟨.slice, .repeated (maxLength + 1) 1⟩)
    let broken : Lits := .signed (.stream [⟨1, true⟩, ⟨Int32.minValue, false⟩])
    ∃ x, s.solvers.get? 0 = some x ∧
      many.Rejected (.failure (.tooLong (maxLength + 1))) ∧
      (s.passage Scripted.native (.client (.add 0 many .none))).Unnoticed Scripted.native 0 x
        (.failure (.tooLong (maxLength + 1))) ∧
      broken.Rejected (.panic Overflow.negation.payload) ∧
      (s.passage Scripted.native (.client (.assume 0 broken))).Unnoticed Scripted.native 0 x
        (.panic Overflow.negation.payload) := by
  intro s many broken
  have hmany : many.Rejected (.failure (.tooLong (maxLength + 1))) := by
    have hr : many.Rejected (.failure (.tooLong (List.replicate (maxLength + 1) (1 : Int32)).length)) := by
      refine .tooMany (List.forall₂_same.mpr fun _ _ => rfl) ?_
      rw [List.length_replicate]
      exact Nat.lt_succ_self _
    rwa [List.length_replicate] at hr
  have hbroken : broken.Rejected (.panic Overflow.negation.payload) :=
    .noInteger (stopsAt_succ.mpr ⟨1, [], rfl, rfl, stopsAt_zero.mpr ⟨rfl, rfl⟩⟩)
  have hturns := rejected_literals_unnoticed Scripted.native .known {} [.client (.create 0)] 0
  exact ⟨_, rfl, hmany, ((hturns _ many rfl).2.2 _ hmany).1 .none, hbroken,
    ((hturns _ broken rfl).2.2 _ hbroken).2⟩

end SatClient
