import Mathlib.Data.List.Forall2
import SatClient.Proofs.CallBack
import SatClient.Session.Trace

/-!
# Clauses that are handed out

A native solver points at a clause in memory. What the closure of a client is handed are the literals of
that clause and of no other, whatever was handed to it before.

* `ClauseAt`: the clause to which a pointer leads
* `LiteralForm.converts`, `Clause.Of`: clauses whose integers all have literals, and these literals
* `received_congr`: a conversion is asked for the literals of these integers only
* `Client.Delivers`, `Client.offer_delivers`: one clause, handed out while the cell is empty
* `Client.exports`, `Client.DeliversAll`, `Client.exports_delivers`: clauses one after the other
* **`clauses_delivered`**: each clause is delivered as it is, and is delivered on its own
-/

namespace SatClient

variable {i : Nat} {memory : Option (List Int32)} {ns : List Int32}

/-! ## Clauses in memory -/

/-- The clause to which a pointer leads: none at a null pointer, and otherwise the integers before the
first zero. What lies behind it is no part of the clause. -/
inductive ClauseAt : Option (List Int32) → List Int32 → Prop
  | null : ClauseAt none []
  | terminated (ns behind : List Int32) (h : 0 ∉ ns) : ClauseAt (some (ns ++ 0 :: behind)) ns

theorem ClauseAt.terminated_eq (h : ClauseAt memory ns) : SatClient.terminated memory = ns := by
  cases h with
  | null => rfl
  | terminated _ behind h =>
    have hns : ∀ n ∈ ns, decide (n ≠ 0) = true := fun n hn => decide_eq_true fun h0 => h (h0 ▸ hn)
    show List.takeWhile _ _ = ns
    rw [List.takeWhile_append_of_pos hns, List.takeWhile_cons_of_neg (by decide), List.append_nil]

theorem ClauseAt.zero_notMem (h : ClauseAt memory ns) : 0 ∉ ns := by
  cases h with
  | null => exact List.not_mem_nil
  | terminated _ behind h => exact h

/-! ## Literals of integers -/

section

variable {L : Type} [Literal L]

/-- Conversion succeeds if every integer has a literal. By induction on the integers. -/
theorem literals_eq_ok_iff {xs : List L} :
    literals ns = .ok xs ↔ List.Forall₂ (fun n x => Literal.ofNative n = .ok x) ns xs := by
  induction ns generalizing xs with
  | nil => simp [literals, eq_comm]
  | cons n ns ih =>
    rw [List.forall₂_cons_left_iff, literals]
    cases hx : Literal.ofNative (L := L) n with
    | error o => simp
    | ok x =>
      cases hxs : literals (L := L) ns with
      | error o =>
        simp only [reduceCtorEq, false_iff, not_exists, not_and]
        intro y ys _ hys
        rw [ih.mpr hys] at hxs
        cases hxs
      | ok ys =>
        constructor
        · rintro ⟨⟩
          exact ⟨x, ys, rfl, ih.mp hxs, rfl⟩
        · rintro ⟨y, zs, ⟨⟩, hzs, rfl⟩
          rw [Except.ok.inj (hxs.symm.trans (ih.mpr hzs))]

/-- Conversion fails at an integer that has no literal. -/
theorem exists_of_literals_eq_error {o : Overflow} (h : literals (L := L) ns = .error o) :
    ∃ n ∈ ns, Literal.ofNative (L := L) n = .error o := by
  induction ns with
  | nil => cases h
  | cons n ns ih =>
    cases hx : Literal.ofNative (L := L) n with
    | error o' =>
      have hlits : literals (L := L) (n :: ns) = .error o' := by rw [literals, hx]
      exact ⟨n, List.mem_cons_self, by rw [hx, Except.error.inj (hlits.symm.trans h)]⟩
    | ok x =>
      cases hxs : literals (L := L) ns with
      | error o' =>
        have hlits : literals (L := L) (n :: ns) = .error o' := by rw [literals, hx, hxs]
        obtain ⟨m, hm, hmo⟩ := ih (hxs.trans (hlits.symm.trans h))
        exact ⟨m, List.mem_cons_of_mem _ hm, hmo⟩
      | ok xs =>
        have hlits : literals (L := L) (n :: ns) = .ok (x :: xs) := by rw [literals, hx, hxs]
        cases hlits.symm.trans h

/-- Every integer has its literal among these. By induction on the integers. -/
theorem exists_of_forall₂ {xs : List L} (h : List.Forall₂ (fun n x => Literal.ofNative n = .ok x) ns xs) :
    ∀ n ∈ ns, ∃ x ∈ xs, Literal.ofNative n = .ok x := by
  induction h with
  | nil => exact fun _ hn => absurd hn List.not_mem_nil
  | @cons m x ns xs hx _ ih =>
    intro n hn
    rcases List.mem_cons.mp hn with rfl | hn
    · exact ⟨x, List.mem_cons_self, hx⟩
    · obtain ⟨y, hy, hny⟩ := ih n hn
      exact ⟨y, List.mem_cons_of_mem _ hy, hny⟩

end

/-- No conversion of an integer that is not there makes a difference. By induction on the integers. -/
theorem fill_congr {L : Type} {convert convert' : Int32 → Except Overflow L}
    (h : ∀ n ∈ ns, convert n = convert' n) (buffer : List L) :
    fill convert ns buffer = fill convert' ns buffer := by
  induction ns generalizing buffer with
  | nil => rfl
  | cons n ns ih =>
    rw [fill, fill, h n List.mem_cons_self]
    cases convert' n with
    | error o => rfl
    | ok x => exact ih (fun m hm => h m (List.mem_cons_of_mem _ hm)) _

/-- What is received is decided by the literals of these integers only. -/
theorem received_congr {L : Type} (I J : Literal L) (hseen : I.seenFromNative = J.seenFromNative)
    (h : ∀ n ∈ ns, I.ofNative n = J.ofNative n) (buffer : List L) :
    @received L I ns buffer = @received L J ns buffer := by
  unfold received
  rw [hseen, fill_congr h]

theorem SignedVar.ofNative_eq_error {n : Int32} {o : Overflow} (h : SignedVar.ofNative n = .error o) :
    n = Int32.minValue := by
  unfold SignedVar.ofNative negate at h
  split_ifs at h with h0 hmin
  exact hmin

/-- Whether every integer of a clause has a literal in this form. -/
def LiteralForm.converts (form : LiteralForm) (ns : List Int32) : Bool :=
  form = .integer ∨ Int32.minValue ∉ ns

/-- The literals of integers in this form, one for each and in order. -/
inductive Clause.Of (ns : List Int32) : LiteralForm → Clause → Prop
  | integers {xs : List Int32} (h : List.Forall₂ (fun n x => Literal.ofNative n = .ok x) ns xs) :
      Of ns .integer (.integers xs)
  | signed {xs : List SignedVar} (h : List.Forall₂ (fun n x => Literal.ofNative n = .ok x) ns xs) :
      Of ns .signed (.signed xs)

theorem Clause.Of.clause_eq {form : LiteralForm} {clause : Clause} (h : clause.Of ns form) :
    form.clause ns = .ok clause := by
  cases h with
  | @integers xs h =>
    have hsame : List.Forall₂ (· = ·) ns xs := h.imp fun _ _ h => Except.ok.inj h
    rw [List.forall₂_eq_eq_eq] at hsame
    subst hsame
    exact congrArg (fun lits => Except.ok (Clause.integers lits)) (List.map_id ns)
  | signed h => exact congrArg (Except.map Clause.signed) (literals_eq_ok_iff.mpr h)

/-- A clause is handed over with the literals of its integers, or it has an integer without one. -/
theorem LiteralForm.clause_cases (form : LiteralForm) (ns : List Int32) :
    (form.converts ns ∧ ∃ clause, form.clause ns = .ok clause ∧ clause.Of ns form) ∨
      (¬ form.converts ns ∧ form.clause ns = .error .negation) := by
  cases form with
  | integer =>
    have h : List.Forall₂ (fun n x => Literal.ofNative n = .ok x) ns (ns.map id) :=
      List.forall₂_map_right_iff.mpr (List.forall₂_same.mpr fun _ _ => rfl)
    exact .inl ⟨rfl, _, rfl, .integers h⟩
  | signed =>
    cases h : literals (L := SignedVar) ns with
    | ok xs =>
      have hxs := literals_eq_ok_iff.mp h
      have hmin : Int32.minValue ∉ ns := fun hmin => by
        obtain ⟨x, -, hx⟩ := exists_of_forall₂ hxs _ hmin
        cases hx
      exact .inl ⟨decide_eq_true (.inr hmin), .signed xs, congrArg (Except.map Clause.signed) h, .signed hxs⟩
    | error o =>
      obtain ⟨n, hn, hno⟩ := exists_of_literals_eq_error h
      have hmin : Int32.minValue ∈ ns := SignedVar.ofNative_eq_error hno ▸ hn
      refine .inr ⟨fun hconv => ?_, congrArg (Except.map Clause.signed) h⟩
      rcases of_decide_eq_true hconv with hform | hmin'
      · cases hform
      · exact hmin' hmin

/-! ## One clause -/

/-- The panic with which a run of a closure ends, if it ends with one. -/
def Conduct.panic? : Conduct → Option Payload
  | answers _ => none
  | panics p => some p

/-- A listener whose closure has been run so many times more. -/
def Listener.later (n : Nat) (l : Listener) : Listener := { l with closure := l.closure.later n }

namespace Bridge

variable {b : Bridge} {l : Listener}

/-- The closure is run with the clause. A panic of it stays in the cell. -/
theorem offer_heard (hf : b.failure = none) (hl : b.exporter = some l) {clause : Clause}
    (hc : l.form.clause ns = .ok clause) :
    (b.offer i ns).1.exporter = some (l.later 1) ∧ (b.offer i ns).1.failure = l.closure.conduct.panic? ∧
      (b.offer i ns).2.filter Event.ofClosures = [.heard i l.closure.tag clause] := by
  obtain ⟨t, e, f, ls⟩ := b
  cases hf
  cases hl
  simp only [offer, l.form.receive_fst, hc]
  cases l.closure.conduct with
  | answers stop => exact ⟨rfl, rfl, rfl⟩
  | panics p => exact ⟨rfl, rfl, rfl⟩

/-- The closure is not run with a clause that cannot be converted for it. -/
theorem offer_unheard (hf : b.failure = none) (hl : b.exporter = some l) {o : Overflow}
    (hc : l.form.clause ns = .error o) :
    (b.offer i ns).1.exporter = some l ∧ (b.offer i ns).1.failure = some o.payload ∧
      (b.offer i ns).2.filter Event.ofClosures = [] := by
  obtain ⟨t, e, f, ls⟩ := b
  cases hf
  cases hl
  simp only [offer, l.form.receive_fst, hc]
  exact ⟨rfl, rfl, rfl⟩

end Bridge

namespace Client

variable {b : Bridge} {l : Listener} {c c' : Client}

/-- The bridge of the solver `i` has this listener, and this in its cell. -/
def Listens (i : Nat) (l : Listener) (cell : Option Payload) (c : Client) : Prop :=
  ∃ b, c.bridges.get? i = some b ∧ b.exporter = some l ∧ b.failure = cell

/-- Closures are run with these clauses, and no other is run. -/
def Hears (i : Nat) (tag : String) (clauses : List Clause) (c c' : Client) : Prop :=
  ∃ events, c'.trace = c.trace ++ events ∧
    events.filter Event.ofClosures = clauses.map (.heard i tag)

/-- What comes of a clause that is handed out: the closure is run with the literals of it, or there is
an integer without a literal, the closure is not run and the overflow is in the cell. -/
structure Delivers (i : Nat) (l : Listener) (ns : List Int32) (c c' : Client) : Prop where
  heard : l.form.converts ns → Listens i (l.later 1) l.closure.conduct.panic? c' ∧
    ∃ clause : Clause, clause.Of ns l.form ∧ Hears i l.closure.tag [clause] c c'
  unheard : ¬ l.form.converts ns →
    Listens i l (some (.fixed "attempt to negate with overflow")) c' ∧ Hears i l.closure.tag [] c c'

/-- The closure is run with the literals of the integers, where there are such. -/
theorem Delivers.of_clause (h : Delivers i l ns c c') {clause : Clause} (hof : clause.Of ns l.form) :
    Listens i (l.later 1) l.closure.conduct.panic? c' ∧ Hears i l.closure.tag [clause] c c' := by
  rcases l.form.clause_cases ns with ⟨hconv, -⟩ | ⟨-, herr⟩
  · obtain ⟨hlistens, clause', hof', hhears⟩ := h.heard hconv
    cases hof.clause_eq.symm.trans hof'.clause_eq
    exact ⟨hlistens, hhears⟩
  · cases hof.clause_eq.symm.trans herr

/-- A clause that is handed out while the cell is empty. -/
theorem offer_delivers (hl : c.Listens i l none) (hm : ClauseAt memory ns) :
    Delivers i l ns c (c.offer (.own i) memory) := by
  obtain ⟨b, hb, hexp, hf⟩ := hl
  rw [offer_own hb, hm.terminated_eq]
  have hself : (c.afterSignal i b (.offer ns) .offered).bridges.get? i = some (b.offer i ns).1 :=
    Keyed.get?_set_self _ _ _
  have htrace : (c.afterSignal i b (.offer ns) .offered).trace =
      c.trace ++ ((b.offer i ns).2 ++ [.offered]) := rfl
  rcases l.form.clause_cases ns with ⟨hconv, clause, hc, hof⟩ | ⟨hconv, hc⟩
  · obtain ⟨hafter, hcell, hevents⟩ := Bridge.offer_heard (i := i) hf hexp hc
    refine ⟨fun _ => ⟨⟨_, hself, hafter, hcell⟩, clause, hof, _, htrace, ?_⟩, fun h => absurd hconv h⟩
    rw [List.filter_append, hevents]
    rfl
  · obtain ⟨hafter, hcell, hevents⟩ := Bridge.offer_unheard (i := i) hf hexp hc
    refine ⟨fun h => absurd h hconv, fun _ => ⟨⟨_, hself, hafter, hcell⟩, _, htrace, ?_⟩⟩
    rw [List.filter_append, hevents]
    rfl

/-! ## Clauses one after the other -/

theorem Hears.trans {c'' : Client} {tag : String} {clauses clauses' : List Clause}
    (h : Hears i tag clauses c c') (h' : Hears i tag clauses' c' c'') :
    Hears i tag (clauses ++ clauses') c c'' := by
  obtain ⟨events, ht, he⟩ := h
  obtain ⟨events', ht', he'⟩ := h'
  refine ⟨events ++ events', ?_, ?_⟩
  · rw [ht', ht, List.append_assoc]
  · rw [List.filter_append, he, he', List.map_append]

/-- The client when a solver has let a panic go on that was in the cell of its bridge. -/
def eased (x : Solver) (c : Client) : Client :=
  (Solver.resume ⟨x, { native := (), client := c }⟩).2.world.client

/-- The client when clauses have been handed out to a bridge one after the other. Before the next, a
panic in the cell goes on. -/
def exports (x : Solver) : List (Option (List Int32)) → Client → Client
  | [], c => c
  | memory :: rest, c => exports x rest (eased x (c.offer (.own x.identity) memory))

/-- A panic that goes on leaves an empty cell, and the closure where it was. -/
theorem eased_listens {x : Solver} {cell : Option Payload} (h : c.Listens x.identity l cell) (tag : String) :
    (eased x c).Listens x.identity l none ∧ Hears x.identity tag [] c (eased x c) := by
  obtain ⟨b, hb, hexp, rfl⟩ := h
  let f : Focus Unit := ⟨x, { native := (), client := c }⟩
  have hbridge : f.bridge = b := by
    show (c.bridges.get? x.identity).getD {} = b
    rw [hb]
    rfl
  have heased : eased x c = (Solver.resume f).2.world.client := rfl
  rw [heased, Solver.resume_apply, hbridge]
  cases hf : b.failure with
  | none => exact ⟨⟨b, hb, hexp, hf⟩, [], (List.append_nil _).symm, rfl⟩
  | some p =>
    refine ⟨⟨_, Keyed.get?_set_self _ _ _, hexp, rfl⟩, [.resumed x.identity p, .notice .resuming], ?_, rfl⟩
    exact List.append_assoc _ _ _

/-- What comes of clauses that are handed out one after the other: the closure is run with each of them
that has a literal for each integer. -/
structure DeliversAll (i : Nat) (l : Listener) (nss : List (List Int32)) (c c' : Client) : Prop where
  listens : Listens i (l.later (nss.countP l.form.converts)) none c'
  heard : ∃ clauses, List.Forall₂ (fun ns clause => Clause.Of ns l.form clause)
    (nss.filter l.form.converts) clauses ∧ Hears i l.closure.tag clauses c c'

/-- By induction on the clauses. -/
theorem exports_delivers {x : Solver} {memories : List (Option (List Int32))} {nss : List (List Int32)}
    (hm : List.Forall₂ ClauseAt memories nss) (hl : c.Listens x.identity l none) :
    DeliversAll x.identity l nss c (c.exports x memories) := by
  induction hm generalizing c l with
  | nil => exact ⟨hl, [], .nil, [], (List.append_nil _).symm, rfl⟩
  | @cons memory ns memories nss hclause _ ih =>
    have hone := offer_delivers hl hclause
    by_cases hconv : l.form.converts ns
    · obtain ⟨hlistens, clause, hof, hhears⟩ := hone.heard hconv
      obtain ⟨heased, hquiet⟩ := eased_listens hlistens l.closure.tag
      obtain ⟨hlater, clauses, hofs, hrest⟩ := ih heased
      refine ⟨?_, clause :: clauses, ?_, (hhears.trans hquiet).trans hrest⟩
      · rw [List.countP_cons_of_pos hconv]
        have hlaters (n : Nat) : l.later (n + 1) = (l.later 1).later n :=
          congrArg (fun k => { l with closure := k }) (l.closure.later_succ n)
        rw [hlaters]
        exact hlater
      · rw [List.filter_cons_of_pos hconv]
        exact .cons hof hofs
    · obtain ⟨hlistens, hhears⟩ := hone.unheard hconv
      obtain ⟨heased, hquiet⟩ := eased_listens hlistens l.closure.tag
      obtain ⟨hlater, clauses, hofs, hrest⟩ := ih heased
      refine ⟨?_, clauses, ?_, (hhears.trans hquiet).trans hrest⟩
      · rw [List.countP_cons_of_neg hconv]
        exact hlater
      · rw [List.filter_cons_of_neg hconv]
        exact hofs

end Client

/-- **A closure is handed the clauses that are handed out, each on its own.** What it is handed are the
literals of the integers before the first zero, in order, and nothing if there is no clause; nobody asks
for a literal of zero. If an integer has no literal, the closure is not run with that clause, and the
overflow is in the cell. What was handed out before makes no difference to that, whatever came of it. -/
theorem clauses_delivered (x : Solver) (l : Listener) (c : Client) (hl : c.Listens x.identity l none) :
    (∀ memory ns, ClauseAt memory ns →
      c.Delivers x.identity l ns (c.offer (.own x.identity) memory)) ∧
    (∀ memories nss, List.Forall₂ ClauseAt memories nss →
      c.DeliversAll x.identity l nss (c.exports x memories)) ∧
    (∀ (L : Type) (I J : Literal L), I.seenFromNative = J.seenFromNative →
      (∀ n ≠ 0, I.ofNative n = J.ofNative n) → ∀ memory ns, ClauseAt memory ns → ∀ buffer,
        @received L I (terminated memory) buffer = @received L J (terminated memory) buffer) := by
  refine ⟨fun memory ns hm => Client.offer_delivers hl hm,
    fun memories nss hm => Client.exports_delivers hm hl, ?_⟩
  intro L I J hseen hsame memory ns hm buffer
  rw [hm.terminated_eq]
  exact received_congr I J hseen (fun n hn => hsame n fun h0 => hm.zero_notMem (h0 ▸ hn)) buffer

/-- A closure that panics when it is run first, and clauses of which the second has an integer without a
literal. -/
theorem broken_clause_skipped :
    let x : Solver := { identity := 1, handle := 7, symbols := fun _ => 1 }
    let l : Listener := ⟨{ tag := "heard", script := [.panics .blank, .answers false] }, .signed⟩
    let c : Client := { bridges := [(1, { exporter := some l, converted := [⟨9, true⟩] })] }
    c.Listens 1 l none ∧
      c.Delivers 1 l [3, -4] (c.offer (.own 1) (some [3, -4, 0, 5])) ∧
      c.DeliversAll 1 l [[3, -4], [6, Int32.minValue], []]
        (c.exports x [some [3, -4, 0, 5], some [6, Int32.minValue, 0], none]) := by
  intro x l c
  have hl : c.Listens x.identity l none := ⟨_, rfl, rfl, rfl⟩
  have hfirst : ClauseAt (some [3, -4, 0, 5]) [3, -4] := .terminated [3, -4] [5] (by decide)
  have hsecond : ClauseAt (some [6, Int32.minValue, 0]) [6, Int32.minValue] :=
    .terminated [6, Int32.minValue] [] (by decide)
  obtain ⟨hone, hall, -⟩ := clauses_delivered x l c hl
  exact ⟨hl, hone _ _ hfirst, hall _ _ (.cons hfirst (.cons hsecond (.cons .null .nil)))⟩

end SatClient
