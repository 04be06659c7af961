import SatClient.Proofs.ByName
import SatClient.Proofs.Codes
import SatClient.Proofs.MockAnswer
import SatClient.Proofs.RoundTrip

/-!
# Values of literals

A native solver that has a model answers a query with the literal of the variable that is true in the
model, and with zero if none is. What its client gets to know is the value of the literal, in whatever form
the literal is given. Any other answer of a native solver is reported, and never taken for a value.

* `Lit.var`, `Lit.positive`, `Lit.negated`: a literal in either form
* `Assignment`, `Assignment.Satisfies`, `Assignment.value`: truth values for some variables
* `Assignment.Values`, `Assignment.values`: what the value of a literal tells of it
* `Solver.Tells`: a native solver that answers queries by an assignment
* `Exchange.Reads`: what comes of a query, by the code and the integer that the native solver gives
* **`Session.literals_valued`**: queries under an assignment one after the other, and any query at all
-/

namespace SatClient

variable {σ : Type} {N : Native σ} {n : Int32}

/-! ## Literals in either form -/

/-- The integer of a variable with a sign. -/
def signedInt (var : Int32) (positive : Bool) : Int32 := if positive then var else -var

namespace Lit

variable {l : Lit}

/-- The integer of a literal. -/
def toNative : Lit → Except Overflow Int32
  | integer n => .ok n
  | signed l => l.toNative

/-- The variable of an integer is its magnitude. That of the least integer wraps, and is not positive. -/
def var : Lit → Int32
  | integer n => if n < 0 then -n else n
  | signed l => l.var

def positive : Lit → Bool
  | integer n => decide (0 < n)
  | signed l => l.positive

def negated : Lit → Lit
  | integer n => integer (-n)
  | signed l => signed { l with positive := !l.positive }

end Lit

/-! A positive variable, its negation and zero are three integers, of which the latter is neither. -/

section Positive

variable {v : Int32}

theorem one_le_iff_toInt : 1 ≤ v ↔ 1 ≤ v.toInt := Int32.le_iff_toInt_le

theorem ne_minValue_of_pos (h : 1 ≤ v) : v ≠ Int32.minValue := by
  rintro rfl
  exact absurd h (by decide)

theorem toInt_neg_of_pos (h : 1 ≤ v) : (-v).toInt = -v.toInt := toInt_neg_of_ne (ne_minValue_of_pos h)

theorem signedInt_toInt (h : 1 ≤ v) (p : Bool) :
    (signedInt v p).toInt = if p then v.toInt else -v.toInt := by
  cases p with
  | true => rfl
  | false => exact toInt_neg_of_pos h

theorem signedInt_ne_zero (h : 1 ≤ v) (p : Bool) : signedInt v p ≠ 0 := by
  have hv := one_le_iff_toInt.mp h
  rw [ne_eq, ← Int32.toInt_inj, signedInt_toInt h, Int32.toInt_zero]
  cases p <;> simp only [if_true, if_false, Bool.false_eq_true] <;> omega

theorem signedInt_inj (h : 1 ≤ v) {p q : Bool} : signedInt v p = signedInt v q ↔ p = q := by
  have hv := one_le_iff_toInt.mp h
  rw [← Int32.toInt_inj, signedInt_toInt h, signedInt_toInt h]
  cases p <;> cases q <;> simp <;> omega

theorem neg_signedInt (v : Int32) (p : Bool) : -signedInt v p = signedInt v !p := by
  cases p with
  | true => rfl
  | false => exact Int32.neg_neg

theorem signedInt_lt_zero (h : 1 ≤ v) (p : Bool) : signedInt v p < 0 ↔ p = false := by
  have hv := one_le_iff_toInt.mp h
  rw [Int32.lt_iff_toInt_lt, signedInt_toInt h, Int32.toInt_zero]
  cases p <;> simp <;> omega

theorem zero_lt_signedInt (h : 1 ≤ v) (p : Bool) : 0 < signedInt v p ↔ p = true := by
  have hv := one_le_iff_toInt.mp h
  rw [Int32.lt_iff_toInt_lt, signedInt_toInt h, Int32.toInt_zero]
  cases p <;> simp <;> omega

/-- The variable and the sign of an integer are those that it is made of. -/
theorem Lit.integer_signedInt (h : 1 ≤ v) (p : Bool) :
    (Lit.integer (signedInt v p)).var = v ∧ (Lit.integer (signedInt v p)).positive = p := by
  have hlt := signedInt_lt_zero h p
  have hgt := zero_lt_signedInt h p
  cases p with
  | true =>
    refine ⟨?_, decide_eq_true (hgt.mpr rfl)⟩
    exact if_neg fun hn => absurd (hlt.mp hn) (by decide)
  | false =>
    refine ⟨?_, decide_eq_false fun hp => absurd (hgt.mp hp) (by decide)⟩
    exact (if_pos (hlt.mpr rfl)).trans Int32.neg_neg

end Positive

namespace Lit

variable {l : Lit}

/-- An integer with a positive variable is made of its variable and its sign. -/
theorem eq_signedInt (h : 1 ≤ (integer n).var) : n = signedInt (integer n).var (integer n).positive := by
  by_cases hn : n < 0
  · have hvar : (integer n).var = -n := if_pos hn
    have hpos : (integer n).positive = false :=
      decide_eq_false fun hp => Int32.lt_irrefl (Int32.lt_trans hn hp)
    rw [hvar, hpos]
    exact Int32.neg_neg.symm
  · have hvar : (integer n).var = n := if_neg hn
    rw [hvar] at h
    have hpos : (integer n).positive = true := decide_eq_true (Int32.lt_of_lt_of_le (by decide) h)
    rw [hvar, hpos]
    rfl

theorem toNative_of_pos (h : 1 ≤ l.var) : l.toNative = .ok (signedInt l.var l.positive) := by
  cases l with
  | integer n => exact congrArg Except.ok (eq_signedInt h)
  | signed l =>
    refine SignedVar.toNative_eq_ok_iff.mpr ?_
    obtain ⟨v, p⟩ := l
    cases p with
    | true => exact .inl ⟨rfl, rfl⟩
    | false => exact .inr ⟨rfl, ne_minValue_of_pos h, rfl⟩

theorem negated_of_pos (h : 1 ≤ l.var) : l.negated.var = l.var ∧ l.negated.positive = !l.positive := by
  cases l with
  | integer n =>
    show (integer (-n)).var = _ ∧ (integer (-n)).positive = _
    have hn := eq_signedInt h
    generalize (integer n).var = v at *
    generalize (integer n).positive = p at *
    rw [hn, neg_signedInt]
    exact integer_signedInt h _
  | signed l => exact ⟨rfl, rfl⟩

end Lit

/-! ## Assignments -/

/-- Truth values for some variables; variables are positive. -/
def Assignment := Int32 → Option Bool

namespace Assignment

variable {v : Assignment} {l : Lit}

/-- The literal is true. -/
def Satisfies (v : Assignment) (l : Lit) : Prop := v l.var = some l.positive

/-- The literal of a variable that is true, and zero if the variable has no truth value. -/
def literal (v : Assignment) (var : Int32) : Int32 :=
  match v var with
  | some positive => signedInt var positive
  | none => 0

def value (v : Assignment) (l : Lit) : TriState := .ofOption ((v l.var).map (· == l.positive))

/-- What a value tells of a literal. -/
structure Values (v : Assignment) (l : Lit) (t : TriState) : Prop where
  holds : t = .holds ↔ v.Satisfies l
  fails : t = .fails ↔ v.Satisfies l.negated
  unknown : t = .unknown ↔ v l.var = none

/-- Whether a truth value that is known is the one which is asked for. -/
theorem ofOption_map_beq (known : Option Bool) (p : Bool) :
    (TriState.ofOption (known.map (· == p)) = .holds ↔ known = some p) ∧
      (TriState.ofOption (known.map (· == p)) = .fails ↔ known = some !p) ∧
      (TriState.ofOption (known.map (· == p)) = .unknown ↔ known = none) ∧
      TriState.ofOption (known.map (· == !p)) = (TriState.ofOption (known.map (· == p))).opposite := by
  rcases known with _ | _ | _ <;> cases p <;> decide

/-- The value of a literal tells what it is to tell; the negated literal has the opposite value. -/
theorem values (v : Assignment) (h : 1 ≤ l.var) :
    v.Values l (v.value l) ∧ v.value l.negated = (v.value l).opposite := by
  obtain ⟨hvar, hpos⟩ := Lit.negated_of_pos h
  obtain ⟨hholds, hfails, hunknown, hopposite⟩ := ofOption_map_beq (v l.var) l.positive
  refine ⟨⟨hholds, ?_, hunknown⟩, ?_⟩
  · unfold Satisfies
    rw [hvar, hpos]
    exact hfails
  · unfold value
    rw [hvar, hpos]
    exact hopposite

/-- The true literal of its variable is read as the value of a literal. -/
theorem valueOf_literal (v : Assignment) {var : Int32} (h : 1 ≤ var) (p : Bool) :
    valueOf (signedInt var p) (v.literal var) = .ok (.ofOption ((v var).map (· == p))) := by
  unfold valueOf literal
  cases v var with
  | none => rfl
  | some q =>
    dsimp only
    rw [if_neg (signedInt_ne_zero h q), neg_signedInt]
    simp only [signedInt_inj h]
    cases p <;> cases q <;> rfl

end Assignment

/-! ## Queries -/

/-- The native solver of `x` answers by an assignment, from a state for a number of queries to come,
whatever its polls are answered. -/
def Solver.Tells (N : Native σ) (x : Solver) (v : Assignment) : Nat → σ → Prop
  | 0, _ => True
  | k + 1, native => ∀ n, 1 ≤ (Lit.integer n).var →
      (N.respond (x.symbols .val) (.val x.handle n) native).Ends fun r =>
        r.1.code = .ok ∧ r.1.result.getD 0 = v.literal (Lit.integer n).var ∧ x.Tells N v k r.2

/-- A native solver that knows an assignment and nothing else. -/
def Assignment.native : Native Assignment where
  respond _ call v := .done <| match call with
    | .init => ({ handle := 1 }, v)
    | .val _ n => ({ result := some (v.literal (Lit.integer n).var) }, v)
    | _ => ({}, v)

theorem Assignment.native_tells (v : Assignment) (x : Solver) (k : Nat) : x.Tells native v k v := by
  induction k with
  | zero => trivial
  | succ k ih => exact fun n _ => ⟨rfl, rfl, ih⟩

/-- What comes of a query: the answer of a step that asks for the value of the literal `n`. -/
structure Exchange.Reads (x : Exchange) (n : Int32) (answer : Answer) : Prop where
  /-- There is a value just if the code is zero, and the integer is zero, the literal or its negation. -/
  done_iff : (∃ t, answer = .done (.state t)) ↔
    x.reply.code = .ok ∧ x.reply.result.getD 0 ∈ [0, n, -n]
  unknown : x.reply.code = .ok → x.reply.result.getD 0 = 0 → answer = .done (.state .unknown)
  holds : x.reply.code = .ok → x.reply.result.getD 0 = n → n ≠ 0 → answer = .done (.state .holds)
  fails : x.reply.code = .ok → x.reply.result.getD 0 = -n → n ≠ -n → answer = .done (.state .fails)
  denied : x.reply.code ≠ .ok → answer = .stopped (.failure (.callFailed "ipasir2_val" x.reply.code))
  /-- Any other integer is named in the failure, with the literal. -/
  violates : x.reply.code = .ok → x.reply.result.getD 0 ∉ [0, n, -n] →
    ∃ e : Failure, answer = .stopped (.failure e) ∧
      e = .violation (.value (x.reply.result.getD 0) n) ∧ e.message = "solver protocol violation: ipasir2_val gave " ++
        toString (x.reply.result.getD 0).toInt ++ " for literal " ++ toString n.toInt

/-! ### Reading the integer -/

section Given

variable {given : Int32}

theorem exists_valueOf_iff : (∃ t, valueOf n given = .ok t) ↔ given ∈ [0, n, -n] := by
  simp only [List.mem_cons, List.not_mem_nil, or_false]
  unfold valueOf
  split_ifs with h0 hn hneg
  · exact iff_of_true ⟨_, rfl⟩ (.inl h0)
  · exact iff_of_true ⟨_, rfl⟩ (.inr (.inl hn))
  · exact iff_of_true ⟨_, rfl⟩ (.inr (.inr hneg))
  · exact iff_of_false (fun ⟨t, ht⟩ => nomatch ht) fun h => h.elim h0 fun h => h.elim hn hneg

theorem valueOf_self (h : n ≠ 0) : valueOf n n = .ok .holds := by
  unfold valueOf
  rw [if_neg h, if_pos rfl]

/-- The least integer is its own negation, and so is zero. -/
theorem valueOf_neg (h : n ≠ -n) : valueOf n (-n) = .ok .fails := by
  have h0 : -n ≠ 0 := fun h0 => h <| calc
    n = - -n := Int32.neg_neg.symm
    _ = -n := by rw [h0]; rfl
  unfold valueOf
  rw [if_neg h0, if_neg h.symm, if_pos rfl]

theorem valueOf_of_not_mem (h : given ∉ [0, n, -n]) :
    valueOf n given = .error (.violation (.value given n)) := by
  simp only [List.mem_cons, List.not_mem_nil, or_false, not_or] at h
  unfold valueOf
  rw [if_neg h.1, if_neg h.2.1, if_neg h.2.2]

end Given

/-- What is made of a reply to a query of the literal `n`. -/
def Reply.value (n : Int32) (reply : Reply) : Except Stop TriState :=
  if reply.code.isOk then (valueOf n (reply.result.getD 0)).mapError .failure
  else .error (.failure (.callFailed EntryPoint.val.name reply.code))

theorem Reply.value_of_ok {reply : Reply} (h : reply.code = .ok) :
    reply.value n = (valueOf n (reply.result.getD 0)).mapError .failure :=
  if_pos ((Code.isOk_iff _).mpr h)

theorem Reply.value_of_ne {reply : Reply} (h : reply.code ≠ .ok) :
    reply.value n = .error (.failure (.callFailed "ipasir2_val" reply.code)) :=
  if_neg fun hok => h ((Code.isOk_iff _).mp hok)

theorem Exchange.reads (x : Exchange) (n : Int32) : x.Reads n (.ofResult .state (x.reply.value n)) := by
  constructor
  · by_cases hc : x.reply.code = .ok
    · rw [Reply.value_of_ok hc, and_iff_right hc, ← exists_valueOf_iff]
      cases valueOf n (x.reply.result.getD 0) with
      | ok t => exact iff_of_true ⟨t, rfl⟩ ⟨t, rfl⟩
      | error e => exact iff_of_false (fun ⟨t, ht⟩ => nomatch ht) fun ⟨t, ht⟩ => nomatch ht
    · rw [Reply.value_of_ne hc]
      exact iff_of_false (fun ⟨t, ht⟩ => nomatch ht) fun h => hc h.1
  · intro hc hr
    rw [Reply.value_of_ok hc, hr]
    rfl
  · intro hc hr hn
    rw [Reply.value_of_ok hc, hr, valueOf_self hn]
    rfl
  · intro hc hr hn
    rw [Reply.value_of_ok hc, hr, valueOf_neg hn]
    rfl
  · intro hc
    rw [Reply.value_of_ne hc]
    rfl
  · intro hc hr
    rw [Reply.value_of_ok hc, valueOf_of_not_mem hr]
    exact ⟨_, rfl, rfl, rfl⟩

/-- A query is one call; the reply is what its value is made of. -/
theorem Solver.valueOfLit_apply {l : Lit} (hn : l.toNative = .ok n) (f : Focus σ) :
    let called := f.call N (.val f.solver.handle n)
    ∃ f', Solver.valueOfLit N l f = (called.1.value n, f') ∧ f'.solver = f.solver ∧
      f'.world.native = called.2.world.native ∧
      exchanges f'.world.client.trace =
        exchanges f.world.client.trace ++ [f.exchange N (.val f.solver.handle n)] := by
  intro called
  have h : Solver.valueOfLit N l f =
      if called.1.code.isOk then
        ((valueOf n (called.1.result.getD 0)).mapError .failure, called.2)
      else (.error (.failure (.callFailed EntryPoint.val.name called.1.code)),
        called.2.note [.notice (.returned .val called.1.code)]) := by
    cases l with
    | integer m =>
      cases hn
      exact Solver.litValue_apply N n f
    | signed l =>
      have hl : Literal.toNative l = .ok n := hn
      refine (Solver.litValue_apply N l f).trans ?_
      rw [hl]
  have hcall := Focus.call_exchanges (N := N) (.val f.solver.handle n) f
  rw [h]
  unfold Reply.value
  split_ifs
  · exact ⟨_, rfl, rfl, rfl, hcall⟩
  · exact ⟨_, rfl, rfl, rfl, (exchanges_note rfl).trans hcall⟩

namespace Session

variable {s : Session σ} {key : Int} {x : Solver} {l : Lit}

/-- The turn of a query. -/
theorem turn_val (hk : s.solvers.get? key = some x) (hn : l.toNative = .ok n) :
    let called := (⟨x, s.world⟩ : Focus σ).call N (.val x.handle n)
    (s.turn N (.client (.val key l))).1 = .ofResult .state (called.1.value n) ∧
      (s.turn N (.client (.val key l))).2.solvers.get? key = some x ∧
      (s.turn N (.client (.val key l))).2.world.native = called.2.world.native ∧
      exchanges (s.turn N (.client (.val key l))).2.trace =
        exchanges s.trace ++ [⟨some x.identity, .val x.handle n, called.1⟩] := by
  intro called
  obtain ⟨f', hf, hsolver, hnative, hexchanges⟩ :=
    Solver.valueOfLit_apply (N := N) hn (⟨x, s.world⟩ : Focus σ)
  have hturn : s.turn N (.client (.val key l)) =
      (.ofResult .state (called.1.value n), s.leaving key f') := by
    show s.runOn key (Solver.valueOfLit N l) (.ofResult .state) = _
    rw [runOn_of_get? hk, hf]
    rfl
  rw [hturn]
  refine ⟨rfl, ?_, hnative, hexchanges⟩
  show (s.solvers.set key f'.solver).get? key = some x
  rw [hsolver]
  exact Keyed.get?_set_self _ _ _

/-- Any query is one exchange, and what comes of it. -/
theorem val_passage (hs : s.solvers.keys.Nodup) (hk : s.solvers.get? key = some x)
    (hn : l.toNative = .ok n) :
    let p := s.passage N (.client (.val key l))
    ∃ reply, exchanges p.events = [⟨some x.identity, .val x.handle n, reply⟩] ∧
      Exchange.Reads ⟨some x.identity, .val x.handle n, reply⟩ n p.answer := by
  obtain ⟨hanswer, -, -, hexchanges⟩ := turn_val (N := N) hk hn
  refine ⟨((⟨x, s.world⟩ : Focus σ).call N (.val x.handle n)).1, ?_, ?_⟩
  · exact List.append_cancel_left ((exchanges_passage hs _).symm.trans hexchanges)
  · show Exchange.Reads _ n (s.turn N (.client (.val key l))).1
    rw [hanswer]
    exact Exchange.reads _ n

/-- A query under an assignment answers the value of its literal, and leaves the solver to the other
queries. -/
theorem turn_tells {v : Assignment} {k : Nat} (hk : s.solvers.get? key = some x)
    (ht : x.Tells N v (k + 1) s.world.native) (hl : 1 ≤ l.var) :
    (s.turn N (.client (.val key l))).1 = .done (.state (v.value l)) ∧
      (s.turn N (.client (.val key l))).2.solvers.get? key = some x ∧
      x.Tells N v k (s.turn N (.client (.val key l))).2.world.native := by
  obtain ⟨hanswer, hk', hnative, -⟩ := turn_val (N := N) hk (Lit.toNative_of_pos hl)
  obtain ⟨hvar, -⟩ := Lit.integer_signedInt hl l.positive
  have hends := ht (signedInt l.var l.positive) (hvar.symm ▸ hl)
  obtain ⟨hcode, hresult, hrest⟩ := hends.run (s.world.client.note
    [.called (some x.identity) (x.symbols .val) (.val x.handle (signedInt l.var l.positive))])
  rw [hvar] at hresult
  have hvalue : Reply.value (signedInt l.var l.positive)
      ((⟨x, s.world⟩ : Focus σ).call N (.val x.handle (signedInt l.var l.positive))).1 =
        .ok (v.value l) := by
    refine (Reply.value_of_ok hcode).trans ?_
    have hread := v.valueOf_literal hl l.positive
    rw [← hresult] at hread
    exact congrArg (Except.mapError Stop.failure) hread
  refine ⟨?_, hk', hnative ▸ hrest⟩
  rw [hanswer, hvalue]
  rfl

/-- By induction on the literals. -/
theorem course_tells {v : Assignment} {lits : List Lit} (hk : s.solvers.get? key = some x)
    (ht : x.Tells N v lits.length s.world.native) (hl : ∀ l ∈ lits, 1 ≤ l.var) :
    (s.course N (lits.map fun l => .client (.val key l))).map Passage.answer =
      lits.map fun l => .done (.state (v.value l)) := by
  induction lits generalizing s with
  | nil => rfl
  | cons l lits ih =>
    obtain ⟨hanswer, hk', ht'⟩ := turn_tells hk ht (hl l List.mem_cons_self)
    have hrest := ih hk' ht' fun l' h => hl l' (List.mem_cons_of_mem _ h)
    exact congrArg₂ List.cons hanswer hrest

/-- **Values of literals.** A native solver may answer queries by an assignment: to a literal whose
variable is positive it returns zero and gives the literal of the variable that is true, or zero if there
is none. Then any queries of such literals, in either form and one after the other, answer the values of
the literals; and the value holds just if the literal is true, fails just if its negation is true, and is
unknown just if the variable has no truth value. The negated literal has the opposite value.

Whatever a native solver answers to a query, to the literals zero and the least integer too, the query is
this one call, and there is no panic. There is a value just if the code is zero and the integer is zero,
the literal or its negation; otherwise there is a failure, which names the code or else the integer and
the literal. -/
theorem literals_valued (N : Native σ) (opening : Opening) (native : σ) (turns : List (Turn σ)) (key : Int)
    (x : Solver) (hk : ((start opening native).2.after N turns).solvers.get? key = some x) :
    let s := (start opening native).2.after N turns
    (∀ (v : Assignment) (lits : List Lit), x.Tells N v lits.length s.world.native →
      (∀ l ∈ lits, 1 ≤ l.var) →
      (s.course N (lits.map fun l => .client (.val key l))).map Passage.answer =
        lits.map fun l => .done (.state (v.value l))) ∧
    (∀ (v : Assignment) (l : Lit), 1 ≤ l.var →
      v.Values l (v.value l) ∧ 1 ≤ l.negated.var ∧ v.value l.negated = (v.value l).opposite) ∧
    ∀ (l : Lit) (n : Int32), l.toNative = .ok n →
      let p := s.passage N (.client (.val key l))
      ∃ reply, exchanges p.events = [⟨some x.identity, .val x.handle n, reply⟩] ∧
        Exchange.Reads ⟨some x.identity, .val x.handle n, reply⟩ n p.answer := by
  intro s
  have hs : s.stage.Sound := sound_after (sound_start opening native) turns
  refine ⟨fun v lits ht hl => course_tells hk ht hl, fun v l hl => ?_, fun l n hn => ?_⟩
  · obtain ⟨hvalues, hopposite⟩ := v.values hl
    exact ⟨hvalues, (Lit.negated_of_pos hl).1.symm ▸ hl, hopposite⟩
  · exact val_passage hs.keys hk hn

/-- Two variables have truth values; a literal of each is queried in each form, and one of a third. Then
the least integer is queried. -/
theorem known_literals_valued :
    let v : Assignment := fun var => if var = 1 then some true else if var = 2 then some false else none
    let s := (start .known v).2.after Assignment.native [.client (.create 0)]
    let lits : List Lit :=
      [.integer 1, .integer (-1), .signed ⟨2, true⟩, .signed ⟨2, false⟩, .integer 3]
    let p := s.passage Assignment.native (.client (.val 0 (.integer Int32.minValue)))
    ∃ x, s.solvers.get? 0 = some x ∧ x.Tells Assignment.native v lits.length s.world.native ∧
      (∀ l ∈ lits, 1 ≤ l.var) ∧
      (s.course Assignment.native (lits.map fun l => .client (.val 0 l))).map Passage.answer =
        [TriState.holds, .fails, .fails, .holds, .unknown].map (fun t => .done (.state t)) ∧
      v.Values (.signed ⟨2, false⟩) .holds ∧
      ∃ reply, exchanges p.events = [⟨some x.identity, .val x.handle Int32.minValue, reply⟩] ∧
        Exchange.Reads ⟨some x.identity, .val x.handle Int32.minValue, reply⟩ Int32.minValue p.answer := by
  intro v s lits p
  have hlits : ∀ l ∈ lits, 1 ≤ l.var := by decide
  obtain ⟨hcourse, hvalues, hreads⟩ :=
    literals_valued Assignment.native .known v [.client (.create 0)] 0 _ rfl
  have htells := Assignment.native_tells v ⟨1, 1, knownSymbols, [], none⟩ lits.length
  exact ⟨_, rfl, htells, hlits, hcourse v lits htells hlits,
    (hvalues v (.signed ⟨2, false⟩) (by decide)).1, hreads (.integer Int32.minValue) _ rfl⟩

end Session
end SatClient
