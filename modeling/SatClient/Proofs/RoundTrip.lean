import SatClient.Proofs.Delivery
import SatClient.Proofs.Rejection
import SatClient.Session.Mock

/-!
# Literals there and back

The literals of a clause are added as integers. When a native solver hands out these integers with a zero
after them, a closure that takes literals of the same form is run with the literals of the clause.

* `SignedVar.toNative_eq_ok_iff`, `SignedVar.ofNative_eq_ok_iff`: conversion of signed variables
* `SignedVar.ofNative_toNative_iff`: the signed variables that come back from their integers
* `Literal.Returns`, `Lits.Proper.gives`: literals of which none is taken for the end of a clause
* `Exported`: the ways in which the integers of a call are handed out
* `Buffer.Yields`, `Buffer.Holds.yields`: memory from which the same literals come back
* **`literals_come_back`**: clauses in every form, and the domain of the conversions
-/

namespace SatClient

variable {σ : Type} {i : Nat} {ns : List Int32}

/-! ## Signed variables -/

theorem toInt_neg_of_ne {n : Int32} (h : n ≠ Int32.minValue) : (-n).toInt = -n.toInt := by
  have hlow := n.le_toInt
  have hhigh := n.toInt_lt
  have hmin : n.toInt ≠ -2 ^ 31 := fun hn => h (Int32.toInt_inj.mp (hn.trans Int32.toInt_minValue.symm))
  rw [Int32.toInt_neg, Int.bmod_eq_of_le] <;> omega

theorem negate_eq_ok_iff {n m : Int32} : negate n = .ok m ↔ n ≠ Int32.minValue ∧ m = -n := by
  unfold negate
  split_ifs with h
  · exact iff_of_false nofun fun hm => hm.1 h
  · rw [Except.ok.injEq, eq_comm, and_iff_right h]

namespace SignedVar

theorem toNative_eq_ok_iff {l : SignedVar} {n : Int32} : toNative l = .ok n ↔
    l.positive = true ∧ n = l.var ∨ l.positive = false ∧ l.var ≠ Int32.minValue ∧ n = -l.var := by
  obtain ⟨v, p⟩ := l
  cases p with
  | true => simp [toNative, eq_comm]
  | false => simp [toNative, negate_eq_ok_iff]

theorem ofNative_eq_ok_iff {n : Int32} {l : SignedVar} : ofNative n = .ok l ↔
    0 < n ∧ l = ⟨n, true⟩ ∨ n ≤ 0 ∧ n ≠ Int32.minValue ∧ l = ⟨-n, false⟩ := by
  have hsign : n < 0 ∨ n = 0 ∨ 0 < n := by
    rw [Int32.lt_iff_toInt_lt, Int32.lt_iff_toInt_lt, ← Int32.toInt_inj]
    exact Int.lt_trichotomy _ _
  unfold ofNative
  rcases hsign with hn | rfl | hn
  · have h0 : ¬ 0 ≤ n := Int32.not_le.mpr hn
    have hpos : ¬ 0 < n := fun h => h0 (Int32.le_of_lt h)
    rw [if_neg h0]
    by_cases hmin : n = Int32.minValue
    · simp [negate, hmin]
    · simp [negate, hmin, hpos, Int32.le_of_lt hn, eq_comm]
  · have hmin : (0 : Int32) ≠ Int32.minValue := by decide
    simp [hmin, eq_comm]
  · have hmin : n ≠ Int32.minValue := by
      rintro rfl
      exact absurd hn (by decide)
    simp [Int32.le_of_lt hn, hn, hmin, Int32.not_le.mpr hn, eq_comm]

theorem toNative_overflow_iff (l : SignedVar) :
    (∃ o, toNative l = .error o) ↔ l.var = Int32.minValue ∧ ¬ l.positive := by
  obtain ⟨v, p⟩ := l
  cases p with
  | true => simp [toNative]
  | false =>
    show (∃ o, negate v = .error o) ↔ _
    unfold negate
    split_ifs with hv
    · exact iff_of_true ⟨_, rfl⟩ ⟨hv, not_false⟩
    · exact iff_of_false (fun ⟨_, h⟩ => nomatch h) fun h => hv h.1

theorem ofNative_overflow_iff (n : Int32) : (∃ o, ofNative n = .error o) ↔ n = Int32.minValue := by
  constructor
  · rintro ⟨o, h⟩
    exact ofNative_eq_error h
  · rintro rfl
    exact ⟨.negation, rfl⟩

/-- Every integer but the least has a literal, and is the integer of it. -/
theorem toNative_ofNative {n : Int32} (h : n ≠ Int32.minValue) :
    ∃ l, ofNative n = .ok l ∧ toNative l = .ok n := by
  cases hl : ofNative n with
  | error o => exact absurd (ofNative_eq_error hl) h
  | ok l =>
    refine ⟨l, rfl, ?_⟩
    rcases ofNative_eq_ok_iff.mp hl with ⟨-, rfl⟩ | ⟨hn, -, rfl⟩
    · rfl
    · refine toNative_eq_ok_iff.mpr (.inr ⟨rfl, fun hmin => ?_, Int32.neg_neg.symm⟩)
      have hlow := n.le_toInt
      have hneg := congrArg Int32.toInt hmin
      rw [toInt_neg_of_ne h, Int32.toInt_minValue] at hneg
      rw [Int32.le_iff_toInt_le, Int32.toInt_zero] at hn
      omega

/-- The variable comes back as a magnitude, and zero as a negative literal. -/
theorem ofNative_toNative_iff (l : SignedVar) :
    (∃ n, toNative l = .ok n ∧ ofNative n = .ok l) ↔ 1 ≤ l.var ∨ l = ⟨0, false⟩ := by
  obtain ⟨v, p⟩ := l
  have hone : (1 : Int32) ≤ v ↔ 0 < v.toInt := Int32.le_iff_toInt_le
  cases p with
  | true =>
    have hpos : 0 < v ↔ 0 < v.toInt := Int32.lt_iff_toInt_lt
    simp [toNative_eq_ok_iff, ofNative_eq_ok_iff, hpos, hone]
  | false =>
    have hread : (∃ n, toNative ⟨v, false⟩ = .ok n ∧ ofNative n = .ok ⟨v, false⟩) ↔
        v ≠ Int32.minValue ∧ -v ≤ 0 ∧ -v ≠ Int32.minValue := by
      simp [toNative_eq_ok_iff, ofNative_eq_ok_iff]
    rw [hread]
    have hhigh := v.toInt_lt
    by_cases hv : v = Int32.minValue
    · subst hv
      decide
    · have hneg := toInt_neg_of_ne hv
      have hmin : -v ≠ Int32.minValue := fun h => by
        rw [h, Int32.toInt_minValue] at hneg
        omega
      have hzero : (⟨v, false⟩ : SignedVar) = ⟨0, false⟩ ↔ v.toInt = 0 := by
        rw [SignedVar.mk.injEq, ← Int32.toInt_inj]
        exact and_iff_left rfl
      rw [and_iff_right hv, and_iff_left hmin, Int32.le_iff_toInt_le, hneg, Int32.toInt_zero, hone, hzero]
      omega

end SignedVar

/-! ## Literals that come back -/

section

variable {L : Type} [Literal L]

/-- The literal has an integer other than zero, and is the literal of it. -/
def Literal.Returns (x : L) : Prop := ∃ n, n ≠ 0 ∧ toNative x = .ok n ∧ ofNative n = .ok x

/-- By induction on the literals. -/
theorem images_of_returns {xs : List L} (h : ∀ x ∈ xs, Literal.Returns x) :
    ∃ ns, Images xs ns ∧ List.Forall₂ (fun n x => Literal.ofNative n = .ok x) ns xs ∧ 0 ∉ ns := by
  induction xs with
  | nil => exact ⟨[], .nil, .nil, List.not_mem_nil⟩
  | cons x xs ih =>
    obtain ⟨n, hn, hto, hof⟩ := h x List.mem_cons_self
    obtain ⟨ns, himages, hlits, hns⟩ := ih fun y hy => h y (List.mem_cons_of_mem _ hy)
    exact ⟨n :: ns, .cons hto himages, .cons hof hlits, List.not_mem_cons_of_ne_of_not_mem hn.symm hns⟩

end

/-- A literal with a positive variable is none that stands for zero. -/
theorem SignedVar.returns {l : SignedVar} (h : 1 ≤ l.var) : Literal.Returns l := by
  obtain ⟨n, hto, hof⟩ := (ofNative_toNative_iff l).mpr (.inl h)
  refine ⟨n, ?_, hto, hof⟩
  rintro rfl
  cases Except.ok.inj hof
  exact absurd h (by decide)

namespace Lits

variable {lits : Lits}

def form : Lits → LiteralForm
  | integers _ => .integer
  | signed _ => .signed

/-- The literals in order. -/
def clause : Lits → Clause
  | integers given => .integers given.toList
  | signed given => .signed given.toList

def count : Lits → Nat
  | integers given => given.toList.length
  | signed given => given.toList.length

/-- Literals such as there are in clauses: no integer is zero, and variables are positive. -/
def Proper : Lits → Prop
  | integers given => 0 ∉ given.toList
  | signed given => ∀ l ∈ given.toList, 1 ≤ l.var

/-- None of their integers is zero, and the literals of these are the same literals. -/
theorem Proper.gives (h : lits.Proper) :
    ∃ ns, lits.Gives ns ∧ lits.clause.Of ns lits.form ∧ 0 ∉ ns ∧ ns.length = lits.count := by
  cases lits with
  | integers given =>
    have hreturns : ∀ n ∈ given.toList, Literal.Returns n := fun n hn =>
      ⟨n, fun h0 => h (h0 ▸ hn), rfl, rfl⟩
    obtain ⟨ns, himages, hlits, hns⟩ := images_of_returns hreturns
    exact ⟨ns, himages, .integers hlits, hns, himages.length_eq.symm⟩
  | signed given =>
    obtain ⟨ns, himages, hlits, hns⟩ := images_of_returns fun l hl => SignedVar.returns (h l hl)
    exact ⟨ns, himages, .signed hlits, hns, himages.length_eq.symm⟩

theorem Gives.rejected (h : lits.Gives ns) (hmax : maxLength < ns.length) :
    lits.Rejected (.failure (.tooLong ns.length)) := by
  cases lits <;> exact .tooMany h hmax

end Lits

/-! ## Integers handed out -/

/-- The ways in which the integers of a call are handed out to the bridge of the solver `i`, with the
client before and after. -/
inductive Exported (i : Nat) (b : Buffer) (length : Int32) : Client → Client → Prop
  /-- The mock is told to hand them out to whoever is registered. -/
  | simulated {s : Session MockHost} {m : Mock} {id : Nat} (hm : (MockSession.host s).mock = some m)
      (hhook : m.hook .exporter id = .ok (.own i)) :
      Exported i b length s.world.client
        (MockSession.step (.simulateExport id (b.first length)) s).2.world.client
  /-- They are copied with a zero after them, also while a solve runs. -/
  | copied (c : Client) : Exported i b length c (c.offer (.own i) (some (b.first length ++ [0])))
  /-- The buffer of the library is passed on as it is. -/
  | scratch (h : b.location = .scratch) (c : Client) :
      Exported i b length c (c.offer (.own i) (some b.cells))

/-- Whatever hands out the integers of a call, a closure that takes literals of this form is run with
these literals and no others, and nothing else is done to the cell. -/
def Buffer.Yields (b : Buffer) (length : Int32) (lits : Lits) : Prop :=
  ∀ i l c c', l.form = lits.form → Client.Listens i l none c → Exported i b length c c' →
    Client.Listens i (l.later 1) l.closure.conduct.panic? c' ∧
      Client.Hears i l.closure.tag [lits.clause] c c'

/-- However they are handed out, the pointer leads to the integers. -/
theorem Exported.offered {b : Buffer} {length : Int32} {c c' : Client} (h : Exported i b length c c')
    (hb : b.Holds ns) (hfirst : b.first length = ns) (h0 : 0 ∉ ns) :
    ∃ memory, ClauseAt memory ns ∧ c' = c.offer (.own i) memory := by
  have hzero : ClauseAt (some (ns ++ [0])) ns := .terminated ns [] h0
  cases h with
  | @simulated s m id hm hhook =>
    refine ⟨_, hzero, ?_⟩
    have hstep : MockSession.step (.simulateExport id (b.first length)) s =
        s.converse (MockSession.offerOnce (b.first length) (.own i)) := by
      show MockSession.simulate .exporter id _ s = _
      rw [MockSession.simulate, MockSession.onMock, hm]
      dsimp only
      rw [hhook]
    rw [hstep, hfirst]
    rfl
  | copied => exact ⟨_, hzero, by rw [hfirst]⟩
  | scratch hloc => exact ⟨_, hzero, by rw [hb.scratch hloc]⟩

theorem Buffer.Holds.yields {b : Buffer} {length : Int32} {lits : Lits} (hb : b.Holds ns)
    (hfirst : b.first length = ns) (h0 : 0 ∉ ns) (hof : lits.clause.Of ns lits.form) :
    b.Yields length lits := by
  intro i l c c' hform hl hexported
  obtain ⟨memory, hclause, rfl⟩ := hexported.offered hb hfirst h0
  exact (Client.offer_delivers hl hclause).of_clause (hform ▸ hof)

/-- **Literals come back as they are.** A clause in any form of which no literal stands for zero is added
in one call, with as many integers as it has literals; only too many are rejected. If these integers are
handed out with a zero after them, a closure for the same form is run with the literals of the clause, in
order.

The only signed variable without an integer is the negative one of the least variable, and the only
integer without a signed variable is the least. Every other integer comes back from its signed variable.
The signed variables that come back are those of a positive variable, and the negative zero. -/
theorem literals_come_back (N : Native σ) (opening : Session.Opening) (native : σ)
    (turns : List (Turn σ)) :
    let s := (Session.start opening native).2.after N turns
    (∀ key x lits redundancy, s.solvers.get? key = some x → Lits.Proper lits →
      let p := s.passage N (.client (.add key lits redundancy))
      (lits.count ≤ maxLength → ∃ b length, callsMade p.events =
          [(some x.identity, .add x.handle (some b) length redundancy.native)] ∧
        length.toInt = lits.count ∧ b.Yields length lits) ∧
      (maxLength < lits.count → p.Unnoticed N key x (.failure (.tooLong lits.count)))) ∧
    (∀ l, (∃ o, SignedVar.toNative l = .error o) ↔ l.var = Int32.minValue ∧ ¬ l.positive) ∧
    (∀ n, (∃ o, SignedVar.ofNative n = .error o) ↔ n = Int32.minValue) ∧
    (∀ n ≠ Int32.minValue, ∃ l, SignedVar.ofNative n = .ok l ∧ SignedVar.toNative l = .ok n) ∧
    ∀ l, (∃ n, SignedVar.toNative l = .ok n ∧ SignedVar.ofNative n = .ok l) ↔
      1 ≤ l.var ∨ l = ⟨0, false⟩ := by
  intro s
  have hs : s.stage.Sound := Session.sound_after (Session.sound_start opening native) turns
  refine ⟨?_, SignedVar.toNative_overflow_iff, SignedVar.ofNative_overflow_iff,
    fun n hn => SignedVar.toNative_ofNative hn, SignedVar.ofNative_toNative_iff⟩
  intro key x lits redundancy hk hproper p
  obtain ⟨ns, hgives, hof, h0, hcount⟩ := hproper.gives
  have hturn := Session.turn_add (N := N) key lits redundancy s
  rw [← hcount]
  constructor
  · intro hmax
    obtain ⟨b, hb, hcalls⟩ := Session.calls_lits hs.keys hk hgives hmax hturn
    exact ⟨b, _, hcalls, toInt_ofNat_of_le hmax, hb.yields (hb.first hmax) h0 hof⟩
  · intro hmax
    exact Session.unnoticed_lits hk (hgives.rejected hmax) hturn

/-- A linked list of signed variables, one of them the greatest there is, which the mock hands out; and
one integer too many times. -/
theorem signed_list_comes_back :
    let s := (Session.start .known ({} : Scripted)).2.after Scripted.native [.client (.create 0)]
    let list : Lits := .signed (.sequence ⟨.linkedList, .listed [⟨2, false⟩, ⟨Int32.maxValue, true⟩]⟩)
    let many : Lits := .integers (.sequence ⟨.slice, .repeated (maxLength + 1) 1⟩)
    let l : Listener := ⟨{ tag := "heard", script := [.answers false] }, .signed⟩
    let c : Client := { bridges := [(4, { exporter := some l })] }
    let mock : Mock := { instances := [(7, { exporter := some (.own 4) })] }
    let mocked : Session MockHost :=
      { world := { native := { mock := some mock }, client := c }, library := none, interfaces := 0 }
    ∃ x, s.solvers.get? 0 = some x ∧ list.Proper ∧ list.count ≤ maxLength ∧ many.Proper ∧
      maxLength < many.count ∧
      (∃ b length, callsMade (s.passage Scripted.native (.client (.add 0 list .none))).events =
          [(some x.identity, .add x.handle (some b) length Redundancy.none.native)] ∧
        Client.Hears 4 "heard" [.signed [⟨2, false⟩, ⟨Int32.maxValue, true⟩]] c
          (MockSession.step (.simulateExport 7 (b.first length)) mocked).2.world.client) ∧
      (s.passage Scripted.native (.client (.add 0 many .none))).Unnoticed Scripted.native 0 x
        (.failure (.tooLong many.count)) := by
  intro s list many l c mock mocked
  have hlist : list.Proper := by
    show ∀ l ∈ [(⟨2, false⟩ : SignedVar), ⟨Int32.maxValue, true⟩], 1 ≤ l.var
    decide
  have hmany : many.Proper := fun h => absurd (List.eq_of_mem_replicate h) (by decide)
  have hcount : maxLength < many.count := by
    show maxLength < (List.replicate (maxLength + 1) (1 : Int32)).length
    rw [List.length_replicate]
    exact Nat.lt_succ_self _
  have hturns := (literals_come_back Scripted.native .known {} [.client (.create 0)]).1 0
  obtain ⟨b, length, hcalls, -, hyields⟩ := (hturns _ list .none rfl hlist).1 (by decide)
  refine ⟨_, rfl, hlist, by decide, hmany, hcount, ⟨b, length, hcalls, ?_⟩,
    (hturns _ many .none rfl hmany).2 hcount⟩
  exact (hyields 4 l c _ rfl ⟨_, rfl, rfl, rfl⟩ (.simulated (s := mocked) (m := mock) rfl rfl)).2

end SatClient
