import SatClient.Proofs.Images

/-!
# Literals in memory

Integers that lie side by side are read where they are. All other literals are read from a buffer, which
holds their integers and a zero whatever was in it before; if a literal has no integer, the buffer holds
those of the literals before it.

* `StopsAt`: the first literal that has no integer, with the integers of those before it
* `images_eq_none_iff`, `images_eq_some_iff`: what comes of a conversion
* `Buffered`: literals read from a buffer; `buffered_stream`: those that come one by one
* `Container.target`: a container that is reached through references
* `Literal.AreIntegers`, `Sequence.InPlace`, `Sequence.view_eq`: the sequences that are read where they
  are
* **`view_by_layout`**: where each sequence is read, and what the buffer holds afterwards
-/

namespace SatClient

/-! ## Conversion -/

section Conversion

variable {L : Type} [Literal L]

/-- The literal at the place `k` has no integer. Those before it have the integers `ns`. -/
def StopsAt (xs : List L) (k : Nat) (o : Overflow) (ns : List Int32) : Prop :=
  ∃ x, xs[k]? = some x ∧ Literal.toNative x = .error o ∧ Images (xs.take k) ns

theorem stopsAt_zero {x : L} {xs : List L} {o : Overflow} {ns : List Int32} :
    StopsAt (x :: xs) 0 o ns ↔ Literal.toNative x = .error o ∧ ns = [] := by
  simp [StopsAt, Images]

theorem stopsAt_succ {x : L} {xs : List L} {k : Nat} {o : Overflow} {ns : List Int32} :
    StopsAt (x :: xs) (k + 1) o ns ↔
      ∃ n ns', Literal.toNative x = .ok n ∧ ns = n :: ns' ∧ StopsAt xs k o ns' := by
  simp only [StopsAt, List.getElem?_cons_succ, List.take_succ_cons, Images, List.forall₂_cons_left_iff]
  constructor
  · rintro ⟨y, hy, ho, n, ns', hx, hns, rfl⟩
    exact ⟨n, ns', hx, rfl, y, hy, ho, hns⟩
  · rintro ⟨n, ns', hx, rfl, y, hy, ho, hns⟩
    exact ⟨y, hy, ho, n, ns', hx, hns, rfl⟩

/-- By induction on the literals. -/
theorem images_eq_none_iff {xs : List L} {ns : List Int32} : images xs = (ns, none) ↔ Images xs ns := by
  refine ⟨fun h => ?_, images_of_images⟩
  induction xs generalizing ns with
  | nil =>
    cases h
    exact .nil
  | cons x rest ih =>
    rw [images] at h
    cases hx : Literal.toNative x with
    | error o =>
      rw [hx] at h
      cases h
    | ok n =>
      rw [hx] at h
      obtain ⟨rfl, hnone⟩ := Prod.mk.inj h
      exact .cons hx (ih (Prod.ext rfl hnone))

/-- By induction on the literals, of which the first is converted first. -/
theorem images_eq_some_iff {xs : List L} {o : Overflow} {ns : List Int32} :
    images xs = (ns, some o) ↔ ∃ k, StopsAt xs k o ns := by
  induction xs generalizing ns with
  | nil => simp [images, StopsAt]
  | cons x rest ih =>
    rw [images]
    cases hx : Literal.toNative x with
    | error o' =>
      constructor
      · rintro ⟨⟩
        exact ⟨0, stopsAt_zero.mpr ⟨hx, rfl⟩⟩
      · rintro ⟨k, hk⟩
        cases k with
        | zero =>
          obtain ⟨ho, rfl⟩ := stopsAt_zero.mp hk
          rw [Except.error.inj (hx.symm.trans ho)]
        | succ k =>
          obtain ⟨n, -, hn, -⟩ := stopsAt_succ.mp hk
          cases hx.symm.trans hn
    | ok n =>
      constructor
      · intro h
        obtain ⟨rfl, hsome⟩ := Prod.mk.inj h
        obtain ⟨k, hk⟩ := ih.mp (Prod.ext rfl hsome)
        exact ⟨k + 1, stopsAt_succ.mpr ⟨n, _, hx, rfl, hk⟩⟩
      · rintro ⟨k, hk⟩
        cases k with
        | zero => cases hx.symm.trans (stopsAt_zero.mp hk).1
        | succ k =>
          obtain ⟨n', ns', hn, rfl, hrest⟩ := stopsAt_succ.mp hk
          rw [Except.ok.inj (hx.symm.trans hn), ih.mpr ⟨k, hrest⟩]

/-- Literals are read from a buffer: it holds their integers and a zero, or the integers of those before
the first that has none. -/
structure Buffered (xs : List L) (r : Except Overflow View × List Int32) : Prop where
  whole : ∀ v buffer, r = (.ok v, buffer) ↔
    ∃ ns, Images xs ns ∧ v = ⟨.scratch, .listed ns⟩ ∧ buffer = ns ++ [0]
  broken : ∀ o buffer, r = (.error o, buffer) ↔ ∃ k, StopsAt xs k o buffer

theorem buffered_stream (xs : List L) : Buffered xs (viewOfStream xs) := by
  unfold viewOfStream
  rcases h : images xs with ⟨ns, _ | o⟩
  · refine ⟨fun v buffer => ?_, fun o buffer => ?_⟩
    · constructor
      · rintro ⟨⟩
        exact ⟨ns, images_eq_none_iff.mp h, rfl, rfl⟩
      · rintro ⟨ns', hns', rfl, rfl⟩
        cases h.symm.trans (images_of_images hns')
        rfl
    · refine iff_of_false nofun fun hstop => ?_
      cases h.symm.trans (images_eq_some_iff.mpr hstop)
  · refine ⟨fun v buffer => ?_, fun o' buffer => ?_⟩
    · refine iff_of_false nofun ?_
      rintro ⟨ns', hns', -⟩
      cases h.symm.trans (images_of_images hns')
    · constructor
      · rintro ⟨⟩
        exact images_eq_some_iff.mp h
      · intro hstop
        cases h.symm.trans (images_eq_some_iff.mpr hstop)
        rfl

end Conversion

/-! ## Places -/

/-- Literals that are seen in memory as integers. -/
def Literal.AreIntegers (L : Type) [Literal L] : Prop := (seenAsNative (L := L)).isSome

/-- The container itself, if there are references to it. -/
def Container.target : Container → Container
  | reference c => c.target
  | c => c

theorem Container.isContiguous_iff (c : Container) :
    c.isContiguous ↔ c.target ∈ [vector, slice, array, boxed, named] := by
  induction c with
  | reference c ih => exact ih
  | _ => decide

namespace Sequence

variable {L : Type} [Literal L]

/-- The same literals without the references. -/
def direct (s : Sequence L) : Sequence L := { s with container := s.container.target }

theorem direct_toList (s : Sequence L) : s.direct.toList = s.toList := by
  obtain ⟨c, items⟩ := s
  induction c with
  | reference c ih => exact ih
  | _ => rfl

theorem direct_view (s : Sequence L) : s.direct.view = s.view := by
  obtain ⟨c, items⟩ := s
  induction c with
  | reference c ih => exact ih
  | _ => rfl

/-- There are literals, and they lie side by side as integers. -/
def InPlace (s : Sequence L) : Prop :=
  Literal.AreIntegers L ∧ s.container.isContiguous ∧ s.toList ≠ []

/-- A sequence is read where it is if its literals are there as integers, and else from the buffer. -/
theorem view_eq (s : Sequence L) (buffer : List Int32) :
    (s.InPlace ∧ ∃ ns, Images s.toList ns.toList ∧ s.view buffer = (.ok ⟨.input, ns⟩, buffer)) ∨
      (¬ s.InPlace ∧ s.view buffer = viewOfStream s.toList) := by
  unfold InPlace Literal.AreIntegers view contiguity
  cases hs : Literal.seenAsNative (L := L) with
  | none => exact .inr ⟨fun h => Bool.false_ne_true h.1, rfl⟩
  | some see =>
    cases hc : s.container.isContiguous with
    | false => exact .inr ⟨fun h => Bool.false_ne_true h.2.1, rfl⟩
    | true =>
      have hlist : s.toList = s.items.toList := toList_of_plain (Container.not_isOrdered hc)
      have hempty : (s.items.map see).isEmpty ↔ s.toList = [] := by
        rw [Items.isEmpty, beq_iff_eq, Items.length_map, ← Items.length_toList, ← hlist,
          List.length_eq_zero_iff]
      dsimp only
      split_ifs with he
      · exact .inr ⟨fun h => h.2.2 (hempty.mp he), rfl⟩
      · refine .inl ⟨⟨rfl, rfl, fun h => he (hempty.mpr h)⟩, s.items.map see, ?_, rfl⟩
        rw [Items.toList_map, ← hlist, Images, List.forall₂_map_right_iff, List.forall₂_same]
        exact fun x _ => Literal.toNative_of_seen see hs x

/-- Where a sequence is read, and what the buffer holds afterwards. -/
structure Viewed (s : Sequence L) (buffer : List Int32) : Prop where
  /-- References to a sequence make no difference. -/
  direct : s.direct.toList = s.toList ∧ s.direct.view buffer = s.view buffer
  input : (∃ v, (s.view buffer).1 = .ok v ∧ v.location = .input) ↔ s.InPlace
  own : ∀ v, (s.view buffer).1 = .ok v → v.location = .input →
    Images s.toList v.natives.toList ∧ (s.view buffer).2 = buffer
  buffered : ¬ s.InPlace → Buffered s.toList (s.view buffer)

theorem viewed (s : Sequence L) (buffer : List Int32) : s.Viewed buffer := by
  have hdirect := And.intro s.direct_toList (congrFun s.direct_view buffer)
  obtain ⟨hin, ns, himages, hv⟩ | ⟨hout, hv⟩ := s.view_eq buffer
  · refine ⟨hdirect, iff_of_true ⟨⟨.input, ns⟩, by rw [hv], rfl⟩ hin, ?_, absurd hin⟩
    rw [hv]
    rintro v ⟨⟩ -
    exact ⟨himages, rfl⟩
  · have hb : Buffered s.toList (s.view buffer) := hv ▸ buffered_stream s.toList
    have hscratch : ∀ v, (s.view buffer).1 = .ok v → v.location ≠ .input := by
      intro v hok
      obtain ⟨ns, -, rfl, -⟩ := (hb.whole v (s.view buffer).2).mp (Prod.ext hok rfl)
      exact nofun
    refine ⟨hdirect, iff_of_false ?_ hout, fun v hok hin => absurd hin (hscratch v hok), fun _ => hb⟩
    rintro ⟨v, hok, hin⟩
    exact hscratch v hok hin

end Sequence

/-- **Where literals are read.** A sequence is read where it is, and the buffer stays, if and only if its
literals are integers, it lies in one piece and it is not empty. Every other sequence, and all literals
that come one by one, are read from the front of the buffer, which afterwards holds their integers and a
zero; if a literal has no integer, that is told and the buffer holds the integers of those before it. What
was in the buffer and references to the sequence make no difference. -/
theorem view_by_layout :
    Literal.AreIntegers Int32 ∧ ¬ Literal.AreIntegers SignedVar ∧
    (∀ c : Container, c.isContiguous ↔ c.target ∈ [.vector, .slice, .array, .boxed, .named]) ∧
    ∀ (L : Type) [Literal L], (∀ (s : Sequence L) buffer, s.Viewed buffer) ∧
      ∀ (xs : List L) buffer, Buffered xs ((Given.stream xs).view buffer) :=
  ⟨rfl, Bool.false_ne_true, Container.isContiguous_iff,
    fun _ _ => ⟨Sequence.viewed, fun xs _ => buffered_stream xs⟩⟩

/-- The second of three literals has no integer. -/
example : (⟨.reference .vector, .listed [⟨1, true⟩, ⟨Int32.minValue, false⟩, ⟨2, true⟩]⟩ :
    Sequence SignedVar).view [7, 8, 9] = (.error .negation, [1]) := rfl

end SatClient
