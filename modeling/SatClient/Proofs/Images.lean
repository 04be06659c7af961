import Mathlib.Data.List.Forall2
import Mathlib.Tactic.SplitIfs
import SatClient.Session.Step

/-!
# The integers of literals

However a client keeps its literals, the memory to which its native solver is pointed begins with the
integers of them.

* `ordered_spec`, `Sequence.Keeps`: the literals of a container, which a set keeps in order
* `Images`, `Lits.Gives`: the integers of literals
* `Buffer.Holds`, **`Given.view_of_images`**: the memory that a native solver is given
-/

namespace SatClient

variable {α : Type}

/-! ## Sets -/

section Sets

variable [Ord α] [Std.TransOrd α] [Std.LawfulEqOrd α]

omit [Std.TransOrd α] in
theorem mem_insertOrdered {x y : α} {xs : List α} : y ∈ insertOrdered x xs ↔ y = x ∨ y ∈ xs := by
  induction xs with
  | nil => simp [insertOrdered]
  | cons z zs ih =>
    rw [insertOrdered]
    cases hc : compare x z with
    | lt => simp
    | eq =>
      rw [Std.LawfulEqOrd.eq_of_compare hc]
      simp
    | gt =>
      dsimp only
      rw [List.mem_cons, ih, List.mem_cons]
      exact or_left_comm

theorem pairwise_insertOrdered {x : α} {xs : List α} (h : xs.Pairwise (compare · · = .lt)) :
    (insertOrdered x xs).Pairwise (compare · · = .lt) := by
  induction xs with
  | nil => exact List.pairwise_singleton _ _
  | cons z zs ih =>
    obtain ⟨hz, hzs⟩ := List.pairwise_cons.mp h
    rw [insertOrdered]
    cases hc : compare x z with
    | lt =>
      refine List.pairwise_cons.mpr ⟨fun y hy => ?_, h⟩
      rcases List.mem_cons.mp hy with rfl | hy
      · exact hc
      · exact Std.TransCmp.lt_trans hc (hz y hy)
    | eq => exact h
    | gt =>
      refine List.pairwise_cons.mpr ⟨fun y hy => ?_, ih hzs⟩
      rcases mem_insertOrdered.mp hy with rfl | hy
      · exact Std.OrientedCmp.gt_iff_lt.mp hc
      · exact hz y hy

/-- By induction on the items, of which each is put into those before it. -/
theorem ordered_spec (xs : List α) :
    (ordered xs).Pairwise (compare · · = .lt) ∧ ∀ y, y ∈ ordered xs ↔ y ∈ xs := by
  have h (ys : List α) (hys : ys.Pairwise (compare · · = .lt)) :
      (xs.foldl (fun ys x => insertOrdered x ys) ys).Pairwise (compare · · = .lt) ∧
        ∀ y, y ∈ xs.foldl (fun ys x => insertOrdered x ys) ys ↔ y ∈ ys ∨ y ∈ xs := by
    induction xs generalizing ys with
    | nil => exact ⟨hys, fun y => by simp⟩
    | cons x rest ih =>
      obtain ⟨hp, hm⟩ := ih (insertOrdered x ys) (pairwise_insertOrdered hys)
      refine ⟨hp, fun y => ?_⟩
      rw [List.foldl_cons, hm, mem_insertOrdered, List.mem_cons, or_assoc, or_left_comm]
  obtain ⟨hp, hm⟩ := h [] List.Pairwise.nil
  exact ⟨hp, fun y => (hm y).trans (by simp)⟩

end Sets

instance : Std.TransOrd SignedVar :=
  inferInstanceAs (Std.TransCmp (compareLex (compareOn SignedVar.var) (compareOn SignedVar.positive)))

instance : Std.LawfulEqOrd SignedVar where
  compare_self := Std.ReflCmp.compare_self
  eq_of_compare := by
    intro a b h
    have h : (compare a.var b.var).then (compare a.positive b.positive) = .eq := h
    obtain ⟨hv, hp⟩ := Ordering.then_eq_eq.mp h
    obtain ⟨v, p⟩ := a
    obtain ⟨v', p'⟩ := b
    rw [SignedVar.mk.injEq]
    exact ⟨Std.LawfulEqOrd.eq_of_compare hv, Std.LawfulEqOrd.eq_of_compare hp⟩

/-- The literals of a container: a set keeps each of them once, in increasing order, and any other
container keeps them as they are. -/
structure Sequence.Keeps {L : Type} [Literal L] (s : Sequence L) : Prop where
  ordered : s.container.isOrdered →
    s.toList.Pairwise (compare · · = .lt) ∧ ∀ y, y ∈ s.toList ↔ y ∈ s.items.toList
  plain : s.container.isOrdered = false → s.toList = s.items.toList

theorem Sequence.toList_of_plain {L : Type} [Literal L] {s : Sequence L}
    (h : s.container.isOrdered = false) : s.toList = s.items.toList := by
  rw [toList, if_neg (by rw [h]; exact Bool.false_ne_true)]

theorem Sequence.keeps {L : Type} [Literal L] [Std.TransOrd L] [Std.LawfulEqOrd L] (s : Sequence L) :
    s.Keeps := by
  constructor
  · intro h
    rw [toList, if_pos h]
    exact ordered_spec _
  · exact toList_of_plain

/-! ## Images -/

section Images

variable {L : Type} [Literal L]

/-- The integers of literals, all of which have one. -/
def Images (xs : List L) (ns : List Int32) : Prop :=
  List.Forall₂ (fun x n => Literal.toNative x = .ok n) xs ns

theorem images_of_images {xs : List L} {ns : List Int32} (h : Images xs ns) : images xs = (ns, none) := by
  induction h with
  | nil => rfl
  | cons hx _ ih => rw [images, hx, ih]

theorem Images.map_seen {see : L → Int32} (hs : Literal.seenAsNative = some see) {xs : List L}
    {ns : List Int32} (h : Images xs ns) : xs.map see = ns := by
  induction h with
  | nil => rfl
  | cons hx _ ih =>
    rw [Literal.toNative_of_seen see hs] at hx
    rw [List.map_cons, ih, Except.ok.inj hx]

theorem Container.not_isOrdered {c : Container} (h : c.isContiguous) : c.isOrdered = false := by
  induction c with
  | reference target ih => exact ih h
  | _ => first | rfl | cases h

/-- The memory begins with these integers. If it is the buffer of the library, it holds them and a zero. -/
structure Buffer.Holds (b : Buffer) (ns : List Int32) : Prop where
  take : b.cells.take ns.length = ns
  scratch : b.location = .scratch → b.cells = ns ++ [0]

/-- The memory that a native solver is given holds the integers. -/
theorem Given.view_of_images {given : Given L} {ns : List Int32} (h : Images given.toList ns)
    (scratch : List Int32) :
    ∃ v buffer, given.view scratch = (.ok v, buffer) ∧ v.natives.toList = ns ∧
      (Buffer.ofView v buffer).Holds ns := by
  have hstream {xs : List L} (hxs : Images xs ns) :
      ∃ v buffer, viewOfStream xs = (.ok v, buffer) ∧ v.natives.toList = ns ∧
        (Buffer.ofView v buffer).Holds ns := by
    refine ⟨⟨.scratch, .listed ns⟩, ns ++ [0], ?_, rfl, List.take_left, fun _ => rfl⟩
    rw [viewOfStream, images_of_images hxs]
  cases given with
  | stream xs => exact hstream h
  | sequence s =>
    have h : Images s.toList ns := h
    rw [view, Sequence.view, Sequence.contiguity]
    cases hs : Literal.seenAsNative (L := L) with
    | none => exact hstream h
    | some see =>
      cases hc : s.container.isContiguous with
      | false => exact hstream h
      | true =>
        dsimp only
        split_ifs
        · exact hstream h
        · have hn : (s.items.map see).toList = ns := by
            rw [Items.toList_map, ← Sequence.toList_of_plain (Container.not_isOrdered hc)]
            exact h.map_seen hs
          refine ⟨_, _, rfl, hn, ?_, nofun⟩
          rw [Buffer.ofView]
          dsimp only
          rw [hn, List.take_length]

end Images

/-- The integers of literals in either form. -/
def Lits.Gives (lits : Lits) (ns : List Int32) : Prop :=
  match lits with
  | integers given => Images given.toList ns
  | signed given => Images given.toList ns

end SatClient
