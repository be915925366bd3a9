import Mathlib.Data.List.Chain
import Mathlib.Logic.Relation
import Mathlib.Order.Interval.Set.Defs
import Regexp.Proofs.Growth

/-!
# The shape of programs

A program is a graph: its operations are the nodes, and their links, those to
bodies included, are the edges.  All edges go down, except for those from
closures to their bodies.  A closure and its body take up an interval of
indices, of which the closure is the first, and nothing but the closure leads
out of it.  So a walk that does not come back to the closure stays above it, and
a walk that comes back to where it began has passed a closure.

`Program.linked` says how far links go, which is enough for walks to end.  It
leaves open what the body of a closure can lead to, and whether the place taken
for a closure has been filled.  These cannot be read off a finished program
without knowing how it was made; so they are read off the way in which
operations are added, by induction on `Builder.Grows`.  Three things are carried
along: what is added leads to what was in scope before or was added too
(`Builder.Reach`), an added closure encloses its body (`Op.Encloses`), and every
new number is the number of an added closure.

`Program.IsShaped` collects the shape, in terms of the graph alone
(`Program.LinksTo`, `Program.ReachedPast`).

## Main definitions

* `Op.targets`, `Op.downward` — the links of an operation, and those that go
  down.
* `Program.LinksTo` — an operation leads to another one.
* `Program.ReachedPast` — an operation is reached without coming to a given one.
* `Op.Encloses` — the interval of a closure and its body.
* `Program.IsShaped` — the shape.

## Main statements

* `Builder.Grows.exists_encloses` — an added closure encloses its body.
* `Program.lt_of_isChain` — a way without closures goes down.
* `Program.ofPattern_isShaped` — every pattern has a program of this shape.
-/

namespace Regexp

namespace Op

/-- All the links of an operation, the one from a closure to its body included. -/
def targets (op : Op) : List Link := op.links ++ op.child?.toList

/-- The links of an operation, except for the one from a closure to its body,
which is the only one that goes up. -/
def downward : Op → List Link
  | closure _ _ _ next => [next]
  | op => op.targets

/-- Whether a closure and its body are the operations from index `k` up to
`stop`: the body begins among them, and none but the closure leads to any other. -/
structure Encloses (ops : Array Op) (k child stop : ℕ) : Prop where
  le_child : k ≤ child
  child_lt : child < stop
  stop_le : stop ≤ ops.size
  closed : ∀ m op j, k < m → m < stop → ops[m]? = some op → some j ∈ op.targets → k ≤ j ∧ j < stop

variable {ops ops' : Array Op} {i k child stop size closureLen : ℕ} {op : Op}

/-- What operations enclose, they enclose when there are more of them. -/
theorem Encloses.mono (hsize : ops.size ≤ ops'.size)
    (hkeeps : ∀ m < stop, k < m → ops'[m]? = ops[m]?) (h : Encloses ops k child stop) :
    Encloses ops' k child stop where
  le_child := h.le_child
  child_lt := h.child_lt
  stop_le := h.stop_le.trans hsize
  closed m op j hkm hm hop hj := h.closed m op j hkm hm ((hkeeps m hm hkm).symm.trans hop) hj

/-- The links that go down lead below the operation.  Only a closure has one
that does not. -/
theorem Linked.below (h : op.Linked i size closureLen) {l : Link} (hl : l ∈ op.downward) :
    l.Below i := by
  cases op <;> simp only [downward, targets, links, child?, Option.toList_none,
    Option.toList_some, List.append_nil, List.cons_append, List.nil_append, List.mem_cons,
    List.not_mem_nil, or_false] at hl
  case atom | mark => exact hl ▸ h
  case union => exact h l hl
  case closure => exact hl ▸ h.2.2
  case question => exact hl.elim (· ▸ h.1) (· ▸ h.2)
  case ifGroup => exact hl.elim (· ▸ h.1) (· ▸ h.2)
  case look | independent | modifier => exact hl.elim (· ▸ h.2) (· ▸ h.1)
  case ifLook => exact hl.elim (· ▸ h.2.1) (·.elim (· ▸ h.2.2) (· ▸ h.1))

/-- All links lead to operations of the program, those up into a body included. -/
theorem Linked.target_lt (h : op.Linked i size closureLen) (hi : i < size) {j : ℕ}
    (hj : some j ∈ op.targets) : j < size := by
  cases op with
  | closure id child greedy next =>
    simp only [targets, links, child?, Option.toList_none, List.append_nil, List.mem_cons,
      Option.some.injEq, List.not_mem_nil, or_false] at hj
    rcases hj with rfl | rfl
    · exact h.2.1
    · exact (h.2.2 j rfl).trans hi
  | _ => exact (h.below hj j rfl).trans hi

end Op

/-! ### What is added -/

namespace Builder

variable {P : Builder → Builder → Op → Prop} {S S₁ S₂ : Set Link} {b b₁ b₂ : Builder} {i k : ℕ}
  {op op' : Op}

theorem push_ops_cases (h : (b.push op).2.ops[k]? = some op') :
    b.ops[k]? = some op' ∨ k = b.ops.size ∧ op' = op := by
  simp only [push, Array.getElem?_push] at h
  split at h
  · exact .inr ⟨‹_›, (Option.some.inj h).symm⟩
  · exact .inl h

theorem push_ops_of_lt (h : k < b.ops.size) : (b.push op).2.ops[k]? = b.ops[k]? := by
  simp only [push, Array.getElem?_push]
  rw [if_neg (by omega)]

theorem patch_ops_cases (h : (b.patch i op).ops[k]? = some op') :
    k = i ∧ op' = op ∨ i ≠ k ∧ b.ops[k]? = some op' := by
  simp only [patch, Array.getElem?_setIfInBounds] at h
  split at h
  · split at h
    · exact .inl ⟨by omega, (Option.some.inj h).symm⟩
    · cases h
  · exact .inr ⟨‹_›, h⟩

theorem patch_ops_of_ne (h : i ≠ k) : (b.patch i op).ops[k]? = b.ops[k]? := by
  simp [patch, h]

theorem patch_ops_self (h : i < b.ops.size) : (b.patch i op).ops[i]? = some op := by
  simp only [patch]
  exact Array.getElem?_setIfInBounds_self_of_lt h

@[simp] theorem size_push : (b.push op).2.ops.size = b.ops.size + 1 := by simp [push]

@[simp] theorem size_reserve : b.reserve.ops.size = b.ops.size + 1 := by simp [reserve]

@[simp] theorem size_patch : (b.patch i op).ops.size = b.ops.size := by simp [patch]

/-- The indices in scope, and those of the operations added since. -/
def Reach (S : Set Link) (b b₁ : Builder) : Set ℕ :=
  {j | some j ∈ S ∨ b.ops.size ≤ j ∧ j < b₁.ops.size}

/-- In the body of a closure only the closure is in scope, and it is added too.
So what the body leads to lies from the closure's place on. -/
theorem reach_reserve_subset (h : b.ops.size < b₁.ops.size) :
    Reach {some b.ops.size} b.reserve b₁ ⊆ {j | b.ops.size ≤ j ∧ j < b₁.ops.size} := by
  rintro j (hj | ⟨hle, hlt⟩)
  · cases hj
    exact ⟨le_rfl, h⟩
  · rw [size_reserve] at hle
    exact ⟨by omega, hlt⟩

namespace Grows

/-- The place of a closure comes before all of its body, as it is reserved
first. -/
theorem lt_of_reserve (h : Grows P S b.reserve S₁ b₁) : b.ops.size < b₁.ops.size := by
  have := h.added.size_le
  rwa [size_reserve] at this

/-- What is in scope afterward was in scope before, or it was added in between. -/
theorem scope_subset (h : Grows P S b S₁ b₁) : {j | some j ∈ S₁} ⊆ Reach S b b₁ := by
  induction h with
  | refl => exact fun j hj => .inl hj
  | trans h h' ih ih' =>
    intro j hj
    have := h.added.size_le
    have := h'.added.size_le
    rcases ih' hj with hj | hj
    · exact (ih hj).imp_right (by omega)
    · exact .inr (by omega)
  | push =>
    rintro j (hj | hj)
    · cases hj
      exact .inr (by simp)
    · exact .inl hj
  | body inner _ outer _ _ _ _ ih' =>
    have := inner.added.size_le
    have := outer.added.size_le
    rintro j (hj | hj)
    · cases hj
      exact .inr (by simp; omega)
    · exact (ih' hj).imp_right (by simp; omega)
  | closure inner _ _ _ _ =>
    rintro j (hj | hj)
    · cases hj
      exact .inr ⟨le_rfl, by rw [size_patch]; exact inner.lt_of_reserve⟩
    · exact .inl hj

/-- The body of a closure begins at or behind the closure's place. -/
theorem child_mem (h : Grows P {some b.ops.size} b.reserve S₁ b₁) {child : Link}
    (hchild : child ∈ S₁) :
    b.ops.size ≤ child.getD b.ops.size ∧ child.getD b.ops.size < b₁.ops.size := by
  cases child with
  | none => exact ⟨le_rfl, h.lt_of_reserve⟩
  | some c => exact reach_reserve_subset h.lt_of_reserve (h.scope_subset hchild)

/-- Added operations lead to what is in scope, and to each other.  Nothing that
was there before and is out of scope is led to. -/
theorem target_mem (h : Grows P S b S₁ b₁) {j : ℕ} (hk : b.ops.size ≤ k)
    (hop : b₁.ops[k]? = some op) (hj : some j ∈ op.targets) : j ∈ Reach S b b₁ := by
  induction h generalizing k op with
  | refl => exact absurd (Array.getElem?_eq_some_iff.mp hop).1 (by omega)
  | trans h h' ih ih' =>
    have := h.added.size_le
    have := h'.added.size_le
    rcases lt_or_ge k _ with hlt | hge
    · exact (ih hk ((h'.added.keeps k hlt).symm.trans hop) hj).imp_right (by omega)
    · rcases ih' hge hop hj with hj | hj
      · exact (h.scope_subset hj).imp_right (by omega)
      · exact .inr (by omega)
  | push _ hlinks hbody =>
    rcases push_ops_cases hop with hop | ⟨-, rfl⟩
    · exact absurd (Array.getElem?_eq_some_iff.mp hop).1 (by omega)
    · rw [Op.targets, hbody, Option.toList_none, List.append_nil] at hj
      exact .inl (hlinks _ hj)
  | @body S b T b₁ S₁ b₂ op' child inner hchild outer _ hlinks hbody ih ih' =>
    have := inner.added.size_le
    have := outer.added.size_le
    rcases push_ops_cases hop with hop | ⟨-, rfl⟩
    · rcases lt_or_ge k b₁.ops.size with hlt | hge
      · rcases ih hk ((outer.added.keeps k hlt).symm.trans hop) hj with hj | hj
        · cases hj
        · exact .inr (by simp; omega)
      · exact (ih' hge hop hj).imp_right (by simp; omega)
    · rw [Op.targets, hbody, Option.toList_some, List.mem_append, List.mem_singleton] at hj
      rcases hj with hj | rfl
      · exact (outer.scope_subset (hlinks _ hj)).imp_right (by simp; omega)
      · rcases inner.scope_subset hchild with hj | hj
        · cases hj
        · exact .inr (by simp; omega)
  | @closure S b T b₁ child greedy next inner hchild hnext _ ih =>
    rcases patch_ops_cases hop with ⟨-, rfl⟩ | ⟨hne, hop⟩
    · simp only [Op.targets, Op.links, Op.child?, Option.toList_none, List.append_nil,
        List.mem_cons, Option.some.injEq, List.not_mem_nil, or_false] at hj
      rcases hj with rfl | rfl
      · exact .inr (by rw [size_patch]; exact inner.child_mem hchild)
      · exact .inl hnext
    · have hj := ih (by rw [size_reserve]; omega) hop hj
      exact .inr (by rw [size_patch]; exact reach_reserve_subset inner.lt_of_reserve hj)

/-- An added closure encloses its body.  Operations that are added later lie
behind the body and change nothing of it. -/
theorem exists_encloses (h : Grows P S b S₁ b₁) {id child : ℕ} {greedy : Bool} {next : Link}
    (hk : b.ops.size ≤ k) (hop : b₁.ops[k]? = some (.closure id child greedy next)) :
    ∃ stop, Op.Encloses b₁.ops k child stop := by
  induction h generalizing k with
  | refl => exact absurd (Array.getElem?_eq_some_iff.mp hop).1 (by omega)
  | @trans S b S₁ b₁ S₂ b₂ h h' ih ih' =>
    rcases lt_or_ge k b₁.ops.size with hlt | hge
    · obtain ⟨stop, hstop⟩ := ih hk ((h'.added.keeps k hlt).symm.trans hop)
      exact ⟨stop, hstop.mono h'.added.size_le fun m hm _ =>
        h'.added.keeps m (hm.trans_le hstop.stop_le)⟩
    · exact ih' hge hop
  | push _ _ _ hclosure =>
    rcases push_ops_cases hop with hop | ⟨-, rfl⟩
    · exact absurd (Array.getElem?_eq_some_iff.mp hop).1 (by omega)
    · cases hclosure
  | @body S b T b₁ S₁ b₂ op' link inner _ outer _ _ hbody ih ih' =>
    rcases push_ops_cases hop with hop | ⟨-, rfl⟩
    · rcases lt_or_ge k b₁.ops.size with hlt | hge
      · obtain ⟨stop, hstop⟩ := ih hk ((outer.added.keeps k hlt).symm.trans hop)
        have hle := outer.added.size_le
        refine ⟨stop, hstop.mono (by rw [size_push]; omega) fun m hm _ => ?_⟩
        have hm := hm.trans_le hstop.stop_le
        rw [push_ops_of_lt (by omega), outer.added.keeps m hm]
      · obtain ⟨stop, hstop⟩ := ih' hge hop
        exact ⟨stop, hstop.mono (by simp) fun m hm _ =>
          push_ops_of_lt (hm.trans_le hstop.stop_le)⟩
    · cases hbody
  | @closure S b T b₁ child' greedy' next' inner hchild _ _ ih =>
    rcases patch_ops_cases hop with ⟨rfl, heq⟩ | ⟨hne, hop⟩
    · -- The closure encloses all that was added after its place was taken.
      cases heq
      obtain ⟨hle, hlt⟩ := inner.child_mem hchild
      refine ⟨b₁.ops.size, hle, hlt, size_patch.ge, fun m op j hkm _ hop hj => ?_⟩
      rw [patch_ops_of_ne hkm.ne] at hop
      exact reach_reserve_subset inner.lt_of_reserve
        (inner.target_mem (by rw [size_reserve]; omega) hop hj)
    · obtain ⟨stop, hstop⟩ := ih (by rw [size_reserve]; omega) hop
      exact ⟨stop, hstop.mono (by simp) fun m _ hkm => patch_ops_of_ne (by omega)⟩

/-- Every new number is the number of an added closure, so no number is left
out. -/
theorem exists_closure (h : Grows P S b S₁ b₁) {id : ℕ} (hid : b.closureLen ≤ id)
    (hlt : id < b₁.closureLen) : ∃ k child greedy next,
      b.ops.size ≤ k ∧ b₁.ops[k]? = some (Op.closure id child greedy next) := by
  induction h with
  | refl => omega
  | @trans S b S₁ b₁ S₂ b₂ h h' ih ih' =>
    rcases lt_or_ge id b₁.closureLen with hlt₁ | hge
    · obtain ⟨k, child, greedy, next, hk, hop⟩ := ih hid hlt₁
      have hsize := (Array.getElem?_eq_some_iff.mp hop).1
      exact ⟨k, child, greedy, next, hk, (h'.added.keeps k hsize).trans hop⟩
    · obtain ⟨k, child, greedy, next, hk, hop⟩ := ih' hge hlt
      exact ⟨k, child, greedy, next, h.added.size_le.trans hk, hop⟩
  | push => exact absurd hlt hid.not_gt
  | @body S b T b₁ S₁ b₂ op' link inner _ outer _ _ _ ih ih' =>
    rcases lt_or_ge id b₁.closureLen with hlt₁ | hge
    · obtain ⟨k, child, greedy, next, hk, hop⟩ := ih hid hlt₁
      have hsize := (Array.getElem?_eq_some_iff.mp hop).1
      have hop := (outer.added.keeps k hsize).trans hop
      exact ⟨k, child, greedy, next, hk,
        (push_ops_of_lt (hsize.trans_le outer.added.size_le)).trans hop⟩
    · obtain ⟨k, child, greedy, next, hk, hop⟩ := ih' hge hlt
      have hsize := (Array.getElem?_eq_some_iff.mp hop).1
      exact ⟨k, child, greedy, next, inner.added.size_le.trans hk,
        (push_ops_of_lt hsize).trans hop⟩
  | @closure S b T b₁ child' greedy' next' inner _ _ _ ih =>
    rcases hid.eq_or_lt with rfl | hlt'
    · exact ⟨b.ops.size, child'.getD b.ops.size, greedy', next', le_rfl,
        patch_ops_self inner.lt_of_reserve⟩
    · obtain ⟨k, child, greedy, next, hk, hop⟩ := ih hlt' hlt
      rw [size_reserve] at hk
      exact ⟨k, child, greedy, next, by omega, (patch_ops_of_ne (by omega)).trans hop⟩

end Grows

end Builder

/-! ### The graph of a program -/

namespace Program

/-- Whether an operation of a program leads to another one. -/
def LinksTo (p : Program) (i j : ℕ) : Prop := ∃ op, p.ops[i]? = some op ∧ some j ∈ op.targets

/-- Whether an operation of a program is a closure with the number `id`. -/
def ClosureAt (p : Program) (i id : ℕ) : Prop :=
  ∃ child greedy next, p.ops[i]? = some (Op.closure id child greedy next)

/-- Whether operation `k` is reached from operation `j` on a way that nowhere
comes to operation `i`. -/
def ReachedPast (p : Program) (i j k : ℕ) : Prop :=
  j ≠ i ∧ Relation.ReflTransGen (fun a b => p.LinksTo a b ∧ b ≠ i) j k

/-- The shape of programs.  The fields speak of operations by their indices, and
of cycles by the relation `LinksTo`. -/
structure IsShaped (p : Program) : Prop where
  /-- The program starts at one of its operations. -/
  start_lt : ∀ j, p.start = some j → j < p.ops.size
  /-- Operations lead to operations. -/
  linksTo_lt : ∀ i j, p.LinksTo i j → j < p.ops.size
  /-- All links but those from closures to their bodies go down. -/
  downward_lt : ∀ (i : ℕ) (op : Op) (j : ℕ), p.ops[i]? = some op → some j ∈ op.downward → j < i
  /-- The body of a closure lies above it, all of it. -/
  body_above : ∀ (i id child : ℕ) (greedy : Bool) (next : Link),
    p.ops[i]? = some (.closure id child greedy next) →
      i ≤ child ∧ ∀ k, p.ReachedPast i child k → i < k
  /-- Every place that was taken is filled. -/
  ne_fail : ∀ i : ℕ, p.ops[i]? ≠ some Op.fail
  /-- Closures have the numbers below `closureLen`. -/
  number_lt : ∀ i id, p.ClosureAt i id → id < p.closureLen
  /-- Each of these numbers is the number of one closure. -/
  existsUnique_closure : ∀ id < p.closureLen, ∃! i, p.ClosureAt i id
  /-- A way that comes back to where it began passes a closure. -/
  closure_on_cycle : ∀ i path, List.IsChain p.LinksTo (i :: path ++ [i]) →
    ∃ k ∈ i :: path, ∃ id, p.ClosureAt k id

/-- A way without closures goes down, however long it is.  In particular it does
not come back to where it began. -/
theorem lt_of_isChain {p : Program} {i j : ℕ} {path : List ℕ}
    (h : List.IsChain p.LinksTo (i :: path ++ [j]))
    (hclosures : ∀ k ∈ i :: path, ∀ id, ¬ p.ClosureAt k id) : j < i := by
  -- One step goes down, because the operation it leaves is no closure.
  have hdown : ∀ k ∈ i :: path, ∀ l, p.LinksTo k l → l < k := by
    rintro k hk l ⟨op, hop, hl⟩
    have hdownward : some l ∈ op.downward := by
      cases op with
      | closure id child greedy next => exact absurd ⟨child, greedy, next, hop⟩ (hclosures k hk id)
      | _ => exact hl
    exact (p.linked k op hop).below hdownward l rfl
  clear hclosures
  induction path generalizing i with
  | nil => exact hdown i List.mem_cons_self j (List.isChain_cons_cons.mp h).1
  | cons k path ih =>
    obtain ⟨hlink, h⟩ := List.isChain_cons_cons.mp h
    have hlt := ih h fun l hl => hdown l (List.mem_cons_of_mem _ hl)
    exact hlt.trans (hdown i List.mem_cons_self k hlink)

/-- What is reached from the body of a closure without coming to the closure
lies above it. -/
theorem lt_of_reachedPast {p : Program} {i child stop k : ℕ}
    (hencloses : Op.Encloses p.ops i child stop) (h : p.ReachedPast i child k) : i < k := by
  obtain ⟨hne, h⟩ := h
  have hinside : i < k ∧ k < stop := by
    induction h with
    | refl => exact ⟨lt_of_le_of_ne hencloses.le_child hne.symm, hencloses.child_lt⟩
    | tail _ hstep ih =>
      obtain ⟨⟨op, hop, hj⟩, hne⟩ := hstep
      obtain ⟨hle, hlt⟩ := hencloses.closed _ op _ ih.1 ih.2 hop hj
      exact ⟨lt_of_le_of_ne hle hne.symm, hlt⟩
  exact hinside.1

/-- No part of a pattern emits an operation that never matches. -/
theorem ofPattern_ne_fail (p : Pattern) (i : ℕ) : (ofPattern p).ops[i]? ≠ some .fail := by
  intro hop
  obtain ⟨q, -, b, b', -, hemits⟩ := exists_part p hop
  cases hemits

/-- The shape of the program of a pattern: links are in range and go down,
except for those from closures to their bodies; a body lies above its closure
and leads out of itself through the closure only; no operation is left that only
took a place; and the closures are numbered in sequence. -/
theorem ofPattern_isShaped (p : Pattern) : (ofPattern p).IsShaped where
  start_lt j hj := (ofPattern p).start_below j hj
  linksTo_lt i j := by
    rintro ⟨op, hop, hj⟩
    exact ((ofPattern p).linked i op hop).target_lt (Array.getElem?_eq_some_iff.mp hop).1 hj
  downward_lt i op j hop hj := ((ofPattern p).linked i op hop).below hj j rfl
  body_above i id child greedy next hop := by
    obtain ⟨S, hgrows, -⟩ := ofPattern_grows p
    obtain ⟨stop, hencloses⟩ := hgrows.exists_encloses (Nat.zero_le i) hop
    exact ⟨hencloses.le_child, fun k hk => lt_of_reachedPast (p := ofPattern p) hencloses hk⟩
  ne_fail := ofPattern_ne_fail p
  number_lt i id := by
    rintro ⟨child, greedy, next, hop⟩
    exact ((ofPattern p).linked i _ hop).1
  existsUnique_closure id hid := by
    obtain ⟨S, hgrows, -⟩ := ofPattern_grows p
    obtain ⟨k, child, greedy, next, -, hop⟩ := hgrows.exists_closure (Nat.zero_le id) hid
    refine ⟨k, ⟨child, greedy, next, hop⟩, ?_⟩
    rintro k' ⟨child', greedy', next', hop'⟩
    exact closure_unique p hop' hop
  closure_on_cycle i path h := by
    by_contra hnone
    exact lt_irrefl i (lt_of_isChain h fun k hk id hclosure => hnone ⟨k, hk, id, hclosure⟩)

end Program

end Regexp
