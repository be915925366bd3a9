import Mathlib.Data.Set.Insert
import Regexp.Proofs.Exploration
import Regexp.Proofs.Growth

/-!
# Paths through a program

The ways through a program and a text, without any order in which they would be
tried.  A search in depth finds one of these ways, and which of them it finds
does not matter for whether there is one.

## Matches within the match

An operation with a body of its own goes on depending on how its body ends.
That would make the definition of paths depend on paths not existing, for a
negative lookaround.  So what a match within the match comes to is a parameter
of `Move` and `Reaches`, a relation of type `Endings`; it is instantiated by
what a machine finds as well as by `Ends`, where a body ends where a path
through it ends.  In `Ends` the dependence can be dropped: a match within the
match that is not `strict` may always be taken to have failed.

Bodies lie in the same array as the operations around them, and no link leads
from one into the other.  The owner of an operation is the one whose body it
belongs to (`LinkIn`), and a path stays with the operations of one owner,
`Move.linkIn`.  A body comes before the operation that runs it, so that what is
said of bodies can be said by recursion on the index, as `ends_some_iff` does.

## Marks to avoid

A path may have to avoid marks: closures with offsets at which it must not enter
them.  This is how what a machine can still find after it has entered closures
is compared with what there is to find.  `Reaches.avoid_or_hit` divides paths by
whether they avoid further marks, and for one that does not it gives the part
from the last mark on, which avoids it from there.

## Main definitions

* `Move`, `Reaches` — one operation of a path, and a path to the end of the
  program.
* `Ends` — how a match within the match may end.

## Main statements

* `move_iff` — the moves from an operation, kind by kind.
* `Reaches.avoid_or_hit` — a path avoids further marks, or it comes to one of
  them.
* `ends_some_iff`, `ends_none_iff` — a match within the match may end where a
  path through its body ends, and fails for certain if there is none.
-/

namespace Regexp

/-- The ends that the match which begins at an operation may have, where `none`
says that it fails.  It is a relation and not a function: a body may have many
ways through, and a path takes any of their ends. -/
abbrev Endings := ℕ → Mode → ℕ → Option ℕ → Prop

/-- One operation of a path, from its index and an offset to a link and an
offset.  An atom may read with any slots, and a test of a group may come out
either way, so that a path can be followed without knowing what was captured.  A
closure is entered only at offsets that need not be avoided, and an operation
with a body goes on from one of the ends that the `Endings` allow. -/
inductive Move (a : Attempt) (O : Endings) (avoid : Set (ℕ × ℕ)) (m : Mode) :
    ℕ → ℕ → Link → ℕ → Prop
  | read {k i atom next j slots} (hop : a.program.ops[k]? = some (.atom atom next))
    (hread : a.read atom m.opts m.reverse i slots = .ok (some j)) : Move a O avoid m k i next j
  | choose {k i op l} (hop : a.program.ops[k]? = some op) (hc : op.isChoice = true)
    (hl : l ∈ op.branches) : Move a O avoid m k i l i
  | enter {k i id child greedy next l}
    (hop : a.program.ops[k]? = some (.closure id child greedy next)) (hfree : (id, i) ∉ avoid)
    (hl : l ∈ (Op.closure id child greedy next).branches) : Move a O avoid m k i l i
  | mark {k i group edge next} (hop : a.program.ops[k]? = some (.mark group edge next)) :
    Move a O avoid m k i next i
  | test {k i group yes no l} (hop : a.program.ops[k]? = some (.ifGroup group yes no))
    (hl : l = yes ∨ l = no) : Move a O avoid m k i l i
  | resume {k i op child m' stop j l} (hop : a.program.ops[k]? = some op)
    (hb : op.body? m = some (child, m')) (hO : O k m i stop)
    (hgo : op.resume? i stop = some (.go j l)) : Move a O avoid m k i l j

/-- A path of some length from a link and an offset to the end of the program at
an offset.  The length is what proofs about paths are by induction on, because
links may go up. -/
inductive Reaches (a : Attempt) (O : Endings) (avoid : Set (ℕ × ℕ)) (m : Mode) :
    ℕ → Link → ℕ → ℕ → Prop
  | done {i} : Reaches a O avoid m 0 none i i
  | step {n k i l j e} (move : Move a O avoid m k i l j) (rest : Reaches a O avoid m n l j e) :
    Reaches a O avoid m (n + 1) (some k) i e

/-- Whether a path leads through the body of an operation, in the mode that the
operation sets for it (`Op.body?`). -/
def BodyReaches (a : Attempt) (O : Endings) (avoid : Set (ℕ × ℕ)) (k : ℕ) (m : Mode)
    (i j : ℕ) : Prop :=
  ∃ op child m' n, a.program.ops[k]? = some op ∧ op.body? m = some (child, m') ∧
    Reaches a O avoid m' n child i j

/-- How a match within the match may end: where a path through its body ends,
and without a match if there is no such path, or in any case unless this is
`strict`.  A body lies below the operation that runs it, hence the recursion on
the index, with the bodies within the body left to smaller ones. -/
def Ends (a : Attempt) (strict : Bool) (k : ℕ) (m : Mode) (i : ℕ) : Option ℕ → Prop
  | some j => BodyReaches a (fun k' m' i' stop => ∃ _ : k' < k, Ends a strict k' m' i' stop) ∅ k m
      i j
  | none => strict = true → ¬ ∃ j, BodyReaches a
      (fun k' m' i' stop => ∃ _ : k' < k, Ends a strict k' m' i' stop) ∅ k m i j
  termination_by k

variable {a : Attempt} {O O' : Endings} {avoid avoid' : Set (ℕ × ℕ)} {m : Mode} {n k i j e o : ℕ}
  {link : Link} {own : ℕ → ℕ} {strict : Bool}

/-! ### Owners -/

/-- Whether a link leads to an operation of an owner, if it leads anywhere.  The
end of the program belongs to every owner. -/
def LinkIn (own : ℕ → ℕ) (o : ℕ) (link : Link) : Prop := ∀ k, link = some k → own k = o

theorem linkIn_some (h : own k = o) : LinkIn own o (some k) := by
  intro j hj
  cases hj
  exact h

theorem linksIn_singleton (h : LinkIn own o link) : ∀ l ∈ [link], LinkIn own o l :=
  List.forall_mem_singleton.mpr h

theorem linksIn_head {ls : List Link} (h : ∀ l ∈ link :: ls, LinkIn own o l) :
    ∀ l ∈ [link], LinkIn own o l :=
  linksIn_singleton (h link List.mem_cons_self)

theorem linksIn_tail {ls : List Link} (h : ∀ l ∈ link :: ls, LinkIn own o l) :
    ∀ l ∈ ls, LinkIn own o l :=
  (List.forall_mem_cons.mp h).2

/-- An operation that can be explored for an owner belongs to it.  It is the
case of a single link. -/
theorem own_eq_of_links (h : ∀ l ∈ [some k], LinkIn own o l) : own k = o :=
  List.forall_mem_singleton.mp h k rfl

/-- The branches of an operation are among its links, in whichever order they
are tried. -/
theorem Op.branches_subset_links (op : Op) : op.branches ⊆ op.links := by
  intro l hl
  cases op with
  | union links => exact hl
  | closure id child greedy next => cases greedy <;> simp_all [Op.branches, Op.links, or_comm]
  | question child greedy next => cases greedy <;> simp_all [Op.branches, Op.links, or_comm]
  | _ => simp [Op.branches] at hl

/-- A match within the match goes on at one of the operation's links. -/
theorem Op.resume?_mem_links {op : Op} {stop : Option ℕ} {l : Link}
    (h : op.resume? i stop = some (.go j l)) : l ∈ op.links := by
  cases op with
  | look kind child next =>
    simp only [Op.resume?] at h
    split at h <;> simp_all [Op.links]
  | independent child next => cases stop <;> simp_all [Op.resume?, Op.links]
  | modifier add remove child next => cases stop <;> simp_all [Op.resume?, Op.links]
  | ifLook test yes no =>
    cases h
    cases stop <;> simp [Op.links]
  | _ => simp [Op.resume?] at h

theorem Op.child?_of_body {op : Op} {child : Link} {m' : Mode}
    (h : op.body? m = some (child, m')) : op.child? = some child := by
  cases op <;> simp [Op.body?] at h <;> obtain ⟨rfl, rfl⟩ := h <;> rfl

/-- The moves from an operation, kind by kind.  With the operation known, the
right side computes, so that proofs need no case analysis of `Move`. -/
theorem move_iff {op : Op} (hop : a.program.ops[k]? = some op) :
    Move a O avoid m k i link j ↔ match op with
    | .atom atom next =>
      link = next ∧ ∃ slots, a.read atom m.opts m.reverse i slots = .ok (some j)
    | .union _ | .question _ _ _ => link ∈ op.branches ∧ j = i
    | .closure id _ _ _ => (id, i) ∉ avoid ∧ link ∈ op.branches ∧ j = i
    | .mark _ _ next => link = next ∧ j = i
    | .ifGroup _ yes no => (link = yes ∨ link = no) ∧ j = i
    | .look _ _ _ | .independent _ _ | .modifier _ _ _ _ | .ifLook _ _ _ =>
      ∃ stop, O k m i stop ∧ op.resume? i stop = some (.go j link)
    | .fail => False := by
  constructor
  · intro h
    cases h with
    | read hop' hread => cases hop.symm.trans hop'; exact ⟨rfl, _, hread⟩
    | enter hop' hfree hl => cases hop.symm.trans hop'; exact ⟨hfree, hl, rfl⟩
    | mark hop' => cases hop.symm.trans hop'; exact ⟨rfl, rfl⟩
    | test hop' hl => cases hop.symm.trans hop'; exact ⟨hl, rfl⟩
    | choose hop' hc hl =>
      cases hop.symm.trans hop'
      cases op <;> simp_all [Op.isChoice]
    | resume hop' hb hO hgo =>
      cases hop.symm.trans hop'
      cases op <;> first | exact ⟨_, hO, hgo⟩ | simp [Op.body?] at hb
  · intro h
    cases op with
    | atom atom next =>
      obtain ⟨rfl, slots, hread⟩ := h
      exact .read hop hread
    | union | question =>
      obtain ⟨hl, rfl⟩ := h
      exact .choose hop rfl hl
    | closure =>
      obtain ⟨hfree, hl, rfl⟩ := h
      exact .enter hop hfree hl
    | mark =>
      obtain ⟨rfl, rfl⟩ := h
      exact .mark hop
    | ifGroup =>
      obtain ⟨hl, rfl⟩ := h
      exact .test hop hl
    | look | independent | modifier | ifLook =>
      obtain ⟨stop, hO, hgo⟩ := h
      exact .resume hop rfl hO hgo
    | fail => exact h.elim

/-- A path moves along the links of operations, whichever kind of move it makes. -/
theorem Move.exists_link (h : Move a O avoid m k i link j) :
    ∃ op, a.program.ops[k]? = some op ∧ link ∈ op.links := by
  cases h with
  | read hop => exact ⟨_, hop, List.mem_singleton.mpr rfl⟩
  | choose hop _ hl => exact ⟨_, hop, Op.branches_subset_links _ hl⟩
  | enter hop _ hl => exact ⟨_, hop, Op.branches_subset_links _ hl⟩
  | mark hop => exact ⟨_, hop, List.mem_singleton.mpr rfl⟩
  | test hop hl => exact ⟨_, hop, by simpa [Op.links] using hl⟩
  | resume hop _ _ hgo => exact ⟨_, hop, Op.resume?_mem_links hgo⟩

section Owned

variable (hown : a.program.Owned own)

include hown

theorem LinkIn.of_links {op : Op} (hop : a.program.ops[k]? = some op) (hl : link ∈ op.links) :
    LinkIn own (own k) link := by
  rintro j rfl
  exact hown.links k op j hop hl

theorem LinkIn.of_child {op : Op} {child : Link} (hop : a.program.ops[k]? = some op)
    (hl : op.child? = some child) : LinkIn own k child := by
  rintro j rfl
  exact hown.child k op j hop hl

/-- The links of an operation belong to the owner that it belongs to. -/
theorem linksIn_links {op : Op} (h : ∀ l ∈ [some k], LinkIn own o l)
    (hop : a.program.ops[k]? = some op) : ∀ l ∈ op.links, LinkIn own o l :=
  fun _ hl => own_eq_of_links h ▸ .of_links hown hop hl

theorem linksIn_branches {op : Op} (h : ∀ l ∈ [some k], LinkIn own o l)
    (hop : a.program.ops[k]? = some op) : ∀ l ∈ op.branches, LinkIn own o l :=
  fun l hl => linksIn_links hown h hop l (op.branches_subset_links hl)

theorem linksIn_test {group : ℕ} {yes no : Link} {b : Bool} (h : ∀ l ∈ [some k], LinkIn own o l)
    (hop : a.program.ops[k]? = some (.ifGroup group yes no)) :
    ∀ l ∈ [if b then yes else no], LinkIn own o l := by
  refine linksIn_singleton (linksIn_links hown h hop _ ?_)
  cases b <;> simp [Op.links]

theorem linksIn_resume {op : Op} {stop : Option ℕ} (h : ∀ l ∈ [some k], LinkIn own o l)
    (hop : a.program.ops[k]? = some op) (hgo : op.resume? i stop = some (.go j link)) :
    ∀ l ∈ [link], LinkIn own o l :=
  linksIn_singleton (linksIn_links hown h hop _ (Op.resume?_mem_links hgo))

/-- A body belongs to the operation that runs it. -/
theorem linksIn_body {op : Op} {child : Link} {m' : Mode} (hop : a.program.ops[k]? = some op)
    (hb : op.body? m = some (child, m')) : ∀ l ∈ [child], LinkIn own k l :=
  linksIn_singleton (.of_child hown hop (Op.child?_of_body hb))

/-- A path stays with the operations of one owner, since it does not follow the
link to a body. -/
theorem Move.linkIn (h : Move a O avoid m k i link j) : LinkIn own (own k) link := by
  obtain ⟨op, hop, hl⟩ := h.exists_link
  exact .of_links hown hop hl

/-- A path depends on the matches within the match that have the owner of its
operations. -/
theorem Reaches.congr_endings (h : Reaches a O avoid m n link i e) (hlink : LinkIn own o link)
    (hO : ∀ k' m' i' stop, k' < o → O k' m' i' stop → O' k' m' i' stop) :
    Reaches a O' avoid m n link i e := by
  induction h with
  | done => exact .done
  | @step n k i l j e move rest ih =>
    have hk := hlink k rfl
    refine .step ?_ (ih (hk ▸ move.linkIn hown))
    cases move with
    | read hop hread => exact .read hop hread
    | choose hop hc hl => exact .choose hop hc hl
    | enter hop hfree hl => exact .enter hop hfree hl
    | mark hop => exact .mark hop
    | test hop hl => exact .test hop hl
    | resume hop hb hE hgo => exact .resume hop hb (hO _ _ _ _ (hk ▸ hown.lt k _ hop) hE) hgo

/-- What lies in the body of an operation comes before it, and the bound in the
recursion of `Ends` can be left out. -/
theorem bodyReaches_ends_iff :
    BodyReaches a (fun k' m' i' stop => ∃ _ : k' < k, Ends a strict k' m' i' stop) avoid k m i j ↔
      BodyReaches a (Ends a strict) avoid k m i j := by
  constructor
  · rintro ⟨op, child, m', n, hop, hb, h⟩
    exact ⟨op, child, m', n, hop, hb, h.congr_endings hown
      (.of_child hown hop (Op.child?_of_body hb)) fun _ _ _ _ _ ⟨_, h⟩ => h⟩
  · rintro ⟨op, child, m', n, hop, hb, h⟩
    exact ⟨op, child, m', n, hop, hb, h.congr_endings hown
      (.of_child hown hop (Op.child?_of_body hb)) fun _ _ _ _ hlt h => ⟨hlt, h⟩⟩

/-- A match within the match may end where a path through its body ends.  The
path begins where the operation does. -/
theorem ends_some_iff :
    Ends a strict k m i (some j) ↔ BodyReaches a (Ends a strict) ∅ k m i j := by
  rw [Ends, bodyReaches_ends_iff hown]

/-- A match within the match fails for certain if no path leads through its
body. -/
theorem ends_none_iff : Ends a strict k m i none ↔
    (strict = true → ¬ ∃ j, BodyReaches a (Ends a strict) ∅ k m i j) := by
  rw [Ends]
  simp only [bodyReaches_ends_iff hown]

end Owned

/-! ### Marks to avoid -/

/-- A path that avoids more avoids less.  In particular it is a path that avoids
nothing. -/
theorem Reaches.mono (hsub : avoid' ⊆ avoid) (h : Reaches a O avoid m n link i e) :
    Reaches a O avoid' m n link i e := by
  induction h with
  | done => exact .done
  | step move _ ih =>
    refine .step ?_ ih
    cases move with
    | read hop hread => exact .read hop hread
    | choose hop hc hl => exact .choose hop hc hl
    | enter hop hfree hl => exact .enter hop (fun h => hfree (hsub h)) hl
    | mark hop => exact .mark hop
    | test hop hl => exact .test hop hl
    | resume hop hb hO hgo => exact .resume hop hb hO hgo

/-- A path avoids further marks, or it comes to one of them.  In the second case
the last one is taken, so that the rest of the path avoids them all from there
on. -/
theorem Reaches.avoid_or_hit (hown : a.program.Owned own) (h : Reaches a O avoid m n link i e)
    (hlink : LinkIn own o link) (Y : Set (ℕ × ℕ)) :
    Reaches a O (avoid ∪ Y) m n link i e ∨
      ∃ k id child greedy next i' n', a.program.ops[k]? = some (.closure id child greedy next) ∧
        own k = o ∧ (id, i') ∈ Y ∧ n' ≤ n ∧ Reaches a O avoid m n' (some k) i' e := by
  -- A mark that the rest of the path comes to is one that the path comes to.
  induction h with
  | done => exact .inl .done
  | @step n k i l j e move rest ih =>
    have hk := hlink k rfl
    rcases ih (hk ▸ move.linkIn hown) with
      h | ⟨k', id, child, greedy, next, i', n', hop, ho, hY, hn, h⟩
    · cases move with
      | read hop hread => exact .inl (.step (.read hop hread) h)
      | choose hop hc hl => exact .inl (.step (.choose hop hc hl) h)
      | @enter id child greedy next _ hop hfree hl =>
        by_cases hY : (id, i) ∈ Y
        · exact .inr ⟨k, id, child, greedy, next, i, n + 1, hop, hk, hY, le_rfl,
            .step (.enter hop hfree hl) rest⟩
        · exact .inl (.step (.enter hop (by simp [hfree, hY]) hl) h)
      | mark hop => exact .inl (.step (.mark hop) h)
      | test hop hl => exact .inl (.step (.test hop hl) h)
      | resume hop hb hO hgo => exact .inl (.step (.resume hop hb hO hgo) h)
    · exact .inr ⟨k', id, child, greedy, next, i', n', hop, ho, hY, by omega, h⟩

end Regexp
