import Regexp.Proofs.Bracketing
import Regexp.Proofs.Course
import Regexp.Proofs.Threading

/-!
# What a group has captured

What the slots of a group say when the machine comes to a reference or to a
condition, told by the path that the machine has come.  The slots are changed by
all that the machine tries and restored when it falls back, so what they hold is
not a matter of the run but of the current path (`currentPath`).

## Slots and the path

A slot holds the offset that has been recorded last for it on the current path,
`Attempt.Course.tracked`.  The proof goes along the path, one operation after
the other (`Tracked`); that falling back restores the slots has been settled
before, in the course of the run.

## What a reference sees

A group in a loop is traversed several times, and each time its two ends are
recorded one after the other.  `traversals` divides what has been recorded into
complete traversals and the one that is in progress.  Between two traversals the
slots hold the two ends of the last complete one.  While a traversal is in
progress, they hold its first end together with the last end of the traversal
before; the machine takes the two for a span if they happen to lie in order.
`Traversals.seen` says just this, and `Attempt.capturedSpan_eq_seen` that it is
what every reference and every condition sees.

For a group that does not lie within itself the two ends take turns
(`Attempt.Course.exists_inTurn`), and while it is open the offset lies behind
its first end, or in a match within the match that has begun there
(`Attempt.Hosts`).  It follows that the span of a complete traversal lies in
order, and that only a traversal in progress can make a group look as if it had
captured something else.  `Attempt.not_capturedSpan_eq_complete_loop` is a run
in which that happens.

## Main definitions

* `passings` — the ends of a group that a path has recorded.
* `traversals` — the complete traversals of the group on a path, and the one
  that is in progress.
* `Traversals.seen` — what a reference sees of them.
* `Attempt.Hosts` — where the offset lies while a group is open.

## Main statements

* `Attempt.Course.tracked` — a slot holds what has been recorded last on the
  current path.
* `Attempt.Course.exists_inTurn` — the ends of a group take turns on a path, and
  they lie in order.
* `Attempt.capturedSpan_eq_seen` — what a group has captured at any state of a
  run.
-/

namespace Regexp

/-! ### Traversals -/

/-- An end of a group that a path has recorded, with the offset at which it did. -/
structure Passing where
  edge : Edge
  offset : ℕ
  deriving DecidableEq

/-- The end of a group that is recorded at a station, if one is.  Stations at
other operations, and at other groups, record none. -/
def Station.passing? (ops : Array Op) (group : ℕ) (x : Station) : Option Passing :=
  match x.link.bind (ops[·]?) with
  | some (.mark group' edge _) => if group' = group then some ⟨edge, x.offset⟩ else none
  | _ => none

/-- The ends of a group that have been recorded on the way to the last station
of a path, the last one first.  At the last station itself the operation has not
been run yet. -/
def passings (ops : Array Op) (group : ℕ) (path : List Station) : List Passing :=
  path.tail.filterMap (Station.passing? ops group)

/-- The span between two ends of a group, in the order of the text: a walk
backward records the stop before the start. -/
def Passing.spanTo (first last : Passing) : Span :=
  match first.edge with
  | .start => ⟨first.offset, last.offset⟩
  | .stop => ⟨last.offset, first.offset⟩

/-- The traversals of a group on a path.  Only the span of a complete one is
kept. -/
structure Traversals where
  /-- The first end of the traversal that is in progress. -/
  current : Option Passing
  /-- The spans of those that are complete, the last one first. -/
  complete : List Span
  deriving DecidableEq

/-- The traversals that consist of the ends of a group: two different ends that
follow each other are a complete one.  If an end is followed by the same end,
then the traversal begins anew with the later one. -/
def traversals : List Passing → Traversals
  | [] => ⟨none, []⟩
  | last :: earlier =>
    let t := traversals earlier
    match t.current with
    | none => ⟨some last, t.complete⟩
    | some first =>
      if first.edge = last.edge then ⟨some last, t.complete⟩
      else ⟨none, first.spanTo last :: t.complete⟩

/-- The offset that has been recorded last for an end of a group, whichever
traversal it belongs to. -/
def lastAt (edge : Edge) (log : List Passing) : Option ℕ :=
  (log.find? (·.edge = edge)).map Passing.offset

/-- The span between two offsets, if both are there and they lie in order.  This
is how a pair of slots is read. -/
def spanBetween : Option ℕ → Option ℕ → Option Span
  | some i, some j => if i ≤ j then some ⟨i, j⟩ else none
  | _, _ => none

/-- What a reference sees: the last complete traversal, but with an end of it
replaced by the one at which a traversal has begun that is in progress.  With
the two out of order it sees nothing. -/
def Traversals.seen (t : Traversals) : Option Span :=
  match t.current with
  | none => t.complete.head?
  | some ⟨.start, i⟩ => spanBetween (some i) (t.complete.head?.map Span.stop)
  | some ⟨.stop, i⟩ => spanBetween (t.complete.head?.map Span.start) (some i)

theorem lastAt_cons (edge : Edge) (last : Passing) (log : List Passing) :
    lastAt edge (last :: log) = if last.edge = edge then some last.offset else lastAt edge log := by
  rw [lastAt, List.find?_cons]
  by_cases h : last.edge = edge <;> simp [h, lastAt]

/-- What the traversals have to do with the offsets that have been recorded
last.  Complete ones lie in order; while none is in progress both ends recorded
last are those of the last complete one, and otherwise one of them has been
replaced. -/
structure Account (log : List Passing) : Prop where
  ordered : ∀ s ∈ (traversals log).complete, s.start ≤ s.stop
  closed : (traversals log).current = none → ∀ edge,
    lastAt edge log = (traversals log).complete.head?.map edge.of
  opened : ∀ first, (traversals log).current = some first → ∀ edge, lastAt edge log =
    if first.edge = edge then some first.offset else (traversals log).complete.head?.map edge.of

namespace Account

variable {log : List Passing} {first last : Passing}

theorem nil : Account [] where
  ordered := by simp [traversals]
  closed _ _ := rfl
  opened _ h := by cases h

/-- A traversal begins, if none is going on, with whichever end of the group is
recorded. -/
theorem opening (h : Account log) (hcurrent : (traversals log).current = none) (last : Passing) :
    Account (last :: log) ∧ (traversals (last :: log)).current = some last := by
  have htraversals : traversals (last :: log) = ⟨some last, (traversals log).complete⟩ := by
    rw [traversals, hcurrent]
  rw [htraversals]
  refine ⟨⟨?_, ?_, ?_⟩, rfl⟩
  · rw [htraversals]
    exact h.ordered
  · rw [htraversals]
    nofun
  · rw [htraversals]
    rintro _ ⟨⟩ edge
    rw [lastAt_cons, h.closed hcurrent]

/-- A traversal comes to its end at the other end of the group, and is complete. -/
theorem closing (h : Account log) (hcurrent : (traversals log).current = some first)
    (hne : first.edge ≠ last.edge) (hle : (first.spanTo last).start ≤ (first.spanTo last).stop) :
    Account (last :: log) ∧ (traversals (last :: log)).current = none := by
  have htraversals : traversals (last :: log) =
      ⟨none, first.spanTo last :: (traversals log).complete⟩ := by
    rw [traversals, hcurrent]
    exact if_neg hne
  rw [htraversals]
  refine ⟨⟨?_, ?_, ?_⟩, rfl⟩
  · rw [htraversals]
    exact List.forall_mem_cons.mpr ⟨hle, h.ordered⟩
  · rw [htraversals]
    rintro - edge
    rw [lastAt_cons, h.opened first hcurrent]
    obtain ⟨e, i⟩ := first
    obtain ⟨e', j⟩ := last
    cases e <;> cases e' <;> cases edge <;> first | rfl | exact absurd rfl hne
  · rw [htraversals]
    nofun

/-- What a reference sees is told by the offsets that have been recorded last,
at either end of the group. -/
theorem seen_eq (h : Account log) :
    spanBetween (lastAt .start log) (lastAt .stop log) = (traversals log).seen := by
  cases hcurrent : (traversals log).current with
  | none =>
    rw [h.closed hcurrent, h.closed hcurrent, Traversals.seen, hcurrent]
    cases hcomplete : (traversals log).complete with
    | nil => rfl
    | cons s _ =>
      have hle := h.ordered s (by simp [hcomplete])
      exact if_pos hle
  | some first =>
    rw [h.opened first hcurrent, h.opened first hcurrent, Traversals.seen, hcurrent]
    obtain ⟨e, i⟩ := first
    cases e <;> rfl

end Account

/-! ### What is recorded on a path -/

namespace Station

variable {ops : Array Op} {group k : ℕ} {op : Op} {x : Station}

theorem passing?_of_mark {edge : Edge} {next : Link} (hlink : x.link = some k)
    (hop : ops[k]? = some (.mark group edge next)) :
    x.passing? ops group = some ⟨edge, x.offset⟩ := by
  simp [passing?, hlink, hop]

theorem passing?_of_ne_mark (hlink : x.link = some k) (hop : ops[k]? = some op)
    (hmark : ∀ edge next, op ≠ .mark group edge next) : x.passing? ops group = none := by
  have hlink' : x.link.bind (ops[·]?) = some op := by rw [hlink, Option.bind_some, hop]
  rw [passing?, hlink']
  cases op with
  | mark group' edge next =>
    refine if_neg ?_
    rintro rfl
    exact hmark edge next rfl
  | _ => rfl

theorem passing?_of_end (hlink : x.link = none) : x.passing? ops group = none := by
  rw [passing?, hlink]
  rfl

end Station

theorem passings_cons {ops : Array Op} {group : ℕ} {x y : Station} {path : List Station} :
    passings ops group (y :: x :: path) =
      (x.passing? ops group).toList ++ passings ops group (x :: path) := by
  simp only [passings, List.tail_cons, List.filterMap_cons]
  cases x.passing? ops group <;> rfl

namespace Attempt

variable {a : Attempt} {group : ℕ} {x₀ x y : Station} {path : List Station}

/-- What is known of a station with the ends of a group that have been recorded
on the way.  In particular the slots hold what was recorded last. -/
structure Tracked (a : Attempt) (group : ℕ) (x : Station) (log : List Passing) : Prop where
  inSpan : a.InSpan x.offset
  levels : ∀ level ∈ x.levels, a.InSpan level.offset
  hasRoom : (Place.mk x.offset x.slots).HasRoom group
  recorded : ∀ edge, (Place.mk x.offset x.slots).recorded group edge = lastAt edge log

/-- Only the offset and the matches within the match have changed, so nothing
was recorded. -/
theorem Tracked.move {log : List Passing} (h : Tracked a group x log) (hslots : y.slots = x.slots)
    (hinSpan : a.InSpan y.offset) (hlevels : ∀ level ∈ y.levels, a.InSpan level.offset) :
    Tracked a group y log where
  inSpan := hinSpan
  levels := hlevels
  hasRoom := by
    rw [hslots]
    exact h.hasRoom
  recorded edge := by
    rw [← h.recorded edge, hslots]
    rfl

/-- What is recorded on the way from one station to the next: an end of the
group if the first station is at one, or else nothing. -/
theorem Advance.tracked {log : List Passing} (hxy : a.Advance x y)
    (hstop : a.span.stop < maxOffset) (h : Tracked a group x log) :
    Tracked a group y ((x.passing? a.program.ops group).toList ++ log) := by
  have hother : x.passing? a.program.ops group = none → Tracked a group y log →
      Tracked a group y ((x.passing? a.program.ops group).toList ++ log) := by
    intro hnone hy
    rwa [hnone]
  cases hxy with
  | read hop hread =>
    exact hother (Station.passing?_of_ne_mark rfl hop (by simp))
      (h.move rfl (read_inSpan h.inSpan hread) h.levels)
  | branch hop hb hmark hl =>
    exact hother (Station.passing?_of_ne_mark rfl hop (hmark group)) (h.move rfl h.inSpan h.levels)
  | begin hop hb =>
    refine hother (Station.passing?_of_ne_mark rfl hop ?_) (h.move rfl h.inSpan ?_)
    · rintro edge next rfl
      cases hb
    · exact List.forall_mem_cons.mpr ⟨h.inSpan, h.levels⟩
  | resume hop hgo =>
    obtain ⟨hlevel, hlevels⟩ := List.forall_mem_cons.mp h.levels
    refine hother (Station.passing?_of_end rfl) (h.move rfl ?_ hlevels)
    rcases (resume?_go hop hgo).2 with rfl | heq
    · exact hlevel
    · cases heq
      exact h.inSpan
  | skip hop hgo =>
    refine hother (Station.passing?_of_ne_mark rfl hop ?_) (h.move rfl ?_ h.levels)
    · rintro edge next rfl
      cases hgo
    · rcases (resume?_go hop hgo).2 with rfl | heq
      · exact h.inSpan
      · cases heq
  | @mark k group' edge next i m ls sl hop =>
    by_cases heq : group = group'
    · subst heq
      rw [Station.passing?_of_mark rfl hop]
      have hroom := h.hasRoom
      refine ⟨h.inSpan, h.levels, Place.hasRoom_record.mpr hroom, fun edge' => ?_⟩
      rw [Option.toList_some, List.singleton_append, lastAt_cons]
      by_cases hedge : edge = edge'
      · subst hedge
        exact (Place.recorded_record_self hroom).trans
          ((slotValue_of_inSpan hstop h.inSpan).trans (if_pos rfl).symm)
      · exact (Place.recorded_record_of_ne fun hne => hedge hne.2.symm).trans
          ((h.recorded edge').trans (if_neg hedge).symm)
    · refine hother (Station.passing?_of_ne_mark rfl hop (by simp [Ne.symm heq])) ?_
      have hroom := h.hasRoom
      refine ⟨h.inSpan, h.levels, Place.hasRoom_record.mpr hroom, fun edge' => ?_⟩
      exact (Place.recorded_record_of_ne fun hne => heq hne.1).trans (h.recorded edge')

/-- **A slot holds what has been recorded last on the current path.**  The
induction is on the path, so what was recorded by operations that have been
taken back plays no part. -/
theorem Course.tracked (h : a.Course x₀ (x :: path)) (hstop : a.span.stop < maxOffset)
    (hstart : Tracked a group x₀ []) :
    Tracked a group x (passings a.program.ops group (x :: path)) := by
  generalize hp : x :: path = p at h
  induction h generalizing x path with
  | start =>
    cases hp
    exact hstart
  | advance _ hxy ih =>
    cases hp
    rw [passings_cons]
    exact hxy.tracked hstop (ih rfl)

/-! ### Groups that are open -/

/-- Whether a group is not open at the operations that run some matches within
the match, so that it may be opened within their bodies. -/
def Idle (a : Attempt) (group : ℕ) (levels : List Level) : Prop :=
  ∀ level ∈ levels, ∀ fuel, Brackets a.program.ops group fuel level.mode.reverse .closed
    (some level.op)

/-- Where the offset lies, by the note of a path and by the first end of the
traversal that is in progress: behind that end, or in a match within the match
that has begun behind it. -/
inductive Hosts (a : Attempt) (group : ℕ) :
    Option Passing → Bool → Note → ℕ → List Level → Prop
  | closed {reverse i levels} (hidle : Idle a group levels) :
    Hosts a group none reverse .closed i levels
  | opened {reverse i levels first} (hidle : Idle a group levels)
    (hedge : first.edge = .opening reverse) (hle : Precedes reverse first.offset i) :
    Hosts a group (some first) reverse .opened i levels
  | barred {reverse i level levels first n}
    (hbody : ∀ op child m', a.program.ops[level.op]? = some op →
      op.body? level.mode = some (child, m') → m'.reverse = reverse)
    (hle : Precedes reverse level.offset i)
    (hbrackets : ∀ fuel, Brackets a.program.ops group fuel level.mode.reverse n (some level.op))
    (outer : Hosts a group (some first) level.mode.reverse n level.offset levels) :
    Hosts a group (some first) reverse .barred i (level :: levels)

/-- Only the offset has changed, and it has moved in the direction of the walk. -/
theorem Hosts.move {current : Option Passing} {reverse : Bool} {n : Note} {i j : ℕ}
    {levels : List Level} (h : Hosts a group current reverse n i levels)
    (hij : Precedes reverse i j) : Hosts a group current reverse n j levels := by
  cases h with
  | closed hidle => exact .closed hidle
  | opened hidle hedge hle => exact .opened hidle hedge (hle.trans hij)
  | barred hbody hle hbrackets outer => exact .barred hbody (hle.trans hij) hbrackets outer

/-- What is known of a station on a path on which the ends of a group take
turns: what follows opens and closes the group in turn, `Brackets`, and what has
been recorded accounts for what is seen, `Account`. -/
structure InTurn (a : Attempt) (group : ℕ) (x : Station) (log : List Passing) (n : Note) :
    Prop where
  brackets : ∀ fuel, Brackets a.program.ops group fuel x.mode.reverse n x.link
  hosts : Hosts a group (traversals log).current x.mode.reverse n x.offset x.levels
  account : Account log

/-- An operation that leaves the note and the matches within the match as they
are. -/
theorem InTurn.move {log : List Passing} {n : Note} {k : ℕ} {op : Op} {l : Link} {j : ℕ}
    {sl : Option Slots} (h : InTurn a group x log n) (hlink : x.link = some k)
    (hop : a.program.ops[k]? = some op) (hmark : ∀ edge next, op ≠ .mark group edge next)
    (hl : l ∈ op.links) (hj : Precedes x.mode.reverse x.offset j) :
    ∃ n', InTurn a group ⟨l, j, x.mode, x.levels, sl⟩
      ((x.passing? a.program.ops group).toList ++ log) n' := by
  rw [Station.passing?_of_ne_mark hlink hop hmark]
  exact ⟨n, Brackets.of_links (hlink ▸ h.brackets) hop hmark hl, h.hosts.move hj, h.account⟩

/-- An end of the group, which it is the turn of.  After it, it is the turn of
the other end. -/
theorem InTurn.mark {log : List Passing} {n : Note} {k : ℕ} {edge : Edge} {next : Link}
    {sl : Option Slots} (h : InTurn a group x log n) (hlink : x.link = some k)
    (hop : a.program.ops[k]? = some (.mark group edge next)) :
    ∃ n', InTurn a group ⟨next, x.offset, x.mode, x.levels, sl⟩
      ((x.passing? a.program.ops group).toList ++ log) n' := by
  rw [Station.passing?_of_mark hlink hop, Option.toList_some, List.singleton_append]
  obtain ⟨n', hn, hlinks, -⟩ := Brackets.exists_after (hlink ▸ h.brackets) hop
  have hbrackets := hlinks next List.mem_cons_self
  have hosts := h.hosts
  generalize hcurrent : (traversals log).current = current at hosts
  rcases Note.after_mark_iff.mp hn with ⟨rfl, hedge, rfl⟩ | ⟨rfl, hedge, rfl⟩
  · cases hosts with
    | closed hidle =>
      obtain ⟨haccount, hcurrent'⟩ := h.account.opening hcurrent ⟨edge, x.offset⟩
      refine ⟨.opened, hbrackets, ?_, haccount⟩
      rw [hcurrent']
      exact .opened hidle hedge .refl
  · cases hosts with
    | @opened _ _ _ first hidle hedge' hle =>
      have hne : first.edge ≠ edge := by
        rw [hedge, hedge']
        cases x.mode.reverse <;> decide
      have hordered : (first.spanTo ⟨edge, x.offset⟩).start ≤
          (first.spanTo ⟨edge, x.offset⟩).stop := by
        rw [Passing.spanTo, hedge']
        revert hle
        cases x.mode.reverse <;> exact id
      obtain ⟨haccount, hcurrent'⟩ := h.account.closing hcurrent hne hordered
      refine ⟨.closed, hbrackets, ?_, haccount⟩
      rw [hcurrent']
      exact .closed hidle

/-- A match within the match begins.  If a traversal is in progress, no end of
the group may stand in its body. -/
theorem InTurn.begin {log : List Passing} {n : Note} {k i : ℕ} {op : Op} {child : Link}
    {m m' : Mode} {ls : List Level} {sl : Option Slots}
    (h : InTurn a group ⟨some k, i, m, ls, sl⟩ log n) (hop : a.program.ops[k]? = some op)
    (hb : op.body? m = some (child, m')) :
    ∃ n', InTurn a group ⟨child, i, m', ⟨k, i, m⟩ :: ls, sl⟩
      (((⟨some k, i, m, ls, sl⟩ : Station).passing? a.program.ops group).toList ++ log) n' := by
  have hmark : ∀ edge next, op ≠ .mark group edge next := by
    rintro edge next rfl
    cases hb
  obtain ⟨n', hn, -, hbody⟩ := Brackets.exists_after h.brackets hop
  rw [Station.passing?_of_ne_mark rfl hop hmark, Option.toList_none, List.nil_append]
  refine ⟨n.inner, hbody m child m' rfl hb, ?_, h.account⟩
  have hdirection : ∀ op' child' m'', a.program.ops[k]? = some op' →
      op'.body? m = some (child', m'') → m''.reverse = m'.reverse := by
    intro op' child' m'' hop' hb'
    cases hop.symm.trans hop'
    cases hb.symm.trans hb'
    rfl
  have hosts : Hosts a group (traversals log).current m.reverse n i ls := h.hosts
  have hbrackets : ∀ fuel, Brackets a.program.ops group fuel m.reverse n (some k) := h.brackets
  generalize (traversals log).current = current at hosts ⊢
  cases hosts with
  | closed hidle =>
    have hidle' : Idle a group (⟨k, i, m⟩ :: ls) := List.forall_mem_cons.mpr ⟨hbrackets, hidle⟩
    exact .closed hidle'
  | opened hidle hedge hle =>
    refine .barred hdirection .refl hbrackets ?_
    exact .opened hidle hedge hle
  | barred hbody' hle hbrackets' outer =>
    refine .barred hdirection .refl hbrackets ?_
    exact .barred hbody' hle hbrackets' outer

/-- A match within the match has ended, and what is around it goes on in its own
direction. -/
theorem InTurn.resume {log : List Passing} {n : Note} {k i i₀ j : ℕ} {op : Op} {l : Link}
    {m m₀ : Mode} {ls : List Level} {sl : Option Slots}
    (h : InTurn a group ⟨none, i, m, ⟨k, i₀, m₀⟩ :: ls, sl⟩ log n)
    (hop : a.program.ops[k]? = some op) (hgo : op.resume? i₀ (some i) = some (.go j l)) :
    ∃ n', InTurn a group ⟨l, j, m₀, ls, sl⟩
      (((⟨none, i, m, ⟨k, i₀, m₀⟩ :: ls, sl⟩ : Station).passing? a.program.ops group).toList ++ log)
        n' := by
  have hmark : ∀ edge next, op ≠ .mark group edge next := by
    rintro edge next rfl
    cases hgo
  rw [Station.passing?_of_end rfl]
  have hl := Op.resume?_mem_links hgo
  have hosts := h.hosts
  have hopened := (h.brackets 0).ne_opened
  generalize hcurrent : (traversals log).current = current at hosts
  cases hosts with
  | closed hidle =>
    obtain ⟨hlevel, hlevels⟩ := List.forall_mem_cons.mp hidle
    refine ⟨.closed, Brackets.of_links hlevel hop hmark hl, ?_, h.account⟩
    rw [Option.toList_none, List.nil_append, hcurrent]
    exact .closed hlevels
  | opened => exact absurd rfl hopened
  | @barred _ _ _ _ first n' hbody hle hbrackets outer =>
    refine ⟨n', Brackets.of_links hbrackets hop hmark hl, ?_, h.account⟩
    rw [Option.toList_none, List.nil_append, hcurrent]
    refine outer.move ?_
    -- A lookaround goes on where it has begun; other bodies walk in the same direction.
    by_cases hj : j = i₀
    · rw [hj]
      exact .refl
    · obtain rfl : i = j := Option.some.inj ((resume?_go hop hgo).2.resolve_left hj)
      obtain ⟨⟨child, m'⟩, hb⟩ : ∃ b, op.body? m₀ = some b := by
        cases op <;> first | exact ⟨_, rfl⟩ | cases hgo
      rw [← Op.reverse_of_body hb (Op.ne_look_of_resume hgo hj), hbody op child m' hop hb]
      exact hle

/-- The ends of a group take turns from one station to the next, whatever the
operation between them is. -/
theorem Advance.inTurn {log : List Passing} {n : Note} (hxy : a.Advance x y)
    (hx : Tracked a group x log) (h : InTurn a group x log n) :
    ∃ n', InTurn a group y ((x.passing? a.program.ops group).toList ++ log) n' := by
  cases hxy with
  | read hop hread =>
    exact h.move rfl hop (by simp) List.mem_cons_self (precedes_of_read hx.inSpan hread)
  | branch hop hb hmark hl => exact h.move rfl hop (hmark group) hl .refl
  | @mark k group' edge next i m ls sl hop =>
    by_cases heq : group = group'
    · subst heq
      exact h.mark rfl hop
    · exact h.move rfl hop (by simp [Ne.symm heq]) List.mem_cons_self .refl
  | @skip k op l i j m ls sl hop hgo =>
    refine h.move rfl hop ?_ (Op.resume?_mem_links hgo) ?_
    · rintro edge next rfl
      cases hgo
    · rcases (resume?_go hop hgo).2 with rfl | heq
      · exact .refl
      · cases heq
  | begin hop hb => exact h.begin hop hb
  | resume hop hgo => exact h.resume hop hgo

/-- **The ends of a group take turns on a path, and they lie in order.**  The
note is that of the operations that the path has come through. -/
theorem Course.exists_inTurn (h : a.Course x₀ (x :: path)) (hstop : a.span.stop < maxOffset)
    (hstart : Tracked a group x₀ []) {n₀ : Note} (hstart' : InTurn a group x₀ [] n₀) :
    ∃ n, InTurn a group x (passings a.program.ops group (x :: path)) n := by
  generalize hp : x :: path = p at h
  induction h generalizing x path with
  | start =>
    cases hp
    exact ⟨n₀, hstart'⟩
  | advance h hxy ih =>
    cases hp
    obtain ⟨n, hn⟩ := ih rfl
    rw [passings_cons]
    exact hxy.inTurn (h.tracked hstop hstart) hn

/-! ### What groups have captured -/

/-- What a group has captured is told by the offsets that have been recorded
last for its ends. -/
theorem Tracked.capturedSpan_eq {log : List Passing} (h : Tracked a group x log)
    (hpos : 0 < group) :
    capturedSpan x.slots group = .ok (spanBetween (lastAt .start log) (lastAt .stop log)) := by
  obtain ⟨slots, hslots, hlt⟩ := h.hasRoom
  have hslots : x.slots = some slots := hslots
  have hstart := h.recorded .start
  have hstop := h.recorded .stop
  simp only [Place.recorded, hslots, Option.bind_some, Edge.slot] at hstart hstop
  rw [hslots, capturedSpan, if_neg (by omega), hstart, hstop]
  cases lastAt .start log with
  | none => rfl
  | some i => cases lastAt .stop log <;> rfl

/-- Where a machine stands when an attempt with slots begins: at the start of
the program, forward, with nothing recorded. -/
def firstStation (a : Attempt) (opts : Options) (slots : Slots) (offset : ℕ) : Station :=
  ⟨a.program.start, offset, ⟨false, opts⟩, [], fresh (some slots)⟩

/-- Nothing has been recorded when an attempt begins.  All slots are empty, and
there have to be some for the group. -/
theorem tracked_start {slots : Slots} {offset : ℕ} (opts : Options) (ho : a.InSpan offset)
    (hroom : 2 * group + 1 < slots.size) :
    Tracked a group (a.firstStation opts slots offset) [] where
  inSpan := ho
  levels := by simp [firstStation]
  hasRoom := ⟨.replicate slots.size none, rfl, by simpa using hroom⟩
  recorded edge := by
    show (Place.mk offset (fresh (some slots))).recorded group edge = none
    exact recorded_fresh

theorem inTurn_start {p : Pattern} (hprogram : a.program = .ofPattern p) (hp : ¬ p.Nests group)
    (opts : Options) (slots : Slots) (offset : ℕ) :
    InTurn a group (a.firstStation opts slots offset) [] .closed where
  brackets fuel := by
    rw [firstStation, hprogram]
    exact Program.brackets_start hp fuel
  hosts := .closed (by simp [Idle, firstStation])
  account := .nil

/-- **What a group has captured at a state of a run.**  It is the span between
the ends that have been recorded last on the current path.  If the group does
not lie within itself, that is the last complete traversal as long as no other
one is in progress; if one is, the end that it has already recorded takes the
place of the same end of the last complete one. -/
theorem capturedSpan_eq_seen (p : Pattern) (t : Target) (span : Span) (whole : Bool) (cache : Cache)
    (opts : Options) (slots : Slots) (offset group : ℕ) (s : State) (ss : List State) (link : Link)
    (ho : InSpan ⟨.ofPattern p, t, span, whole⟩ offset) (hstop : span.stop < maxOffset)
    (hpos : 0 < group) (hroom : 2 * group + 1 < slots.size)
    (h : History ⟨.ofPattern p, t, span, whole⟩
      (start ⟨.ofPattern p, t, span, whole⟩ cache opts (some slots) offset) (s :: ss))
    (hc : s.control = .run link) :
    let log := passings (Program.ofPattern p).ops group (currentPath (s :: ss))
    capturedSpan s.slots group = .ok (spanBetween (lastAt .start log) (lastAt .stop log)) ∧
      (¬ p.Nests group → (∀ r ∈ (traversals log).complete, r.start ≤ r.stop) ∧
        capturedSpan s.slots group = .ok (traversals log).seen ∧
        ((traversals log).current = none →
          capturedSpan s.slots group = .ok (traversals log).complete.head?)) := by
  intro log
  have hstart : (start ⟨.ofPattern p, t, span, whole⟩ cache opts (some slots) offset).station? =
      some (firstStation _ opts slots offset) := rfl
  have hcourse := h.course rfl hstart (State.station?_of_run hc)
  have htracked := tracked_start opts ho hroom
  rw [currentPath_of_run (State.station?_of_run hc)] at hcourse
  have hlog : log = passings (Program.ofPattern p).ops group
      (⟨link, s.offset, s.mode, s.levels, s.slots⟩ :: currentPath ss) := by
    rw [← currentPath_of_run (State.station?_of_run hc)]
  have hcaptured := (hcourse.tracked hstop htracked).capturedSpan_eq hpos
  rw [← hlog] at hcaptured
  refine ⟨hcaptured, fun hp => ?_⟩
  obtain ⟨n, hn⟩ := hcourse.exists_inTurn hstop htracked
    (inTurn_start rfl hp opts slots offset)
  have haccount := hn.account
  rw [← hlog] at haccount
  have hseen : capturedSpan s.slots group = .ok (traversals log).seen :=
    hcaptured.trans (congrArg _ haccount.seen_eq)
  refine ⟨haccount.ordered, hseen, fun hcurrent => ?_⟩
  rw [hseen, Traversals.seen, hcurrent]

/-- A group in a loop, and behind it a condition on the group, which comes to be
decided for the second time. -/
theorem capturedSpan_eq_seen_repeated :
    let p : Pattern := .repetition (.concat [.group (some 1) (.union [.char 'a', .char 'b']),
      .ifGroup 1 (.char 'c') (some (.char 'd'))]) 0 none true
    let a : Attempt := ⟨.ofPattern p, .bufferOfString "acbc", ⟨0, 4⟩, false⟩
    ∃ s ss, a.History (a.start .empty .empty (some (.replicate 4 none)) 0) (s :: ss) ∧
      s.control = .run (some 3) ∧ ¬ p.Nests 1 ∧ capturedSpan s.slots 1 = .ok (some ⟨2, 3⟩) := by
  intro p a
  let history := a.prolong 14 [a.start .empty .empty (some (.replicate 4 none)) 0]
  have hhistory : a.History (a.start .empty .empty (some (.replicate 4 none)) 0) history :=
    History.start.prolong 14
  have hcontrol : history.head?.map State.control = some (.run (some 3)) := by decide +kernel
  have htraversals : traversals (passings a.program.ops 1 (currentPath history)) =
      ⟨none, [⟨2, 3⟩, ⟨0, 1⟩]⟩ := by decide +kernel
  have hp : ¬ p.Nests 1 := by
    simp [p, Pattern.Nests, Pattern.Captures, Pattern.subpatterns, Pattern.subpatternsAll]
  generalize history = states at hhistory hcontrol htraversals
  cases states with
  | nil => cases hcontrol
  | cons s ss =>
    have hc : s.control = .run (some 3) := Option.some.inj hcontrol
    have hcaptured := (capturedSpan_eq_seen p a.target ⟨0, 4⟩ false .empty .empty
      (.replicate 4 none) 0 1 s ss (some 3) (by decide) (by decide) (by decide) (by decide) hhistory
      hc).2 hp
    have hcomplete := hcaptured.2.2 (congrArg Traversals.current htraversals)
    refine ⟨s, ss, hhistory, hc, hp, hcomplete.trans ?_⟩
    exact congrArg _ (congrArg (List.head? ∘ Traversals.complete) htraversals)

/-- In `(?:(a(?(1)b|c))x)*` on `acxabx`, the condition is decided for the second
time when the group has been traversed once and has been opened again: the slots
no longer lie in order, and the group is taken not to have captured anything. -/
theorem not_capturedSpan_eq_complete_loop : ¬ ∀ (p : Pattern) (t : Target) (span : Span)
    (whole : Bool) (cache : Cache) (opts : Options) (slots : Slots) (offset group : ℕ) (s : State)
    (ss : List State) (k : ℕ) (yes no : Link),
    InSpan ⟨.ofPattern p, t, span, whole⟩ offset → span.stop < maxOffset → 0 < group →
    2 * group + 1 < slots.size →
    History ⟨.ofPattern p, t, span, whole⟩
      (start ⟨.ofPattern p, t, span, whole⟩ cache opts (some slots) offset) (s :: ss) →
    s.control = .run (some k) → (Program.ofPattern p).ops[k]? = some (.ifGroup group yes no) →
    ¬ p.Nests group → capturedSpan s.slots group =
      .ok (traversals
        (passings (Program.ofPattern p).ops group (currentPath (s :: ss)))).complete.head? := by
  intro h
  let p : Pattern := .repetition (.concat [.group (some 1) (.concat [.char 'a',
    .ifGroup 1 (.char 'b') (some (.char 'c'))]), .char 'x']) 0 none true
  let a : Attempt := ⟨.ofPattern p, .bufferOfString "acxabx", ⟨0, 6⟩, false⟩
  let history := a.prolong 10 [a.start .empty .empty (some (.replicate 4 none)) 0]
  have hhistory : a.History (a.start .empty .empty (some (.replicate 4 none)) 0) history :=
    History.start.prolong 10
  have hcontrol : history.head?.map State.control = some (.run (some 5)) := by decide +kernel
  have hcaptured : history.head?.map (fun s => (capturedSpan s.slots 1).toOption) =
      some (some none) := by decide +kernel
  have htraversals : traversals (passings a.program.ops 1 (currentPath history)) =
      ⟨some ⟨.start, 3⟩, [⟨0, 2⟩]⟩ := by decide +kernel
  have hp : ¬ p.Nests 1 := by
    simp [p, Pattern.Nests, Pattern.Captures, Pattern.subpatterns, Pattern.subpatternsAll]
  generalize history = states at hhistory hcontrol hcaptured htraversals
  cases states with
  | nil => cases hcontrol
  | cons s ss =>
    have hspan := h p a.target ⟨0, 6⟩ false .empty .empty (.replicate 4 none) 0 1 s ss 5 (some 3)
      (some 4) (by decide) (by decide) (by decide) (by decide) hhistory (Option.some.inj hcontrol)
      (by decide +kernel) hp
    have hcomplete : capturedSpan s.slots 1 = .ok (some ⟨0, 2⟩) :=
      hspan.trans (congrArg _ (congrArg (List.head? ∘ Traversals.complete) htraversals))
    rw [List.head?_cons, Option.map_some, hcomplete] at hcaptured
    cases hcaptured

end Attempt

end Regexp
