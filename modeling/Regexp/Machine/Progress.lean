import Regexp.Machine.Basic

/-!
# Progress of the machine

From a state that fits the program, a step leads to another such state or to an
answer, and each step uses up something that no later step gives back.  This is
one theorem, `Attempt.step_progress`, and the recursion of `Attempt.loop` as
well as the invariants of whole runs rest on it.

## States that fit the program

`State.Valid` collects what a step needs so as not to get stuck: the offset lies
in the span, links lead to operations of the program, each frame names an
operation of its kind (`Frame.Valid`), the depth is the number of marks on the
stack, and there is a set of visited offsets for each closure.  It says nothing
of slots, since an attempt without slots is valid as well and ends with an error
where it would need them.

## Why runs end

Links go down, except for the link from a closure to its body.  So without
closures the index of the operation would be a measure, if it were not for the
frames, each of which allows to start again from an operation passed long ago.
A weight has to outdo all that can still come from the operations below:
`Program.power` gives the operation with index `i` the weight `base ^ (i + 1)`,
where `Program.base` is more than twice the number of branches of any operation.
A branch that goes on below and a frame that will go on below then weigh less
together than the operation that made them, `Program.four_mul_le`, and the
alternates that are left of a choice weigh less with each one taken.  Marks and
frames that restore slots have weights of their own, so that taking them off is
a step down as well.  The weight of a state, `State.weight`, is that of its
control and its stack; frames that are dropped together with a match within the
match only make it smaller.

Only an entry into a closure may go up, and no weight can account for that.  It
uses up *room*:  `State.room` is the number of pairs of a closure and an offset
that have not been marked, and since marks are never taken away,
`State.room_markEntered` is the only change it sees.  The order is therefore
lexicographic, `State.Lighter`: less room, or the same room and less weight.

## The end of a match within the match

`Attempt.accept` lifts frames, puts them back and cuts down what is kept, which
is awkward to reason about.  `Attempt.lift_eq` and `Attempt.putBack_append`
reduce it to `unwind`, which only looks at the stack, and `Attempt.accept_eq`
states the step in these terms.  It is the form that all later proofs use.

## Main statements

* `Attempt.unwind_split` — unwinding divides the stack at the last mark.
* `Attempt.accept_eq` — the step at the end of a match within the match.
* `Attempt.step_progress` — a step from a valid state does not get stuck, keeps
  the state valid and makes it lighter.
-/

namespace Regexp

/-! ### States that fit the program -/

namespace Attempt

variable (a : Attempt)

/-- Whether an offset lies in the span. -/
def InSpan (offset : Nat) : Prop := a.span.start ≤ offset ∧ offset ≤ a.span.stop

end Attempt

/-- Whether a match within the match begins at an operation. -/
def Op.isSub : Op → Bool
  | .look _ _ _ | .independent _ _ | .modifier _ _ _ _ | .ifLook _ _ _ => true
  | _ => false

namespace Frame

/-- Whether a frame marks a match within the match. -/
def isSub : Frame → Bool
  | .sub _ _ _ _ => true
  | _ => false

/-- Whether a frame names an operation of its kind and an offset of the span. -/
def Valid (a : Attempt) : Frame → Prop
  | .retry i offset =>
    a.InSpan offset ∧ ∃ op link, a.program.ops[i]? = some op ∧ op.otherBranch? = some link
  | .alternate i index offset =>
    a.InSpan offset ∧ ∃ links, a.program.ops[i]? = some (.union links) ∧ index + 1 < links.length
  | .slot _ _ => True
  | .sub i offset _ _ =>
    a.InSpan offset ∧ ∃ op, a.program.ops[i]? = some op ∧ op.isSub = true

end Frame

/-- A state that fits the program and the span.  This is all that a step relies
on; nothing is said of slots, nor of what the sets of offsets hold. -/
structure State.Valid (a : Attempt) (s : State) : Prop where
  offset_mem : a.InSpan s.offset
  control_below : ∀ link, s.control = .run link → link.Below a.program.ops.size
  frames : ∀ f ∈ s.stack, f.Valid a
  depth_eq : s.depth = s.stack.countP Frame.isSub
  visited_le : a.program.closureLen ≤ s.visited.size

theorem countP_isSub_sub (i offset : Nat) (reverse : Bool) (opts : Options) (fs : List Frame) :
    (Frame.sub i offset reverse opts :: fs).countP Frame.isSub = fs.countP Frame.isSub + 1 := by
  rw [List.countP_cons]
  rfl

/-! ### Room for entries into closures -/

theorem countP_lt_countP {α : Type} {l : List α} {p q : α → Bool} (h : ∀ x ∈ l, p x → q x)
    {x : α} (hx : x ∈ l) (hq : q x) (hp : ¬ p x) : l.countP p < l.countP q := by
  induction l with
  | nil => simp at hx
  | cons y l ih =>
    have hle : l.countP p ≤ l.countP q := List.countP_mono_left fun z hz =>
      h z (List.mem_cons_of_mem _ hz)
    rw [List.countP_cons, List.countP_cons]
    rcases List.mem_cons.mp hx with rfl | hx
    · rw [if_neg hp, if_pos hq]
      omega
    · have := ih (fun z hz => h z (List.mem_cons_of_mem _ hz)) hx
      by_cases hpy : p y
      · rw [if_pos hpy, if_pos (h y (by simp) hpy)]
        omega
      · rw [if_neg hpy]
        omega

namespace State

/-- Whether a closure was entered at a distance from the start of the span. -/
def hasEntered (s : State) (id distance : Nat) : Bool :=
  ((s.visited[id]?).map (·.contains distance)).getD false

/-- The entries that are possible during an attempt: a closure and a distance
each.  Their number is what bounds how often the machine goes up along a link. -/
def entries (a : Attempt) : List (Nat × Nat) :=
  (List.range a.program.closureLen).flatMap fun id =>
    (List.range (a.span.stop - a.span.start + 1)).map fun distance => (id, distance)

/-- The number of entries into closures that are left. -/
def room (a : Attempt) (s : State) : Nat :=
  (entries a).countP fun e => !s.hasEntered e.1 e.2

theorem room_eq {a : Attempt} {s s' : State} (h : s'.visited = s.visited) :
    s'.room a = s.room a := by
  simp [room, hasEntered, h]

theorem mem_entries {a : Attempt} {id distance : Nat} (hid : id < a.program.closureLen)
    (hd : distance ≤ a.span.stop - a.span.start) : (id, distance) ∈ entries a := by
  simp only [entries, List.mem_flatMap, List.mem_map, List.mem_range]
  exact ⟨id, hid, distance, by omega, rfl⟩

theorem hasEntered_markEntered {a : Attempt} {s : State} {id : Nat} (hid : id < s.visited.size)
    (id' distance : Nat) :
    (a.markEntered s id).hasEntered id' distance =
      (s.hasEntered id' distance || (id' = id && distance = s.offset - a.span.start)) := by
  simp only [hasEntered, Attempt.markEntered, Array.getElem?_modify]
  by_cases h : id = id'
  · subst h
    simp [hid, OffsetSet.contains_add]
  · have : id' ≠ id := fun h' => h h'.symm
    simp [h, this]

/-- Whether a closure was entered at the offset of a valid state can be looked
up. -/
theorem Valid.entered?_eq {a : Attempt} {s : State} {id : Nat} (h : s.Valid a)
    (hid : id < a.program.closureLen) :
    a.entered? s id = some (s.hasEntered id (s.offset - a.span.start)) := by
  obtain ⟨hstart, -⟩ := h.offset_mem
  have hlt := Nat.lt_of_lt_of_le hid h.visited_le
  rw [Attempt.entered?, if_neg (by omega), hasEntered, Array.getElem?_eq_getElem hlt]
  rfl

/-- An entry uses up room. -/
theorem room_markEntered {a : Attempt} {s : State} {id : Nat} (h : s.Valid a)
    (hid : id < a.program.closureLen) (he : a.entered? s id = some false) :
    (a.markEntered s id).room a < s.room a := by
  have hmem := h.offset_mem
  have hle := h.visited_le
  simp only [Attempt.InSpan] at hmem
  have hsize : id < s.visited.size := by omega
  have hnew : s.hasEntered id (s.offset - a.span.start) = false :=
    Option.some.inj ((h.entered?_eq hid).symm.trans he)
  refine countP_lt_countP (fun e _ hn => ?_)
    (mem_entries hid (show s.offset - a.span.start ≤ _ by omega)) (by simp [hnew]) ?_
  · simp only [hasEntered_markEntered hsize, Bool.not_eq_true'] at hn ⊢
    simp_all
  · simp [hasEntered_markEntered hsize]

end State

/-! ### Weights -/

namespace Program

/-- The number of alternates of an operation. -/
def width : Op → Nat
  | .union links => links.length
  | _ => 0

/-- A number larger than twice the number of branches of any operation.  All
choices are added up, since one number has to serve for the whole program. -/
def base (p : Program) : Nat := 2 * p.ops.toList.foldr (fun op n => width op + n) 0 + 4

/-- The powers of the base. -/
def power (p : Program) : Nat → Nat
  | 0 => 1
  | n + 1 => p.base * power p n

/-- The weight of a link. -/
def linkWeight (p : Program) : Link → Nat
  | none => 1
  | some i => p.power (i + 1)

/-- The weight of a frame.  A closure's other branch may be its body, which lies
anywhere, so that frame weighs more than the whole program; all others go on
below their operation. -/
def frameWeight (p : Program) : Frame → Nat
  | .retry i _ =>
    match p.ops[i]? with
    | some (.closure _ _ _ _) => p.power p.ops.size + 1
    | _ => p.power i + 1
  | .alternate i index _ =>
    match p.ops[i]? with
    | some (.union links) => (links.length - (index + 1)) * (p.power i + 1)
    | _ => 0
  | .slot _ _ => 1
  | .sub i _ _ _ => p.power i + 1

/-- The weight of a stack. -/
def stackWeight (p : Program) (stack : List Frame) : Nat :=
  stack.foldr (fun f n => p.frameWeight f + n) 0

@[simp] theorem stackWeight_nil (p : Program) : p.stackWeight [] = 0 := rfl

@[simp] theorem stackWeight_cons (p : Program) (f : Frame) (fs : List Frame) :
    p.stackWeight (f :: fs) = p.frameWeight f + p.stackWeight fs := rfl

theorem stackWeight_append (p : Program) (fs gs : List Frame) :
    p.stackWeight (fs ++ gs) = p.stackWeight fs + p.stackWeight gs := by
  induction fs with
  | nil => simp
  | cons f fs ih =>
    rw [List.cons_append, stackWeight_cons, stackWeight_cons, ih]
    omega

theorem width_le_base {p : Program} {i : Nat} {links : List Link}
    (h : p.ops[i]? = some (.union links)) : 2 * links.length + 4 ≤ p.base := by
  have hmem : Op.union links ∈ p.ops.toList := by
    obtain ⟨hi, he⟩ := Array.getElem?_eq_some_iff.mp h
    exact he ▸ Array.getElem_mem_toList hi
  have : ∀ {l : List Op}, Op.union links ∈ l →
      links.length ≤ l.foldr (fun op n => width op + n) 0 := by
    intro l hl
    induction l with
    | nil => simp at hl
    | cons op l ih =>
      rcases List.mem_cons.mp hl with rfl | hl
      · simp [width]
      · have := ih hl
        simp
        omega
  have := this hmem
  simp only [base]
  omega

theorem base_pos (p : Program) : 0 < p.base := by
  simp only [base]
  omega

theorem power_pos (p : Program) (n : Nat) : 0 < p.power n := by
  induction n with
  | zero => exact Nat.one_pos
  | succ n ih => exact Nat.mul_pos p.base_pos ih

theorem power_mono (p : Program) {m n : Nat} (h : m ≤ n) : p.power m ≤ p.power n := by
  induction h with
  | refl => exact Nat.le_refl _
  | step _ ih => exact Nat.le_trans ih (Nat.le_mul_of_pos_left _ p.base_pos)

/-- A link below an operation weighs no more than that operation's index allows.
The end of the program weighs as much as an operation before the first. -/
theorem linkWeight_le (p : Program) {link : Link} {n : Nat} (h : link.Below n) :
    p.linkWeight link ≤ p.power n := by
  cases link with
  | none => exact p.power_pos n
  | some i => exact p.power_mono (h i rfl)

/-- The weight of an operation is at least four times that of what is below it,
so a control and a frame that both go on below weigh less together than the
operation did, with room for what a frame weighs on top of its links. -/
theorem four_mul_le (p : Program) (i : Nat) : 4 * p.power i ≤ p.power (i + 1) :=
  Nat.mul_le_mul_right _ (by simp only [base]; omega)

end Program

/-- The weight of what the machine does next. -/
def Control.weight (p : Program) : Control → Nat
  | .run link => p.linkWeight link
  | .fail => 0

/-- A control at a link is at no other one. -/
theorem Control.below_of_run {link : Link} {n : Nat} (h : link.Below n) :
    ∀ l, Control.run link = .run l → l.Below n := by
  rintro _ ⟨⟩
  exact h

/-- A bound for the work that is left between two entries into closures: each
step without an entry makes it smaller. -/
def State.weight (a : Attempt) (s : State) : Nat :=
  s.control.weight a.program + a.program.stackWeight s.stack

/-- Whether a state has less room than another one, or weighs less with the same
room.  This is the order in which every step goes down, and by which
`Attempt.loop` recurses. -/
def State.Lighter (a : Attempt) (s' s : State) : Prop :=
  s'.room a < s.room a ∨ s'.room a = s.room a ∧ s'.weight a < s.weight a

theorem State.Lighter.of_weight {a : Attempt} {s s' : State} (hv : s'.visited = s.visited)
    (hw : s'.weight a < s.weight a) : s'.Lighter a s := .inr ⟨room_eq hv, hw⟩

/-! ### Unwinding -/

namespace Attempt

/-- The frames that restore slots. -/
def undoing (fs : List Frame) : List Frame :=
  fs.filter fun f => match f with
    | .slot _ _ => true
    | _ => false

theorem undoing_subset (fs : List Frame) : undoing fs ⊆ fs := fun _ hf => (List.mem_filter.mp hf).1

theorem isSub_of_mem_undoing {fs : List Frame} {f : Frame} (h : f ∈ undoing fs) :
    f.isSub = false := by
  have := (List.mem_filter.mp h).2
  cases f with
  | slot => rfl
  | _ => simp at this

theorem stackWeight_undoing_le (p : Program) (fs : List Frame) :
    p.stackWeight (undoing fs) ≤ p.stackWeight fs := by
  induction fs with
  | nil => exact Nat.le_refl _
  | cons f fs ih =>
    cases f with
    | slot i old => exact Nat.add_le_add_left ih _
    | _ => exact Nat.le_trans ih (Nat.le_add_left _ _)

theorem countP_isSub_eq_zero {fs : List Frame} (h : ∀ f ∈ fs, f.isSub = false) :
    fs.countP Frame.isSub = 0 := by
  rw [List.countP_eq_zero]
  intro f hf
  simp [h f hf]

/-- Unwinding divides a stack at the frame of the last match within the match.
What is kept are the frames above it that restore slots, in the order in which
they lie there. -/
theorem unwind_split {stack : List Frame} {u : Unwound} (h : unwind stack = some u) :
    ∃ fs, stack = fs ++ .sub u.op u.offset u.reverse u.opts :: u.rest ∧ u.kept = undoing fs ∧
      ∀ f ∈ fs, f.isSub = false := by
  induction stack generalizing u with
  | nil => cases h
  | cons f stack ih =>
    cases f with
    | sub =>
      cases h
      exact ⟨[], rfl, rfl, by simp⟩
    | slot i old =>
      obtain ⟨u, hu, rfl⟩ := Option.map_eq_some_iff.mp h
      obtain ⟨fs, rfl, hkept, hsub⟩ := ih hu
      exact ⟨.slot i old :: fs, rfl, by simp [undoing, hkept], by simpa [Frame.isSub] using hsub⟩
    | retry | alternate =>
      obtain ⟨fs, rfl, hkept, hsub⟩ := ih h
      exact ⟨_ :: fs, rfl, by simpa [undoing] using hkept, by simpa [Frame.isSub] using hsub⟩

end Attempt

/-! ### Progress -/

/-- Whether a step has made progress: it has an answer, or a valid and lighter
state.  A stuck machine has made none. -/
def Outcome.Progress (a : Attempt) (s : State) : Outcome → Prop
  | .next s' => s'.Valid a ∧ s'.Lighter a s
  | .halt _ _ => True
  | .stuck => False

namespace State

variable {a : Attempt} {s : State}

theorem weight_run {i : Nat} (hc : s.control = .run (some i)) :
    s.weight a = a.program.power (i + 1) + a.program.stackWeight s.stack := by
  simp [weight, hc, Control.weight, Program.linkWeight]

/-- Links below a valid index are below the number of operations. -/
theorem Valid.lt_size (h : s.Valid a) {i : Nat} (hc : s.control = .run (some i)) :
    i < a.program.ops.size := h.control_below _ hc i rfl

theorem abandon_progress (h : s.Valid a) {i : Nat} (hc : s.control = .run (some i)) :
    (Outcome.next s.abandon).Progress a s := by
  refine ⟨⟨h.offset_mem, by simp [abandon], h.frames, h.depth_eq, h.visited_le⟩,
    .of_weight rfl ?_⟩
  have := a.program.power_pos (i + 1)
  rw [weight_run hc]
  simp only [weight, abandon, Control.weight]
  omega

theorem moveTo_progress (h : s.Valid a) {i : Nat} (hc : s.control = .run (some i)) {offset : Nat}
    (ho : a.InSpan offset) {link : Link} (hl : link.Below i) :
    (Outcome.next (s.moveTo offset link)).Progress a s := by
  have hi := h.lt_size hc
  refine ⟨⟨ho, ?_, h.frames, h.depth_eq, h.visited_le⟩, .of_weight rfl ?_⟩
  · exact Control.below_of_run (hl.mono (Nat.le_of_lt hi))
  · have := a.program.four_mul_le i
    have := a.program.power_pos i
    have := a.program.linkWeight_le hl
    rw [weight_run hc]
    simp only [weight, moveTo, Control.weight]
    omega

theorem goto_progress (h : s.Valid a) {i : Nat} (hc : s.control = .run (some i)) {link : Link}
    (hl : link.Below i) : (Outcome.next (s.goto link)).Progress a s :=
  moveTo_progress h hc h.offset_mem hl

/-- Going down with a new frame that does not weigh too much.  Closures aside,
each operation that leaves another way for later takes this step. -/
theorem push_progress (h : s.Valid a) {i : Nat} (hc : s.control = .run (some i)) {link : Link}
    (hl : link.Below i) {f : Frame} (hf : f.Valid a) (hsub : f.isSub = false)
    (hw : a.program.frameWeight f + a.program.power i < a.program.power (i + 1)) :
    (Outcome.next ((s.push f).goto link)).Progress a s := by
  have hi := h.lt_size hc
  refine ⟨⟨h.offset_mem, ?_, ?_, ?_, h.visited_le⟩, .of_weight rfl ?_⟩
  · exact Control.below_of_run (hl.mono (Nat.le_of_lt hi))
  · intro g hg
    rcases List.mem_cons.mp hg with rfl | hg
    · exact hf
    · exact h.frames g hg
  · simp [goto, push, hsub, h.depth_eq]
  · have := a.program.linkWeight_le hl
    rw [weight_run hc]
    simp only [weight, goto, push, Control.weight, Program.stackWeight_cons]
    omega

end State

namespace Attempt

variable {a : Attempt} {s : State}

/-- A character is read if it is the next one and passes the test. -/
theorem readChar_eq_some_iff {reverse : Bool} {offset offset' : Nat} {test : Char → Bool} :
    a.readChar reverse offset test = some offset' ↔
      ∃ c, a.nextChar reverse offset = some (c, offset') ∧ test c = true := by
  rw [readChar]
  cases a.nextChar reverse offset with
  | none => simp
  | some p =>
    obtain ⟨c, next⟩ := p
    simp only [Option.ite_none_right_eq_some, Option.some.injEq, Prod.mk.injEq]
    constructor
    · rintro ⟨htest, rfl⟩
      exact ⟨c, ⟨rfl, rfl⟩, htest⟩
    · rintro ⟨c, ⟨rfl, rfl⟩, htest⟩
      exact ⟨htest, rfl⟩

theorem readChar_inSpan {reverse : Bool} {offset offset' : Nat} {test : Char → Bool}
    (ho : a.InSpan offset) (h : a.readChar reverse offset test = some offset') :
    a.InSpan offset' := by
  obtain ⟨hs, hl⟩ := ho
  obtain ⟨c, hnext, -⟩ := readChar_eq_some_iff.mp h
  cases reverse with
  | false =>
    have := Target.charAfter_bounds hnext
    exact ⟨by omega, by omega⟩
  | true =>
    have := Target.charBefore_bounds hnext
    exact ⟨by omega, by omega⟩

/-- Atoms do not leave the span.  This holds of any text, as each way of reading
has the end of the span for its limit. -/
theorem read_inSpan {atom : Atom} {opts : Options} {reverse : Bool} {offset offset' : Nat}
    {slots : Option Slots} (ho : a.InSpan offset)
    (h : a.read atom opts reverse offset slots = .ok (some offset')) : a.InSpan offset' := by
  obtain ⟨hs, hl⟩ := ho
  cases atom with
  | char c => exact readChar_inSpan ⟨hs, hl⟩ (Except.ok.inj h)
  | range set folded negated => exact readChar_inSpan ⟨hs, hl⟩ (Except.ok.inj h)
  | dot => exact readChar_inSpan ⟨hs, hl⟩ (Except.ok.inj h)
  | string chars =>
    have h := Except.ok.inj h
    split at h
    · have := Target.regionMatchesBack_bounds h hs
      exact ⟨by omega, by omega⟩
    · have := Target.regionMatches_bounds h hl
      exact ⟨by omega, by omega⟩
  | anchor anchor =>
    have h := Except.ok.inj h
    split at h
    · cases h
      exact ⟨hs, hl⟩
    · simp at h
  | backref group =>
    simp only [read] at h
    split at h
    · simp at h
    · simp at h
    · have h := Except.ok.inj h
      split at h
      · have := Target.repeatsUpTo_bounds h hs
        exact ⟨by omega, by omega⟩
      · have := Target.repeatsFrom_bounds h hl
        exact ⟨by omega, by omega⟩

theorem enter_progress (h : s.Valid a) {i : Nat} (hc : s.control = .run (some i)) {op : Op}
    (hop : a.program.ops[i]? = some op) (hsub : op.isSub = true) {child : Link}
    (hl : child.Below i) (reverse : Bool) (opts : Options) :
    (enter i child reverse opts s).Progress a s := by
  have hi := h.lt_size hc
  refine ⟨⟨h.offset_mem, ?_, ?_, ?_, h.visited_le⟩, .of_weight rfl ?_⟩
  · exact Control.below_of_run (hl.mono (Nat.le_of_lt hi))
  · intro f hf
    rcases List.mem_cons.mp hf with rfl | hf
    · exact ⟨h.offset_mem, op, hop, hsub⟩
    · exact h.frames f hf
  · rw [countP_isSub_sub, h.depth_eq]
  · have := a.program.four_mul_le i
    have := a.program.power_pos i
    have := a.program.linkWeight_le hl
    rw [State.weight_run hc]
    simp only [State.weight, Control.weight, Program.stackWeight_cons, Program.frameWeight]
    omega

theorem record_progress (h : s.Valid a) {i : Nat} (hc : s.control = .run (some i)) {next : Link}
    (hl : next.Below i) (slot : Nat) :
    (Outcome.next ((s.record slot).goto next)).Progress a s := by
  have hi := h.lt_size hc
  unfold State.record
  split
  · split
    · refine ⟨⟨h.offset_mem, ?_, ?_, ?_, h.visited_le⟩, .of_weight rfl ?_⟩
      · exact Control.below_of_run (hl.mono (Nat.le_of_lt hi))
      · intro f hf
        rcases List.mem_cons.mp hf with rfl | hf
        · trivial
        · exact h.frames f hf
      · simp [State.goto, Frame.isSub, h.depth_eq]
      · have := a.program.four_mul_le i
        have := a.program.power_pos i
        have := a.program.linkWeight_le hl
        rw [State.weight_run hc]
        simp only [State.weight, State.goto, Control.weight, Program.stackWeight_cons,
          Program.frameWeight]
        omega
    · exact State.goto_progress h hc hl
  · exact State.goto_progress h hc hl

theorem closure_progress (h : s.Valid a) {i : Nat} {id child : Nat} {greedy : Bool}
    {next : Link} (hop : a.program.ops[i]? = some (.closure id child greedy next))
    (he : a.entered? s id = some false) :
    (Outcome.next (((a.markEntered s id).push (.retry i s.offset)).goto
      (if greedy then some child else next))).Progress a s := by
  obtain ⟨hid, hchild, hnext⟩ := a.program.linked i _ hop
  obtain ⟨hi, -⟩ := Array.getElem?_eq_some_iff.mp hop
  refine ⟨⟨h.offset_mem, ?_, ?_, ?_, ?_⟩, .inl (State.room_markEntered h hid he)⟩
  · refine Control.below_of_run ?_
    split
    · exact Link.below_some hchild
    · exact hnext.mono (Nat.le_of_lt hi)
  · intro f hf
    rcases List.mem_cons.mp hf with rfl | hf
    · exact ⟨h.offset_mem, _, _, hop, rfl⟩
    · exact h.frames f hf
  · simpa [State.goto, State.push, markEntered, Frame.isSub] using h.depth_eq
  · simpa [State.goto, State.push, markEntered] using h.visited_le

theorem exec_progress (h : s.Valid a) {i : Nat} {op : Op} (hc : s.control = .run (some i))
    (hop : a.program.ops[i]? = some op) : (a.exec i op s).Progress a s := by
  have hlinked := a.program.linked i op hop
  have hpow := a.program.power_pos i
  have hfour := a.program.four_mul_le i
  cases op with
  | atom atom next =>
    simp only [exec]
    split
    · trivial
    · rename_i offset hr
      exact State.moveTo_progress h hc (read_inSpan h.offset_mem hr) hlinked
    · exact State.abandon_progress h hc
  | union links =>
    match links, hlinked, hop with
    | [], _, _ => exact State.abandon_progress h hc
    | [link], hlinked, _ => exact State.goto_progress h hc (hlinked link (by simp))
    | link :: link' :: links, hlinked, hop =>
      refine State.push_progress h hc (hlinked link (by simp)) (f := .alternate i 0 s.offset)
        ⟨h.offset_mem, _, hop, by simp⟩ rfl ?_
      have hb := Program.width_le_base hop
      simp only [Program.frameWeight, hop, List.length_cons] at hb ⊢
      have := Nat.mul_le_mul_right (a.program.power i) hb
      rw [Program.power]
      refine Nat.lt_of_lt_of_le ?_ this
      simp only [Nat.mul_add, Nat.add_mul, Nat.mul_one]
      have hlen := Nat.le_mul_of_pos_right links.length hpow
      have hassoc : 2 * links.length * a.program.power i =
          2 * (links.length * a.program.power i) := Nat.mul_assoc _ _ _
      simp only [Nat.zero_add, Nat.add_sub_cancel, Nat.add_mul, Nat.one_mul]
      omega
  | closure id child greedy next =>
    simp only [exec]
    split
    · rename_i he
      cases (h.entered?_eq hlinked.1).symm.trans he
    · exact State.abandon_progress h hc
    · rename_i he
      exact closure_progress h hop he
  | question child greedy next =>
    refine State.push_progress h hc ?_ ⟨h.offset_mem, _, _, hop, rfl⟩ rfl ?_
    · split
      · exact hlinked.1
      · exact hlinked.2
    · simp only [Program.frameWeight, hop]
      omega
  | mark group edge next => exact record_progress h hc hlinked _
  | look kind child next => exact enter_progress h hc hop rfl hlinked.1 _ _
  | independent child next => exact enter_progress h hc hop rfl hlinked.1 _ _
  | modifier add remove child next => exact enter_progress h hc hop rfl hlinked.1 _ _
  | ifGroup group yes no =>
    simp only [exec]
    split
    · trivial
    · exact State.goto_progress h hc hlinked.1
    · exact State.goto_progress h hc hlinked.2
  | ifLook test yes no => exact enter_progress h hc hop rfl hlinked.1 _ _
  | fail => exact State.abandon_progress h hc

/-- An operation at which a match within the match begins says how to go on
after it. -/
theorem resume?_isSome {op : Op} (h : op.isSub = true) (offset : Nat) (stop : Option Nat) :
    ∃ r, op.resume? offset stop = some r := by
  cases op with
  | look kind child next =>
    simp only [Op.resume?]
    split <;> exact ⟨_, rfl⟩
  | independent child next => cases stop <;> exact ⟨_, rfl⟩
  | modifier add remove child next => cases stop <;> exact ⟨_, rfl⟩
  | ifLook test yes no => exact ⟨_, rfl⟩
  | _ => simp [Op.isSub] at h

/-- After a match within the match the machine goes on below the operation where
it began. -/
theorem resume?_go {i : Nat} {op : Op} (hop : a.program.ops[i]? = some op) {offset : Nat}
    {stop : Option Nat} {offset' : Nat} {link : Link}
    (h : op.resume? offset stop = some (.go offset' link)) :
    link.Below i ∧ (offset' = offset ∨ stop = some offset') := by
  have hlinked := a.program.linked i op hop
  cases op with
  | look kind child next =>
    simp only [Op.resume?] at h
    split at h
    · simp at h
    · cases h
      exact ⟨hlinked.2, .inl rfl⟩
  | independent child next =>
    simp only [Op.resume?] at h
    split at h
    · cases h
      exact ⟨hlinked.2, .inr rfl⟩
    · simp at h
  | modifier add remove child next =>
    simp only [Op.resume?] at h
    split at h
    · cases h
      exact ⟨hlinked.2, .inr rfl⟩
    · simp at h
  | ifLook test yes no =>
    cases h
    refine ⟨?_, .inl rfl⟩
    split
    · exact hlinked.2.1
    · exact hlinked.2.2
  | _ => simp [Op.resume?] at h

/-- What unwinding gives: the parts of the stack, with all that was above the
frame except for the frames that restore slots dropped. -/
theorem unwind_some {stack : List Frame} {u : Unwound} (h : unwind stack = some u) :
    .sub u.op u.offset u.reverse u.opts ∈ stack ∧ (∀ f ∈ u.rest, f ∈ stack) ∧
      (∀ f ∈ u.kept, f ∈ stack ∧ f.isSub = false) ∧
      stack.countP Frame.isSub = u.rest.countP Frame.isSub + 1 ∧
      ∀ p : Program, p.stackWeight u.kept + p.frameWeight (.sub u.op u.offset u.reverse u.opts) +
        p.stackWeight u.rest ≤ p.stackWeight stack := by
  obtain ⟨fs, rfl, hkept, hsub⟩ := unwind_split h
  rw [hkept]
  refine ⟨by simp, fun f hf => by simp [hf], fun f hf => ⟨?_, isSub_of_mem_undoing hf⟩, ?_,
    fun p => ?_⟩
  · exact List.mem_append_left _ (undoing_subset fs hf)
  · rw [List.countP_append, countP_isSub_sub, countP_isSub_eq_zero hsub, Nat.zero_add]
  · have := stackWeight_undoing_le p fs
    rw [Program.stackWeight_append, Program.stackWeight_cons]
    omega

theorem unwind_isSome {stack : List Frame} (h : 0 < stack.countP Frame.isSub) :
    ∃ u, unwind stack = some u := by
  induction stack with
  | nil => simp at h
  | cons f fs ih =>
    cases f with
    | sub op offset reverse opts => exact ⟨_, rfl⟩
    | slot i old =>
      obtain ⟨u, hu⟩ := ih (by simpa [Frame.isSub] using h)
      exact ⟨_, by rw [unwind, hu]; rfl⟩
    | retry i offset => exact ih (by simpa [Frame.isSub] using h)
    | alternate i index offset => exact ih (by simpa [Frame.isSub] using h)

/-- Lifting divides the stack as `unwind` does, and it puts the frames that
restore slots on top of what is kept, the last of them on top. -/
theorem lift_eq (kept stack : List Frame) :
    lift kept stack = (unwind stack).map fun u => { u with kept := u.kept.reverse ++ kept } := by
  induction stack generalizing kept with
  | nil => rfl
  | cons f fs ih =>
    cases f with
    | sub op offset reverse opts => rfl
    | slot i old =>
      rw [lift, unwind, ih]
      cases unwind fs <;> simp
    | retry i offset => exact ih kept
    | alternate i index offset => exact ih kept

theorem putBack_length (kept stack : List Frame) :
    putBack kept.length kept stack = (kept, stack) := by
  cases kept with
  | nil => rfl
  | cons f kept => rw [putBack, if_neg (by simp)]

/-- Frames that were lifted come back in the order in which they were on the
stack. -/
theorem putBack_append (fs kept stack : List Frame) :
    putBack kept.length (fs ++ kept) stack = (kept, fs.reverse ++ stack) := by
  induction fs generalizing stack with
  | nil => exact putBack_length kept stack
  | cons f fs ih => simp [putBack, ih]

/-- What is lifted out of a match within the match is put back or undone in the
same step, so that nothing is left of it in what is kept. -/
theorem accept_eq (s : State) : a.accept s =
    match s.depth with
    | 0 =>
      if a.whole && s.offset ≠ a.span.stop then .next s.abandon
      else .halt (.ok (some s.offset)) s
    | depth + 1 =>
      match unwind s.stack with
      | none => .stuck
      | some u =>
        let s := { s with depth := depth, reverse := u.reverse, opts := u.opts, stack := u.rest }
        match (a.program.ops[u.op]?).bind (·.resume? u.offset (some s.offset)) with
        | none => .stuck
        | some (.go offset link) =>
          .next { s with control := .run link, offset := offset, stack := u.kept ++ s.stack }
        | some .abandon =>
          .next { s with control := .fail, slots := s.slots.map (restoreAll · u.kept) } := by
  cases hd : s.depth with
  | zero => simp only [accept, hd]
  | succ depth =>
    simp only [accept, hd, lift_eq]
    cases unwind s.stack with
    | none => rfl
    | some u =>
      simp only [Option.map_some]
      rcases (a.program.ops[u.op]?).bind (·.resume? u.offset (some s.offset)) with
        _ | ⟨offset, link⟩ | _
      · rfl
      · simp [State.restoreKept, State.truncateKept, State.moveTo, putBack_append]
      · simp [State.undoKept, State.truncateKept, State.abandon]

theorem accept_progress (h : s.Valid a) (hc : s.control = .run none) :
    (a.accept s).Progress a s := by
  have hweight : s.weight a = 1 + a.program.stackWeight s.stack := by
    simp [State.weight, hc, Control.weight, Program.linkWeight]
  rw [accept_eq]
  split
  · split
    · refine ⟨⟨h.offset_mem, by simp [State.abandon], h.frames, h.depth_eq, h.visited_le⟩,
        .of_weight rfl ?_⟩
      rw [hweight]
      simp only [State.weight, State.abandon, Control.weight]
      omega
    · trivial
  · rename_i depth hd
    have hdepth := h.depth_eq
    obtain ⟨u, hu⟩ := unwind_isSome (show 0 < s.stack.countP Frame.isSub by omega)
    obtain ⟨hsub, hrest, hkept, hcount, hw⟩ := unwind_some hu
    obtain ⟨hoffset, op, hop, hisSub⟩ := h.frames _ hsub
    obtain ⟨hi, -⟩ := Array.getElem?_eq_some_iff.mp hop
    obtain ⟨r, hr⟩ := resume?_isSome hisSub u.offset (some s.offset)
    have hw := hw a.program
    simp only [Program.frameWeight] at hw
    simp only [hu, hop, Option.bind_some, hr]
    cases r with
    | go offset link =>
      obtain ⟨hbelow, hoff⟩ := resume?_go hop hr
      refine ⟨⟨?_, Control.below_of_run (hbelow.mono (Nat.le_of_lt hi)), ?_, ?_, h.visited_le⟩,
        .of_weight rfl ?_⟩
      · rcases hoff with rfl | hoff
        · exact hoffset
        · cases hoff
          exact h.offset_mem
      · intro f hf
        rcases List.mem_append.mp hf with hf | hf
        · exact h.frames f (hkept f hf).1
        · exact h.frames f (hrest f hf)
      · have hkept0 := countP_isSub_eq_zero fun f hf => (hkept f hf).2
        simp only [List.countP_append, hkept0]
        omega
      · have := a.program.linkWeight_le hbelow
        rw [hweight]
        simp only [State.weight, Control.weight, Program.stackWeight_append]
        omega
    | abandon =>
      refine ⟨⟨h.offset_mem, by simp, fun f hf => h.frames f (hrest f hf), ?_, h.visited_le⟩,
        .of_weight rfl ?_⟩
      · show depth = u.rest.countP Frame.isSub
        omega
      · rw [hweight]
        simp only [State.weight, Control.weight]
        omega

theorem otherBranch?_weight {i : Nat} {op : Op} (hop : a.program.ops[i]? = some op) {link : Link}
    (h : op.otherBranch? = some link) (offset : Nat) : link.Below a.program.ops.size ∧
      a.program.linkWeight link < a.program.frameWeight (.retry i offset) := by
  have hlinked := a.program.linked i op hop
  obtain ⟨hi, -⟩ := Array.getElem?_eq_some_iff.mp hop
  cases op with
  | closure id child greedy next =>
    obtain ⟨-, hchild, hnext⟩ := hlinked
    have hb : link.Below a.program.ops.size := by
      cases h
      split
      · exact hnext.mono (Nat.le_of_lt hi)
      · exact Link.below_some hchild
    have := a.program.linkWeight_le hb
    refine ⟨hb, ?_⟩
    simp only [Program.frameWeight, hop]
    omega
  | question child greedy next =>
    have hb : link.Below i := by
      cases h
      split
      · exact hlinked.2
      · exact hlinked.1
    have := a.program.linkWeight_le hb
    refine ⟨hb.mono (Nat.le_of_lt hi), ?_⟩
    simp only [Program.frameWeight, hop]
    omega
  | _ => simp [Op.otherBranch?] at h

section

variable (h : s.Valid a) (hc : s.control = .fail) {rest : List Frame}

include h hc

/-- The frame on top is taken off the stack for a link, and for frames that the
link leaves. -/
theorem replace_progress {f : Frame} (hstack : s.stack = f :: rest) (hsub : f.isSub = false)
    {offset : Nat} (ho : a.InSpan offset) {link : Link} (hl : link.Below a.program.ops.size)
    (fs : List Frame) (hfs : ∀ g ∈ fs, g.Valid a ∧ g.isSub = false)
    (hw : a.program.linkWeight link + a.program.stackWeight fs < a.program.frameWeight f) :
    (Outcome.next
      { s with control := .run link, offset := offset, stack := fs ++ rest }).Progress a s := by
  have hframes := h.frames
  have hdepth := h.depth_eq
  rw [hstack] at hframes hdepth
  refine ⟨⟨ho, Control.below_of_run hl, ?_, ?_, h.visited_le⟩, .of_weight rfl ?_⟩
  · intro g hg
    rcases List.mem_append.mp hg with hg | hg
    · exact (hfs g hg).1
    · exact hframes g (List.mem_cons_of_mem _ hg)
  · rw [List.countP_append, countP_isSub_eq_zero fun g hg => (hfs g hg).2, Nat.zero_add]
    simpa [hsub] using hdepth
  · simp only [State.weight, hc, hstack, Control.weight, Program.stackWeight_append,
      Program.stackWeight_cons]
    omega

theorem back_slot_progress {i : Nat} {old : Option Nat} (hstack : s.stack = .slot i old :: rest) :
    (a.back s).Progress a s := by
  have hframes := h.frames
  have hdepth := h.depth_eq
  rw [hstack] at hframes hdepth
  simp only [back, hstack]
  refine ⟨⟨h.offset_mem, by simp [hc], fun f hf => hframes f (List.mem_cons_of_mem _ hf), ?_,
    h.visited_le⟩, .of_weight rfl ?_⟩
  · simpa [Frame.isSub] using hdepth
  · simp [State.weight, hc, hstack, Control.weight, Program.frameWeight]

theorem back_retry_progress {i offset : Nat} (hstack : s.stack = .retry i offset :: rest) :
    (a.back s).Progress a s := by
  obtain ⟨ho, op, link, hop, hother⟩ := h.frames _ (hstack ▸ List.mem_cons_self)
  obtain ⟨hbelow, hlt⟩ := otherBranch?_weight hop hother offset
  simp only [back, hstack, hop, Option.bind_some, hother]
  exact replace_progress h hc hstack rfl ho hbelow [] (by simp) hlt

/-- The next alternate is below the choice, and the alternates after it are
fewer than before. -/
theorem back_alternate_progress {i index offset : Nat}
    (hstack : s.stack = .alternate i index offset :: rest) : (a.back s).Progress a s := by
  obtain ⟨ho, links, hop, hlen⟩ := h.frames _ (hstack ▸ List.mem_cons_self)
  obtain ⟨hi, -⟩ := Array.getElem?_eq_some_iff.mp hop
  have hweight : ∀ index', a.program.frameWeight (.alternate i index' offset) =
      (links.drop (index' + 1)).length * (a.program.power i + 1) := by
    intro index'
    simp [Program.frameWeight, hop]
  have hbelow : ∀ link ∈ links.drop (index + 1), Link.Below link i := fun link hl =>
    a.program.linked i _ hop link (List.mem_of_mem_drop hl)
  have hpos : 0 < (links.drop (index + 1)).length := by
    rw [List.length_drop]
    omega
  have hnext : links.drop (index + 1 + 1) = (links.drop (index + 1)).tail := List.tail_drop.symm
  simp only [back, hstack, hop]
  match hlinks : links.drop (index + 1) with
  | [] => simp [hlinks] at hpos
  | [link] =>
    have hb : link.Below i := hbelow link (by simp [hlinks])
    have := a.program.linkWeight_le hb
    refine replace_progress h hc hstack rfl ho (hb.mono (Nat.le_of_lt hi)) [] (by simp) ?_
    rw [hweight, hlinks, Program.stackWeight_nil, List.length_singleton]
    omega
  | link :: link' :: links' =>
    have hb : link.Below i := hbelow link (by simp [hlinks])
    have := a.program.linkWeight_le hb
    rw [hlinks, List.tail_cons] at hnext
    refine replace_progress h hc hstack rfl ho (hb.mono (Nat.le_of_lt hi))
      [.alternate i (index + 1) offset] ?_ ?_
    · have hlength := congrArg List.length hnext
      rw [List.length_drop, List.length_cons] at hlength
      simp only [List.mem_singleton, forall_eq]
      exact ⟨⟨ho, links, hop, by omega⟩, rfl⟩
    · rw [Program.stackWeight_cons, Program.stackWeight_nil, hweight, hweight, hlinks, hnext,
        List.length_cons (a := link), Nat.succ_mul]
      omega

theorem back_sub_progress {i offset : Nat} {reverse : Bool} {opts : Options}
    (hstack : s.stack = .sub i offset reverse opts :: rest) : (a.back s).Progress a s := by
  have hframes := h.frames
  have hdepth := h.depth_eq
  rw [hstack] at hframes hdepth
  rw [countP_isSub_sub] at hdepth
  obtain ⟨hoffset, op, hop, hsub⟩ := hframes _ List.mem_cons_self
  have hrest : ∀ f ∈ rest, f.Valid a := fun f hf => hframes f (List.mem_cons_of_mem _ hf)
  have hpow := a.program.power_pos i
  have hweight : s.weight a = a.program.power i + 1 + a.program.stackWeight rest := by
    simp [State.weight, hc, hstack, Control.weight, Program.frameWeight]
  obtain ⟨r, hr⟩ := resume?_isSome hsub offset none
  obtain ⟨hi, -⟩ := Array.getElem?_eq_some_iff.mp hop
  simp only [back, hstack, hdepth, hop, Option.bind_some, hr]
  cases r with
  | go offset' link =>
    obtain ⟨hbelow, hoff⟩ := resume?_go hop hr
    obtain rfl : offset' = offset := by simpa using hoff
    have := a.program.linkWeight_le hbelow
    refine ⟨⟨hoffset, Control.below_of_run (hbelow.mono (Nat.le_of_lt hi)), hrest, rfl,
      h.visited_le⟩, .of_weight rfl ?_⟩
    rw [hweight]
    simp only [State.weight, State.moveTo, Control.weight]
    omega
  | abandon =>
    refine ⟨⟨h.offset_mem, by simp [State.abandon], hrest, rfl, h.visited_le⟩, .of_weight rfl ?_⟩
    rw [hweight]
    simp only [State.weight, State.abandon, Control.weight]
    omega

theorem back_progress : (a.back s).Progress a s := by
  cases hstack : s.stack with
  | nil => simp only [back, hstack, Outcome.Progress]
  | cons f rest =>
    cases f with
    | slot i old => exact back_slot_progress h hc hstack
    | retry i offset => exact back_retry_progress h hc hstack
    | alternate i index offset => exact back_alternate_progress h hc hstack
    | sub i offset reverse opts => exact back_sub_progress h hc hstack

end

/-- A step from a valid state does not get stuck, and it keeps the state valid
and makes it lighter. -/
theorem step_progress (h : s.Valid a) : (a.step s).Progress a s := by
  unfold step
  split
  · rename_i hc
    exact accept_progress h hc
  · rename_i i hc
    have hi := h.lt_size hc
    rw [Array.getElem?_eq_getElem hi]
    exact exec_progress h hc (Array.getElem?_eq_getElem hi)
  · rename_i hc
    exact back_progress h hc

theorem step_valid (h : s.Valid a) {s' : State} (hs : a.step s = .next s') : s'.Valid a := by
  have := step_progress h
  rw [hs] at this
  exact this.1

theorem step_lighter (h : s.Valid a) {s' : State} (hs : a.step s = .next s') :
    s'.Lighter a s := by
  have := step_progress h
  rw [hs] at this
  exact this.2

theorem step_ne_stuck (h : s.Valid a) : a.step s ≠ .stuck := by
  intro hs
  have := step_progress h
  rw [hs] at this
  exact this

end Attempt

end Regexp
