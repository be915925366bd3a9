import Regexp.MatchError
import Regexp.OffsetSet
import Regexp.Program
import Regexp.Target

/-!
# The matching machine

A machine walks over a program and a text at once.  Each choice that it may have
to take back is a frame on its stack; when it cannot go on, it removes frames
until one of them offers another way.  This is backtracking with the stack made
explicit, so that a step (`Attempt.step`) is a plain function from a state to
what comes next, and all that a run does can be said of its steps.

What stays the same during an attempt is an `Attempt`: the program, the text,
the part of the text that is searched, and whether a match has to end where that
part ends.  All else is the `State`.

## The four kinds of frames

Two kinds of `Frame` are choices.  A closure or a question leaves `Frame.retry`,
which holds the branch that was not taken (`Op.firstBranch?`,
`Op.otherBranch?`), and a choice between alternates leaves `Frame.alternate`,
which is taken off only with the last of them.  The third kind, `Frame.slot`,
undoes the recording of an end of a group (`State.record`); it is passed on the
way back and offers nothing.  The fourth kind is `Frame.sub`.

## Matches within the match

A lookaround, an independent group, a modifier and the condition of a
conditional are matches within the match.  They run on the same stack, where
`Frame.sub` marks the place at which they began and keeps the offset, the
direction and the options of that moment; `State.depth` counts those that are
going on.  When the program runs out with a match within the match still going
on (`Attempt.accept`), the frames above the mark come off: the choices are
dropped for good, but the frames that restore slots are needed again, because
what comes before the group may still fail.  They are lifted one by one onto the
frames that are kept (`lift`), and go back to the stack in the order in which
they were there (`putBack`) if the machine goes on, or restore their slots at
once (`State.undoKept`) if the match within the match was not to succeed.  In
either case what is kept is then as short as before.  When a match within the
match fails, its mark is on top of the stack, and `Attempt.back` leaves it the
other way.  `Op.resume?` says for both cases how the machine goes on.

`unwind` describes the same in one pass, as a function of the stack alone; the
proofs use it, and `Attempt.lift_eq` and `Attempt.accept_eq` show that it comes
to the same.

## Entering closures

A closure is entered at most once at each offset during an attempt.  The offsets
of a closure are in a set of their own, counted from the start of the span
(`Attempt.entered?`, `Attempt.markEntered`), and a second entry at a marked
offset takes back the last choice.  The marks are not undone when choices are
taken back: this bounds the work of an attempt, and it is also the reason why
not all matches are found that a search without the sets would find.

## Answers

An operation can fail with an error only if it refers to a group without slots
(`capturedSpan`).  `Outcome.stuck` says that the state contradicts the program,
as when a frame names an operation of another kind.  No run from a start state
gets there, which is what `State.Valid` is for.
-/

namespace Regexp

/-- The offsets that the ends of the groups have, group by group: the start of a
group stands in front of its stop, and an end that was not recorded is `none`. -/
abbrev Slots := Array (Option Nat)

/-- What stays the same during a match attempt.  A step is a function of this
and of a `State`, and nothing else has a say in what the machine does. -/
structure Attempt where
  program : Program
  target : Target
  /-- The part of the text that is searched. -/
  span : Span
  /-- Whether a match has to end where the span ends. -/
  whole : Bool

/-- A frame of the stack.  The first two kinds are choices, which `Attempt.back`
takes up again; the other two say what has to be put right before an earlier
choice can be taken. -/
inductive Frame where
  /-- A closure or a question whose other branch is left. -/
  | retry (op offset : Nat)
  /-- A choice whose alternates after the given one are left. -/
  | alternate (op index offset : Nat)
  /-- A slot that had another value. -/
  | slot (index : Nat) (old : Option Nat)
  /-- A match within the match, with the offset, the direction and the options
  before it. -/
  | sub (op offset : Nat) (reverse : Bool) (opts : Options)
  deriving DecidableEq

/-- What a machine does next.  It takes choices back one by one, and each of
these is a step of its own. -/
inductive Control where
  /-- Run the operation that a link goes to, or accept. -/
  | run (link : Link)
  /-- Take the last choice back. -/
  | fail
  deriving DecidableEq

/-- The state of a machine.  Everything that a step can change is here, the
storage of the attempt included; the stack has its top in front. -/
structure State where
  control : Control
  offset : Nat
  /-- Whether the machine walks backward over the text. -/
  reverse : Bool
  opts : Options
  /-- The number of matches within the match that are going on. -/
  depth : Nat
  stack : List Frame
  /-- The frames that have been lifted out of a match within the match, the last
  one first. -/
  kept : List Frame
  /-- For each closure the offsets at which it was entered, counted from the
  start of the span. -/
  visited : Array OffsetSet
  /-- The ends of the groups, if they are recorded. -/
  slots : Option Slots

/-- What a step leads to.  An answer comes with the state in which it was given,
because that is what the next attempt finds in the cache. -/
inductive Outcome where
  /-- The machine goes on. -/
  | next (s : State)
  /-- The machine has an answer: the offset where the match ends, if there is a
  match. -/
  | halt (answer : Except MatchError (Option Nat)) (s : State)
  /-- The state contradicts the program. -/
  | stuck

namespace State

/-- The state with its control at a link.  The offset stays, as with all
operations that read nothing. -/
def goto (s : State) (link : Link) : State := { s with control := .run link }

/-- The state with its control at a link and at another offset. -/
def moveTo (s : State) (offset : Nat) (link : Link) : State :=
  { s with control := .run link, offset := offset }

/-- The state in which the last choice is taken back.  The next step looks at
the stack. -/
def abandon (s : State) : State := { s with control := .fail }

/-- The state with one more frame. -/
def push (s : State) (f : Frame) : State := { s with stack := f :: s.stack }

/-- The state in which an end of a group is recorded; a new frame restores what
it was.  Without slots, or without a slot for the group, nothing is recorded and
there is no frame. -/
def record (s : State) (slot : Nat) : State :=
  match s.slots with
  | some slots =>
    match slots[slot]? with
    | some old =>
      { s with
        stack := .slot slot old :: s.stack
        slots := some (slots.setIfInBounds slot (slotValue s.offset)) }
    | none => s
  | none => s

end State

/-- The span that a group has captured, if any.  A group that starts behind its
stop counts as one that has captured nothing, and one for which there is no slot
is an error. -/
def capturedSpan (slots : Option Slots) (group : Nat) : Except MatchError (Option Span) :=
  match slots with
  | none => .error (.invalidGroup group 0)
  | some slots =>
    if group = 0 ∨ group ≥ slots.size / 2 then .error (.invalidGroup group (slots.size / 2))
    else
      match slots[2 * group]?.join, slots[2 * group + 1]?.join with
      | some start, some stop => .ok (if start ≤ stop then some ⟨start, stop⟩ else none)
      | _, _ => .ok none

/-- The slots with the values that frames restore, the first frame first.
Frames of other kinds are passed over. -/
def restoreAll (slots : Slots) : List Frame → Slots
  | [] => slots
  | .slot i old :: fs => restoreAll (slots.setIfInBounds i old) fs
  | _ :: fs => restoreAll slots fs

/-- A stack from the frame of the last match within the match on: the frames
above it that restore slots, what the frame holds, and the frames below it. -/
structure Unwound where
  kept : List Frame
  op : Nat
  offset : Nat
  reverse : Bool
  opts : Options
  rest : List Frame

/-- The frames above the last match within the match, taken off the stack.
Choices are dropped, and frames that restore slots are kept in the order in
which they lie on the stack. -/
def unwind : List Frame → Option Unwound
  | [] => none
  | .sub op offset reverse opts :: rest => some ⟨[], op, offset, reverse, opts, rest⟩
  | .slot i old :: fs => (unwind fs).map fun u => { u with kept := .slot i old :: u.kept }
  | .retry _ _ :: fs | .alternate _ _ _ :: fs => unwind fs

/-- The frames above the last match within the match, taken off the stack one by
one: those that restore slots are put on top of others that are kept, and
choices are dropped.  They come to lie in the opposite order. -/
def lift (kept : List Frame) : List Frame → Option Unwound
  | [] => none
  | .sub op offset reverse opts :: rest => some ⟨kept, op, offset, reverse, opts, rest⟩
  | .slot i old :: fs => lift (.slot i old :: kept) fs
  | .retry _ _ :: fs | .alternate _ _ _ :: fs => lift kept fs

/-- What is kept and a stack, once the frames that are kept above the first `n`
have been put on the stack, one by one.  Lifting has turned their order round,
and this turns it back. -/
def putBack (n : Nat) : List Frame → List Frame → List Frame × List Frame
  | [], stack => ([], stack)
  | f :: kept, stack =>
    if n ≤ kept.length then putBack n kept (f :: stack) else (f :: kept, stack)

namespace State

/-- The state with the frames that are kept above the first `n` back on the
stack. -/
def restoreKept (s : State) (n : Nat) : State :=
  { s with kept := (putBack n s.kept s.stack).1, stack := (putBack n s.kept s.stack).2 }

/-- The state with only the first `n` of the frames that are kept.  The others
came later, and are back on the stack or undone by then. -/
def truncateKept (s : State) (n : Nat) : State :=
  { s with kept := s.kept.drop (s.kept.length - n) }

/-- The state with the slots that the frames kept above the first `n` restore,
the first of these frames first, and without these frames. -/
def undoKept (s : State) (n : Nat) : State :=
  { s.truncateKept n with
    slots := s.slots.map (restoreAll · (s.kept.take (s.kept.length - n)).reverse) }

end State

/-- How a machine goes on after a match within the match. -/
inductive Resumption where
  /-- At an offset and a link. -/
  | go (offset : Nat) (link : Link)
  /-- By taking a choice back. -/
  | abandon

/-- How a machine goes on after the operation's own match began at `offset` and
has ended at `stop`, or after it has failed.  A lookaround goes back to where it
began; a group goes on where its match has ended. -/
def Op.resume? (op : Op) (offset : Nat) (stop : Option Nat) : Option Resumption :=
  match op with
  | .look kind _ next =>
    if stop.isSome = kind.isNegated then some .abandon else some (.go offset next)
  | .independent _ next | .modifier _ _ _ next =>
    match stop with
    | some stop => some (.go stop next)
    | none => some .abandon
  | .ifLook _ yes no => some (.go offset (if stop.isSome then yes else no))
  | _ => none

/-- The branch of a closure or a question that is tried first: the body if it is
greedy, and what follows otherwise. -/
def Op.firstBranch? : Op → Option Link
  | .closure _ child greedy next => some (if greedy then some child else next)
  | .question child greedy next => some (if greedy then child else next)
  | _ => none

/-- The branch of a closure or a question that is tried after the first one.  It
is not stored in the frame, but looked up in the program when the machine falls
back. -/
def Op.otherBranch? : Op → Option Link
  | .closure _ child greedy next => some (if greedy then next else some child)
  | .question child greedy next => some (if greedy then next else child)
  | _ => none

namespace Attempt

variable (a : Attempt)

/-- The next character in the direction of the walk, and the offset behind it.
The walk ends at the bounds of the span. -/
def nextChar (reverse : Bool) (offset : Nat) : Option (Char × Nat) :=
  if reverse then a.target.charBefore offset a.span.start
  else a.target.charAfter offset a.span.stop

/-- The offset behind the next character, if it passes a test.  There is none at
the end of the walk. -/
def readChar (reverse : Bool) (offset : Nat) (test : Char → Bool) : Option Nat :=
  match a.nextChar reverse offset with
  | some (c, offset') => if test c then some offset' else none
  | none => none

/-- The offset behind what an atom reads, if it can be read.  An anchor reads
nothing, so the offset behind it is the offset itself.  Only a reference can be
an error, where its group has no slots. -/
def read (atom : Atom) (opts : Options) (reverse : Bool) (offset : Nat) (slots : Option Slots) :
    Except MatchError (Option Nat) :=
  let fold := opts.caseInsensitive
  match atom with
  | .char c => .ok (a.readChar reverse offset fun d => Case.charsMatch fold d c)
  | .string chars =>
    .ok (if reverse then a.target.regionMatchesBack fold offset a.span.start chars
      else a.target.regionMatches fold offset a.span.stop chars)
  | .range set folded negated =>
    let set := if fold then folded.getD set else set
    .ok (a.readChar reverse offset fun c => set.contains c != negated)
  | .dot =>
    .ok (a.readChar reverse offset fun c => opts.singleLine || !Scalar.isLineTerminator c)
  | .anchor anchor => .ok (if anchor.holds a.target a.span offset opts then some offset else none)
  | .backref group =>
    match capturedSpan slots group with
    | .error e => .error e
    | .ok none => .ok none
    | .ok (some region) =>
      .ok (if reverse then a.target.repeatsBack fold offset a.span.start region
        else a.target.repeats fold offset a.span.stop region)

/-- The state in which a match within the match has begun.  Its frame holds what
has to be the same again when it has ended, in either way. -/
def enter (i : Nat) (child : Link) (reverse : Bool) (opts : Options) (s : State) : Outcome :=
  .next
    { s with
      control := .run child
      reverse := reverse
      opts := opts
      depth := s.depth + 1
      stack := .sub i s.offset s.reverse s.opts :: s.stack }

/-- Whether a closure was entered at the offset, if the closure and the offset
are known.  The sets count offsets from the start of the span, so that they need
not be larger than it. -/
def entered? (s : State) (id : Nat) : Option Bool :=
  if s.offset < a.span.start then none
  else (s.visited[id]?).map (·.contains (s.offset - a.span.start))

/-- The state in which a closure has been entered at the offset.  Offsets are
kept relative to the start of the span. -/
def markEntered (s : State) (id : Nat) : State :=
  { s with visited := s.visited.modify id (·.add (s.offset - a.span.start)) }

/-- The step that runs the operation with index `i`.  A choice with a single
alternate leaves no frame, and a closure leaves one only if it was not entered
at the offset before. -/
def exec (i : Nat) (op : Op) (s : State) : Outcome :=
  match op with
  | .atom atom next =>
    match a.read atom s.opts s.reverse s.offset s.slots with
    | .error e => .halt (.error e) s
    | .ok (some offset) => .next (s.moveTo offset next)
    | .ok none => .next s.abandon
  | .union [] => .next s.abandon
  | .union [link] => .next (s.goto link)
  | .union (link :: _ :: _) => .next ((s.push (.alternate i 0 s.offset)).goto link)
  | .closure id child greedy next =>
    match a.entered? s id with
    | none => .stuck
    | some true => .next s.abandon
    | some false =>
      .next (((a.markEntered s id).push (.retry i s.offset)).goto
        (if greedy then some child else next))
  | .question child greedy next =>
    .next ((s.push (.retry i s.offset)).goto (if greedy then child else next))
  | .mark group edge next => .next ((s.record (edge.slot group)).goto next)
  | .look kind child _ => enter i child kind.isBehind s.opts s
  | .independent child _ => enter i child s.reverse s.opts s
  | .modifier add remove child _ => enter i child s.reverse (s.opts.modify add remove) s
  | .ifGroup group yes no =>
    match capturedSpan s.slots group with
    | .error e => .halt (.error e) s
    | .ok (some _) => .next (s.goto yes)
    | .ok none => .next (s.goto no)
  | .ifLook test _ _ => enter i test s.reverse s.opts s
  | .fail => .next s.abandon

/-- The step at the end of the program, or of a match within the match.  In the
second case the frames above its mark are lifted out, and put back below where
the machine goes on, or undone at once. -/
def accept (s : State) : Outcome :=
  match s.depth with
  | 0 =>
    if a.whole && s.offset ≠ a.span.stop then .next s.abandon
    else .halt (.ok (some s.offset)) s
  | depth + 1 =>
    let n := s.kept.length
    match lift s.kept s.stack with
    | none => .stuck
    | some u =>
      let s :=
        { s with
          depth := depth
          reverse := u.reverse
          opts := u.opts
          stack := u.rest
          kept := u.kept }
      match (a.program.ops[u.op]?).bind (·.resume? u.offset (some s.offset)) with
      | none => .stuck
      | some (.go offset link) =>
        .next (((s.restoreKept n).moveTo offset link).truncateKept n)
      | some .abandon => .next ((s.undoKept n).abandon.truncateKept n)

/-- The step that takes the last choice back.  A frame that restores a slot is
taken off without taking any choice, and the machine goes on falling back. -/
def back (s : State) : Outcome :=
  match s.stack with
  | [] => .halt (.ok none) s
  | .slot i old :: rest =>
    .next { s with stack := rest, slots := s.slots.map (·.setIfInBounds i old) }
  | .retry i offset :: rest =>
    match (a.program.ops[i]?).bind Op.otherBranch? with
    | none => .stuck
    | some link => .next { s with control := .run link, offset := offset, stack := rest }
  | .alternate i index offset :: rest =>
    match a.program.ops[i]? with
    | some (.union links) =>
      match links.drop (index + 1) with
      | [] => .stuck
      | [link] => .next { s with control := .run link, offset := offset, stack := rest }
      | link :: _ :: _ =>
        .next
          { s with
            control := .run link
            offset := offset
            stack := .alternate i (index + 1) offset :: rest }
    | _ => .stuck
  | .sub i offset reverse opts :: rest =>
    match s.depth with
    | 0 => .stuck
    | depth + 1 =>
      let s := { s with depth := depth, reverse := reverse, opts := opts, stack := rest }
      match (a.program.ops[i]?).bind (·.resume? offset none) with
      | none => .stuck
      | some (.go offset link) => .next (s.moveTo offset link)
      | some .abandon => .next s.abandon

/-- One step of the machine: at the end of the program, at an operation, or on
the way back. -/
def step (s : State) : Outcome :=
  match s.control with
  | .run none => a.accept s
  | .run (some i) =>
    match a.program.ops[i]? with
    | none => .stuck
    | some op => a.exec i op s
  | .fail => a.back s

end Attempt

end Regexp
